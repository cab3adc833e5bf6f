import ScriptHost.Lua.Library

/-! Tables with named fields. As long as all its keys are strings a table has an empty array, and its
places and its nodes are inverse to each other, also after its keys were distributed anew. So a field has the
value that was set last, and setting one leaves the others alone. -/

namespace ScriptHost.Lua

theorem Bytes.ofString_injective {s t : String} (h : Bytes.ofString s = Bytes.ofString t) : s = t := by
  rw [← Bytes.toText_ofString s, h, Bytes.toText_ofString]

@[simp] theorem Val.text_inj {s t : String} : Val.text s = Val.text t ↔ s = t :=
  ⟨fun h => Bytes.ofString_injective (Val.str.inj h), congrArg Val.text⟩

namespace Table

/-- All keys are strings, and each of them has the place of its node. -/
structure IsRecord (t : Table) : Prop where
  array : t.array = #[]
  places : ∀ (k : Val) (i : Nat), t.places[k]? = some i ↔ ∃ v, t.nodes[i]? = some (k, v)
  keys : ∀ (i : Nat) (k v : Val), t.nodes[i]? = some (k, v) → ∃ b, k = .str b

variable {t : Table} {b c : Bytes} {v : Val}

theorem get_str (t : Table) (b : Bytes) :
    t.get (.str b) = match t.places[Val.str b]? with
      | some i => (t.nodes.getD i (.nil, .nil)).2
      | none => .nil := rfl

/-- A key that has a node has the value in it. -/
theorem IsRecord.get_of_node (h : t.IsRecord) {i : Nat} (hnode : t.nodes[i]? = some (.str b, v)) :
    t.get (.str b) = v := by
  rw [get_str, (h.places _ i).2 ⟨v, hnode⟩]
  simp only [Array.getD_eq_getD_getElem?, hnode, Option.getD_some]

theorem get_of_no_place (hnone : t.places[Val.str b]? = none) : t.get (.str b) = .nil := by
  rw [get_str, hnone]

theorem isRecord_sized (n : Nat) : (sized 0 n).IsRecord where
  array := rfl
  places k i := by simp [sized]
  keys i k v h := by simp [sized] at h

theorem get_sized (n : Nat) (b : Bytes) : (sized 0 n).get (.str b) = .nil :=
  get_of_no_place (by simp [sized])

/-! ### Setting fields -/

/-- A key that has a node keeps it. -/
theorem place_of_place {i : Nat} (hplace : t.places[Val.str b]? = some i) (v : Val) :
    t.place (.str b) v = { t with nodes := t.nodes.setIfInBounds i (.str b, v) } := by
  show (match t.places[Val.str b]? with
    | some i => { t with nodes := t.nodes.setIfInBounds i (.str b, v) }
    | none => _) = _
  rw [hplace]

/-- A key that has none gets a new one. -/
theorem place_of_no_place (hplace : t.places[Val.str b]? = none) (v : Val) :
    t.place (.str b) v =
      { t with places := t.places.insert (.str b) t.nodes.size, nodes := t.nodes.push (.str b, v) } := by
  show (match t.places[Val.str b]? with
    | some i => _
    | none =>
      { t with places := t.places.insert (.str b) t.nodes.size, nodes := t.nodes.push (.str b, v) }) = _
  rw [hplace]

theorem IsRecord.place (h : t.IsRecord) (b : Bytes) (v : Val) : (t.place (.str b) v).IsRecord := by
  cases hplace : t.places[Val.str b]? with
  | some i =>
    obtain ⟨w, hw⟩ := (h.places _ _).1 hplace
    have hi : i < t.nodes.size := (Array.getElem?_eq_some_iff.1 hw).1
    rw [place_of_place hplace]
    refine ⟨h.array, fun k j => ?_, fun j k w hnode => ?_⟩
    · rw [h.places]
      show _ ↔ ∃ u, (t.nodes.setIfInBounds i (.str b, v))[j]? = some (k, u)
      by_cases hij : i = j
      · rw [← hij, Array.getElem?_setIfInBounds_self_of_lt hi, hw]
        simp
      · rw [Array.getElem?_setIfInBounds_ne hij]
    · have hnode : (t.nodes.setIfInBounds i (.str b, v))[j]? = some (k, w) := hnode
      by_cases hij : i = j
      · rw [← hij, Array.getElem?_setIfInBounds_self_of_lt hi] at hnode
        cases hnode
        exact ⟨b, rfl⟩
      · rw [Array.getElem?_setIfInBounds_ne hij] at hnode
        exact h.keys j k w hnode
  | none =>
    have hfree : ∀ j w, t.nodes[j]? ≠ some (Val.str b, w) := fun j w hw => by
      rw [(h.places _ _).2 ⟨w, hw⟩] at hplace
      cases hplace
    rw [place_of_no_place hplace]
    refine ⟨h.array, fun k j => ?_, fun j k w hnode => ?_⟩
    · show (t.places.insert (.str b) t.nodes.size)[k]? = some j ↔ ∃ u, (t.nodes.push (.str b, v))[j]? = some (k, u)
      rw [Std.HashMap.getElem?_insert, Array.getElem?_push]
      by_cases hk : Val.str b = k
      · subst hk
        by_cases hj : j = t.nodes.size
        · simp [hj]
        · simp [hj, Ne.symm hj, hfree]
      · by_cases hj : j = t.nodes.size
        · simp [hj, hk, h.places]
        · simp [hj, hk, h.places]
    · have hnode : (t.nodes.push (.str b, v))[j]? = some (k, w) := hnode
      rw [Array.getElem?_push] at hnode
      split at hnode
      · cases hnode
        exact ⟨b, rfl⟩
      · exact h.keys j k w hnode

/-- What a field has after one was placed. -/
theorem IsRecord.get_place (h : t.IsRecord) (b : Bytes) (v : Val) (c : Bytes) :
    (t.place (.str b) v).get (.str c) = if c = b then v else t.get (.str c) := by
  have hplaced := h.place b v
  cases hplace : t.places[Val.str b]? with
  | some i =>
    obtain ⟨w, hw⟩ := (h.places _ _).1 hplace
    have hi : i < t.nodes.size := (Array.getElem?_eq_some_iff.1 hw).1
    rw [place_of_place hplace] at hplaced ⊢
    split
    · subst c
      exact hplaced.get_of_node (Array.getElem?_setIfInBounds_self_of_lt hi)
    · rename_i hcb
      cases hc : t.places[Val.str c]? with
      | none => exact Eq.trans (get_of_no_place hc) (get_of_no_place hc).symm
      | some j =>
        obtain ⟨u, hu⟩ := (h.places _ _).1 hc
        have hij : i ≠ j := fun hij => by
          rw [← hij, hw] at hu
          cases hu
          exact hcb rfl
        rw [h.get_of_node hu]
        exact hplaced.get_of_node ((Array.getElem?_setIfInBounds_ne hij).trans hu)
  | none =>
    rw [place_of_no_place hplace] at hplaced ⊢
    split
    · subst c
      exact hplaced.get_of_node (Array.getElem?_push_size)
    · rename_i hcb
      cases hc : t.places[Val.str c]? with
      | none =>
        rw [get_of_no_place hc]
        refine get_of_no_place ?_
        rw [Std.HashMap.getElem?_insert, hc, if_neg]
        simp [Ne.symm hcb]
      | some j =>
        obtain ⟨u, hu⟩ := (h.places _ _).1 hc
        have hj : j < t.nodes.size := (Array.getElem?_eq_some_iff.1 hu).1
        rw [h.get_of_node hu]
        exact hplaced.get_of_node ((Array.getElem?_push_lt hj).trans (Array.getElem?_eq_getElem hj ▸ hu))

/-! ### Distributing the keys anew -/

/-- Puts an entry with a value back. -/
def putBack (u : Table) (e : Val × Val) : Table := if e.2.isNil then u else u.place e.1 e.2

theorem eq_nil_of_isNil (h : v.isNil = true) : v = .nil := by cases v <;> first | rfl | cases h

theorem IsRecord.putBack (h : t.IsRecord) (b : Bytes) (v : Val) : (t.putBack (.str b, v)).IsRecord := by
  unfold Table.putBack
  split
  · exact h
  · exact h.place b v

theorem IsRecord.get_putBack (h : t.IsRecord) (hfree : t.get (.str b) = .nil) (v : Val) (c : Bytes) :
    (t.putBack (.str b, v)).get (.str c) = if c = b then v else t.get (.str c) := by
  unfold Table.putBack
  split
  · rename_i hnil
    split
    · subst c
      exact hfree.trans (eq_nil_of_isNil hnil).symm
    · rfl
  · exact h.get_place b v c

/-- Entries with different keys that are put back are all there in the end, and nothing else has changed. -/
theorem IsRecord.putBackAll {l : List (Val × Val)} (h : t.IsRecord) (hkeys : ∀ e ∈ l, ∃ b, e.1 = .str b)
    (hdiffer : l.Pairwise fun e f => e.1 ≠ f.1) (hfree : ∀ e ∈ l, t.get e.1 = .nil) :
    (l.foldl Table.putBack t).IsRecord ∧
      (∀ c v, (.str c, v) ∈ l → (l.foldl Table.putBack t).get (.str c) = v) ∧
      ∀ c, (∀ v, (.str c, v) ∉ l) → (l.foldl Table.putBack t).get (.str c) = t.get (.str c) := by
  induction l generalizing t with
  | nil => exact ⟨h, fun _ _ hmem => absurd hmem List.not_mem_nil, fun _ _ => rfl⟩
  | cons e l ih =>
    obtain ⟨k, v⟩ := e
    obtain ⟨b, rfl⟩ := hkeys _ List.mem_cons_self
    obtain ⟨hhead, hdiffer⟩ := List.pairwise_cons.1 hdiffer
    have hget := h.get_putBack (hfree _ List.mem_cons_self) v
    have hlater : ∀ e ∈ l, (t.putBack (.str b, v)).get e.1 = .nil := fun e he => by
      obtain ⟨c, hc⟩ := hkeys e (List.mem_cons_of_mem _ he)
      have hcb : c ≠ b := fun hcb => hhead e he (by rw [hc, hcb])
      rw [hc, hget, if_neg hcb, ← hc]
      exact hfree e (List.mem_cons_of_mem _ he)
    obtain ⟨hrecord, hmem, hother⟩ :=
      ih (h.putBack b v) (fun e he => hkeys e (List.mem_cons_of_mem _ he)) hdiffer hlater
    refine ⟨hrecord, fun c w hc => ?_, fun c hc => ?_⟩
    · rcases List.mem_cons.1 hc with hc | hc
      · cases hc
        rw [List.foldl_cons, hother b fun w hw => hhead _ hw rfl, hget, if_pos rfl]
      · exact hmem c w hc
    · have hcb : c ≠ b := fun hcb => hc v (hcb ▸ List.mem_cons_self)
      rw [List.foldl_cons, hother c fun w hw => hc w (List.mem_cons_of_mem _ hw), hget, if_neg hcb]

/-- No key of a record is counted for the array. -/
theorem foldl_countKey {ks : List Val} (hks : ∀ k ∈ ks, ∃ b, k = .str b) (counts : Array Nat) :
    ks.foldl countKey counts = counts := by
  induction ks with
  | nil => rfl
  | cons k ks ih =>
    obtain ⟨b, rfl⟩ := hks _ List.mem_cons_self
    exact ih fun k hk => hks k (List.mem_cons_of_mem _ hk)

theorem IsRecord.range (h : t.IsRecord) : Array.range t.array.size = #[] := by
  rw [h.array]
  rfl

theorem IsRecord.liveKeys (h : t.IsRecord) : ∀ k ∈ t.liveKeys.toList, ∃ b, k = .str b := by
  intro k hk
  simp only [Table.liveKeys, h.range, Array.filterMap_empty, Array.empty_append, Array.mem_toList_iff,
    Array.mem_filterMap] at hk
  obtain ⟨⟨key, v⟩, hmem, hk⟩ := hk
  obtain ⟨i, hi, hnode⟩ := Array.mem_iff_getElem.1 hmem
  have hkey := h.keys i key v (Array.getElem?_eq_some_iff.2 ⟨hi, hnode⟩)
  split at hk
  · cases hk
  · exact Option.some.inj hk ▸ hkey

theorem IsRecord.rehash_eq (h : t.IsRecord) (b : Bytes) :
    ∃ n, t.rehash (.str b) = t.nodes.toList.foldl Table.putBack { sized 0 n with metatable := t.metatable } := by
  have hcounts : (t.liveKeys.push (.str b)).foldl countKey (Array.replicate 65 0) = Array.replicate 65 0 := by
    rw [← Array.foldl_toList, Array.toList_push]
    refine foldl_countKey (fun k hk => ?_) _
    exact (List.mem_append.1 hk).elim (h.liveKeys k) fun hk => ⟨b, List.mem_singleton.1 hk⟩
  have hsize : bestSize (Array.replicate 65 0) ((Array.replicate 65 0).foldl (· + ·) 0) 0 0 0 64 = 0 := by
    decide
  refine ⟨(t.liveKeys.push (.str b)).size -
    ((t.liveKeys.push (.str b)).filter fun k => (Table.arrayIndex? 0 k).isSome).size, ?_⟩
  unfold rehash
  simp only [hcounts, hsize]
  rw [← Array.foldl_toList, h.range]
  rfl

theorem mem_nodes_iff {k : Val} : (k, v) ∈ t.nodes.toList ↔ ∃ i : Nat, t.nodes[i]? = some (k, v) := by
  rw [Array.mem_toList_iff, Array.mem_iff_getElem?]

theorem IsRecord.nodes_differ (h : t.IsRecord) : t.nodes.toList.Pairwise fun e f => e.1 ≠ f.1 := by
  refine List.pairwise_iff_getElem.2 fun i j hi hj hij hkeys => ?_
  have hplace (i : Nat) (hi : i < t.nodes.toList.length) : t.places[t.nodes.toList[i].1]? = some i := by
    refine (h.places _ i).2 ⟨t.nodes.toList[i].2, ?_⟩
    rw [← Array.getElem?_toList, List.getElem?_eq_getElem hi]
  have hsame := hplace i hi
  rw [hkeys, hplace j hj, Option.some.injEq] at hsame
  omega

/-- A record has the fields that it had. -/
theorem IsRecord.rehash (h : t.IsRecord) (b : Bytes) :
    (t.rehash (.str b)).IsRecord ∧ ∀ c, (t.rehash (.str b)).get (.str c) = t.get (.str c) := by
  obtain ⟨n, hn⟩ := h.rehash_eq b
  generalize hfresh : ({ sized 0 n with metatable := t.metatable } : Table) = fresh at hn
  have hrecord : fresh.IsRecord := by
    subst hfresh
    exact ⟨rfl, (isRecord_sized n).places, (isRecord_sized n).keys⟩
  have hempty : ∀ c, fresh.get (.str c) = .nil := by
    subst hfresh
    exact get_sized n
  have hkeys : ∀ e ∈ t.nodes.toList, ∃ b, e.1 = .str b := fun e he => by
    obtain ⟨i, hnode⟩ := mem_nodes_iff.1 he
    exact h.keys i e.1 e.2 hnode
  have hfree : ∀ e ∈ t.nodes.toList, fresh.get e.1 = .nil := fun e he => by
    obtain ⟨b, hb⟩ := hkeys e he
    rw [hb]
    exact hempty b
  obtain ⟨hrecord, hmem, hother⟩ := hrecord.putBackAll hkeys h.nodes_differ hfree
  rw [← hn] at hrecord hmem hother
  refine ⟨hrecord, fun c => ?_⟩
  cases hc : t.places[Val.str c]? with
  | none =>
    rw [get_of_no_place hc, hother c, hempty]
    intro v hv
    obtain ⟨i, hnode⟩ := mem_nodes_iff.1 hv
    rw [(h.places _ i).2 ⟨v, hnode⟩] at hc
    cases hc
  | some i =>
    obtain ⟨v, hv⟩ := (h.places _ _).1 hc
    rw [h.get_of_node hv]
    exact hmem c v (mem_nodes_iff.2 ⟨i, hv⟩)

/-! ### Records -/

/-- The field that is set has its new value, and the others have what they had. -/
theorem IsRecord.set (h : t.IsRecord) (b : Bytes) (v : Val) :
    (t.set (.str b) v).IsRecord ∧ ∀ c, (t.set (.str b) v).get (.str c) = if c = b then v else t.get (.str c) := by
  have hset : t.set (.str b) v =
      if v.isNil && !t.places.contains (.str b) then t
      else if t.hasPlace (.str b) then t.place (.str b) v
      else (t.rehash (.str b)).place (.str b) v := by
    rw [← Bool.and_true v.isNil]
    rfl
  rw [hset]
  by_cases hskip : (v.isNil && !t.places.contains (.str b)) = true
  · rw [if_pos hskip]
    refine ⟨h, fun c => ?_⟩
    obtain ⟨hnil, hnone⟩ := Bool.and_eq_true_iff.1 hskip
    have hplace : t.places[Val.str b]? = none := by
      simpa using hnone
    split
    · subst c
      rw [get_of_no_place hplace, eq_nil_of_isNil hnil]
    · rfl
  · rw [if_neg hskip]
    by_cases hroom : t.hasPlace (.str b) = true
    · rw [if_pos hroom]
      exact ⟨h.place b v, h.get_place b v⟩
    · rw [if_neg hroom]
      obtain ⟨hrecord, hget⟩ := h.rehash b
      refine ⟨hrecord.place b v, fun c => ?_⟩
      rw [hrecord.get_place b v, hget]

/-- Fields that are set one after another. -/
theorem IsRecord.setAll (h : t.IsRecord) (entries : List (String × Val)) :
    (entries.foldl (fun t e => t.set (.text e.1) e.2) t).IsRecord ∧
      (∀ name, name ∉ entries.map Prod.fst →
        (entries.foldl (fun t e => t.set (.text e.1) e.2) t).get (.text name) = t.get (.text name)) ∧
      ((entries.map Prod.fst).Nodup → ∀ name v, (name, v) ∈ entries →
        (entries.foldl (fun t e => t.set (.text e.1) e.2) t).get (.text name) = v) := by
  induction entries generalizing t with
  | nil => exact ⟨h, fun _ _ => rfl, fun _ _ _ hmem => absurd hmem List.not_mem_nil⟩
  | cons e entries ih =>
    obtain ⟨hrecord, hget⟩ := h.set (.ofString e.1) e.2
    obtain ⟨hall, hother, hmem⟩ := ih hrecord
    refine ⟨hall, fun name hname => ?_, fun hdiffer name v hin => ?_⟩
    · obtain ⟨hne, hname⟩ := not_or.1 fun hor => hname (List.mem_cons.2 hor)
      have hbytes : Bytes.ofString name ≠ .ofString e.1 := fun hbytes => hne (Bytes.ofString_injective hbytes)
      exact (hother name hname).trans ((hget _).trans (if_neg hbytes))
    · obtain ⟨hfresh, hdiffer⟩ := List.nodup_cons.1 hdiffer
      rcases List.mem_cons.1 hin with hin | hin
      · cases hin
        exact (hother name hfresh).trans ((hget _).trans (if_pos rfl))
      · exact hmem hdiffer name v hin

end Table

namespace Library

theorem isRecord_fields (entries : List (String × Val)) : (fields entries).IsRecord :=
  ((Table.isRecord_sized _).setAll entries).1

theorem get_fields {entries : List (String × Val)} (hdiffer : (entries.map Prod.fst).Nodup) {name : String}
    {v : Val} (hmem : (name, v) ∈ entries) : (fields entries).get (.text name) = v :=
  ((Table.isRecord_sized _).setAll entries).2.2 hdiffer name v hmem

end Library

/-! ### Globals -/

namespace Heap

/-- The table of globals is a record. -/
structure HasGlobals (h : Heap) : Prop where
  bound : h.globals < h.tables.size
  record : (h.table h.globals).IsRecord

/-- What a global variable has. -/
def global (h : Heap) (name : String) : Val := h.rawGet h.globals (.text name)

variable {h : Heap}

theorem table_rawSet {a : Nat} (ha : a < h.tables.size) (k v : Val) (x : Nat) :
    (h.rawSet a k v).table x = if x = a then (h.table a).set k v else h.table x := by
  show (h.tables.modify a (·.set k v)).getD x .empty = _
  simp only [table, Array.getD_eq_getD_getElem?, Array.getElem?_modify]
  by_cases hx : x = a
  · subst hx
    simp [ha]
  · rw [if_neg (Ne.symm hx), if_neg hx]

theorem table_addTable (h : Heap) (t : Table) {x : Nat} (hx : x < h.tables.size) :
    (h.addTable t).2.table x = h.table x := by
  show (h.tables.push t).getD x .empty = _
  rw [table, Array.getD_eq_getD_getElem?, Array.getD_eq_getD_getElem?, Array.getElem?_push_lt hx,
    Array.getElem?_eq_getElem hx]

theorem table_addTable_new (h : Heap) (t : Table) : (h.addTable t).2.table h.tables.size = t := by
  show (h.tables.push t).getD h.tables.size .empty = _
  rw [Array.getD_eq_getD_getElem?, Array.getElem?_push_size, Option.getD_some]

/-- A global variable that is set has its value, and the others have what they had. -/
theorem HasGlobals.set (hh : h.HasGlobals) (name : String) (v : Val) :
    (h.setText h.globals name v).HasGlobals ∧
      ∀ other, (h.setText h.globals name v).global other = if other = name then v else h.global other := by
  have htable : (h.setText h.globals name v).table h.globals = (h.table h.globals).set (.text name) v := by
    rw [setText, table_rawSet hh.bound, if_pos rfl]
  obtain ⟨hrecord, hget⟩ := hh.record.set (.ofString name) v
  refine ⟨⟨?_, ?_⟩, fun other => ?_⟩
  · show h.globals < (h.tables.modify _ _).size
    rw [Array.size_modify]
    exact hh.bound
  · show ((h.setText h.globals name v).table h.globals).IsRecord
    rw [htable]
    exact hrecord
  · show ((h.setText h.globals name v).table h.globals).get (.text other) = _
    rw [htable]
    refine (hget (.ofString other)).trans ?_
    by_cases hname : other = name
    · rw [if_pos hname, if_pos (congrArg _ hname)]
    · rw [if_neg hname, if_neg fun hbytes => hname (Bytes.ofString_injective hbytes)]
      rfl

/-- Another table changes nothing. -/
theorem HasGlobals.grow (hh : h.HasGlobals) (t : Table) :
    (h.addTable t).2.HasGlobals ∧ ∀ name, (h.addTable t).2.global name = h.global name := by
  have hsame : (h.addTable t).2.table h.globals = h.table h.globals := table_addTable h t hh.bound
  refine ⟨⟨?_, ?_⟩, fun name => ?_⟩
  · show h.globals < (h.tables.push t).size
    rw [Array.size_push]
    exact Nat.lt_succ_of_lt hh.bound
  · show ((h.addTable t).2.table h.globals).IsRecord
    rw [hsame]
    exact hh.record
  · show ((h.addTable t).2.table h.globals).get (.text name) = _
    rw [hsame]
    rfl

/-- A new table of fields under a global name. -/
theorem HasGlobals.addTable (hh : h.HasGlobals) (name : String) (entries : List (String × Val)) :
    (Library.addTable h name entries).HasGlobals ∧
      (∀ other, (Library.addTable h name entries).global other =
        if other = name then .table h.tables.size else h.global other) ∧
      (Library.addTable h name entries).table h.tables.size = Library.fields entries := by
  obtain ⟨hgrown, hsame⟩ := hh.grow (Library.fields entries)
  obtain ⟨hset, hget⟩ := hgrown.set name (.table h.tables.size)
  refine ⟨hset, fun other => ?_, ?_⟩
  · rw [← hsame]
    exact hget other
  · have hne : h.tables.size ≠ h.globals := Nat.ne_of_gt hh.bound
    refine (table_rawSet hgrown.bound _ _ _).trans ?_
    exact (if_neg hne).trans (table_addTable_new h _)

/-- Tables of fields under other names leave a global variable alone. -/
theorem HasGlobals.addTables (hh : h.HasGlobals) (tables : List (String × List (String × Val))) {name : String}
    (hname : name ∉ tables.map Prod.fst) :
    (tables.foldl (fun heap e => Library.addTable heap e.1 e.2) h).HasGlobals ∧
      (tables.foldl (fun heap e => Library.addTable heap e.1 e.2) h).global name = h.global name := by
  induction tables generalizing h with
  | nil => exact ⟨hh, rfl⟩
  | cons e tables ih =>
    obtain ⟨hne, hname⟩ := not_or.1 fun hor => hname (List.mem_cons.2 hor)
    obtain ⟨hadd, hget, -⟩ := hh.addTable e.1 e.2
    obtain ⟨hall, hsame⟩ := ih hadd hname
    exact ⟨hall, hsame.trans ((hget name).trans (if_neg hne))⟩

/-- Programs find the function that raises errors. -/
theorem hasGlobals_fresh (limit : Nat) :
    (Library.freshHeap limit).HasGlobals ∧ (Library.freshHeap limit).global "error" = .builtin (.control .error) := by
  unfold Library.freshHeap
  dsimp only
  generalize hbefore : Library.tables.foldl _ _ = before
  generalize hentries : Library.builtins BasicFunction.name _ _ ++ _ ++ _ = entries at hbefore ⊢
  have hbefore : before.HasGlobals ∧ before.global "error" = .builtin (.control .error) := by
    have hmem : ("error", .builtin (.control .error)) ∈ entries := by
      subst hentries
      decide
    have hdiffer : (entries.map Prod.fst).Nodup := by
      subst hentries
      decide
    have hfirst : ({ (empty.addTable (Library.fields entries)).2 with globals := 0 } : Heap).HasGlobals :=
      ⟨Nat.zero_lt_one, Library.isRecord_fields entries⟩
    obtain ⟨hself, hget⟩ := hfirst.set "_G" (.table 0)
    obtain ⟨htables, hsame⟩ := hself.addTables Library.tables (by decide : "error" ∉ Library.tables.map Prod.fst)
    have herror := hsame.trans ((hget "error").trans (if_neg (by decide)))
    subst hbefore
    exact ⟨htables, herror.trans (Library.get_fields hdiffer hmem)⟩
  generalize Library.fields _ = t
  obtain ⟨hall, hlast⟩ := hbefore.1.grow t
  exact ⟨⟨hall.bound, hall.record⟩, (hlast "error").trans hbefore.2⟩

end Heap

end ScriptHost.Lua
