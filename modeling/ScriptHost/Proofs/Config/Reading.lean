import ScriptHost.Config.FileConfig
import ScriptHost.Proofs.Config.Paths

/-! What readers see of a section: its leaves, each under its path with dots. -/

namespace ScriptHost

/-! ### Dictionaries of lists -/

namespace Dict

variable {α : Type} {es : List (String × α)}

theorem get?_foldl_insert (es : List (String × α)) (d : Dict α) (k : String) :
    (es.foldl (fun d e => d.insert e.1 e.2) d).get? k = (es.reverse.lookup k).or (d.get? k) := by
  induction es generalizing d with
  | nil => simp
  | cons e es ih =>
    rw [List.foldl_cons, ih, get?_insert, List.reverse_cons, List.lookup_append, Option.or_assoc]
    congr 1
    rw [List.lookup_cons]
    by_cases hk : k = e.1
    · simp [hk]
    · simp [hk, beq_false_of_ne hk]

/-- Of several values for a key the last one counts. -/
theorem get?_ofList (es : List (String × α)) (k : String) :
    (ofList es).get? k = es.reverse.lookup k := by
  unfold ofList
  rw [get?_foldl_insert, get?_empty, Option.or_none]

theorem insert_of_lt {k : String} {v : α} (h : ∀ e ∈ es, e.1 < k) :
    Entries.insert k v es = es ++ [(k, v)] := by
  induction es with
  | nil => rfl
  | cons e es ih =>
    obtain ⟨hhead, htail⟩ := List.forall_mem_cons.1 h
    have hnot : ¬ k < e.1 := String.lt_asymm hhead
    have hne : k ≠ e.1 := by
      rintro rfl
      exact String.lt_irrefl _ hhead
    obtain ⟨l, w⟩ := e
    simp only [Entries.insert, if_neg hnot, if_neg hne, ih htail, List.cons_append]

theorem entries_ofList (h : Entries.Sorted es) : (ofList es).entries = es := by
  have hall (d : Dict α) (hd : Entries.Sorted (d.entries ++ es)) :
      (es.foldl (fun d e => d.insert e.1 e.2) d).entries = d.entries ++ es := by
    clear h
    induction es generalizing d with
    | nil => simp
    | cons e es ih =>
      have hlt : ∀ f ∈ d.entries, f.1 < e.1 := by
        intro f hf
        exact (List.pairwise_append.1 hd).2.2 f hf e List.mem_cons_self
      have hentries : (d.insert e.1 e.2).entries = d.entries ++ [e] := insert_of_lt hlt
      rw [List.foldl_cons, ih, hentries, List.append_assoc]
      · rfl
      · rw [hentries, List.append_assoc]
        exact hd
  exact hall empty h

theorem mem_keys {d : Dict α} {k : String} : k ∈ d.keys ↔ (d.get? k).isSome := by
  constructor
  · intro hk
    obtain ⟨⟨k, v⟩, he, rfl⟩ := List.mem_map.1 hk
    have hv : d.get? k = some v := Tree.lookup_of_mem d.sorted he
    rw [hv]
    rfl
  · intro hk
    obtain ⟨v, hv⟩ := Option.isSome_iff_exists.1 hk
    exact List.mem_map_of_mem (Tree.mem_of_lookup hv)

end Dict

namespace Tree

variable {α : Type} {t : Tree α} {path : List String} {a : α}

/-! ### Leaves -/

mutual

/-- The leaves of a tree with their paths. -/
def leaves : Tree α → List (List String × α)
  | leaf a => [([], a)]
  | table es => leavesOf es

def leavesOf : List (String × Tree α) → List (List String × α)
  | [] => []
  | (k, t) :: rest => (leaves t).map (fun p => (k :: p.1, p.2)) ++ leavesOf rest

end

theorem mem_leavesOf {es : List (String × Tree α)} :
    (path, a) ∈ leavesOf es ↔ ∃ k rest t, path = k :: rest ∧ (k, t) ∈ es ∧ (rest, a) ∈ leaves t := by
  induction es with
  | nil => simp [leavesOf]
  | cons e es ih =>
    obtain ⟨l, u⟩ := e
    rw [leavesOf, List.mem_append, ih, List.mem_map]
    constructor
    · rintro (⟨p, hp, heq⟩ | ⟨k, rest, t, rfl, ht, hrest⟩)
      · cases heq
        exact ⟨l, p.1, u, rfl, List.mem_cons_self, hp⟩
      · exact ⟨k, rest, t, rfl, List.mem_cons_of_mem _ ht, hrest⟩
    · rintro ⟨k, rest, t, rfl, ht, hrest⟩
      rcases List.mem_cons.1 ht with heq | ht
      · cases heq
        exact .inl ⟨(rest, a), hrest, rfl⟩
      · exact .inr ⟨k, rest, t, rfl, ht, hrest⟩

theorem mem_leaves_iff (h : Ordered t) : (path, a) ∈ leaves t ↔ t.leafAt? path = some a := by
  induction h generalizing path with
  | leaf b =>
    cases path with
    | nil => simp [leaves, leafAt?, at?, leaf?, eq_comm]
    | cons k path => simp [leaves, leafAt?, at?]
  | @table es hsorted hall ih =>
    rw [leaves, mem_leavesOf]
    constructor
    · rintro ⟨k, rest, t, rfl, ht, hrest⟩
      rw [leafAt?_table, lookup_of_mem hsorted ht]
      exact (ih _ ht).1 hrest
    · intro hleaf
      cases path with
      | nil => simp [leafAt?, at?, leaf?] at hleaf
      | cons k rest =>
        rw [leafAt?_table] at hleaf
        obtain ⟨t, ht, hrest⟩ := Option.bind_eq_some_iff.1 hleaf
        have hmem := mem_of_lookup ht
        exact ⟨k, rest, t, rfl, hmem, (ih _ hmem).2 hrest⟩

/-! ### Dotted keys -/

/-- The key of a section under which a path leads to a leaf. -/
def dotted (path : List String) : String := path.foldl joinKey ""

mutual

theorem flatten_eq_map (label : String) : (t : Tree Scalar) →
    flatten label t = (leaves t).map fun p => (p.1.foldl joinKey label, p.2.text)
  | leaf _ => rfl
  | table es => flattenEntries_eq_map label es

theorem flattenEntries_eq_map (label : String) : (es : List (String × Tree Scalar)) →
    flattenEntries label es = (leavesOf es).map fun p => (p.1.foldl joinKey label, p.2.text)
  | [] => rfl
  | (k, t) :: rest => by
    rw [flattenEntries, leavesOf, flatten_eq_map, flattenEntries_eq_map, List.map_append, List.map_map]
    rfl

end

end Tree

namespace FileConfig

open ScriptHost.Tree

variable {s : FileSection} {path : List String}

theorem lookup_eq_of_mem_iff {γ : Type} {l : List (String × γ)} {k : String} {o : Option γ}
    (h : ∀ v, (k, v) ∈ l ↔ o = some v) : l.lookup k = o := by
  cases hl : l.lookup k with
  | some v => exact ((h v).1 (mem_of_lookup hl)).symm
  | none =>
    cases o with
    | none => rfl
    | some v =>
      have hall := List.lookup_eq_none_iff.1 hl
      have hne := hall _ ((h v).2 rfl)
      simp at hne

/-- Under the dotted key of a path readers see the leaf that is there, if no other leaf has that key. -/
theorem get?_flatten (hs : Ordered (.table s.entries))
    (hunique : ∀ q a, leafAt? (.table s.entries) q = some a → dotted q = dotted path → q = path) :
    (flatten s).get? (dotted path) = (leafAt? (.table s.entries) path).map Scalar.text := by
  unfold flatten
  rw [Dict.get?_ofList, flattenEntries_eq_map]
  apply lookup_eq_of_mem_iff
  intro v
  rw [List.mem_reverse, List.mem_map, Option.map_eq_some_iff]
  constructor
  · rintro ⟨⟨q, a⟩, hmem, heq⟩
    obtain ⟨hkey, rfl⟩ := Prod.mk.inj heq
    have hq := (mem_leaves_iff hs).1 hmem
    rw [← hunique q a hq hkey]
    exact ⟨a, hq, rfl⟩
  · rintro ⟨a, ha, rfl⟩
    exact ⟨(path, a), (mem_leaves_iff hs).2 ha, rfl⟩

/-! ### Configurations of trees -/

/-- The section of an entry, if there is one. -/
def sectionOf? (e : String × RawTree) : Option (String × FileSection) :=
  match e.2 with
  | .leaf _ => none
  | .table inner => (solidEntries? inner).map fun s => (e.1, Dict.ofList s)

theorem sectionOf?_eq_some {e : String × RawTree} {f : String × FileSection} (he : Ordered e.2)
    (hf : sectionOf? e = some f) : e = (f.1, raw (.table f.2.entries)) := by
  obtain ⟨k, t⟩ := e
  unfold sectionOf? at hf
  cases t with
  | leaf a => cases hf
  | table inner =>
    obtain ⟨s, hs, rfl⟩ := Option.map_eq_some_iff.1 hf
    have hinner := solidEntries?_eq_some hs
    have hordered : Ordered (raw (.table s)) := by
      rw [raw, ← hinner]
      exact he
    cases hordered.of_raw with
    | table hsorted _ =>
      rw [Dict.entries_ofList hsorted, raw, ← hinner]

theorem mapM_sectionOf? {m : List (String × RawTree)} {sections : List (String × FileSection)}
    (hm : ∀ e ∈ m, Ordered e.2) (h : m.mapM sectionOf? = some sections) :
    m = sections.map fun f => (f.1, raw (.table f.2.entries)) := by
  induction m generalizing sections with
  | nil =>
    cases h
    rfl
  | cons e m ih =>
    obtain ⟨hhead, htail⟩ := List.forall_mem_cons.1 hm
    rw [List.mapM_cons] at h
    obtain ⟨f, hf, h⟩ := Option.bind_eq_some_iff.1 h
    obtain ⟨rest, hrest, h⟩ := Option.bind_eq_some_iff.1 h
    cases h
    rw [List.map_cons, ← sectionOf?_eq_some hhead hf, ← ih htail hrest]

/-- A configuration is what its tree says. -/
theorem ofEntries?_eq_some {m : List (String × RawTree)} {c : FileConfig} (hm : Ordered (.table m))
    (hc : ofEntries? m = some c) : m = rawEntries c.toEntries := by
  obtain ⟨sections, hsections, heq⟩ := Option.bind_eq_some_iff.1 hc
  cases heq
  cases hm with
  | table hsorted hall =>
    have hmap := mapM_sectionOf? hall hsections
    have hkeys : Entries.Sorted sections := by
      rw [hmap] at hsorted
      unfold Entries.Sorted at hsorted
      rw [List.pairwise_map] at hsorted
      exact hsorted
    rw [rawEntries_eq_map, toEntries, Dict.entries_ofList hkeys, List.map_map]
    exact hmap

end FileConfig

end ScriptHost
