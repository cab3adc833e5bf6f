import ScriptHost.Config.Tree

/-! Paths into trees. What is at a path of merged trees is merged from what is there in each, as long as
no path leads to a leaf in one tree and to a table in the other. -/

namespace ScriptHost.Tree

variable {α β : Type} {t u v : Tree α} {es old : List (String × Tree α)} {k : String} {path : List String}

/-- What a tree has at a path. -/
def at? : Tree α → List String → Option (Tree α)
  | t, [] => some t
  | leaf _, _ :: _ => none
  | table es, k :: path => (es.lookup k).bind (at? · path)

def leaf? : Tree α → Option α
  | leaf a => some a
  | table _ => none

/-- The leaf that a tree has at a path. -/
def leafAt? (t : Tree α) (path : List String) : Option α := (t.at? path).bind leaf?

/-- Every table has its keys in order. -/
inductive Ordered : Tree α → Prop
  | leaf (a : α) : Ordered (leaf a)
  | table {es : List (String × Tree α)} : Entries.Sorted es → (∀ e ∈ es, Ordered e.2) → Ordered (table es)

/-- No path leads to a leaf in one tree and to a table in the other. -/
def Agree (t u : Tree α) : Prop :=
  ∀ path a b, t.at? path = some a → u.at? path = some b → a.leaf?.isSome = b.leaf?.isSome

mutual

/-- Whether two trees agree, as far as both have something. -/
def agree : Tree α → Tree α → Bool
  | leaf _, leaf _ => true
  | table es, table fs => agreeEntries es fs
  | _, _ => false

def agreeEntries : List (String × Tree α) → List (String × Tree α) → Bool
  | [], _ => true
  | (k, t) :: rest, fs =>
    (match fs.lookup k with
      | some u => agree t u
      | none => true) && agreeEntries rest fs

end

/-! ### Looking up -/

theorem at?_table (es : List (String × Tree α)) (k : String) (path : List String) :
    (table es).at? (k :: path) = (es.lookup k).bind (at? · path) := rfl

theorem leafAt?_table (es : List (String × Tree α)) (k : String) (path : List String) :
    (table es).leafAt? (k :: path) = (es.lookup k).bind (leafAt? · path) := by
  unfold leafAt?
  rw [at?_table]
  cases es.lookup k <;> rfl

theorem mem_of_lookup {γ : Type} {es : List (String × γ)} {a : γ} (h : es.lookup k = some a) :
    (k, a) ∈ es := by
  obtain ⟨l₁, l₂, rfl, -⟩ := List.lookup_eq_some_iff.1 h
  simp

theorem lookup_of_mem {γ : Type} {es : List (String × γ)} {a : γ} (hes : Entries.Sorted es)
    (h : (k, a) ∈ es) : es.lookup k = some a := by
  induction es with
  | nil => cases h
  | cons e es ih =>
    obtain ⟨hhead, htail⟩ := List.pairwise_cons.1 hes
    rcases List.mem_cons.1 h with rfl | h
    · simp
    · have hne : k ≠ e.1 := by
        rintro rfl
        exact String.lt_irrefl _ (hhead (e.1, a) h)
      rw [List.lookup_cons, beq_false_of_ne hne]
      exact ih htail h

theorem Ordered.lookup (h : Ordered (.table es)) (hk : es.lookup k = some t) : Ordered t := by
  cases h with
  | table _ hall => exact hall _ (mem_of_lookup hk)

theorem Agree.refl (t : Tree α) : Agree t t := by
  intro path a b ha hb
  rw [ha] at hb
  cases hb
  rfl

theorem Agree.symm (h : Agree t u) : Agree u t :=
  fun path a b ha hb => (h path b a hb ha).symm

theorem Agree.lookup (h : Agree (table old) (table es)) (ht : old.lookup k = some t)
    (hu : es.lookup k = some u) : Agree t u := by
  intro path a b ha hb
  apply h (k :: path) a b
  · rw [at?_table, ht]
    exact ha
  · rw [at?_table, hu]
    exact hb

theorem agreeEntries_mem {fs : List (String × Tree α)} (h : agreeEntries es fs = true) (ht : (k, t) ∈ es)
    (hu : fs.lookup k = some u) : agree t u = true := by
  induction es with
  | nil => cases ht
  | cons e es ih =>
    obtain ⟨l, s⟩ := e
    rw [agreeEntries, Bool.and_eq_true_iff] at h
    rcases List.mem_cons.1 ht with heq | ht
    · cases heq
      rw [hu] at h
      exact h.1
    · exact ih h.2 ht

theorem agree_sound (h : agree t u = true) : Agree t u := by
  intro path
  induction path generalizing t u with
  | nil =>
    intro a b ha hb
    cases ha
    cases hb
    cases t with
    | leaf x =>
      cases u with
      | leaf y => rfl
      | table fs => simp [agree] at h
    | table es =>
      cases u with
      | leaf y => simp [agree] at h
      | table fs => rfl
  | cons k path ih =>
    intro a b ha hb
    cases t with
    | leaf x => cases ha
    | table es =>
      cases u with
      | leaf x => cases hb
      | table fs =>
        rw [agree] at h
        obtain ⟨s, hs, ha⟩ := Option.bind_eq_some_iff.1 ha
        obtain ⟨v, hv, hb⟩ := Option.bind_eq_some_iff.1 hb
        exact ih (agreeEntries_mem h (mem_of_lookup hs) hv) a b ha hb

/-! ### Merging -/

/-- What is there after a merge. -/
def over? : Option (Tree α) → Option (Tree α) → Option (Tree α)
  | some before, some later => some (merge before later)
  | some before, none => some before
  | none, later => later

theorem lookup_mergeEntries (hes : Entries.Sorted es) :
    (mergeEntries old es).lookup k = over? (old.lookup k) (es.lookup k) := by
  induction es generalizing old with
  | nil =>
    rw [mergeEntries]
    cases old.lookup k <;> rfl
  | cons e es ih =>
    obtain ⟨l, t⟩ := e
    obtain ⟨hhead, htail⟩ := List.pairwise_cons.1 hes
    have hrest : es.lookup l = none := by
      rw [List.lookup_eq_none_iff]
      intro f hf
      have hne : l ≠ f.1 := by
        rintro rfl
        exact String.lt_irrefl _ (hhead f hf)
      simpa using hne
    rw [mergeEntries]
    split
    · rename_i before hbefore
      rw [ih htail]
      by_cases hk : k = l
      · subst hk
        simp [Entries.lookup_insert_self, hrest, hbefore, over?]
      · simp [Entries.lookup_insert_of_ne hk, List.lookup_cons, beq_false_of_ne hk]
    · rename_i hnone
      rw [ih htail]
      by_cases hk : k = l
      · subst hk
        simp [Entries.lookup_insert_self, hrest, hnone, over?]
      · simp [Entries.lookup_insert_of_ne hk, List.lookup_cons, beq_false_of_ne hk]

/-- Trees are merged path by path. -/
theorem at?_merge (hagree : Agree t u) (hu : Ordered u) (path : List String) :
    (merge t u).at? path = over? (t.at? path) (u.at? path) := by
  induction path generalizing t u with
  | nil => simp [at?, over?]
  | cons k path ih =>
    have hkind := hagree [] t u rfl rfl
    cases u with
    | leaf b =>
      cases t with
      | leaf a => simp [merge, at?, over?]
      | table old => simp [leaf?] at hkind
    | table es =>
      cases t with
      | leaf a => simp [leaf?] at hkind
      | table old =>
        cases hu with
        | table hsorted hall =>
          rw [merge, at?_table, at?_table, at?_table, lookup_mergeEntries hsorted]
          cases hold : old.lookup k with
          | none => cases es.lookup k <;> rfl
          | some a =>
            cases hes : es.lookup k with
            | none =>
              simp only [over?, Option.bind_some, Option.bind_none]
              cases a.at? path <;> rfl
            | some b => exact ih (hagree.lookup hold hes) (hall _ (mem_of_lookup hes))

theorem leaf?_merge_isSome (h : t.leaf?.isSome = u.leaf?.isSome) :
    (merge t u).leaf?.isSome = u.leaf?.isSome := by
  cases u with
  | leaf b => simp [merge, leaf?]
  | table es =>
    cases t with
    | leaf a => simp [leaf?] at h
    | table old => simp [merge, leaf?]

/-- The later tree counts at every path where it has a leaf. -/
theorem leafAt?_merge (hagree : Agree t u) (hu : Ordered u) (path : List String) :
    (merge t u).leafAt? path = (u.leafAt? path).or (t.leafAt? path) := by
  unfold leafAt?
  rw [at?_merge hagree hu]
  cases ht : t.at? path with
  | none => cases u.at? path <;> simp [over?]
  | some a =>
    cases hu : u.at? path with
    | none => simp [over?]
    | some b =>
      have hkind := hagree path a b ht hu
      cases b with
      | leaf x => simp [over?, merge, leaf?]
      | table es =>
        cases a with
        | leaf x => simp [leaf?] at hkind
        | table old => simp [over?, merge, leaf?]

theorem Agree.merge (htv : Agree t v) (huv : Agree u v) (htu : Agree t u) (hu : Ordered u) :
    Agree (merge t u) v := by
  intro path a b ha hb
  rw [at?_merge htu hu] at ha
  cases hx : t.at? path with
  | none =>
    rw [hx] at ha
    exact huv path a b ha hb
  | some x =>
    cases hy : u.at? path with
    | none =>
      rw [hx, hy] at ha
      exact htv path a b (hx.trans ha) hb
    | some y =>
      rw [hx, hy] at ha
      cases ha
      rw [leaf?_merge_isSome (htu path x y hx hy)]
      exact huv path y b hy hb

theorem Ordered.insert (h : Ordered (.table es)) (ht : Ordered t) (k : String) :
    Ordered (.table (Entries.insert k t es)) := by
  cases h with
  | table hsorted hall =>
    refine .table (Entries.sorted_insert hsorted k t) ?_
    intro e he
    rcases Entries.mem_insert he with rfl | he
    · exact ht
    · exact hall e he

theorem Ordered.mergeEntries (hold : Ordered (.table old))
    (hes : ∀ e ∈ es, Ordered e.2 ∧ ∀ t, Ordered t → Ordered (t.merge e.2)) :
    Ordered (.table (mergeEntries old es)) := by
  induction es generalizing old with
  | nil => exact hold
  | cons e es ih =>
    obtain ⟨⟨hnew, hover⟩, hrest⟩ := List.forall_mem_cons.1 hes
    rw [Tree.mergeEntries]
    split
    · rename_i before hbefore
      have hbefore := hold.lookup hbefore
      exact ih (hold.insert (hover before hbefore) e.1) hrest
    · exact ih (hold.insert hnew e.1) hrest

theorem Ordered.merge (ht : Ordered t) (hu : Ordered u) : Ordered (merge t u) := by
  induction hu generalizing t with
  | leaf b => exact .leaf b
  | table hsorted hall ih =>
    cases t with
    | leaf a => exact .table hsorted hall
    | table old =>
      rw [Tree.merge]
      apply ht.mergeEntries
      intro e he
      exact ⟨hall e he, fun t ht => ih e he ht⟩

/-! ### Trees with something in every leaf -/

mutual

theorem solid?_eq_some : {t : Tree (Option α)} → {u : Tree α} → solid? t = some u → t = raw u
  | leaf none, _, h => by cases h
  | leaf (some a), _, h => by
    cases h
    rfl
  | table es, _, h => by
    obtain ⟨es', hes, rfl⟩ := Option.map_eq_some_iff.1 h
    rw [raw, solidEntries?_eq_some hes]

theorem solidEntries?_eq_some : {es : List (String × Tree (Option α))} → {es' : List (String × Tree α)} →
    solidEntries? es = some es' → es = rawEntries es'
  | [], _, h => by
    cases h
    rfl
  | (k, t) :: rest, _, h => by
    rw [solidEntries?] at h
    obtain ⟨u, hu, h⟩ := Option.bind_eq_some_iff.1 h
    obtain ⟨rest', hrest, h⟩ := Option.bind_eq_some_iff.1 h
    cases h
    rw [rawEntries, ← solid?_eq_some hu, ← solidEntries?_eq_some hrest]

end

theorem rawEntries_eq_map (es : List (String × Tree α)) :
    rawEntries es = es.map fun e => (e.1, raw e.2) := by
  induction es with
  | nil => rfl
  | cons e es ih =>
    rw [rawEntries, ih]
    rfl

theorem at?_raw (t : Tree α) (path : List String) : (raw t).at? path = (t.at? path).map raw := by
  induction path generalizing t with
  | nil => simp [at?]
  | cons k path ih =>
    cases t with
    | leaf a => simp [raw, at?]
    | table es =>
      rw [raw, at?_table, at?_table, rawEntries_eq_map, Entries.lookup_map fun _ => raw]
      cases es.lookup k with
      | none => rfl
      | some u => exact ih u

theorem leafAt?_raw (t : Tree α) (path : List String) :
    (raw t).leafAt? path = (t.leafAt? path).map some := by
  unfold leafAt?
  rw [at?_raw]
  cases t.at? path with
  | none => rfl
  | some u => cases u <;> simp [raw, leaf?]

theorem Ordered.of_raw (h : Ordered (raw t)) : Ordered t := by
  generalize hu : raw t = u at h
  induction h generalizing t with
  | leaf a =>
    cases t with
    | leaf b => exact .leaf b
    | table es => cases hu
  | table hsorted hall ih =>
    cases t with
    | leaf b => cases hu
    | table es =>
      rw [raw, rawEntries_eq_map] at hu
      cases hu
      unfold Entries.Sorted at hsorted
      rw [List.pairwise_map] at hsorted
      refine .table hsorted ?_
      intro e he
      exact ih (e.1, raw e.2) (List.mem_map_of_mem he) rfl

end ScriptHost.Tree
