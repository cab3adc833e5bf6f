/-! Dictionaries: values under texts, kept in the order of their keys and each key once. The list
operations come first, since a value may itself hold such a list; `Dict` adds the order. -/

namespace ScriptHost

/-! ### Entries -/

namespace Entries

variable {α β : Type}

/-- Puts a value under a key, in place of the one that is there. -/
def insert (k : String) (v : α) : List (String × α) → List (String × α)
  | [] => [(k, v)]
  | (l, w) :: rest =>
    if k < l then (k, v) :: (l, w) :: rest
    else if k = l then (k, v) :: rest
    else (l, w) :: insert k v rest

/-- The entries without the one under a key. -/
def erase (k : String) (es : List (String × α)) : List (String × α) := es.filter (·.1 != k)

/-- Keys rise strictly. -/
def Sorted (es : List (String × α)) : Prop := es.Pairwise (·.1 < ·.1)

theorem lookup_insert_self (k : String) (v : α) (es : List (String × α)) :
    (insert k v es).lookup k = some v := by
  induction es with
  | nil => simp [insert]
  | cons e es ih =>
    obtain ⟨l, w⟩ := e
    simp only [insert]
    split
    · simp
    · split
      · simp
      · rename_i h
        simp [List.lookup_cons, beq_false_of_ne h, ih]

theorem lookup_insert_of_ne {k j : String} (h : j ≠ k) (v : α) (es : List (String × α)) :
    (insert k v es).lookup j = es.lookup j := by
  induction es with
  | nil => simp [insert, List.lookup_cons, beq_false_of_ne h]
  | cons e es ih =>
    obtain ⟨l, w⟩ := e
    simp only [insert]
    split
    · simp [List.lookup_cons, beq_false_of_ne h]
    · split
      · rename_i hk
        subst hk
        simp [List.lookup_cons, beq_false_of_ne h]
      · simp [List.lookup_cons, ih]

theorem mem_insert {k : String} {v : α} {es : List (String × α)} {e : String × α}
    (h : e ∈ insert k v es) : e = (k, v) ∨ e ∈ es := by
  induction es with
  | nil => simpa [insert] using h
  | cons f es ih =>
    obtain ⟨l, w⟩ := f
    simp only [insert] at h
    split at h
    · simpa using h
    · split at h
      · rcases List.mem_cons.1 h with h | h <;> simp [h]
      · rcases List.mem_cons.1 h with h | h
        · simp [h]
        · rcases ih h with h | h <;> simp [h]

theorem sorted_insert {es : List (String × α)} (h : Sorted es) (k : String) (v : α) :
    Sorted (insert k v es) := by
  induction es with
  | nil => simp [insert, Sorted]
  | cons e es ih =>
    obtain ⟨l, w⟩ := e
    obtain ⟨hl, ht⟩ := List.pairwise_cons.1 h
    simp only [insert]
    split
    · rename_i hk
      refine List.pairwise_cons.2 ⟨fun f hf => ?_, h⟩
      rcases List.mem_cons.1 hf with rfl | hf
      · exact hk
      · exact String.lt_trans hk (hl f hf)
    · split
      · rename_i hk
        subst hk
        exact List.pairwise_cons.2 ⟨hl, ht⟩
      · rename_i h1 h2
        refine List.pairwise_cons.2 ⟨fun f hf => ?_, ih ht⟩
        rcases mem_insert hf with rfl | hf
        · rcases Std.lt_trichotomy k l with h3 | h3 | h3
          · exact absurd h3 h1
          · exact absurd h3 h2
          · exact h3
        · exact hl f hf

theorem sorted_erase {es : List (String × α)} (h : Sorted es) (k : String) :
    Sorted (erase k es) := List.Pairwise.filter _ h

theorem sorted_map {es : List (String × α)} (h : Sorted es) (f : String → α → β) :
    Sorted (es.map fun e => (e.1, f e.1 e.2)) :=
  List.pairwise_map.2 h

theorem lookup_map (f : String → α → β) (es : List (String × α)) (k : String) :
    (es.map fun e => (e.1, f e.1 e.2)).lookup k = (es.lookup k).map (f k) := by
  induction es with
  | nil => rfl
  | cons e es ih =>
    rw [List.map_cons, List.lookup_cons, List.lookup_cons, ih]
    by_cases hk : k = e.1
    · subst hk
      rw [beq_self_eq_true]
      rfl
    · rw [beq_false_of_ne hk]

end Entries

/-! ### Dictionaries -/

/-- Values under texts, in the order of the texts. -/
structure Dict (α : Type) where
  entries : List (String × α)
  sorted : Entries.Sorted entries

namespace Dict

variable {α β : Type}

instance [DecidableEq α] : DecidableEq (Dict α) := fun a b =>
  decidable_of_iff (a.entries = b.entries) (by cases a; cases b; simp)

def empty : Dict α := ⟨[], List.Pairwise.nil⟩

instance : Inhabited (Dict α) := ⟨empty⟩

def get? (d : Dict α) (k : String) : Option α := d.entries.lookup k

def contains (d : Dict α) (k : String) : Bool := (d.get? k).isSome

def insert (d : Dict α) (k : String) (v : α) : Dict α :=
  ⟨Entries.insert k v d.entries, Entries.sorted_insert d.sorted k v⟩

def erase (d : Dict α) (k : String) : Dict α :=
  ⟨Entries.erase k d.entries, Entries.sorted_erase d.sorted k⟩

/-- The dictionary of a list of pairs, of which a later one replaces an earlier one of its key. -/
def ofList (es : List (String × α)) : Dict α := es.foldl (fun d e => d.insert e.1 e.2) empty

/-- The values changed, each with its key at hand. -/
def mapValues (f : String → α → β) (d : Dict α) : Dict β :=
  ⟨d.entries.map fun e => (e.1, f e.1 e.2), Entries.sorted_map d.sorted f⟩

/-- The keys in order. -/
def keys (d : Dict α) : List String := d.entries.map (·.1)

def size (d : Dict α) : Nat := d.entries.length

def isEmpty (d : Dict α) : Bool := d.entries.isEmpty

@[simp] theorem get?_empty (k : String) : (empty : Dict α).get? k = none := rfl

@[simp] theorem get?_insert_self (d : Dict α) (k : String) (v : α) :
    (d.insert k v).get? k = some v := Entries.lookup_insert_self k v d.entries

theorem get?_insert_of_ne (d : Dict α) {k j : String} (h : j ≠ k) (v : α) :
    (d.insert k v).get? j = d.get? j := Entries.lookup_insert_of_ne h v d.entries

theorem get?_insert (d : Dict α) (k j : String) (v : α) :
    (d.insert k v).get? j = if j = k then some v else d.get? j := by
  split
  · subst_vars; exact get?_insert_self d _ v
  · rename_i h; exact get?_insert_of_ne d h v

theorem get?_mapValues (f : String → α → β) (d : Dict α) (k : String) :
    (d.mapValues f).get? k = (d.get? k).map (f k) := Entries.lookup_map f d.entries k

theorem entries_insert (d : Dict α) (k : String) (v : α) :
    (d.insert k v).entries = Entries.insert k v d.entries := rfl

end Dict

end ScriptHost
