import ScriptHost.Proofs.Config.Reading

/-! Spellings of a section's name. Folding works on one name at a time, and on each it takes the lower-case
spelling, if there is one, into the first of the others. -/

namespace ScriptHost

namespace Text

theorem toLower_toLower (c : Char) : c.toLower.toLower = c.toLower := by
  unfold Char.toLower
  split
  · rename_i h
    have hnot : ¬ ((c.val + ('a'.val - 'A'.val) : UInt32) ≥ 'A'.val ∧
        c.val + ('a'.val - 'A'.val) ≤ 'Z'.val) := by
      simp only [ge_iff_le, UInt32.le_iff_toNat_le, UInt32.toNat_add] at h ⊢
      simp at h ⊢
      omega
    rw [dif_neg hnot]
  · rfl

theorem toList_lower (s : String) : (lower s).toList = s.toList.map Char.toLower := String.toList_map

theorem lower_lower (s : String) : lower (lower s) = lower s := by
  rw [← String.toList_inj, toList_lower, toList_lower, List.map_map]
  exact List.map_congr_left fun c _ => toLower_toLower c

theorem lower_eq_iff {s t : String} : lower s = t ↔ s.toList.map Char.toLower = t.toList := by
  rw [← String.toList_inj, toList_lower]

/-- Texts differ at most in case just if their characters do. -/
theorem sameIgnoringCase_iff {a b : String} :
    sameIgnoringCase a b = true ↔ a.toList.map Char.toLower = b.toList.map Char.toLower := by
  unfold sameIgnoringCase
  rw [beq_iff_eq, lower_eq_iff, toList_lower]

end Text

namespace Entries

variable {α : Type} {es : List (String × α)} {p q : String → Bool} {k : String}

/-- The entries with keys of a kind. -/
def keep (p : String → Bool) (es : List (String × α)) : List (String × α) := es.filter fun e => p e.1

theorem keep_cons_of_pos (e : String × α) (es : List (String × α)) (h : p e.1 = true) :
    keep p (e :: es) = e :: keep p es := List.filter_cons_of_pos h

theorem keep_cons_of_neg (e : String × α) (es : List (String × α)) (h : p e.1 = false) :
    keep p (e :: es) = keep p es := List.filter_cons_of_neg (by simpa using h)

theorem mem_keep {e : String × α} : e ∈ keep p es ↔ e ∈ es ∧ p e.1 = true := List.mem_filter

theorem keep_keep (p q : String → Bool) (es : List (String × α)) :
    keep p (keep q es) = keep (fun k => p k && q k) es := List.filter_filter

theorem keep_congr (h : ∀ k, p k = q k) (es : List (String × α)) : keep p es = keep q es := by
  have heq : p = q := funext h
  rw [heq]

theorem sorted_keep (h : Sorted es) (p : String → Bool) : Sorted (keep p es) := List.Pairwise.filter _ h

theorem lookup_keep (hk : p k = true) (es : List (String × α)) : (keep p es).lookup k = es.lookup k := by
  induction es with
  | nil => rfl
  | cons e es ih =>
    cases he : p e.1 with
    | true => rw [keep_cons_of_pos _ _ he, List.lookup_cons, List.lookup_cons, ih]
    | false =>
      have hne : k ≠ e.1 := by
        rintro rfl
        rw [hk] at he
        cases he
      rw [keep_cons_of_neg _ _ he, List.lookup_cons, beq_false_of_ne hne, ih]

theorem keep_insert_of_pos (hes : Sorted es) (v : α) (hk : p k = true) :
    keep p (insert k v es) = insert k v (keep p es) := by
  induction es with
  | nil => simp [insert, keep, hk]
  | cons e es ih =>
    obtain ⟨l, w⟩ := e
    obtain ⟨hhead, htail⟩ := List.pairwise_cons.1 hes
    simp only [insert]
    split
    · rename_i hlt
      have hbefore : ∀ f ∈ keep p ((l, w) :: es), k < f.1 := by
        intro f hf
        rcases List.mem_cons.1 (mem_keep.1 hf).1 with rfl | hf
        · exact hlt
        · exact String.lt_trans hlt (hhead f hf)
      rw [keep_cons_of_pos _ _ hk]
      cases hrest : keep p ((l, w) :: es) with
      | nil => rfl
      | cons f rest =>
        have hf := hbefore f (hrest ▸ List.mem_cons_self)
        simp only [insert, if_pos hf]
    · split
      · rename_i hnot heq
        subst heq
        rw [keep_cons_of_pos _ _ hk, keep_cons_of_pos _ _ hk]
        simp only [insert, if_neg hnot, if_true]
      · rename_i hnot hne
        cases hl : p l with
        | true =>
          rw [keep_cons_of_pos _ _ hl, keep_cons_of_pos _ _ hl, ih htail]
          simp only [insert, if_neg hnot, if_neg hne]
        | false => rw [keep_cons_of_neg _ _ hl, keep_cons_of_neg _ _ hl, ih htail]

theorem keep_insert_of_neg (v : α) (hk : p k = false) (es : List (String × α)) :
    keep p (insert k v es) = keep p es := by
  induction es with
  | nil => simp [insert, keep, hk]
  | cons e es ih =>
    obtain ⟨l, w⟩ := e
    simp only [insert]
    split
    · rw [keep_cons_of_neg _ _ hk]
    · split
      · rename_i heq
        subst heq
        rw [keep_cons_of_neg _ _ hk, keep_cons_of_neg _ _ hk]
      · unfold keep at ih ⊢
        rw [List.filter_cons, List.filter_cons, ih]

theorem entries_erase (d : Dict α) (k : String) : (d.erase k).entries = keep (· != k) d.entries := rfl

end Entries

namespace FileConfig

open Entries

variable {c : FileConfig} {l m n : String}

/-- The sections whose names are spellings of a lower-case name. -/
def variants (l : String) (c : FileConfig) : List (String × FileSection) :=
  keep (fun k => Text.lower k == l) c.sections.entries

theorem lookup_variants {k : String} (hk : Text.lower k = l) (c : FileConfig) :
    (variants l c).lookup k = c.sections.get? k := by
  have hkept : (Text.lower k == l) = true := beq_iff_eq.2 hk
  exact lookup_keep (p := fun k => Text.lower k == l) hkept _

/-- A section that is put under a spelling is put among the spellings. -/
theorem variants_insert {k : String} (hk : Text.lower k = l) (c : FileConfig) (s : FileSection) :
    variants l ⟨c.sections.insert k s⟩ = Entries.insert k s (variants l c) := by
  have hkept : (Text.lower k == l) = true := beq_iff_eq.2 hk
  exact keep_insert_of_pos (p := fun k => Text.lower k == l) c.sections.sorted s hkept

theorem variants_insert_of_ne {k : String} (hk : Text.lower k ≠ l) (c : FileConfig) (s : FileSection) :
    variants l ⟨c.sections.insert k s⟩ = variants l c := by
  have hleft : (Text.lower k == l) = false := beq_false_of_ne hk
  exact keep_insert_of_neg (p := fun k => Text.lower k == l) s hleft c.sections.entries

/-- What folding makes of the spellings of one name. -/
def folded (l : String) (es : List (String × FileSection)) : List (String × FileSection) :=
  match keep (· != l) es, es.lookup l with
  | (name, s) :: rest, some later => (name, extend s later) :: rest
  | _, _ => es

theorem find?_names (c : FileConfig) (p : String → Bool) :
    c.names.find? p = ((keep p c.sections.entries).head?).map (·.1) := by
  rw [names, Dict.keys, List.find?_map, ← List.head?_filter]
  rfl

/-- The spellings of a lower-case name, that one aside. -/
theorem others_eq (hl : Text.lower l = l) (c : FileConfig) :
    keep (fun k => k != l && Text.sameIgnoringCase k l) c.sections.entries = keep (· != l) (variants l c) := by
  unfold variants Text.sameIgnoringCase
  rw [keep_keep, hl]

/-- To fold another name leaves the spellings of this one alone. -/
theorem variants_foldName_of_ne (hm : Text.lower m = m) (hne : m ≠ l) (c : FileConfig) :
    variants l (c.foldName m) = variants l c := by
  have herase : keep (fun k => Text.lower k == l) (c.sections.erase m).entries = variants l c := by
    unfold variants
    rw [entries_erase, keep_keep]
    apply keep_congr
    intro k
    by_cases hk : k = m
    · simp [hk, hm, hne]
    · simp [hk]
  unfold foldName
  dsimp only
  split
  · rename_i name later hname hlater
    have hsame : Text.lower name = m := by
      have hfound := List.find?_some hname
      simp only [Bool.and_eq_true, Text.sameIgnoringCase, beq_iff_eq] at hfound
      rw [hfound.2, hm]
    split
    · rw [variants, Dict.entries_insert, keep_insert_of_neg _ (by simp [hsame, hne])]
      exact herase
    · exact herase
  · rfl

/-- To fold a name takes its lower-case spelling into the first of the others. -/
theorem variants_foldName (hl : Text.lower l = l) (c : FileConfig) :
    variants l (c.foldName l) = folded l (variants l c) := by
  unfold foldName folded
  rw [find?_names, others_eq hl, ← lookup_variants hl]
  cases hothers : keep (· != l) (variants l c) with
  | nil => rfl
  | cons e rest =>
    obtain ⟨name, s⟩ := e
    cases hlater : (variants l c).lookup l with
    | none => rfl
    | some later =>
      have hmem : (name, s) ∈ keep (· != l) (variants l c) := by
        rw [hothers]
        exact List.mem_cons_self
      obtain ⟨hvariant, hne⟩ := mem_keep.1 hmem
      obtain ⟨hentry, hname⟩ := mem_keep.1 hvariant
      have hget : (c.sections.erase l).get? name = some s := by
        have hkept : (c.sections.erase l).get? name = c.sections.get? name :=
          lookup_keep (p := (· != l)) hne _
        rw [hkept]
        exact Tree.lookup_of_mem c.sections.sorted hentry
      have hrest : keep (fun k => Text.lower k == l) (c.sections.erase l).entries = (name, s) :: rest := by
        rw [← hothers, variants, entries_erase, keep_keep, keep_keep]
        apply keep_congr
        intro k
        rw [Bool.and_comm]
      have hinsert := keep_insert_of_pos (p := fun k => Text.lower k == l) (c.sections.erase l).sorted
        (extend s later) hname
      rw [hrest] at hinsert
      simp only [List.head?_cons, Option.map_some, hget]
      rw [variants, Dict.entries_insert, hinsert]
      simp [Entries.insert]

/-! ### Folding every name -/

theorem variants_foldl (hl : Text.lower l = l) (ls : List String) (hls : ∀ m ∈ ls, Text.lower m = m)
    (hnodup : ls.Nodup) (c : FileConfig) :
    variants l (ls.foldl foldName c) = if l ∈ ls then folded l (variants l c) else variants l c := by
  induction ls generalizing c with
  | nil => rfl
  | cons m ls ih =>
    obtain ⟨hm, hrest⟩ := List.forall_mem_cons.1 hls
    obtain ⟨hnot, hnodup⟩ := List.nodup_cons.1 hnodup
    rw [List.foldl_cons, ih hrest hnodup]
    by_cases heq : m = l
    · subst heq
      rw [if_neg hnot, if_pos List.mem_cons_self]
      exact variants_foldName hl c
    · rw [variants_foldName_of_ne hm heq]
      simp [List.mem_cons, Ne.symm heq]

/-- The names that are folded are in lower case. -/
theorem lower_of_mem (h : m ∈ c.names.filter fun k => k == Text.lower k) : Text.lower m = m := by
  have heq := (List.mem_filter.1 h).2
  exact (beq_iff_eq.1 heq).symm

theorem nodup_names (c : FileConfig) : c.names.Nodup := by
  have hsorted : c.sections.keys.Pairwise (· < ·) := List.pairwise_map.2 c.sections.sorted
  refine List.Pairwise.imp ?_ hsorted
  rintro a b hlt rfl
  exact String.lt_irrefl _ hlt

theorem variants_foldCase (hl : Text.lower l = l) (c : FileConfig) :
    variants l c.foldCase = folded l (variants l c) := by
  have hlower : ∀ m ∈ c.names.filter (fun k => k == Text.lower k), Text.lower m = m := fun m => lower_of_mem
  have hnodup : (c.names.filter fun k => k == Text.lower k).Nodup := c.nodup_names.filter _
  unfold foldCase
  rw [variants_foldl hl _ hlower hnodup]
  split
  · rfl
  · rename_i hnot
    have hnone : (variants l c).lookup l = none := by
      rw [List.lookup_eq_none_iff]
      intro e he
      have hne : l ≠ e.1 := by
        rintro rfl
        apply hnot
        rw [List.mem_filter]
        exact ⟨List.mem_map_of_mem (mem_keep.1 he).1, by simp [hl]⟩
      simpa using hne
    unfold folded
    rw [hnone]
    cases keep (· != l) (variants l c) <;> rfl

/-! ### Finding -/

/-- The section of a name among its spellings. -/
def pick? (n : String) (es : List (String × FileSection)) : Option FileSection :=
  (es.lookup n).or (es.head?.map (·.2))

theorem find?_eq_pick? (c : FileConfig) (n : String) :
    c.find? n = pick? n (variants (Text.lower n) c) := by
  have hfirst : (variants (Text.lower n) c).head? =
      c.sections.entries.find? fun e => Text.sameIgnoringCase e.1 n := List.head?_filter
  unfold find? pick?
  rw [lookup_variants rfl, hfirst]
  cases c.sections.get? n <;> rfl

end FileConfig

end ScriptHost
