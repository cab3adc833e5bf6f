import ScriptHost.Text.Lines

/-! Two texts read in step. A text is cut into passages, each with what stands in its place in the
other text. Where every line break is a passage of its own and stays a line break, two points that are
reached together stand on the same line. -/

namespace ScriptHost.Compile

open Text (breaks breaks_append breaks_eq_zero_iff unlines)

/-- A passage of a text, and what stands in its place in another. -/
structure Passage where
  source : List Char
  target : List Char

namespace Passage

/-- A character that stays. -/
def same (c : Char) : Passage := ⟨[c], [c]⟩

@[simp] theorem source_same (c : Char) : (same c).source = [c] := rfl

@[simp] theorem target_same (c : Char) : (same c).target = [c] := rfl

/-- Line breaks stay line breaks. -/
def Level (a : Passage) : Prop :=
  a = same '\n' ∨ '\n' ∉ a.source ∧ '\n' ∉ a.target

theorem level_same (c : Char) : (same c).Level := by
  by_cases hc : c = '\n'
  · exact .inl (congrArg same hc)
  · exact .inr (by simp [Ne.symm hc])

theorem Level.breaks {a : Passage} (h : a.Level) : breaks a.source = breaks a.target := by
  rcases h with rfl | ⟨hs, ht⟩
  · rfl
  · rw [breaks_eq_zero_iff.2 hs, breaks_eq_zero_iff.2 ht]

/-- In front of the end of a passage there is no line break in it. -/
theorem Level.breaks_source {a : Passage} {u u' : List Char} (h : a.Level) (ha : a.source = u ++ u')
    (hu : u' ≠ []) : Text.breaks u = 0 := by
  rcases h with rfl | ⟨hs, -⟩
  · rcases List.append_eq_singleton_iff.1 ha.symm with ⟨rfl, -⟩ | ⟨-, rfl⟩
    · rfl
    · exact absurd rfl hu
  · exact breaks_eq_zero_iff.2 fun hmem => hs (ha ▸ List.mem_append_left _ hmem)

theorem Level.breaks_target {a : Passage} {v v' : List Char} (h : a.Level) (ha : a.target = v ++ v')
    (hv : v' ≠ []) : Text.breaks v = 0 := by
  rcases h with rfl | ⟨-, ht⟩
  · rcases List.append_eq_singleton_iff.1 ha.symm with ⟨rfl, -⟩ | ⟨-, rfl⟩
    · rfl
    · exact absurd rfl hv
  · exact breaks_eq_zero_iff.2 fun hmem => ht (ha ▸ List.mem_append_left _ hmem)

end Passage

open Passage (same level_same)

/-! ### Texts in passages -/

/-- What passages are cut out of. -/
def sourceOf (ps : List Passage) : List Char := ps.flatMap Passage.source

/-- What stands in place of passages. -/
def targetOf (ps : List Passage) : List Char := ps.flatMap Passage.target

section

variable {ps qs : List Passage} {a : Passage} {cs p q : List Char}

@[simp] theorem sourceOf_nil : sourceOf [] = [] := rfl

@[simp] theorem targetOf_nil : targetOf [] = [] := rfl

@[simp] theorem sourceOf_cons : sourceOf (a :: ps) = a.source ++ sourceOf ps := rfl

@[simp] theorem targetOf_cons : targetOf (a :: ps) = a.target ++ targetOf ps := rfl

@[simp] theorem sourceOf_append : sourceOf (ps ++ qs) = sourceOf ps ++ sourceOf qs :=
  List.flatMap_append

@[simp] theorem targetOf_append : targetOf (ps ++ qs) = targetOf ps ++ targetOf qs :=
  List.flatMap_append

@[simp] theorem sourceOf_same : sourceOf (cs.map same) = cs := by
  induction cs with
  | nil => rfl
  | cons c cs ih => exact congrArg (c :: ·) ih

@[simp] theorem targetOf_same : targetOf (cs.map same) = cs := by
  induction cs with
  | nil => rfl
  | cons c cs ih => exact congrArg (c :: ·) ih

theorem level_map_same (h : a ∈ cs.map same) : a.Level := by
  obtain ⟨c, -, rfl⟩ := List.mem_map.1 h
  exact level_same c

/-! ### Points -/

/-- Beginnings of both texts that a reader in step has seen together. Passages are read as a whole:
inside one, the reader has seen nothing of what stands in its place, or nothing of what it stands in
the place of. -/
inductive Meet : List Passage → List Char → List Char → Prop
  | start {ps : List Passage} : Meet ps [] []
  | inSource {a : Passage} {ps : List Passage} {u u' : List Char} : a.source = u ++ u' → u' ≠ [] →
      Meet (a :: ps) u []
  | inTarget {a : Passage} {ps : List Passage} {v v' : List Char} : a.target = v ++ v' → v' ≠ [] →
      Meet (a :: ps) [] v
  | after {a : Passage} {ps : List Passage} {p q : List Char} : Meet ps p q →
      Meet (a :: ps) (a.source ++ p) (a.target ++ q)

theorem Meet.breaks (h : Meet ps p q) (hlevel : ∀ a ∈ ps, a.Level) : breaks p = breaks q := by
  induction h with
  | start => rfl
  | inSource ha hu => exact (hlevel _ List.mem_cons_self).breaks_source ha hu
  | inTarget ha hv => exact ((hlevel _ List.mem_cons_self).breaks_target ha hv).symm
  | after _ ih =>
    rw [List.forall_mem_cons] at hlevel
    rw [breaks_append, breaks_append, hlevel.1.breaks, ih hlevel.2]

theorem Meet.prefix_source (h : Meet ps p q) : p <+: sourceOf ps := by
  induction h with
  | start | inTarget => exact List.nil_prefix
  | inSource ha _ => exact (ha ▸ List.prefix_append _ _).trans (List.prefix_append _ _)
  | after _ ih => exact (List.prefix_append_right_inj _).2 ih

theorem Meet.prefix_target (h : Meet ps p q) : q <+: targetOf ps := by
  induction h with
  | start | inSource => exact List.nil_prefix
  | inTarget ha _ => exact (ha ▸ List.prefix_append _ _).trans (List.prefix_append _ _)
  | after _ ih => exact (List.prefix_append_right_inj _).2 ih

theorem Meet.append (h : Meet qs p q) (ps : List Passage) :
    Meet (ps ++ qs) (sourceOf ps ++ p) (targetOf ps ++ q) := by
  induction ps with
  | nil => exact h
  | cons a ps ih => simpa using Meet.after ih

/-- The ends of two texts are reached together. -/
theorem meet_end (ps : List Passage) : Meet ps (sourceOf ps) (targetOf ps) := by
  simpa using (@Meet.start []).append ps

/-- A beginning of a text ends inside its first part or behind it. -/
theorem prefix_append_cases {a b : List Char} (h : p <+: a ++ b) :
    (∃ u, a = p ++ u ∧ u ≠ []) ∨ ∃ p', p = a ++ p' ∧ p' <+: b := by
  rcases List.prefix_or_prefix_of_prefix h (List.prefix_append a b) with ⟨u, hu⟩ | ⟨p', rfl⟩
  · by_cases hnil : u = []
    · subst hnil
      rw [List.append_nil] at hu
      exact .inr ⟨[], by rw [hu, List.append_nil], List.nil_prefix⟩
    · exact .inl ⟨u, hu.symm, hnil⟩
  · exact .inr ⟨p', rfl, (List.prefix_append_right_inj a).1 h⟩

/-- No point of the one text is left out, -/
theorem exists_meet_of_source (ps : List Passage) (h : p <+: sourceOf ps) : ∃ q, Meet ps p q := by
  induction ps generalizing p with
  | nil =>
    obtain rfl := List.prefix_nil.1 h
    exact ⟨[], .start⟩
  | cons a ps ih =>
    rcases prefix_append_cases h with ⟨u, ha, hu⟩ | ⟨p', rfl, hp'⟩
    · exact ⟨[], .inSource ha hu⟩
    · obtain ⟨q, hq⟩ := ih hp'
      exact ⟨_, .after hq⟩

/-- and none of the other. -/
theorem exists_meet_of_target (ps : List Passage) (h : q <+: targetOf ps) : ∃ p, Meet ps p q := by
  induction ps generalizing q with
  | nil =>
    obtain rfl := List.prefix_nil.1 h
    exact ⟨[], .start⟩
  | cons a ps ih =>
    rcases prefix_append_cases h with ⟨v, ha, hv⟩ | ⟨q', rfl, hq'⟩
    · exact ⟨[], .inTarget ha hv⟩
    · obtain ⟨p, hp⟩ := ih hq'
      exact ⟨_, .after hp⟩

end

/-! ### Lines -/

/-- Passages of lines, and the line breaks between the lines. -/
def unlinesOf : List (List Passage) → List Passage
  | [] => []
  | [l] => l
  | l :: ls => l ++ same '\n' :: unlinesOf ls

theorem sourceOf_unlinesOf (ls : List (List Passage)) :
    sourceOf (unlinesOf ls) = unlines (ls.map sourceOf) := by
  fun_induction unlinesOf ls with
  | case1 => rfl
  | case2 l => rfl
  | case3 l ls hne ih =>
    have hmap : ls.map sourceOf ≠ [] := fun h => hne (List.map_eq_nil_iff.1 h)
    rw [List.map_cons, unlines, Text.join_cons _ _ hmap, ← unlines, ← ih]
    simp

theorem targetOf_unlinesOf (ls : List (List Passage)) :
    targetOf (unlinesOf ls) = unlines (ls.map targetOf) := by
  fun_induction unlinesOf ls with
  | case1 => rfl
  | case2 l => rfl
  | case3 l ls hne ih =>
    have hmap : ls.map targetOf ≠ [] := fun h => hne (List.map_eq_nil_iff.1 h)
    rw [List.map_cons, unlines, Text.join_cons _ _ hmap, ← unlines, ← ih]
    simp

theorem level_unlinesOf {ls : List (List Passage)} (h : ∀ l ∈ ls, ∀ a ∈ l, a.Level) :
    ∀ a ∈ unlinesOf ls, a.Level := by
  fun_induction unlinesOf ls with
  | case1 => exact fun a ha => absurd ha List.not_mem_nil
  | case2 l => exact h l List.mem_cons_self
  | case3 l ls _ ih =>
    rw [List.forall_mem_cons] at h
    intro a ha
    rcases List.mem_append.1 ha with ha | ha
    · exact h.1 a ha
    · rcases List.mem_cons.1 ha with rfl | ha
      · exact level_same '\n'
      · exact ih h.2 a ha

end ScriptHost.Compile
