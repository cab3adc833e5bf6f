/-! Pieces of a text between separators, and its lines, which stand between line breaks. -/

namespace ScriptHost.Text

/-- The pieces from a point on, where `piece` holds what the current one has so far, in reverse. -/
def piecesFrom (sep : Char) (piece : List Char) : List Char → List (List Char)
  | [] => [piece.reverse]
  | c :: cs =>
    if c = sep then piece.reverse :: piecesFrom sep [] cs else piecesFrom sep (c :: piece) cs

/-- The pieces of a text between separators, at least one. -/
def pieces (sep : Char) (cs : List Char) : List (List Char) := piecesFrom sep [] cs

/-- Pieces put together with a separator between two. -/
def join (sep : Char) : List (List Char) → List Char
  | [] => []
  | [l] => l
  | l :: ls => l ++ sep :: join sep ls

theorem piecesFrom_ne_nil (sep : Char) (piece cs : List Char) : piecesFrom sep piece cs ≠ [] := by
  cases cs with
  | nil => simp [piecesFrom]
  | cons c cs =>
    unfold piecesFrom
    split
    · simp
    · exact piecesFrom_ne_nil sep _ cs

theorem join_cons (sep : Char) (l : List Char) {ls : List (List Char)} (h : ls ≠ []) :
    join sep (l :: ls) = l ++ sep :: join sep ls := by
  cases ls with
  | nil => exact absurd rfl h
  | cons m ms => rfl

theorem join_piecesFrom (sep : Char) (piece cs : List Char) :
    join sep (piecesFrom sep piece cs) = piece.reverse ++ cs := by
  induction cs generalizing piece with
  | nil => simp [piecesFrom, join]
  | cons c cs ih =>
    unfold piecesFrom
    split
    · subst_vars
      rw [join_cons _ _ (piecesFrom_ne_nil _ _ _), ih]
      simp
    · rw [ih]; simp

/-- Cutting into pieces loses nothing but the separators. -/
@[simp] theorem join_pieces (sep : Char) (cs : List Char) : join sep (pieces sep cs) = cs := by
  simp [pieces, join_piecesFrom]

theorem piecesFrom_of_not_mem {sep : Char} {l : List Char} (h : sep ∉ l) (piece : List Char) :
    piecesFrom sep piece l = [piece.reverse ++ l] ∧
      ∀ cs, piecesFrom sep piece (l ++ sep :: cs) = (piece.reverse ++ l) :: pieces sep cs := by
  induction l generalizing piece with
  | nil => simp [piecesFrom, pieces]
  | cons c l ih =>
    obtain ⟨hc, hl⟩ := not_or.1 (mt List.mem_cons.2 h)
    simpa [piecesFrom, Ne.symm hc] using ih hl (c :: piece)

/-- Pieces without the separator are those of the text that they make. -/
theorem pieces_join {sep : Char} {ls : List (List Char)} (hne : ls ≠ [])
    (h : ∀ l ∈ ls, sep ∉ l) : pieces sep (join sep ls) = ls := by
  induction ls with
  | nil => exact absurd rfl hne
  | cons l ls ih =>
    rw [List.forall_mem_cons] at h
    by_cases hls : ls = []
    · subst hls
      exact (piecesFrom_of_not_mem h.1 []).1
    · rw [join_cons sep l hls, pieces, (piecesFrom_of_not_mem h.1 []).2, ih hls h.2]
      rfl

/-- A text begins with its first piece, and a separator or the end follows. -/
theorem exists_pieces_eq_cons (sep : Char) (cs : List Char) :
    ∃ l ls, pieces sep cs = l :: ls ∧
      ∀ piece, piecesFrom sep piece cs = (piece.reverse ++ l) :: ls := by
  induction cs with
  | nil => exact ⟨[], [], rfl, fun piece => by simp [piecesFrom]⟩
  | cons c cs ih =>
    obtain ⟨l, ls, hcs, hpiece⟩ := ih
    by_cases hc : c = sep
    · exact ⟨[], pieces sep cs, by simp [pieces, piecesFrom, hc],
        fun piece => by simp [piecesFrom, hc, pieces]⟩
    · exact ⟨c :: l, ls, by simp [pieces, piecesFrom, hc, hpiece],
        fun piece => by simp [piecesFrom, hc, hpiece]⟩

theorem pieces_cons_of_ne {sep c : Char} {cs l : List Char} {ls : List (List Char)} (hc : c ≠ sep)
    (h : pieces sep cs = l :: ls) : pieces sep (c :: cs) = (c :: l) :: ls := by
  obtain ⟨l', ls', hcs, hpiece⟩ := exists_pieces_eq_cons sep cs
  obtain ⟨rfl, rfl⟩ := List.cons.inj (h.symm.trans hcs)
  simp [pieces, piecesFrom, hc, hpiece]

theorem pieces_cons_self (sep : Char) (cs : List Char) :
    pieces sep (sep :: cs) = [] :: pieces sep cs := by
  simp [pieces, piecesFrom]

/-- The texts between separators. -/
def split (sep : Char) (s : String) : List String := (pieces sep s.toList).map String.ofList

/-- The lines of a text, at least one. -/
def lines (cs : List Char) : List (List Char) := pieces '\n' cs

/-- Lines put together with a line break between two. -/
def unlines (ls : List (List Char)) : List Char := join '\n' ls

/-- How many line breaks the characters hold. -/
def breaks (cs : List Char) : Nat := cs.count '\n'

theorem breaks_append (cs ds : List Char) : breaks (cs ++ ds) = breaks cs + breaks ds :=
  List.count_append

theorem breaks_eq_zero_iff {cs : List Char} : breaks cs = 0 ↔ '\n' ∉ cs := List.count_eq_zero

theorem not_mem_of_mem_piecesFrom {sep : Char} {piece cs l : List Char} (hp : sep ∉ piece)
    (h : l ∈ piecesFrom sep piece cs) : sep ∉ l := by
  induction cs generalizing piece with
  | nil =>
    obtain rfl := List.mem_singleton.1 h
    simpa using hp
  | cons c cs ih =>
    unfold piecesFrom at h
    split at h
    · rcases List.mem_cons.1 h with rfl | h
      · simpa using hp
      · exact ih List.not_mem_nil h
    · rename_i hc
      exact ih (by simp [hp, Ne.symm hc]) h

theorem not_mem_of_mem_lines {cs l : List Char} (h : l ∈ lines cs) : '\n' ∉ l :=
  not_mem_of_mem_piecesFrom List.not_mem_nil h

end ScriptHost.Text
