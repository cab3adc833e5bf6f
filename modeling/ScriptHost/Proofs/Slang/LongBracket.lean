import ScriptHost.Lua.Lexer
import ScriptHost.Proofs.Slang.Elements

/-! Long brackets as Lua reads them. The first closing bracket of the level ends one, as it does in
Slang, and what the bracket holds does not depend on what comes after it. -/

namespace ScriptHost.Lua.Lexer

open Compile.Slang

/-- A text cut before the first character that is no equals sign. -/
theorem exists_equals (cs : List Char) :
    ∃ n rest, cs = equals n ++ rest ∧ rest.head? ≠ some '=' := by
  induction cs with
  | nil => exact ⟨0, [], rfl, by simp⟩
  | cons c cs ih =>
    by_cases hc : c = '='
    · obtain ⟨n, rest, rfl, hrest⟩ := ih
      exact ⟨n + 1, rest, by simp [hc, equals, List.replicate_succ], hrest⟩
    · exact ⟨0, c :: cs, rfl, by simpa using hc⟩

theorem equalsSigns_equals (n : Nat) {cs : List Char} (h : cs.head? ≠ some '=') :
    equalsSigns (equals n ++ cs) = (n, cs) := by
  have hcs : cs.takeWhile (· == '=') = [] ∧ cs.dropWhile (· == '=') = cs := by
    cases cs with
    | nil => exact ⟨rfl, rfl⟩
    | cons c cs =>
      have hc : c ≠ '=' := fun hc => h (by simp [hc])
      simp [hc]
  rw [equalsSigns, List.takeWhile_append_of_pos (by simp [equals]),
    List.dropWhile_append_of_pos (by simp [equals]), hcs.1, hcs.2]
  simp [equals]

theorem FreeOf.of_append {stop cs ds : List Char} (h : FreeOf stop (cs ++ ds)) :
    FreeOf stop ds := by
  induction cs with
  | nil => exact h
  | cons c cs ih =>
    cases h with
    | cons _ h => exact ih h

/-- A long bracket's inside goes on behind a closing bracket of another level. -/
theorem longBody_close {level n : Nat} {cs : List Char} (hcs : cs.head? ≠ some '=')
    (hne : n = level → cs.head? ≠ some ']') (body : List Char) (line : Nat) :
    longBody level body line (']' :: (equals n ++ cs)) =
      longBody level (equals n ++ ']' :: body) line cs := by
  rw [longBody, if_pos rfl]
  split
  · rename_i m rest heq
    cases (equalsSigns_equals n hcs).symm.trans heq
    rw [if_neg (by simpa using fun h => hne h rfl)]
    rfl
  · rename_i m rest _ heq
    cases (equalsSigns_equals n hcs).symm.trans heq
    rfl

theorem longBody_closer (level : Nat) (body : List Char) (line : Nat) (rest : List Char) :
    longBody level body line (closer level ++ rest) = some (body, line, rest) := by
  have heq : equalsSigns (equals level ++ ']' :: rest) = (level, ']' :: rest) :=
    equalsSigns_equals level (by simp)
  have hcs : closer level ++ rest = ']' :: (equals level ++ ']' :: rest) := by simp [closer]
  rw [hcs, longBody, if_pos rfl]
  split <;> simp_all

/-- A line break before the inside of a long bracket takes at most a character of it along. -/
theorem exists_afterBreak {level : Nat} {cs : List Char} (hf : FreeOf (closer level) cs)
    (c : Char) :
    ∃ ds, FreeOf (closer level) ds ∧ ds.length ≤ cs.length ∧
      ∀ rest, afterBreak c (cs ++ (closer level ++ rest)) = ds ++ (closer level ++ rest) := by
  cases hf with
  | nil => exact ⟨[], .nil, Nat.le_refl _, fun rest => rfl⟩
  | @cons d ds hfirst hds =>
    by_cases hd : isBreak d && d != c
    · exact ⟨ds, hds, Nat.le_succ _, fun rest => by simp [afterBreak, hd]⟩
    · exact ⟨d :: ds, .cons hfirst hds, Nat.le_refl _, fun rest => by simp [afterBreak, hd]⟩

/-- The line on which a long bracket ends and what it holds are its own. -/
theorem longBody_of_freeOf {level : Nat} {inside : List Char} (hf : FreeOf (closer level) inside)
    (body : List Char) (line : Nat) :
    ∃ text stop, ∀ rest, longBody level body line (inside ++ (closer level ++ rest)) =
      some (text, stop, rest) := by
  match inside, hf with
  | [], _ => exact ⟨body, line, longBody_closer level body line⟩
  | c :: cs, hf =>
    obtain ⟨hfirst, hcs⟩ :
        ¬ closer level <+: c :: cs ++ closer level ∧ FreeOf (closer level) cs := by
      cases hf with
      | cons hfirst hcs => exact ⟨hfirst, hcs⟩
    by_cases hc : c = ']'
    · subst hc
      obtain ⟨n, ds, rfl, hds⟩ := exists_equals cs
      obtain ⟨text, stop, h⟩ :=
        longBody_of_freeOf (FreeOf.of_append hcs) (equals n ++ ']' :: body) line
      refine ⟨text, stop, fun rest => ?_⟩
      rw [List.cons_append, List.append_assoc, longBody_close, h]
      · cases ds with
        | nil => simp [closer]
        | cons d ds => simpa using hds
      · rintro rfl hhead
        refine hfirst ?_
        cases ds with
        | nil => exact ⟨equals n ++ [']'], by simp [closer]⟩
        | cons d ds =>
          obtain rfl : d = ']' := by simpa using hhead
          exact ⟨ds ++ closer n, by simp [closer]⟩
    · by_cases hbreak : isBreak c = true
      · obtain ⟨ds, hds, hlen, hafter⟩ := exists_afterBreak hcs c
        obtain ⟨text, stop, h⟩ := longBody_of_freeOf hds ('\n' :: body) (line + 1)
        refine ⟨text, stop, fun rest => ?_⟩
        rw [List.cons_append, longBody, if_neg hc, if_pos hbreak, hafter, h]
      · obtain ⟨text, stop, h⟩ := longBody_of_freeOf hcs (c :: body) line
        refine ⟨text, stop, fun rest => ?_⟩
        rw [List.cons_append, longBody, if_neg hc, if_neg hbreak, h]
termination_by inside.length
decreasing_by all_goals simp_all <;> omega

theorem longBracket_of_freeOf {level : Nat} {inside : List Char}
    (hf : FreeOf (closer level) inside) (what : String) (line : Nat) :
    ∃ text stop, ∀ rest, longBracket what level line (inside ++ (closer level ++ rest)) =
      .ok (text, stop, rest) := by
  have hread {cs : List Char} (hcs : FreeOf (closer level) cs) (start : Nat) :
      ∃ text stop, ∀ rest, longBody level [] start (cs ++ (closer level ++ rest)) =
        some (text, stop, rest) := longBody_of_freeOf hcs [] start
  cases hf with
  | nil =>
    obtain ⟨text, stop, h⟩ := hread .nil line
    exact ⟨text.reverse, stop, fun rest => by simp_all [longBracket, closer, isBreak]⟩
  | @cons c cs hfirst hcs =>
    by_cases hbreak : isBreak c = true
    · obtain ⟨ds, hds, -, hafter⟩ := exists_afterBreak hcs c
      obtain ⟨text, stop, h⟩ := hread hds (line + 1)
      exact ⟨text.reverse, stop, fun rest => by simp [longBracket, hbreak, hafter, h]⟩
    · obtain ⟨text, stop, h⟩ := hread (.cons hfirst hcs) line
      refine ⟨text.reverse, stop, fun rest => ?_⟩
      simp only [List.cons_append] at h
      simp [longBracket, hbreak, h]

theorem equalsSigns_eq {cs rest : List Char} {n : Nat} (h : equalsSigns cs = (n, rest)) :
    cs = equals n ++ rest := by
  cases h
  rw [← takeWhile_equals, List.takeWhile_append_dropWhile]

theorem afterBreak_suffix (c : Char) (cs : List Char) : afterBreak c cs <:+ cs := by
  unfold afterBreak
  split
  · split
    · exact List.suffix_cons _ _
    · exact List.suffix_rfl
  · exact List.suffix_rfl

/-- Where a long bracket has been read, its closing bracket stands before what is left. -/
theorem longBody_ok {level line stop : Nat} {body text cs rest : List Char}
    (h : longBody level body line cs = some (text, stop, rest)) : closer level ++ rest <:+ cs := by
  fun_induction longBody level body line cs with
  | case1 => cases h
  | case2 body line cs n rest' heq hn =>
    cases h
    obtain rfl : n = level := beq_iff_eq.1 hn
    rw [equalsSigns_eq heq]
    exact ⟨[], by simp [closer]⟩
  | case3 body line cs n rest' heq _ ih =>
    refine (ih h).trans ⟨']' :: equals n, ?_⟩
    rw [equalsSigns_eq heq, List.cons_append]
  | case4 body line cs n rest' _ heq ih =>
    refine (ih h).trans ⟨']' :: equals n, ?_⟩
    rw [equalsSigns_eq heq, List.cons_append]
  | case5 body line c cs _ _ ih =>
    exact (ih h).trans ((afterBreak_suffix c cs).trans (List.suffix_cons c cs))
  | case6 body line c cs _ _ ih => exact (ih h).trans (List.suffix_cons c cs)

/-- A long bracket ends at the first closing bracket of its level. -/
theorem longBracket_ok {what : String} {level line stop : Nat} {text cs rest : List Char}
    (h : longBracket what level line cs = .ok (text, stop, rest)) :
    ∃ inside, FreeOf (closer level) inside ∧ cs = inside ++ (closer level ++ rest) := by
  have hsuffix : closer level ++ rest <:+ cs := by
    cases cs with
    | nil => simp [longBracket, longBody] at h
    | cons c cs =>
      simp only [longBracket] at h
      split at h
      · rename_i hbody
        cases h
        have hbody := longBody_ok hbody
        split at hbody
        · exact hbody.trans ((afterBreak_suffix c cs).trans (List.suffix_cons c cs))
        · exact hbody
      · cases h
  have hinfix : closer level <:+: cs := (List.prefix_append _ rest).isInfix.trans hsuffix.isInfix
  obtain ⟨inside, rest', hf, rfl⟩ := exists_freeOf_of_infix hinfix
  obtain ⟨text', stop', hread⟩ := longBracket_of_freeOf hf what line
  cases (hread rest').symm.trans h
  exact ⟨inside, hf, rfl⟩

/-! ### Strings and comments -/

theorem bracketToken_of_freeOf {level : Nat} {body : List Char} (hf : FreeOf (closer level) body)
    (line : Nat) :
    ∃ l, ∀ rest, bracketToken line (equals level ++ '[' :: (body ++ (closer level ++ rest))) =
      .ok (l, rest) := by
  obtain ⟨text, stop, h⟩ := longBracket_of_freeOf hf "string" line
  have heq (rest : List Char) :
      equalsSigns (equals level ++ '[' :: (body ++ (closer level ++ rest))) =
        (level, '[' :: (body ++ (closer level ++ rest))) := equalsSigns_equals level (by simp)
  simp only [bracketToken, heq, h, bind, Except.bind, pure, Except.pure]
  exact ⟨_, fun rest => rfl⟩

theorem comment_bracket {level : Nat} {inside : List Char} (hf : FreeOf (closer level) inside)
    (line : Nat) :
    ∃ stop, ∀ rest, comment line (opener level ++ (inside ++ (closer level ++ rest))) =
      .ok (stop, rest) := by
  obtain ⟨text, stop, h⟩ := longBracket_of_freeOf hf "comment" line
  refine ⟨stop, fun rest => ?_⟩
  have heq : equalsSigns (equals level ++ '[' :: (inside ++ (closer level ++ rest))) =
      (level, '[' :: (inside ++ (closer level ++ rest))) := equalsSigns_equals level (by simp)
  simp [comment, opener, heq, h, bind, Except.bind, pure, Except.pure]

theorem comment_line {cs : List Char} (h : bracketLevel? cs = none) (line : Nat) :
    comment line cs = .ok (line, cs.dropWhile fun c => !isBreak c) := by
  unfold comment
  split
  · rename_i after
    split
    · rename_i level inside heq
      have hd : after.dropWhile (· == '=') = '[' :: inside := congrArg Prod.snd heq
      simp [bracketLevel?, hd] at h
    · rfl
  · rfl

end ScriptHost.Lua.Lexer
