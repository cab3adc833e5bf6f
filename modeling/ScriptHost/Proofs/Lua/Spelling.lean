import ScriptHost.Proofs.Lua.Lookahead
import ScriptHost.Proofs.Slang.TokenStream

/-! The pieces of a Lua source as a grammar: which texts spell one, and before which rests. Reading a
piece decides how a source begins. -/

namespace ScriptHost.Lua.Lexer

open Compile.Slang (FreeOf Stands bracketLevel? bracketLevel?_cons_append_congr
  bracketLevel?_cons_of_ne bracketLevel?_eq bracketLevel?_eq_none_iff bracketLevel?_opener closer
  equals opener)

variable {text rest T T' : List Char} {c : Char} {cs : List Char} {fuel line stop : Nat}
  {ps : List (Piece Empty)}

/-! ### Pieces -/

/-- Characters of ASCII that are neither blank nor part of a name, a numeral, a string or a long
bracket. -/
structure Ordinary (c : Char) : Prop where
  isBreak : ¬ isBreak c = true
  isSpace : ¬ isSpace c = true
  narrow : ¬ 128 ≤ c.toNat
  quote : ¬ (c == '"' || c == '\'') = true
  bracket : ¬ (c == '[') = true
  isDigit : ¬ c.isDigit = true
  isNameStart : ¬ isNameStart c = true

/-- A text spells pieces that begin on a line, up to a line, where the rest follows. -/
inductive Spells (line : Nat) :
    List (Piece Empty) → (stop : Nat) → (text rest : List Char) → Prop
  | lineBreak {c : Char} {rest : List Char} : isBreak c = true →
      rest.head?.any (fun d => isBreak d && d != c) = false → Spells line [] (line + 1) [c] rest
  | pair {c d : Char} {rest : List Char} : isBreak c = true → isBreak d = true → d ≠ c →
      Spells line [] (line + 1) [c, d] rest
  | space {c : Char} {rest : List Char} : ¬ isBreak c = true → isSpace c = true →
      Spells line [] line [c] rest
  | wide {c : Char} {rest : List Char} : ¬ isBreak c = true → ¬ isSpace c = true →
      128 ≤ c.toNat → Spells line ((byteTokens line c).map .token) line [c] rest
  | note {body rest : List Char} : bracketLevel? (body ++ rest) = none →
      body.any isBreak = false → (∀ c ∈ rest.head?, isBreak c = true) →
      Spells line [.comment line line] line ('-' :: '-' :: body) rest
  | comment {level stop : Nat} {body rest : List Char} : FreeOf (closer level) body →
      (∀ rest, comment line (opener level ++ (body ++ (closer level ++ rest))) = .ok (stop, rest)) →
      Spells line [.comment line stop] stop
        ('-' :: '-' :: (opener level ++ (body ++ closer level))) rest
  | quoted {quote : Char} {inside rest : List Char} {l : Lexeme} : quote = '"' ∨ quote = '\'' →
      Guarded quote inside →
      (∀ fuel rest, inside.length < fuel →
        token fuel line quote (inside ++ quote :: rest) = .ok (l, rest)) →
      Spells line [.token l] l.line (quote :: (inside ++ [quote])) rest
  | string {level : Nat} {body rest : List Char} {l : Lexeme} : FreeOf (closer level) body →
      (∀ rest, bracketToken line (equals level ++ '[' :: (body ++ (closer level ++ rest))) =
        .ok (l, rest)) →
      Spells line [.token l] l.line (opener level ++ (body ++ closer level)) rest
  | bracket {rest : List Char} : bracketLevel? ('[' :: rest) = none → rest.head? ≠ some '=' →
      Spells line [.token ⟨.char '[', line, .empty⟩] line ['['] rest
  | numeral {c : Char} {text rest : List Char} {l : Lexeme} :
      (c.isDigit || (c == '.' && (text ++ rest).head?.any Char.isDigit)) = true →
      Numeral line (c :: text) l rest → Spells line [.token l] l.line (c :: text) rest
  | word {c : Char} {text rest : List Char} : isNameStart c = true →
      text.all isNameChar = true → rest.head?.any isNameChar = false →
      Spells line [.token (wordLexeme line (String.ofList (c :: text)))] line (c :: text) rest
  | sign {c : Char} {text rest : List Char} {s : Sign} : Ordinary c →
      (c = '.' → (text ++ rest).head?.any Char.isDigit = false) → s.text.toList = c :: text →
      sign? c (text ++ rest) = some (s, rest) →
      Spells line [.token ⟨.sign s, line, .empty⟩] line (c :: text) rest
  | char {c : Char} {rest : List Char} : Ordinary c →
      (c = '.' → rest.head?.any Char.isDigit = false) → (c = '-' → rest.head? ≠ some '-') →
      sign? c rest = none → Spells line [.token ⟨.char c, line, .empty⟩] line [c] rest

/-! ### Reading decides -/

/-- A comment that begins with an opening bracket ends with the closing bracket of that level. -/
theorem comment_opener_ok {level : Nat} {inside : List Char}
    (h : comment line (opener level ++ inside) = .ok (stop, rest)) :
    ∃ body, FreeOf (closer level) body ∧ inside = body ++ (closer level ++ rest) := by
  have heq : equalsSigns (equals level ++ '[' :: inside) = (level, '[' :: inside) :=
    equalsSigns_equals level (by simp)
  simp only [comment, opener, List.cons_append, List.append_assoc, List.nil_append, heq, bind,
    Except.bind] at h
  split at h
  · cases h
  · rename_i read hbracket
    obtain ⟨text, stop', rest'⟩ := read
    cases h
    exact longBracket_ok hbracket

/-- A token that begins with an opening bracket ends with the closing bracket of that level. -/
theorem bracketToken_opener_ok {level : Nat} {inside : List Char} {l : Lexeme}
    (h : bracketToken line (equals level ++ '[' :: inside) = .ok (l, rest)) :
    ∃ body, FreeOf (closer level) body ∧ inside = body ++ (closer level ++ rest) := by
  have heq : equalsSigns (equals level ++ '[' :: inside) = (level, '[' :: inside) :=
    equalsSigns_equals level (by simp)
  simp only [bracketToken, heq, bind, Except.bind] at h
  split at h
  · cases h
  · rename_i read hbracket
    obtain ⟨text, stop', rest'⟩ := read
    cases h
    exact longBracket_ok hbracket

theorem spells_of_comment (h : comment line cs = .ok (stop, rest)) :
    ∃ text, '-' :: '-' :: cs = text ++ rest ∧ Spells line [.comment line stop] stop text rest := by
  cases hl : bracketLevel? cs with
  | none =>
    rw [comment_line hl] at h
    cases h
    have hcs := List.takeWhile_append_dropWhile (p := fun c => !isBreak c) (l := cs)
    refine ⟨'-' :: '-' :: cs.takeWhile (fun c => !isBreak c), by simp [hcs], .note ?_ ?_ ?_⟩
    · rwa [hcs]
    · exact List.any_eq_false.2 fun c hc => by
        simpa using List.all_eq_true.1 List.all_takeWhile c hc
    · intro c hc
      have hhead := List.head?_dropWhile_not (fun c => !isBreak c) cs
      rw [hc] at hhead
      simpa using hhead
  | some read =>
    obtain ⟨level, inside⟩ := read
    obtain rfl := bracketLevel?_eq hl
    obtain ⟨body, hf, rfl⟩ := comment_opener_ok h
    obtain ⟨stop', hstop⟩ := comment_bracket hf line
    cases (hstop _).symm.trans h
    exact ⟨_, by simp, .comment hf hstop⟩

theorem spells_of_quoted {l : Lexeme} (hq : c = '"' ∨ c = '\'') (hfuel : cs.length < fuel)
    (h : token fuel line c cs = .ok (l, rest)) :
    ∃ text, c :: cs = text ++ rest ∧ Spells line [.token l] l.line text rest := by
  have hquote : (c == '"' || c == '\'') = true := by simpa using hq
  have htoken (fuel : Nat) (cs : List Char) : token fuel line c cs =
      (quoted c fuel { rest := cs, line, seen := Cursor.encode c }).map fun cur =>
        (quotedLexeme cur, cur.rest) := by
    rw [token, if_pos hquote]
  rw [htoken] at h
  obtain ⟨cur, hcur, heq⟩ := exists_of_map_eq_ok h
  cases heq
  obtain ⟨inside, hi, hrest⟩ := quoted_ok hq hcur
  simp only at hrest
  obtain rfl := hrest
  have hinside : inside.length < fuel := by
    rw [List.length_append] at hfuel
    omega
  rcases decided_of_guarded hq hi line (Cursor.encode c) with ⟨e, he⟩ | ⟨stop, seen, hok⟩
  · have he := he fuel cur.rest hinside
    simp only [within] at he
    cases he.symm.trans hcur
  · refine ⟨c :: (inside ++ [c]), by simp, .quoted hq hi fun fuel' rest hfuel' => ?_⟩
    have hread (fuel : Nat) (rest : List Char) (hlt : inside.length < fuel) := hok fuel rest hlt
    simp only [within] at hread
    rw [htoken, hread fuel' rest hfuel']
    have hcur := Except.ok.inj ((hread fuel cur.rest hinside).symm.trans hcur)
    rw [← hcur]
    rfl

theorem spells_of_bracketToken {l : Lexeme} (h : bracketToken line cs = .ok (l, rest)) :
    ∃ text, '[' :: cs = text ++ rest ∧ Spells line [.token l] l.line text rest := by
  cases hl : bracketLevel? ('[' :: cs) with
  | none =>
    rw [Compile.Slang.bracketToken_of_stands (Compile.Slang.stands_bracket hl)] at h
    split at h
    · rename_i hlevel
      cases h
      refine ⟨['['], rfl, .bracket hl fun hhead => ?_⟩
      obtain ⟨tail, rfl⟩ := List.head?_eq_some_iff.1 hhead
      simp at hlevel
    · cases h
  | some read =>
    obtain ⟨level, inside⟩ := read
    have hcs := bracketLevel?_eq hl
    simp only [opener, List.cons_append, List.append_assoc, List.nil_append, List.cons.injEq,
      true_and] at hcs
    subst hcs
    obtain ⟨body, hf, rfl⟩ := bracketToken_opener_ok h
    obtain ⟨l, hl⟩ := bracketToken_of_freeOf hf line
    cases (hl _).symm.trans h
    exact ⟨_, by simp [opener], .string hf hl⟩

theorem sign_text {s : Sign} (h : sign? c cs = some (s, rest)) :
    ∃ text, s.text.toList = c :: text ∧ cs = text ++ rest := by
  obtain ⟨s', -, hafter⟩ := Compile.Slang.exists_of_firstM h
  obtain ⟨rest', hrest, heq⟩ := Option.map_eq_some_iff.1 hafter
  cases heq
  have hsplit := Text.after?_eq_some_iff.1 hrest
  have hne : s.text.toList ≠ [] := by cases s <;> decide
  obtain ⟨d, text, htext⟩ := List.exists_cons_of_ne_nil hne
  rw [htext, List.cons_append, List.cons.injEq] at hsplit
  obtain ⟨rfl, rfl⟩ := hsplit
  exact ⟨text, htext, rfl⟩

theorem spells_of_signToken {l : Lexeme} (hc : Ordinary c)
    (hpoint : c = '.' → cs.head?.any Char.isDigit = false)
    (hcomment : c = '-' → cs.head? ≠ some '-') (h : signToken line c cs = (l, rest)) :
    ∃ text, c :: cs = text ++ rest ∧ Spells line [.token l] l.line text rest := by
  unfold signToken at h
  split at h
  · rename_i hsign
    cases h
    obtain ⟨text, htext, rfl⟩ := sign_text hsign
    exact ⟨c :: text, rfl, .sign hc hpoint htext hsign⟩
  · rename_i hsign
    cases h
    exact ⟨[c], rfl, .char hc hpoint hcomment hsign⟩

theorem spells_of_word (hc : isNameStart c = true) :
    ∃ text, c :: cs = text ++ cs.dropWhile isNameChar ∧
      Spells line [.token (wordLexeme line (String.ofList (c :: cs.takeWhile isNameChar)))] line
        text (cs.dropWhile isNameChar) := by
  refine ⟨c :: cs.takeWhile isNameChar, by simp [List.takeWhile_append_dropWhile],
    .word hc List.all_takeWhile ?_⟩
  have hhead := List.head?_dropWhile_not isNameChar cs
  cases hrest : (cs.dropWhile isNameChar).head? with
  | none => rfl
  | some d => simpa [hrest] using hhead

theorem wordLexeme_line (line : Nat) (word : String) : (wordLexeme line word).line = line := by
  unfold wordLexeme
  split <;> rfl

theorem spells_of_token {l : Lexeme} (hbreak : ¬ isBreak c = true) (hspace : ¬ isSpace c = true)
    (hwide : ¬ 128 ≤ c.toNat) (hcomment : c = '-' → cs.head? ≠ some '-')
    (hfuel : cs.length < fuel) (h : token fuel line c cs = .ok (l, rest)) :
    ∃ text, c :: cs = text ++ rest ∧ Spells line [.token l] l.line text rest := by
  by_cases hquote : (c == '"' || c == '\'') = true
  · exact spells_of_quoted (by simpa using hquote) hfuel h
  rw [token, if_neg hquote] at h
  by_cases hbracket : (c == '[') = true
  · rw [if_pos hbracket] at h
    obtain rfl := beq_iff_eq.1 hbracket
    exact spells_of_bracketToken h
  rw [if_neg hbracket] at h
  by_cases hnum : (c.isDigit || (c == '.' && cs.head?.any Char.isDigit)) = true
  · rw [if_pos hnum] at h
    have hlen := Compile.Slang.length_numeral (Compile.Slang.digit_or_point hnum) h
    obtain ⟨text, htext, hnumeral⟩ := numeral_eq_ok_iff.1 h
    cases text with
    | nil =>
      rw [List.nil_append] at htext
      rw [← htext, List.length_cons] at hlen
      omega
    | cons d text =>
      obtain ⟨rfl, rfl⟩ := List.cons.inj htext
      refine ⟨c :: text, rfl, .numeral hnum hnumeral⟩
  rw [if_neg hnum] at h
  by_cases hname : isNameStart c = true
  · rw [if_pos hname] at h
    cases h
    obtain ⟨text, htext, hspells⟩ := @spells_of_word c cs line hname
    exact ⟨text, htext, by rwa [wordLexeme_line]⟩
  rw [if_neg hname] at h
  simp only [Bool.or_eq_true, Bool.and_eq_true, beq_iff_eq, not_or, not_and,
    Bool.not_eq_true] at hnum
  have hordinary : Ordinary c := ⟨hbreak, hspace, hwide, hquote, hbracket, by simp [hnum.1], hname⟩
  exact spells_of_signToken hordinary hnum.2 hcomment (Except.ok.inj h)

theorem spells_of_piece (hfuel : cs.length < fuel)
    (h : piece noOperators fuel line c cs = .ok (ps, stop, rest)) :
    ∃ text, c :: cs = text ++ rest ∧ Spells line ps stop text rest := by
  by_cases hbreak : isBreak c = true
  · rw [piece_break hbreak] at h
    cases h
    cases cs with
    | nil => exact ⟨[c], rfl, .lineBreak hbreak rfl⟩
    | cons d cs =>
      by_cases hd : (isBreak d && d != c) = true
      · rw [afterBreak, if_pos hd]
        simp only [Bool.and_eq_true, bne_iff_ne] at hd
        exact ⟨[c, d], rfl, .pair hbreak hd.1 hd.2⟩
      · rw [afterBreak, if_neg hd]
        exact ⟨[c], rfl, .lineBreak hbreak (by simpa using hd)⟩
  by_cases hspace : isSpace c = true
  · rw [piece_space hbreak hspace] at h
    cases h
    exact ⟨[c], rfl, .space hbreak hspace⟩
  by_cases hwide : 128 ≤ c.toNat
  · rw [piece_wide hbreak hspace hwide] at h
    cases h
    exact ⟨[c], rfl, .wide hbreak hspace hwide⟩
  by_cases hcomment : c = '-' ∧ cs.head? = some '-'
  · obtain ⟨rfl, hhead⟩ := hcomment
    obtain ⟨cs, rfl⟩ := List.head?_eq_some_iff.1 hhead
    rw [piece_comment rfl] at h
    obtain ⟨⟨last, rest'⟩, hread, heq⟩ := exists_of_map_eq_ok h
    cases heq
    exact spells_of_comment hread
  · rw [not_and] at hcomment
    rw [piece_token fuel line hbreak hspace hwide rfl fun rest hc hcs =>
      hcomment hc (by rw [hcs]; rfl)] at h
    obtain ⟨⟨l, rest'⟩, hread, heq⟩ := exists_of_map_eq_ok h
    cases heq
    exact spells_of_token hbreak hspace hwide hcomment hfuel hread

/-! ### The grammar is complete -/

/-- A character of a kind that has no blanks is none. -/
theorem not_blank_of {p : Char → Bool} (hc : p c = true)
    (hp : ∀ d ∈ [' ', '\t', '\n', '\r', '\x0b', '\x0c'], p d = false) :
    ¬ isBreak c = true ∧ ¬ isSpace c = true := by
  have hne : ∀ d ∈ [' ', '\t', '\n', '\r', '\x0b', '\x0c'], c ≠ d := by
    rintro d hd rfl
    cases (hp c hd).symm.trans hc
  simp only [List.forall_mem_cons] at hne
  simp [isBreak, isSpace, hne]

theorem token_numeral (hnum : (c.isDigit || (c == '.' && cs.head?.any Char.isDigit)) = true)
    (fuel line : Nat) : token fuel line c cs = numeral line (c :: cs) := by
  have hquote : ¬ (c == '"' || c == '\'') = true := by
    intro h
    rcases Bool.or_eq_true_iff.1 h with h | h <;> obtain rfl := beq_iff_eq.1 h <;> cases hnum
  have hbracket : ¬ (c == '[') = true := by
    intro h
    obtain rfl := beq_iff_eq.1 h
    cases hnum
  rw [token, if_neg hquote, if_neg hbracket, if_pos hnum]

theorem token_ordinary (hc : Ordinary c) (hpoint : c = '.' → cs.head?.any Char.isDigit = false)
    (fuel line : Nat) : token fuel line c cs = .ok (signToken line c cs) := by
  have hnum : ¬ (c.isDigit || (c == '.' && cs.head?.any Char.isDigit)) = true := by
    simpa [hc.isDigit] using hpoint
  rw [token, if_neg hc.quote, if_neg hc.bracket, if_neg hnum, if_neg hc.isNameStart]

theorem bracketToken_single (hl : bracketLevel? ('[' :: cs) = none) (hcs : cs.head? ≠ some '=')
    (line : Nat) : bracketToken line cs = .ok (⟨.char '[', line, .empty⟩, cs) := by
  have htake : (cs.takeWhile (· == '=')).length = 0 := by
    cases cs with
    | nil => rfl
    | cons d cs =>
      have hd : (d == '=') = false := by simpa using hcs
      rw [List.takeWhile_cons, hd]
      rfl
  rw [Compile.Slang.bracketToken_of_stands (Compile.Slang.stands_bracket hl),
    if_pos (by simp [htake])]

/-- A token that begins with a character of its own is a piece. -/
theorem piece_of_token {l : Lexeme} (hbreak : ¬ isBreak c = true) (hspace : ¬ isSpace c = true)
    (hwide : ¬ 128 ≤ c.toNat) (hcomment : c = '-' → cs.head? ≠ some '-')
    (h : token fuel line c cs = .ok (l, rest)) :
    piece noOperators fuel line c cs = .ok ([.token l], l.line, rest) := by
  rw [piece_token fuel line hbreak hspace hwide rfl fun rest hc hcs =>
    hcomment hc (by rw [hcs]; rfl), h]
  rfl

theorem piece_of_numeral {l : Lexeme}
    (hnum : (c.isDigit || (c == '.' && cs.head?.any Char.isDigit)) = true)
    (h : numeral line (c :: cs) = .ok (l, rest)) (fuel : Nat) :
    piece noOperators fuel line c cs = .ok ([.token l], l.line, rest) := by
  have hc : ¬ isBreak c = true ∧ ¬ isSpace c = true ∧ ¬ 128 ≤ c.toNat ∧ c ≠ '-' := by
    rcases Compile.Slang.digit_or_point hnum with rfl | hc
    · decide
    · have hbounds := Compile.Slang.isDigit_iff.1 hc
      have hblank := not_blank_of (p := Char.isDigit) hc (by simp [Char.isDigit])
      refine ⟨hblank.1, hblank.2, by omega, ?_⟩
      rintro rfl
      cases hc
  exact piece_of_token hc.1 hc.2.1 hc.2.2.1 (fun h => absurd h hc.2.2.2)
    ((token_numeral hnum fuel line).trans h)

theorem piece_of_word (hc : isNameStart c = true) (htext : text.all isNameChar = true)
    (hrest : rest.head?.any isNameChar = false) (fuel line : Nat) :
    piece noOperators fuel line c (text ++ rest) =
      .ok ([.token (wordLexeme line (String.ofList (c :: text)))], line, rest) := by
  have hblank := not_blank_of (p := isNameStart) hc (by
    simp only [List.mem_cons, List.not_mem_nil, or_false]
    rintro d (rfl | rfl | rfl | rfl | rfl | rfl) <;> rfl)
  have hwide : ¬ 128 ≤ c.toNat := by
    simp only [isNameStart, Bool.or_eq_true, Compile.Slang.isAlpha_iff, beq_iff_eq] at hc
    rcases hc with hc | rfl
    · omega
    · decide
  have hhyphen : c ≠ '-' := by
    rintro rfl
    cases hc
  rw [piece_of_token hblank.1 hblank.2 hwide (fun h => absurd h hhyphen)
    (Compile.Slang.token_name hc htext hrest fuel line), wordLexeme_line]

/-- What is read at the start of a text that begins with a spelling. -/
theorem Spells.piece (h : Spells line ps stop text rest) :
    ∃ c tail, text ++ rest = c :: tail ∧
      ∀ fuel, tail.length < fuel → piece noOperators fuel line c tail = .ok (ps, stop, rest) := by
  cases h with
  | @lineBreak c _ hc hrest =>
    refine ⟨c, rest, rfl, fun fuel _ => ?_⟩
    rw [piece_break hc]
    cases rest with
    | nil => rfl
    | cons d rest =>
      rw [afterBreak, if_neg]
      simpa using hrest
  | @pair c d _ hc hd hne =>
    refine ⟨c, d :: rest, rfl, fun fuel _ => ?_⟩
    rw [piece_break hc, afterBreak, if_pos (by simp [hd, hne])]
  | @space c _ hbreak hspace => exact ⟨c, rest, rfl, fun fuel _ => piece_space hbreak hspace fuel line rest⟩
  | @wide c _ hbreak hspace hwide =>
    exact ⟨c, rest, rfl, fun fuel _ => piece_wide hbreak hspace hwide fuel line rest⟩
  | @note body _ hl hbody hrest =>
    refine ⟨'-', '-' :: (body ++ rest), rfl, fun fuel _ => ?_⟩
    rw [piece_comment rfl, comment_line hl, Compile.Slang.span_note hbody hrest]
    rfl
  | @comment level stop body _ hf hread =>
    refine ⟨'-', '-' :: (opener level ++ (body ++ (closer level ++ rest))), by simp, fun fuel _ => ?_⟩
    rw [piece_comment rfl, hread]
    rfl
  | @quoted quote inside _ l hq hi hread =>
    refine ⟨quote, inside ++ quote :: rest, by simp, fun fuel hfuel => ?_⟩
    have hquote : ¬ isBreak quote = true ∧ ¬ isSpace quote = true ∧ ¬ 128 ≤ quote.toNat ∧
        quote ≠ '-' := by
      rcases hq with rfl | rfl <;> decide
    have hinside : inside.length < fuel := by
      rw [List.length_append] at hfuel
      omega
    exact piece_of_token hquote.1 hquote.2.1 hquote.2.2.1 (fun h => absurd h hquote.2.2.2)
      (hread fuel rest hinside)
  | @string level body _ l hf hread =>
    refine ⟨'[', equals level ++ '[' :: (body ++ (closer level ++ rest)), by simp [opener],
      fun fuel _ => ?_⟩
    exact piece_of_token (by decide) (by decide) (by decide) (absurd · (by decide)) (hread rest)
  | bracket hl hrest =>
    exact ⟨'[', rest, rfl, fun fuel _ => piece_of_token (by decide) (by decide) (by decide)
      (absurd · (by decide)) (bracketToken_single hl hrest line)⟩
  | @numeral c text _ l hnum hnumeral =>
    exact ⟨c, text ++ rest, rfl, fun fuel _ => piece_of_numeral hnum
      (numeral_eq_ok_iff.2 ⟨c :: text, rfl, hnumeral⟩) fuel⟩
  | @word c text _ hc htext hrest =>
    exact ⟨c, text ++ rest, rfl, fun fuel _ => piece_of_word hc htext hrest fuel line⟩
  | @sign c text _ s hc hpoint htext hsign =>
    refine ⟨c, text ++ rest, rfl, fun fuel _ => ?_⟩
    have hhyphen : c ≠ '-' := by
      rintro rfl
      cases hsign
    have hread := token_ordinary hc hpoint fuel line
    rw [signToken, hsign] at hread
    exact piece_of_token hc.isBreak hc.isSpace hc.narrow (fun h => absurd h hhyphen) hread
  | @char c _ hc hpoint hcomment hsign =>
    refine ⟨c, rest, rfl, fun fuel _ => ?_⟩
    have hread := token_ordinary hc hpoint fuel line
    rw [signToken, hsign] at hread
    exact piece_of_token hc.isBreak hc.isSpace hc.narrow hcomment hread

/-! ### What follows a spelling -/

/-- Both texts begin with the same sign, or with none. -/
theorem Abuts.sign? {S S' : List Char} (h : Abuts S S') (c : Char) :
    (sign? c S = none ∧ sign? c S' = none) ∨
      ∃ s T T', sign? c S = some (s, T) ∧ sign? c S' = some (s, T') ∧ Abuts T T' := by
  have htexts : ∀ s ∈ signs c, ' ' ∉ s.text.toList ∧ '-' ∉ s.text.toList := fun s _ => by
    cases s <;> decide
  exact (Abuts.same c h).firstM (fun s => s.text.toList) (signs c) htexts

/-- A spelling before a space is one before a hyphen, unless it is a hyphen itself. -/
theorem Spells.abuts (h : Spells line ps stop text T) (hT : Abuts T T')
    (hhyphen : T = [' '] → text.getLast? ≠ some '-') : Spells line ps stop text T' := by
  have hopens := hT.opensAfter_iff
  cases h with
  | lineBreak hc hrest =>
    refine .lineBreak hc ?_
    rw [hT.any_head? rfl, hrest]
  | pair hc hd hne => exact .pair hc hd hne
  | space hbreak hspace => exact .space hbreak hspace
  | wide hbreak hspace hwide => exact .wide hbreak hspace hwide
  | comment hf hread => exact .comment hf hread
  | quoted hq hi hread => exact .quoted hq hi hread
  | string hf hread => exact .string hf hread
  | @note body _ hl hbody hrest =>
    cases hT with
    -- a space would be part of the comment
    | here => cases hrest ' ' rfl
    | same c hT =>
      refine .note ?_ hbody hrest
      cases body with
      | nil => exact bracketLevel?_cons_of_ne (by rintro rfl; cases hrest '[' rfl)
      | cons d body => exact (bracketLevel?_cons_append_congr hopens d body).1 hl
  | bracket hl hrest =>
    refine .bracket ((bracketLevel?_cons_append_congr hopens '[' []).1 hl) ?_
    rcases hT.head?_cases with h | ⟨-, h⟩ <;> rw [h]
    · exact hrest
    · decide
  | @numeral c text _ l hnum hnumeral =>
    have hhead : (text ++ T').head?.any Char.isDigit = (text ++ T).head?.any Char.isDigit :=
      (hT.append text).any_head? rfl
    exact .numeral (by rwa [hhead]) (hnumeral.abuts hT rfl (Compile.Slang.digit_or_point hnum).symm)
  | word hc htext hrest =>
    refine .word hc htext ?_
    rw [hT.any_head? rfl, hrest]
  | @sign c text _ s hc hpoint htext hsign =>
    have hhead : (text ++ T').head?.any Char.isDigit = (text ++ T).head?.any Char.isDigit :=
      (hT.append text).any_head? rfl
    refine .sign hc (fun h => hhead.trans (hpoint h)) htext ?_
    rcases (hT.append text).sign? c with ⟨hnone, -⟩ | ⟨s', U, U', hS, hS', -⟩
    · cases hnone.symm.trans hsign
    · cases hS.symm.trans hsign
      obtain ⟨text', htext', hU'⟩ := sign_text hS'
      obtain ⟨-, rfl⟩ := List.cons.inj (htext.symm.trans htext')
      rwa [← List.append_cancel_left hU'] at hS'
  | @char c _ hc hpoint hcomment hsign =>
    refine .char hc (fun h => (hT.any_head? rfl).trans (hpoint h)) (fun h => ?_) ?_
    · rcases hT.head?_cases with hhead | ⟨hspace, -⟩
      · rw [hhead]
        exact hcomment h
      · exact absurd (congrArg some h) (hhyphen hspace)
    · rcases hT.sign? c with ⟨-, hnone⟩ | ⟨s, U, U', hS, -, -⟩
      · exact hnone
      · cases hS.symm.trans hsign

/-- What is followed by a hyphen does not end with one: two hyphens open a comment. -/
theorem Spells.getLast?_ne_hyphen (h : Spells line ps stop text rest)
    (hrest : rest.head? = some '-') : text.getLast? ≠ some '-' := by
  have hclosed (level : Nat) (lead body : List Char) :
      (lead ++ (opener level ++ (body ++ closer level))).getLast? ≠ some '-' := by
    have hlast : lead ++ (opener level ++ (body ++ closer level)) =
        lead ++ opener level ++ body ++ ']' :: equals level ++ [']'] := by simp [closer]
    rw [hlast, List.getLast?_concat]
    decide
  cases h with
  | lineBreak hc | space _ hc | wide _ _ hc =>
    rintro heq
    cases heq
    revert hc
    decide
  | pair _ hd =>
    rintro heq
    cases heq
    cases hd
  | note _ _ hbreak => cases hbreak '-' hrest
  | comment => exact hclosed _ ['-', '-'] _
  | @quoted quote inside _ l hq =>
    rw [← List.cons_append, List.getLast?_concat]
    rcases hq with rfl | rfl <;> decide
  | string => exact hclosed _ [] _
  | bracket => decide
  | numeral _ hnumeral => exact hnumeral.getLast?_ne_hyphen
  | @word c text _ hc htext =>
    intro hlast
    have hall : ∀ d ∈ c :: text, isNameChar d = true :=
      List.forall_mem_cons.2 ⟨Compile.Slang.isNameChar_of_isNameStart hc, List.all_eq_true.1 htext⟩
    cases hall '-' (List.mem_of_getLast? hlast)
  | @sign c text _ s _ _ htext =>
    rw [← htext]
    cases s <;> decide
  | char _ _ hcomment =>
    rintro heq
    cases heq
    exact hcomment rfl hrest

end ScriptHost.Lua.Lexer
