import Mathlib.Data.List.Basic
import ScriptHost.Proofs.Slang.Operators
import ScriptHost.Proofs.Slang.Tokens

/-! Translation keeps the tokens of a source. Slang has the lexical rules of Lua and four operators
more. Read by these rules, a source has the pieces that Lua finds in its translation, with each
operator in the place of the token that Lua has for it. -/

namespace ScriptHost.Compile.Slang

open Lua (LexError Lexeme isSpace)
open Lua.Lexer

variable {before : Option Char} {c : Char} {cs out : List Char} {line : Nat}

/-! ### One piece -/

/-- Two readings of a piece: the pieces correspond and the rests are in step, apart from a space
that separates a word from what follows it. At most `n` and `m` characters are left. -/
inductive SamePiece (n m : Nat) :
    Except LexError (List (Piece Operator) × Nat × List Char) →
    Except LexError (List (Piece Empty) × Nat × List Char) → Prop
  | error (e : LexError) : SamePiece n m (.error e) (.error e)
  | ok (ps : List (Piece Operator)) (line : Nat) {space : List Char} {last : Option Char}
      {cs out : List Char} : space = [] ∨ space = [' '] → Lowers last cs out → cs.length ≤ n →
      (space ++ out).length ≤ m →
      SamePiece n m (.ok (ps, line, cs)) (.ok (ps.map translated, line, space ++ out))

theorem SamePiece.of_lowers {last : Option Char} {n m : Nat} (h : Lowers last cs out)
    (ps : List (Piece Operator)) (line : Nat) (hn : cs.length ≤ n) (hm : out.length ≤ m) :
    SamePiece n m (.ok (ps, line, cs)) (.ok (ps.map translated, line, out)) :=
  .ok ps line (.inl rfl) h hn hm

theorem afterBreak_of_head? (h : ∀ d ∈ cs.head?, isBreak d = false) (c : Char) :
    afterBreak c cs = cs := by
  cases cs with
  | nil => rfl
  | cons d cs =>
    have hd : isBreak d = false := h d rfl
    simp [afterBreak, hd]

theorem isBreak_not_mem_marks (h : isBreak c = true) : c ∉ marks := by
  simp only [isBreak, Bool.or_eq_true, beq_iff_eq] at h
  rcases h with rfl | rfl <;> decide

theorem Lowers.afterBreak (h : Lowers before cs out) (c : Char) :
    ∃ last, Lowers last (afterBreak c cs) (afterBreak c out) := by
  by_cases hbreak : cs.head?.any isBreak = true
  · cases cs with
    | nil => cases hbreak
    | cons d cs =>
      have hd : isBreak d = true := hbreak
      obtain ⟨out, rfl, hrest⟩ := h.uncons (isBreak_not_mem_marks hd)
      by_cases hdc : (isBreak d && d != c) = true
      · simp only [Lua.Lexer.afterBreak, hdc, if_true]
        exact ⟨_, hrest⟩
      · simp only [Lua.Lexer.afterBreak, hdc]
        exact ⟨before, h⟩
  · have hcs : ∀ d ∈ cs.head?, isBreak d = false := fun d hd => by
      rw [Option.mem_def.1 hd] at hbreak
      simpa using hbreak
    have hout : ∀ d ∈ out.head?, isBreak d = false := by
      rcases h.head?_cases with h | ⟨-, d, hd, h⟩
      · rwa [h]
      · rw [hd]
        rcases h with rfl | rfl | ⟨-, rfl | rfl | rfl⟩ <;> simp [isBreak]
    rw [afterBreak_of_head? hcs, afterBreak_of_head? hout]
    exact ⟨before, h⟩

theorem piece_plain (hs : Stands c cs) (h : Lowers (some c) cs out) (fuel fuel' line : Nat) :
    SamePiece cs.length out.length (piece operator? fuel line c cs)
      (piece noOperators fuel' line c out) := by
  by_cases hbreak : isBreak c = true
  · obtain ⟨last, hafter⟩ := h.afterBreak c
    rw [piece_break hbreak, piece_break hbreak]
    exact .of_lowers hafter [] _ (length_afterBreak c cs) (length_afterBreak c out)
  by_cases hspace : isSpace c = true
  · rw [piece_space hbreak hspace, piece_space hbreak hspace]
    exact .of_lowers h [] _ (Nat.le_refl _) (Nat.le_refl _)
  by_cases hwide : 128 ≤ c.toNat
  · rw [piece_wide hbreak hspace hwide, piece_wide hbreak hspace hwide]
    have hpieces : ((byteTokens line c).map Piece.token).map translated =
        (byteTokens line c).map .token := List.map_map
    rw [← hpieces]
    exact .of_lowers h _ line (Nat.le_refl _) (Nat.le_refl _)
  have hcomment {text : List Char} (hs : Stands c text) (rest : List Char) (hc : c = '-')
      (hrest : text = '-' :: rest) : False := hs.hyphen hc (by rw [hrest]; rfl)
  have hs' := h.stands hs
  rw [piece_token fuel line hbreak hspace hwide (operator?_of_stands hs) (hcomment hs),
    piece_token fuel' line hbreak hspace hwide (by rfl) (hcomment hs')]
  have htoken := token_inStep hs h fuel fuel' line
  generalize hleft : token fuel line c cs = left at htoken
  generalize hright : token fuel' line c out = right at htoken
  cases htoken with
  | error e => exact .error e
  | ok l hrest =>
    exact .of_lowers hrest [.token l] l.line (length_token hs hleft) (length_token hs' hright)

theorem samePiece_operator {last : Option Char} (op : Operator)
    (hop : op = .word .not → cs.head? ≠ some '=') (h : Lowers last cs out) {tail : List Char}
    (htail : op.sign ++ cs = c :: tail) (before : Option Char) :
    ∃ space d rest, (space = [] ∨ space = [' ']) ∧
      op.lua before cs.head? ++ out = space ++ d :: rest ∧
        ∀ fuel fuel' line, SamePiece tail.length rest.length (piece operator? fuel line c tail)
          (piece noOperators fuel' line d rest) := by
  obtain ⟨c', tail', hsign, hbreak, hspace, hwide, hlen⟩ := op.exists_sign cs
  cases htail.symm.trans hsign
  have hpiece (fuel line : Nat) :
      piece operator? fuel line c tail = .ok ([.operator op line], line, cs) :=
    piece_operator hbreak hspace hwide (operator?_sign op hop htail) fuel line
  cases op with
  | notEqual =>
    refine ⟨[], '~', '=' :: out, .inl rfl, rfl, fun fuel fuel' line => ?_⟩
    rw [hpiece, piece_tilde]
    exact .of_lowers h [.operator .notEqual line] line hlen (Nat.le_succ _)
  | word op =>
    obtain ⟨d, rest, hword, hrest, hread⟩ := piece_word op (any_head?_spaceAfter h)
    refine ⟨spaceBefore before, d, rest, spaceBefore_cases before, ?_, fun fuel fuel' line => ?_⟩
    · rw [← hword]
      simp [Operator.lua, Operator.element, Element.lua]
    · rw [hpiece, hread]
      exact .ok [.operator (.word op) line] line (spaceAfter_cases _) h hlen hrest

/-! ### Strings and comments -/

theorem samePiece_quoted {last : Option Char} {quote : Char} {body : List Char}
    (hq : quote = '"' ∨ quote = '\'') (hi : Quotable quote body) (h : Lowers last cs out)
    {fuel fuel' : Nat} (hfuel : body.length < fuel) (hfuel' : body.length < fuel') (line : Nat) :
    SamePiece (body ++ quote :: cs).length (body ++ quote :: out).length
      (piece operator? fuel line quote (body ++ quote :: cs))
      (piece noOperators fuel' line quote (body ++ quote :: out)) := by
  have hquote : ¬ isBreak quote = true ∧ ¬ isSpace quote = true ∧ ¬ 128 ≤ quote.toNat ∧
      quote ≠ '-' ∧ (quote == '"' || quote == '\'') = true := by
    rcases hq with rfl | rfl <;> decide
  obtain ⟨hbreak, hspace, hwide, hhyphen, hquote⟩ := hquote
  have hop (text : List Char) : operator? quote text = none := by
    rcases hq with rfl | rfl <;> rfl
  rw [piece_token fuel line hbreak hspace hwide (hop _) fun _ h _ => hhyphen h,
    piece_token fuel' line hbreak hspace hwide rfl fun _ h _ => hhyphen h,
    token, if_pos hquote, token, if_pos hquote]
  rcases decided_of_quotable hq hi line (Cursor.encode quote) with ⟨e, he⟩ | ⟨stop, seen, hok⟩
  · simp only [within] at he
    rw [he fuel cs hfuel, he fuel' out hfuel']
    exact .error e
  · simp only [within] at hok
    rw [hok fuel cs hfuel, hok fuel' out hfuel']
    exact .of_lowers h [.token (quotedLexeme ⟨[], stop, seen⟩)] stop (by simp; omega)
      (by simp; omega)

theorem samePiece_comment {last : Option Char} {text text' : List Char} {stop : Nat}
    (hleft : comment line text = .ok (stop, cs)) (hright : comment line text' = .ok (stop, out))
    (h : Lowers last cs out) (hn : cs.length ≤ text.length) (hm : out.length ≤ text'.length)
    (fuel fuel' : Nat) :
    SamePiece ('-' :: text).length ('-' :: text').length
      (piece operator? fuel line '-' ('-' :: text))
      (piece noOperators fuel' line '-' ('-' :: text')) := by
  rw [piece_comment rfl, piece_comment rfl, hleft, hright]
  exact .of_lowers h [.comment line stop] stop (Nat.le_succ_of_le hn) (Nat.le_succ_of_le hm)

theorem span_note {body : List Char} (hbody : body.any isBreak = false)
    (hcs : ∀ c ∈ cs.head?, isBreak c = true) :
    (body ++ cs).dropWhile (fun c => !isBreak c) = cs := by
  rw [List.dropWhile_append_of_pos (by simpa using hbody)]
  exact (span_of_any_head? (by cases cs <;> simp_all)).2

theorem bracketLevel?_note {body : List Char} (hl : bracketLevel? (body ++ cs) = none)
    (hcs : ∀ c ∈ cs.head?, isBreak c = true) (hout : out.head? = cs.head?) :
    bracketLevel? (body ++ out) = none := by
  have hne {text : List Char} (ht : ∀ c ∈ text.head?, isBreak c = true) {d : Char}
      (hd : isBreak d = false) : text.head? ≠ some d := fun heq => by
    rw [ht d heq] at hd
    cases hd
  have hopens {text : List Char} (ht : ∀ c ∈ text.head?, isBreak c = true) :
      ¬ opensAfter text := by
    have hspan : text.dropWhile (· == '=') = text := by
      refine (span_of_any_head? ?_).2
      cases htext : text.head? with
      | none => rfl
      | some c => simpa using fun hc : c = '=' => hne ht rfl (hc ▸ htext)
    rw [opensAfter, hspan]
    exact hne ht rfl
  have hout' : ∀ c ∈ out.head?, isBreak c = true := hout ▸ hcs
  cases body with
  | nil =>
    cases out with
    | nil => rfl
    | cons c out => exact bracketLevel?_cons_of_ne fun hc => hne hout' rfl (congrArg some hc)
  | cons c body =>
    exact (bracketLevel?_cons_append_congr
      (iff_of_false (hopens hcs) (hopens hout')) c body).1 hl

theorem samePiece_note {last : Option Char} {body : List Char}
    (hl : bracketLevel? (body ++ cs) = none) (hbody : body.any isBreak = false)
    (hcs : ∀ c ∈ cs.head?, isBreak c = true) (h : Lowers last cs out) (fuel fuel' line : Nat) :
    SamePiece ('-' :: (body ++ cs)).length ('-' :: (body ++ out)).length
      (piece operator? fuel line '-' ('-' :: (body ++ cs)))
      (piece noOperators fuel' line '-' ('-' :: (body ++ out))) := by
  have hout : out.head? = cs.head? := by
    cases cs with
    | nil => rw [h.nil_left]
    | cons c cs =>
      obtain ⟨out, rfl, -⟩ := h.uncons (isBreak_not_mem_marks (hcs c rfl))
      rfl
  have hleft : comment line (body ++ cs) = .ok (line, cs) := by
    rw [comment_line hl, span_note hbody hcs]
  have hright : comment line (body ++ out) = .ok (line, out) := by
    rw [comment_line (bracketLevel?_note hl hcs hout), span_note hbody (hout ▸ hcs)]
  exact samePiece_comment hleft hright h (by simp) (by simp) fuel fuel'

theorem samePiece_bracketComment {last : Option Char} {level : Nat} {body : List Char}
    (hf : FreeOf (closer level) body) (h : Lowers last cs out) (fuel fuel' line : Nat) :
    let text (rest : List Char) := opener level ++ (body ++ (closer level ++ rest))
    SamePiece ('-' :: text cs).length ('-' :: text out).length
      (piece operator? fuel line '-' ('-' :: text cs))
      (piece noOperators fuel' line '-' ('-' :: text out)) := by
  obtain ⟨stop, hread⟩ := comment_bracket hf line
  exact samePiece_comment (hread cs) (hread out) h (by simp; omega) (by simp; omega) fuel fuel'

theorem samePiece_string {last : Option Char} {level : Nat} {body : List Char}
    (hf : FreeOf (closer level) body) (h : Lowers last cs out) (fuel fuel' line : Nat) :
    let tail (rest : List Char) := equals level ++ '[' :: (body ++ (closer level ++ rest))
    SamePiece (tail cs).length (tail out).length (piece operator? fuel line '[' (tail cs))
      (piece noOperators fuel' line '[' (tail out)) := by
  intro tail
  obtain ⟨l, hread⟩ := bracketToken_of_freeOf hf line
  have hpiece {Op : Type} {operator? : Operators Op} {rest : List Char}
      (hop : operator? '[' (tail rest) = none) (fuel : Nat) :
      piece operator? fuel line '[' (tail rest) = .ok ([.token l], l.line, rest) := by
    rw [piece_token fuel line (by decide) (by decide) (by decide) hop nofun, token,
      if_neg (by decide), if_pos (by decide), hread]
    rfl
  rw [hpiece rfl, hpiece rfl]
  exact .of_lowers h [.token l] l.line (by simp [tail]; omega) (by simp [tail]; omega)

/-! ### All pieces -/

/-- Behind a space at most, the two texts go on with pieces that correspond. -/
theorem Lowers.samePiece (h : Lowers before (c :: cs) out) :
    ∃ space d rest, (space = [] ∨ space = [' ']) ∧ out = space ++ d :: rest ∧
      ∀ fuel fuel' line, cs.length < fuel → rest.length < fuel' →
        SamePiece cs.length rest.length (piece operator? fuel line c cs)
          (piece noOperators fuel' line d rest) := by
  generalize htext : c :: cs = text at h
  cases h with
  | nil => cases htext
  | plain hs h =>
    cases htext
    exact ⟨[], _, _, .inl rfl, rfl, fun fuel fuel' line _ _ => piece_plain hs h fuel fuel' line⟩
  | operator op hop h =>
    obtain ⟨space, d, rest, hspace, hout, hsame⟩ := samePiece_operator op hop h htext.symm before
    exact ⟨space, d, rest, hspace, hout, fun fuel fuel' line _ _ => hsame fuel fuel' line⟩
  | @quoted _ _ _ body rest out hq hi h =>
    cases htext
    refine ⟨[], _, _, .inl rfl, rfl, fun fuel fuel' line hfuel hfuel' => ?_⟩
    have hbody {n : Nat} {tail : List Char} (hn : (body ++ c :: tail).length < n) :
        body.length < n := by
      rw [List.length_append] at hn
      omega
    exact samePiece_quoted hq hi h (hbody hfuel) (hbody hfuel') line
  | note hl hbody hcs h =>
    cases htext
    exact ⟨[], _, _, .inl rfl, rfl, fun fuel fuel' line _ _ =>
      samePiece_note hl hbody hcs h fuel fuel' line⟩
  | comment hf h =>
    cases htext
    exact ⟨[], _, _, .inl rfl, rfl, fun fuel fuel' line _ _ =>
      samePiece_bracketComment hf h fuel fuel' line⟩
  | @string _ _ level body rest out hf h =>
    have hopen (tail : List Char) : opener level ++ (body ++ (closer level ++ tail)) =
        '[' :: (equals level ++ '[' :: (body ++ (closer level ++ tail))) := by simp [opener]
    cases htext.trans (hopen rest)
    exact ⟨[], _, _, .inl rfl, hopen out, fun fuel fuel' line _ _ =>
      samePiece_string hf h fuel fuel' line⟩

theorem piecesFrom_space {space : List Char} (h : space = [] ∨ space = [' ']) {fuel : Nat}
    (hfuel : (space ++ cs).length < fuel) (line : Nat) :
    ∃ fuel', cs.length < fuel' ∧
      piecesFrom noOperators fuel line (space ++ cs) = piecesFrom noOperators fuel' line cs := by
  rcases h with rfl | rfl
  · exact ⟨fuel, hfuel, rfl⟩
  · cases fuel with
    | zero => cases hfuel
    | succ fuel =>
      refine ⟨fuel, Nat.lt_of_succ_lt_succ hfuel, ?_⟩
      have hspace : piece noOperators fuel line ' ' cs = .ok ([], line, cs) :=
        piece_space (by decide) (by decide) fuel line cs
      rw [List.singleton_append, piecesFrom_of_ok hspace]
      rfl

/-- A text and its translation have the same pieces up to the end, or up to the same error. -/
theorem Lowers.piecesFrom (h : Lowers before cs out) {space : List Char}
    (hspace : space = [] ∨ space = [' ']) {fuel fuel' : Nat} (hfuel : cs.length < fuel)
    (hfuel' : (space ++ out).length < fuel') (line : Nat) :
    piecesFrom noOperators fuel' line (space ++ out) =
      ((piecesFrom operator? fuel line cs).1.map translated,
        (piecesFrom operator? fuel line cs).2) := by
  induction fuel generalizing before cs out space fuel' line with
  | zero => cases hfuel
  | succ fuel ih =>
    obtain ⟨n, hn, hskip⟩ := piecesFrom_space hspace hfuel' line
    rw [hskip]
    cases cs with
    | nil =>
      obtain rfl := h.nil_left
      cases n with
      | zero => cases hn
      | succ n => rfl
    | cons c cs =>
      obtain ⟨space', d, rest, hspace', rfl, hsame⟩ := h.samePiece
      obtain ⟨m, hm, hskip'⟩ := piecesFrom_space hspace' hn line
      rw [hskip']
      cases m with
      | zero => cases hm
      | succ m =>
        have hstep := hsame fuel m line (Nat.lt_of_succ_lt_succ hfuel) (Nat.lt_of_succ_lt_succ hm)
        generalize hleft : piece operator? fuel line c cs = left at hstep
        generalize hright : piece noOperators m line d rest = right at hstep
        cases hstep with
        | error e =>
          rw [piecesFrom_of_error hleft, piecesFrom_of_error hright]
          rfl
        | ok ps line' hspace'' h' hlen hlen' =>
          rw [piecesFrom_of_ok hleft, piecesFrom_of_ok hright,
            ih h' hspace'' (Nat.lt_of_le_of_lt hlen (Nat.lt_of_succ_lt_succ hfuel))
              (Nat.lt_of_le_of_lt hlen' (Nat.lt_of_succ_lt_succ hm)), List.map_append]

/-- Sources without the comments that only Slang has, in which a comment of Lua runs over into
nothing but Lua. -/
def Faithful (source : String) : Prop :=
  ∀ es, elements source.toList = .ok es → ∀ e ∈ es, e.Faithful

/-- What Lua reads of a translation: the tokens of the source, with those of Lua for its operators,
in the same places, and the same comments. -/
theorem convert_preserves_tokens {source t : String} (hf : Faithful source)
    (ht : convert source = .ok t) :
    pieces noOperators t =
        ((pieces operator? source).1.map translated, (pieces operator? source).2) ∧
      lexemes t = ((pieces operator? source).1.filterMap fun p => (translated p).lexeme?,
        (pieces operator? source).2) := by
  obtain ⟨es, hcut, rfl⟩ := convert_eq_ok_iff.1 ht
  have hlowers := hcut.lowers (hf es (elements_eq_ok_iff.2 hcut)) none
  have hpieces : pieces noOperators (String.ofList (written none none es)) =
      ((pieces operator? source).1.map translated, (pieces operator? source).2) := by
    rw [pieces, String.toList_ofList]
    exact hlowers.piecesFrom (.inl rfl) (Nat.lt_succ_self _) (Nat.lt_succ_self _) 1
  refine ⟨hpieces, ?_⟩
  rw [lexemes_eq, hpieces, List.filterMap_map]
  rfl

theorem convert_preserves_tokens_words :
    Faithful "a&&!b--!\r\n" ∧ convert "a&&!b--!\r\n" = .ok "a and not b--!\r\n" ∧
      pieces noOperators "a and not b--!\r\n" =
        ((pieces operator? "a&&!b--!\r\n").1.map translated,
          (pieces operator? "a&&!b--!\r\n").2) := by
  have hes : elements "a&&!b--!\r\n".toList = .ok [.plain 'a', .word .and, .word .not, .plain 'b',
      .note ['!', '\r'], .plain '\n'] := by cbv
  have hover : elements ['\r'] = .ok [.plain '\r'] := by cbv
  have hf : Faithful "a&&!b--!\r\n" := by
    intro es h
    cases hes.symm.trans h
    have hnote : Element.Steady (.note ['!', '\r']) := .note hover (by simp [Element.Steady.plain])
    simp [Element.Faithful, Element.Steady.plain, hnote]
  have ht : convert "a&&!b--!\r\n" = .ok "a and not b--!\r\n" := by cbv
  exact ⟨hf, ht, (convert_preserves_tokens hf ht).1⟩

/-- A carriage return ends a comment for Lua and not for Slang, so an operator behind it stays. -/
theorem convert_keeps_operator_of_note :
    elements "--\r!x".toList = .ok [.note ['\r', '!', 'x']] ∧ convert "--\r!x" = .ok "--\r!x" ∧
      lexemes "--\r!x" ≠ ((pieces operator? "--\r!x").1.filterMap fun p => (translated p).lexeme?,
        (pieces operator? "--\r!x").2) := by
  refine ⟨by cbv, by cbv, ?_⟩
  have hlua : (lexemes "--\r!x").1.map Lexeme.token = [.char '!', .name "x", .eof] := by decide +kernel
  have hslang : ((pieces operator? "--\r!x").1.filterMap fun p => (translated p).lexeme?).map
      Lexeme.token = [.keyword .not, .name "x", .eof] := by decide +kernel
  intro heq
  rw [heq, hslang] at hlua
  cases hlua

end ScriptHost.Compile.Slang
