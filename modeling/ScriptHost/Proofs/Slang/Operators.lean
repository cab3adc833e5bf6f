import ScriptHost.Proofs.Lua.Pieces
import ScriptHost.Proofs.Slang.Scanning

/-! The operators of Slang, read as Lua reads its tokens, and the tokens that Lua reads where they
are translated. -/

namespace ScriptHost.Compile.Slang

open Lua (isSpace)
open Lua.Lexer

variable {before : Option Char} {c : Char} {cs out : List Char}

/-! ### In the source -/

/-- The operators, the longest first. -/
def Operator.all : List Operator := [.notEqual, .word .and, .word .or, .word .not]

/-- The longest operator at the start of a source, and what follows it. -/
def operator? : Operators Operator := fun c cs =>
  Operator.all.firstM fun op => (Text.after? op.sign (c :: cs)).map (op, ·)

/-- The token of Lua that has the meaning of an operator. -/
def Operator.token : Operator → Lua.Token
  | notEqual => .sign .notEqual
  | word .and => .keyword .and
  | word .or => .keyword .or
  | word .not => .keyword .not

/-- A piece of a source in its translation. -/
def translated : Piece Operator → Piece Empty
  | .token l => .token l
  | .operator op line => .token ⟨op.token, line, .empty⟩
  | .comment first last => .comment first last

theorem operator?_of_stands (h : Stands c cs) : operator? c cs = none := by
  have hnone (op : Operator) : Text.after? op.sign (c :: cs) = none := by
    refine Option.eq_none_iff_forall_ne_some.2 fun rest hrest => ?_
    have heq := Text.after?_eq_some_iff.1 hrest
    cases op with
    | notEqual => exact h.bang (List.cons.inj heq).1
    | word op =>
      cases op with
      | and => exact h.ampersand (List.cons.inj heq).1 (by rw [(List.cons.inj heq).2]; rfl)
      | or => exact h.bar (List.cons.inj heq).1 (by rw [(List.cons.inj heq).2]; rfl)
      | not => exact h.bang (List.cons.inj heq).1
  simp only [operator?, Operator.all, hnone, Option.map_none]
  rfl

theorem operator?_sign (op : Operator) (h : op = .word .not → cs.head? ≠ some '=')
    {tail : List Char} (htail : op.sign ++ cs = c :: tail) : operator? c tail = some (op, cs) := by
  cases op with
  | notEqual =>
    cases htail
    rfl
  | word op =>
    cases op with
    | and | or =>
      cases htail
      rfl
    | not =>
      obtain ⟨rfl, rfl⟩ : '!' = c ∧ cs = tail := List.cons.inj htail
      have hnone : Text.after? (Operator.sign .notEqual) ('!' :: cs) = none := by
        refine Option.eq_none_iff_forall_ne_some.2 fun rest hrest => ?_
        have heq := Text.after?_eq_some_iff.1 hrest
        exact h rfl (by rw [(List.cons.inj heq).2]; rfl)
      simp only [operator?, Operator.all, List.firstM, hnone, Option.map_none]
      rfl

theorem Operator.exists_sign (op : Operator) (cs : List Char) :
    ∃ c tail, op.sign ++ cs = c :: tail ∧ ¬ isBreak c = true ∧ ¬ isSpace c = true ∧
      ¬ 128 ≤ c.toNat ∧ cs.length ≤ tail.length := by
  cases op with
  | notEqual => exact ⟨_, _, rfl, by decide, by decide, by decide, Nat.le_succ _⟩
  | word op =>
    cases op with
    | and | or => exact ⟨_, _, rfl, by decide, by decide, by decide, Nat.le_succ _⟩
    | not => exact ⟨_, _, rfl, by decide, by decide, by decide, Nat.le_refl _⟩

/-! ### In the translation -/

theorem piece_tilde (fuel line : Nat) (out : List Char) :
    piece noOperators fuel line '~' ('=' :: out) =
      .ok ([.token ⟨Operator.notEqual.token, line, .empty⟩], line, out) := by
  rfl

theorem isDigit_of_isNameStart (h : isNameStart c = true) : c.isDigit = false := by
  refine Bool.eq_false_iff.2 fun hdigit => ?_
  rw [isDigit_iff] at hdigit
  simp only [isNameStart, Bool.or_eq_true, isAlpha_iff, beq_iff_eq] at h
  rcases h with h | rfl
  · omega
  · exact absurd hdigit (by decide)

theorem token_name {text rest : List Char} (hc : isNameStart c = true)
    (htext : text.all isNameChar = true) (h : rest.head?.any isNameChar = false)
    (fuel line : Nat) :
    token fuel line c (text ++ rest) = .ok (wordLexeme line (String.ofList (c :: text)), rest) := by
  obtain ⟨htake, hdrop⟩ := span_of_any_head? h
  have hne {d : Char} (hd : isNameStart d = false) : (c == d) = false := by
    refine beq_eq_false_iff_ne.2 fun heq => ?_
    rw [heq, hd] at hc
    cases hc
  have hquote : (c == '"' || c == '\'') = false := Bool.or_eq_false_iff.2 ⟨hne rfl, hne rfl⟩
  have hbracket : (c == '[') = false := hne rfl
  have hpoint : (c == '.') = false := hne rfl
  simp only [token, hquote, hbracket, isDigit_of_isNameStart hc, hpoint, Bool.false_and,
    Bool.or_self, Bool.false_eq_true, if_false, hc, if_true]
  rw [List.takeWhile_append_of_pos (List.all_eq_true.1 htext),
    List.dropWhile_append_of_pos (List.all_eq_true.1 htext), htake, hdrop, List.append_nil]

theorem piece_word (op : WordOp) {rest : List Char} (h : rest.head?.any isNameChar = false) :
    ∃ d tail, op.word ++ rest = d :: tail ∧ rest.length ≤ tail.length ∧
      ∀ fuel line, piece noOperators fuel line d tail =
        .ok ([.token ⟨(Operator.word op).token, line, .empty⟩], line, rest) := by
  have hread {d : Char} {text : List Char}
      (hd : ¬ isBreak d = true ∧ ¬ isSpace d = true ∧ ¬ 128 ≤ d.toNat ∧ d ≠ '-')
      (hstart : isNameStart d = true) (htext : text.all isNameChar = true) (fuel line : Nat) :
      piece noOperators fuel line d (text ++ rest) =
        .ok ([.token (wordLexeme line (String.ofList (d :: text)))],
          (wordLexeme line (String.ofList (d :: text))).line, rest) := by
    obtain ⟨hbreak, hspace, hwide, hhyphen⟩ := hd
    rw [piece_token fuel line hbreak hspace hwide rfl fun _ hd _ => hhyphen hd,
      token_name hstart htext h]
    rfl
  have hlen (text : List Char) : rest.length ≤ (text ++ rest).length := by simp
  cases op with
  | and => exact ⟨'a', _, rfl, hlen ['n', 'd'], hread (by decide) (by decide) (by decide)⟩
  | or => exact ⟨'o', _, rfl, hlen ['r'], hread (by decide) (by decide) (by decide)⟩
  | not => exact ⟨'n', _, rfl, hlen ['o', 't'], hread (by decide) (by decide) (by decide)⟩

/-- Behind a word, its space or what follows it is no part of a name. -/
theorem any_head?_spaceAfter (h : Lowers before cs out) :
    (spaceAfter cs.head? ++ out).head?.any isNameChar = false := by
  rcases spaceAfter_cases cs.head? with hs | hs
  · rw [hs, List.nil_append]
    cases cs with
    | nil =>
      obtain rfl := h.nil_left
      rfl
    | cons c cs =>
      have hc : Text.isBlank c = true ∨ c = ')' := by
        simpa [spaceAfter, Decidable.or_iff_not_imp_left] using hs
      have hname : isNameChar c = false := by
        refine Bool.eq_false_iff.2 fun hname => ?_
        have hsolid := (Solid.of_isNameChar hname).apart
        rcases hc with hc | rfl
        · simp [spaceBefore, hc] at hsolid
        · cases hname
      have hmark : c ∉ marks := by
        intro hmem
        rcases hc with hc | rfl
        · simp only [marks, List.mem_cons, List.not_mem_nil, or_false] at hmem
          rcases hmem with rfl | rfl | rfl | rfl | rfl | rfl | rfl | rfl <;> cases hc
        · exact absurd hmem (by decide)
      obtain ⟨out, rfl, -⟩ := h.uncons hmark
      simpa using hname
  · rw [hs]
    rfl

end ScriptHost.Compile.Slang
