import ScriptHost.Lua.Lexer

/-! The lexical rules of Lua, extended with operators. A source is read piece by piece, and a
piece is a token of Lua, an operator that Lua does not have, or a comment. With no further operator
the tokens are those that the parser is given. -/

namespace ScriptHost.Lua.Lexer

/-- What a source is made of, apart from spaces. A comment is told by its first and its last
line. -/
inductive Piece (Op : Type)
  | token (l : Lexeme)
  | operator (op : Op) (line : Nat)
  | comment (first last : Nat)

/-- The operators that a language has beyond those of Lua: the one with which a text begins, and
what follows it. -/
abbrev Operators (Op : Type) := Char → List Char → Option (Op × List Char)

/-- Lua itself. -/
def noOperators : Operators Empty := fun _ _ => none

variable {Op : Type}

/-- What is read of a source at `c`: the pieces, the line and the rest. -/
def piece (operator? : Operators Op) (fuel line : Nat) (c : Char) (cs : List Char) :
    Except LexError (List (Piece Op) × Nat × List Char) :=
  if isBreak c then .ok ([], line + 1, afterBreak c cs)
  else if isSpace c then .ok ([], line, cs)
  else if 128 ≤ c.toNat then .ok ((byteTokens line c).map .token, line, cs)
  else
    match operator? c cs with
    | some (op, rest) => .ok ([.operator op line], line, rest)
    | none =>
      match c, cs with
      | '-', '-' :: rest =>
        (comment line rest).map fun (last, rest) => ([.comment line last], last, rest)
      | _, _ => (token fuel line c cs).map fun (l, rest) => ([.token l], l.line, rest)

/-- The pieces of a source from a point on, and the error that ends them unless the end of the
source does. -/
def piecesFrom (operator? : Operators Op) : (fuel line : Nat) → List Char →
    List (Piece Op) × Option LexError
  | 0, line, _ => ([.token ⟨.eof, line, .empty⟩], none)
  | fuel + 1, line, cs =>
    match cs with
    | [] => ([.token ⟨.eof, line, .empty⟩], none)
    | c :: cs =>
      match piece operator? fuel line c cs with
      | .error e => ([], some e)
      | .ok (ps, line, rest) =>
        let (more, e) := piecesFrom operator? fuel line rest
        (ps ++ more, e)

/-- The pieces of a source. -/
def pieces (operator? : Operators Op) (source : String) : List (Piece Op) × Option LexError :=
  piecesFrom operator? (source.toList.length + 1) 1 source.toList

def Piece.lexeme? : Piece Op → Option Lexeme
  | token l => some l
  | operator _ _ | comment _ _ => none

@[simp] theorem Piece.lexeme?_token (l : Lexeme) : (token l : Piece Op).lexeme? = some l := rfl

@[simp] theorem Piece.lexeme?_comp_token : (lexeme? : Piece Op → _) ∘ token = some := rfl

theorem piecesFrom_of_ok {operator? : Operators Op} {fuel line line' : Nat} {c : Char}
    {cs rest : List Char} {ps : List (Piece Op)}
    (h : piece operator? fuel line c cs = .ok (ps, line', rest)) :
    piecesFrom operator? (fuel + 1) line (c :: cs) =
      (ps ++ (piecesFrom operator? fuel line' rest).1,
        (piecesFrom operator? fuel line' rest).2) := by
  simp [piecesFrom, h]

theorem piecesFrom_of_error {operator? : Operators Op} {fuel line : Nat} {c : Char}
    {cs : List Char} {e : LexError} (h : piece operator? fuel line c cs = .error e) :
    piecesFrom operator? (fuel + 1) line (c :: cs) = ([], some e) := by
  simp [piecesFrom, h]

theorem piece_break {operator? : Operators Op} {c : Char} (h : isBreak c = true) (fuel line : Nat)
    (cs : List Char) :
    piece operator? fuel line c cs = .ok ([], line + 1, afterBreak c cs) := by
  unfold piece
  rw [if_pos h]

theorem piece_space {operator? : Operators Op} {c : Char} (hbreak : ¬ isBreak c = true)
    (h : isSpace c = true) (fuel line : Nat) (cs : List Char) :
    piece operator? fuel line c cs = .ok ([], line, cs) := by
  unfold piece
  rw [if_neg hbreak, if_pos h]

theorem piece_wide {operator? : Operators Op} {c : Char} (hbreak : ¬ isBreak c = true)
    (hspace : ¬ isSpace c = true) (h : 128 ≤ c.toNat) (fuel line : Nat) (cs : List Char) :
    piece operator? fuel line c cs = .ok ((byteTokens line c).map .token, line, cs) := by
  unfold piece
  rw [if_neg hbreak, if_neg hspace, if_pos h]

theorem piece_operator {operator? : Operators Op} {op : Op} {c : Char} {cs rest : List Char}
    (hbreak : ¬ isBreak c = true) (hspace : ¬ isSpace c = true) (hwide : ¬ 128 ≤ c.toNat)
    (h : operator? c cs = some (op, rest)) (fuel line : Nat) :
    piece operator? fuel line c cs = .ok ([.operator op line], line, rest) := by
  simp only [piece, hbreak, hspace, hwide, h, if_false, Bool.false_eq_true]

theorem piece_comment {operator? : Operators Op} {cs : List Char}
    (h : operator? '-' ('-' :: cs) = none) (fuel line : Nat) :
    piece operator? fuel line '-' ('-' :: cs) =
      (comment line cs).map fun (last, rest) => ([.comment line last], last, rest) := by
  simp only [piece, h]
  rfl

theorem piece_token {operator? : Operators Op} {c : Char} {cs : List Char} (fuel line : Nat)
    (hbreak : ¬ isBreak c = true) (hspace : ¬ isSpace c = true) (hwide : ¬ 128 ≤ c.toNat)
    (hop : operator? c cs = none) (hcomment : ∀ rest, c = '-' → cs = '-' :: rest → False) :
    piece operator? fuel line c cs =
      (token fuel line c cs).map fun (l, rest) => ([.token l], l.line, rest) := by
  simp only [piece, hbreak, hspace, hwide, hop, if_false, Bool.false_eq_true]

/-- The reader of tokens goes from piece to piece, and keeps the tokens. -/
theorem lexemesFrom_cons (done : List Lexeme) (fuel line : Nat) (c : Char) (cs : List Char) :
    lexemesFrom done (fuel + 1) line (c :: cs) =
      match piece noOperators fuel line c cs with
      | .error e => (done.reverse, some e)
      | .ok (ps, last, rest) =>
        lexemesFrom ((ps.filterMap Piece.lexeme?).reverse ++ done) fuel last rest := by
  rw [lexemesFrom.eq_def]
  simp only
  by_cases hbreak : isBreak c = true
  · rw [if_pos hbreak, piece_break hbreak]
    rfl
  by_cases hspace : isSpace c = true
  · rw [if_neg hbreak, if_pos hspace, piece_space hbreak hspace]
    rfl
  by_cases hwide : 128 ≤ c.toNat
  · rw [if_neg hbreak, if_neg hspace, if_pos hwide, piece_wide hbreak hspace hwide]
    simp
  rw [if_neg hbreak, if_neg hspace, if_neg hwide]
  split
  · rename_i rest
    rw [piece_comment rfl]
    cases comment line rest <;> rfl
  · rename_i hcomment
    rw [piece_token fuel line hbreak hspace hwide rfl hcomment]
    cases token fuel line c cs <;> rfl

theorem lexemesFrom_eq (done : List Lexeme) (fuel line : Nat) (cs : List Char) :
    lexemesFrom done fuel line cs =
      (done.reverse ++ (piecesFrom noOperators fuel line cs).1.filterMap Piece.lexeme?,
        (piecesFrom noOperators fuel line cs).2) := by
  induction fuel generalizing done line cs with
  | zero => simp [lexemesFrom, piecesFrom]
  | succ fuel ih =>
    cases cs with
    | nil => simp [lexemesFrom, piecesFrom]
    | cons c cs =>
      rw [lexemesFrom_cons]
      cases hpiece : piece noOperators fuel line c cs with
      | error e => simp [piecesFrom_of_error hpiece]
      | ok read =>
        obtain ⟨ps, last, rest⟩ := read
        simp [piecesFrom_of_ok hpiece, ih]

/-- The tokens of a source are those among its pieces. -/
theorem lexemes_eq (source : String) :
    lexemes source = ((pieces noOperators source).1.filterMap Piece.lexeme?,
      (pieces noOperators source).2) := by
  simp [lexemes, lexemesFrom_eq, pieces]

end ScriptHost.Lua.Lexer
