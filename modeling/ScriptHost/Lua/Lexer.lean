import ScriptHost.Lua.Token
import ScriptHost.Text.Leading

/-! Cutting a Lua source into tokens. Each reader takes the characters from a point on and gives a
result with the characters after it, which are never more than before; the tokens of a source are
found by reading one after the other. -/

namespace ScriptHost.Lua

/-- Why a source has no further token: the rule that is broken, the line, and what the message names
as the place. -/
structure LexError where
  message : String
  line : Nat
  near : Bytes

namespace Lexer

/-- A place in a source: the characters from there on, the number of the line, and the spelling of
the token read so far, in reverse. -/
structure Cursor where
  rest : List Char
  line : Nat
  seen : List UInt8

namespace Cursor

/-- The UTF-8 encoding of a character, in reverse. -/
def encode (c : Char) : List UInt8 := (String.singleton c).toUTF8.toList.reverse

/-- Puts a character into the spelling. -/
def see (cur : Cursor) (c : Char) : Cursor := { cur with seen := encode c ++ cur.seen }

def seeByte (cur : Cursor) (b : UInt8) : Cursor := { cur with seen := b :: cur.seen }

/-- Takes the last `n` bytes out of the spelling. -/
def unsee (cur : Cursor) (n : Nat) : Cursor := { cur with seen := cur.seen.drop n }

def spelling (cur : Cursor) : Bytes := .ofList cur.seen.reverse

/-- The next character is put into the spelling and passed. -/
def save (cur : Cursor) : Cursor :=
  match cur.rest with
  | [] => cur
  | c :: rest => { cur.see c with rest }

/-- An error that names the text read so far. -/
def failAt {α : Type} (cur : Cursor) (message : String) : Except LexError α :=
  .error ⟨message, cur.line, .ofString "'" ++ cur.spelling.untilZero ++ .ofString "'"⟩

/-- An error at the end of the source. -/
def failEnd {α : Type} (cur : Cursor) (message : String) : Except LexError α :=
  .error ⟨message, cur.line, .ofString "<eof>"⟩

/-- An error in an escape sequence, which names the offending character too. -/
def failEscape {α : Type} (cur : Cursor) (message : String) : Except LexError α :=
  cur.save.failAt message

end Cursor

def isBreak (c : Char) : Bool := c == '\n' || c == '\r'

def isNameStart (c : Char) : Bool := c.isAlpha || c == '_'

def isNameChar (c : Char) : Bool := c.isAlphanum || c == '_'

/-- What follows a line break that starts with `c`: the two break characters in either order count
as one break. -/
def afterBreak (c : Char) : List Char → List Char
  | d :: rest => if isBreak d && d != c then rest else d :: rest
  | [] => []

theorem length_afterBreak (c : Char) (cs : List Char) : (afterBreak c cs).length ≤ cs.length := by
  unfold afterBreak
  split
  · split <;> simp
  · simp

/-! ### Long brackets -/

/-- The equals signs at the start, and what follows them. -/
def equalsSigns (cs : List Char) : Nat × List Char :=
  ((cs.takeWhile (· == '=')).length, cs.dropWhile (· == '='))

theorem length_equalsSigns (cs : List Char) : (equalsSigns cs).2.length ≤ cs.length := by
  simp only [equalsSigns]
  induction cs with
  | nil => simp
  | cons c cs ih =>
    simp only [List.dropWhile_cons]
    split
    · exact Nat.le_succ_of_le ih
    · exact Nat.le_refl _

/-- The inside of a long bracket up to its end, in reverse, and the cursor after it; `none` when the
source ends first. Line breaks of either spelling become one character. -/
def longBody (level : Nat) (body : List Char) (line : Nat) (cs : List Char) :
    Option (List Char × Nat × List Char) :=
  match cs with
  | [] => none
  | c :: cs =>
    if c = ']' then
      match _h : equalsSigns cs with
      | (n, ']' :: rest) =>
        if n == level then some (body, line, rest)
        else longBody level (List.replicate n '=' ++ ']' :: body) line (']' :: rest)
      | (n, rest) => longBody level (List.replicate n '=' ++ ']' :: body) line rest
    else if isBreak c then longBody level ('\n' :: body) (line + 1) (afterBreak c cs)
    else longBody level (c :: body) line cs
termination_by cs.length
decreasing_by
  · have := length_equalsSigns cs
    rw [‹equalsSigns cs = _›] at this
    simp only [List.length_cons] at this ⊢
    omega
  · have := length_equalsSigns cs
    rw [‹equalsSigns cs = _›] at this
    simp only [List.length_cons] at this ⊢
    omega
  · have := length_afterBreak c cs
    simp only [List.length_cons]
    omega
  · simp

/-- A long bracket of a level, with `cs` right after its opening: its contents and what follows. -/
def longBracket (what : String) (level line : Nat) (cs : List Char) :
    Except LexError (List Char × Nat × List Char) :=
  let (inside, start) := match cs with
    | c :: rest => if isBreak c then (afterBreak c rest, line + 1) else (cs, line)
    | [] => (cs, line)
  match longBody level [] start inside with
  | some (body, stop, rest) => .ok (body.reverse, stop, rest)
  | none =>
    let breaks := countBreaks inside start
    .error ⟨s!"unfinished long {what} (starting at line {line})", breaks, .ofString "<eof>"⟩
where
  /-- The number of the last line. -/
  countBreaks (cs : List Char) (line : Nat) : Nat :=
    match cs with
    | [] => line
    | c :: cs => if isBreak c then countBreaks (afterBreak c cs) (line + 1) else countBreaks cs line
  termination_by cs.length
  decreasing_by
    · have := length_afterBreak c cs
      simp only [List.length_cons]
      omega
    · simp

/-! ### Quoted strings -/

/-- A hexadecimal digit of an escape, which comes after one more character. -/
def hexEscapeDigit (cur : Cursor) : Except LexError (Nat × Cursor) :=
  let cur := cur.save
  match cur.rest with
  | c :: _ =>
    match Text.hexDigit? c with
    | some d => .ok (d, cur)
    | none => cur.failEscape "hexadecimal digit expected"
  | [] => cur.failEscape "hexadecimal digit expected"

/-- `\xXX`, from its `x` on, with the backslash in the spelling: the byte, and the cursor after it. -/
def hexEscape (cur : Cursor) : Except LexError (UInt8 × Cursor) := do
  let (high, cur) ← hexEscapeDigit cur
  let (low, cur) ← hexEscapeDigit cur
  return ((high * 16 + low).toUInt8, { cur.unsee 3 with rest := cur.rest.drop 1 })

/-- The digits of a `\u` escape after the first, up to the first character that is none. -/
def unicodeDigits (value : Nat) (cur : Cursor) : List Char → Except LexError (Nat × Cursor)
  | [] => .ok (value, { cur with rest := [] })
  | c :: rest =>
    match Text.hexDigit? c with
    | none => .ok (value, { cur with rest := c :: rest })
    | some d =>
      if value > 0x7FFFFFF then { cur with rest := c :: rest }.failEscape "UTF-8 value too large"
      else unicodeDigits (value * 16 + d) (cur.see c) rest

/-- The bytes that encode a number below `2 ^ 31`, first byte first: the scheme of UTF-8, taken
further than to the last character. -/
def encodeNumber (n : Nat) : List UInt8 :=
  let tail := fun k => (0x80 + n / Nat.pow 64 k % 64).toUInt8
  if n < 0x80 then [n.toUInt8]
  else if n < 0x800 then [(0xC0 + n / 64).toUInt8, tail 0]
  else if n < 0x10000 then [(0xE0 + n / Nat.pow 64 2).toUInt8, tail 1, tail 0]
  else if n < 0x200000 then [(0xF0 + n / Nat.pow 64 3).toUInt8, tail 2, tail 1, tail 0]
  else if n < 0x4000000 then [(0xF8 + n / Nat.pow 64 4).toUInt8, tail 3, tail 2, tail 1, tail 0]
  else [(0xFC + n / Nat.pow 64 5).toUInt8, tail 4, tail 3, tail 2, tail 1, tail 0]

/-- The end of a `\u` escape, after its digits; `start` bytes of the spelling stand before it. -/
def closeUnicode (start value : Nat) (cur : Cursor) : Except LexError (List UInt8 × Cursor) :=
  match cur.rest with
  | '\x7d' :: rest => .ok (encodeNumber value, { cur.unsee (cur.seen.length - start) with rest })
  | _ => cur.failEscape "missing '\x7d'"

/-- `\u{XXX}`, from its `u` on, with the backslash in the spelling. -/
def unicodeEscape (cur : Cursor) : Except LexError (List UInt8 × Cursor) :=
  let start := cur.seen.length - 1
  let cur := cur.save
  match cur.rest with
  | '\x7b' :: _ => do
    let (first, cur) ← hexEscapeDigit cur
    let cur := cur.save
    let (value, cur) ← unicodeDigits first cur cur.rest
    closeUnicode start value cur
  | _ => cur.failEscape "missing '\x7b'"

/-- Up to three decimal digits of an escape. -/
def decimalDigits : Nat → Nat → Cursor → Nat × Cursor
  | 0, value, cur => (value, cur)
  | n + 1, value, cur =>
    match cur.rest with
    | c :: _ =>
      match Text.digit? c with
      | some d => decimalDigits n (value * 10 + d) cur.save
      | none => (value, cur)
    | [] => (value, cur)

/-- `\ddd`, from its first digit on, with the backslash in the spelling. -/
def decimalEscape (cur : Cursor) : Except LexError (UInt8 × Cursor) :=
  let start := cur.seen.length - 1
  let (value, cur) := decimalDigits 3 0 cur
  if value > 255 then cur.failEscape "decimal escape too large"
  else .ok (value.toUInt8, cur.unsee (cur.seen.length - start))

/-- The spaces after `\z`, with their line breaks. -/
def skipSpaces : (fuel : Nat) → Cursor → Cursor
  | 0, cur => cur
  | fuel + 1, cur =>
    match cur.rest with
    | c :: rest =>
      if isBreak c then skipSpaces fuel { cur with rest := afterBreak c rest, line := cur.line + 1 }
      else if isSpace c then skipSpaces fuel { cur with rest }
      else cur
    | [] => cur

/-- The escapes that stand for one character. -/
def simpleEscapes : List (Char × UInt8) :=
  [('a', 7), ('b', 8), ('f', 12), ('n', 10), ('r', 13), ('t', 9), ('v', 11), ('\\', 92), ('"', 34),
    ('\'', 39)]

/-- An escape, with the backslash in the spelling and the cursor after it; afterwards the spelling
holds what the escape stands for. -/
def escape (fuel : Nat) (cur : Cursor) : Except LexError Cursor :=
  match cur.rest with
  | [] => .ok cur
  | c :: rest =>
    match simpleEscapes.lookup c with
    | some b => .ok { (cur.unsee 1).seeByte b with rest }
    | none =>
      if c == 'x' then do
        let (b, cur) ← hexEscape cur
        return cur.seeByte b
      else if c == 'u' then do
        let (bs, cur) ← unicodeEscape cur
        return bs.foldl Cursor.seeByte cur
      else if isBreak c then
        .ok { (cur.unsee 1).seeByte 10 with rest := afterBreak c rest, line := cur.line + 1 }
      else if c == 'z' then .ok (skipSpaces fuel { cur.unsee 1 with rest })
      else if c.isDigit then do
        let (b, cur) ← decimalEscape cur
        return cur.seeByte b
      else cur.failEscape "invalid escape sequence"

/-- The rest of a quoted string: the spelling afterwards holds both quotes and the contents. -/
def quoted (quote : Char) : (fuel : Nat) → Cursor → Except LexError Cursor
  | 0, cur => cur.failEnd "unfinished string"
  | fuel + 1, cur =>
    match cur.rest with
    | [] => cur.failEnd "unfinished string"
    | c :: _ =>
      if c == quote then .ok cur.save
      else if isBreak c then cur.failAt "unfinished string"
      else if c == '\\' then
        match escape fuel cur.save with
        | .error e => .error e
        | .ok cur => quoted quote fuel cur
      else quoted quote fuel cur.save

/-! ### Numerals -/

/-- The characters of a numeral: digits and points, and an exponent mark with a sign. -/
def numeralChars (mark : Char → Bool) : List Char → List Char × List Char
  | [] => ([], [])
  | c :: cs =>
    if mark c then
      match cs with
      | s :: cs' =>
        if s == '+' || s == '-' then
          let (taken, rest) := numeralChars mark cs'
          (c :: s :: taken, rest)
        else
          let (taken, rest) := numeralChars mark (s :: cs')
          (c :: taken, rest)
      | [] => ([c], [])
    else if (Text.hexDigit? c).isSome || c == '.' then
      let (taken, rest) := numeralChars mark cs
      (c :: taken, rest)
    else ([], c :: cs)
termination_by cs => cs.length

/-- What stands before the digits of a hexadecimal numeral. -/
def hexLeads : List (List Char) :=
  [['0', 'x'], ['0', 'X'], ['.', '0', 'x'], ['.', '0', 'X']]

/-- The letters that stand before an exponent. -/
def exponentMark (hex : Bool) (c : Char) : Bool :=
  if hex then c == 'p' || c == 'P' else c == 'e' || c == 'E'

/-- The token that a numeral of this spelling makes, and the rest. -/
def numeralOf (line : Nat) (spelling rest : List Char) : Except LexError (Lexeme × List Char) :=
  let bytes := Bytes.ofString (String.ofList spelling)
  match Number.parse? spelling with
  | some n => .ok (⟨.number n, line, bytes⟩, rest)
  | none => .error ⟨"malformed number", line, .ofString "'" ++ bytes ++ .ofString "'"⟩

/-- The token of a numeral with these characters, before a rest. A letter that it touches becomes part
of it, and it is malformed then. -/
def numeralToken (line : Nat) (taken rest : List Char) : Except LexError (Lexeme × List Char) :=
  match rest with
  | c :: rest' =>
    if isNameStart c then numeralOf line (taken ++ [c]) rest' else numeralOf line taken rest
  | [] => numeralOf line taken []

/-- A numeral that begins with these characters. -/
def numeral (line : Nat) (cs : List Char) : Except LexError (Lexeme × List Char) :=
  let hex? := hexLeads.firstM fun lead => (Text.after? lead cs).map (lead, ·)
  let (start, after) := hex?.getD ([], cs)
  let (taken, rest) := numeralChars (exponentMark hex?.isSome) after
  numeralToken line (start ++ taken) rest

/-! ### Tokens -/

/-- The signs of more than one character that begin with `c`, the longest first. -/
def signs (c : Char) : List Sign :=
  match c with
  | '/' => [.floorDivide]
  | '.' => [.dots, .concat]
  | '=' => [.equal]
  | '>' => [.greaterEqual, .shiftRight]
  | '<' => [.lessEqual, .shiftLeft]
  | '~' => [.notEqual]
  | ':' => [.doubleColon]
  | _ => []

/-- The longest sign at the start of a source, and what follows it. -/
def sign? (c : Char) (cs : List Char) : Option (Sign × List Char) :=
  (signs c).firstM fun s => (Text.after? s.text.toList (c :: cs)).map (s, ·)

def keyword? (word : String) : Option Keyword := Keyword.all.find? (·.text == word)

/-- What begins with an opening bracket: a long string, or the bracket itself. -/
def bracketToken (line : Nat) (cs : List Char) : Except LexError (Lexeme × List Char) :=
  let (level, after) := equalsSigns cs
  match after with
  | '[' :: inside => do
    let (body, stop, rest) ← longBracket "string" level line inside
    let contents := Bytes.ofString (String.ofList body)
    let open_ := Bytes.ofString ("[" ++ String.ofList (List.replicate level '=') ++ "[")
    let close := Bytes.ofString ("]" ++ String.ofList (List.replicate level '=') ++ "]")
    return (⟨.string contents, stop, open_ ++ contents ++ close⟩, rest)
  | _ =>
    if level == 0 then .ok (⟨.char '[', line, .empty⟩, cs)
    else
      .error ⟨"invalid long string delimiter", line,
        .ofString ("'[" ++ String.ofList (List.replicate level '=') ++ "'")⟩

/-- The token of a word: a reserved one, or a name. -/
def wordLexeme (line : Nat) (word : String) : Lexeme :=
  match keyword? word with
  | some k => ⟨.keyword k, line, .empty⟩
  | none => ⟨.name word, line, .ofString word⟩

/-- The longest sign that begins with `c`, or that character alone. -/
def signToken (line : Nat) (c : Char) (cs : List Char) : Lexeme × List Char :=
  match sign? c cs with
  | some (s, rest) => (⟨.sign s, line, .empty⟩, rest)
  | none => (⟨.char c, line, .empty⟩, cs)

/-- The token of a string between quotes that has been read. -/
def quotedLexeme (cur : Cursor) : Lexeme :=
  ⟨.string (Bytes.ofList ((cur.seen.drop 1).reverse.drop 1)), cur.line, cur.spelling⟩

/-- The token that begins with the ASCII character `c`, which is no space and begins no comment. -/
def token (fuel line : Nat) (c : Char) (cs : List Char) : Except LexError (Lexeme × List Char) :=
  if c == '"' || c == '\'' then
    (quoted c fuel { rest := cs, line, seen := Cursor.encode c }).map fun cur =>
      (quotedLexeme cur, cur.rest)
  else if c == '[' then bracketToken line cs
  else if c.isDigit || (c == '.' && cs.head?.any Char.isDigit) then numeral line (c :: cs)
  else if isNameStart c then
    .ok (wordLexeme line (String.ofList (c :: cs.takeWhile isNameChar)), cs.dropWhile isNameChar)
  else .ok (signToken line c cs)

/-- A comment after its two hyphens: the line on which it ends, and what follows it. -/
def comment (line : Nat) (cs : List Char) : Except LexError (Nat × List Char) :=
  match cs with
  | '[' :: after =>
    match equalsSigns after with
    | (level, '[' :: inside) => do
      let (_, stop, rest) ← longBracket "comment" level line inside
      return (stop, rest)
    | _ => .ok (line, cs.dropWhile fun c => !isBreak c)
  | _ => .ok (line, cs.dropWhile fun c => !isBreak c)

/-- Each byte of a character outside ASCII is a token. -/
def byteTokens (line : Nat) (c : Char) : List Lexeme :=
  (Cursor.encode c).reverse.map fun b => ⟨.byte b, line, .empty⟩

/-- The tokens from a point on, with `done` those before it, in reverse, and the error that ends
them unless the end of the source does. -/
def lexemesFrom (done : List Lexeme) : (fuel line : Nat) → List Char → List Lexeme × Option LexError
  | 0, line, _ => ((⟨.eof, line, .empty⟩ :: done).reverse, none)
  | fuel + 1, line, cs =>
    match cs with
    | [] => ((⟨.eof, line, .empty⟩ :: done).reverse, none)
    | c :: rest =>
      if isBreak c then lexemesFrom done fuel (line + 1) (afterBreak c rest)
      else if isSpace c then lexemesFrom done fuel line rest
      else if 128 ≤ c.toNat then lexemesFrom ((byteTokens line c).reverse ++ done) fuel line rest
      else
        match c, rest with
        | '-', '-' :: rest =>
          match comment line rest with
          | .error e => (done.reverse, some e)
          | .ok (stop, rest) => lexemesFrom done fuel stop rest
        | _, _ =>
          match token fuel line c rest with
          | .error e => (done.reverse, some e)
          | .ok (l, rest) => lexemesFrom (l :: done) fuel l.line rest

/-- The tokens of a source, up to its end or to the first error. -/
def lexemes (source : String) : List Lexeme × Option LexError :=
  let cs := source.toList
  lexemesFrom [] (cs.length + 1) 1 cs

end Lexer

end ScriptHost.Lua
