/-! Blanks: the characters with the Unicode property White_Space, and texts with the blanks at
their ends removed. -/

namespace ScriptHost.Text

/-- A character with the Unicode property White_Space. -/
def isBlank (c : Char) : Bool :=
  let n := c.toNat
  (9 ≤ n && n ≤ 13) || n == 0x20 || n == 0x85 || n == 0xA0 || n == 0x1680 ||
    (0x2000 ≤ n && n ≤ 0x200A) || n == 0x2028 || n == 0x2029 || n == 0x202F || n == 0x205F ||
    n == 0x3000

/-- The text without the blanks it starts with. -/
def trimStart (s : String) : String := String.ofList (s.toList.dropWhile isBlank)

/-- The characters without the blanks they end with. -/
def dropBlankEnd (cs : List Char) : List Char := (cs.reverse.dropWhile isBlank).reverse

/-- The text without the blanks at both ends. -/
def trim (s : String) : String := String.ofList (dropBlankEnd (s.toList.dropWhile isBlank))

/-- The text with its ASCII letters in lower case and all else as it is. -/
def lower (s : String) : String := s.map Char.toLower

/-- Whether two texts differ at most in the case of ASCII letters. -/
def sameIgnoringCase (a b : String) : Bool := lower a == lower b

/-- The part before the first `c`, and the part after it when there is one. -/
def splitFirst (c : Char) (s : String) : String × Option String :=
  let cs := s.toList
  let head := cs.takeWhile (· != c)
  match cs.dropWhile (· != c) with
  | [] => (String.ofList head, none)
  | _ :: rest => (String.ofList head, some (String.ofList rest))

/-- The text up to its first line break, without a carriage return right before that break. -/
def firstLine (s : String) : String :=
  match splitFirst '\n' s with
  | (line, none) => line
  | (line, some _) =>
    match line.toList.reverse with
    | '\r' :: rest => String.ofList rest.reverse
    | _ => line

end ScriptHost.Text
