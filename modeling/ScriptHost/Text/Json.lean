import ScriptHost.Text.Number

/-! Objects of names and texts written as JSON, with every entry on a line of its own. -/

namespace ScriptHost.Text

inductive Json
  | null
  | number (n : Nat)
  | string (s : String)
  | object (fields : List (String × Json))

namespace Json

/-- The escapes of characters that have one of two characters. -/
def shortEscapes : List (Char × Char) :=
  [('"', '"'), ('\\', '\\'), ('\x08', 'b'), ('\x0c', 'f'), ('\n', 'n'), ('\r', 'r'), ('\t', 't')]

/-- What a character of a text is written as. -/
def escape (c : Char) : List Char :=
  match shortEscapes.lookup c with
  | some e => ['\\', e]
  | none => if c < ' ' then '\\' :: 'u' :: hexDigits 4 c.toNat else [c]

def quote (s : String) : String := String.ofList ('"' :: s.toList.flatMap escape ++ ['"'])

/-- The beginning of a line at some depth. -/
def indent (depth : Nat) : String := String.ofList (List.replicate (2 * depth) ' ')

mutual

def printAt (depth : Nat) : Json → String
  | null => "null"
  | number n => toString n
  | string s => quote s
  | object [] => "\x7b\x7d"
  | object (f :: fs) =>
    "\x7b\n" ++ ",\n".intercalate (printFields (depth + 1) (f :: fs)) ++ "\n" ++ indent depth ++ "\x7d"

def printFields (depth : Nat) : List (String × Json) → List String
  | [] => []
  | (k, v) :: rest => (indent depth ++ quote k ++ ": " ++ printAt depth v) :: printFields depth rest

end

def print (j : Json) : String := j.printAt 0

end Json

end ScriptHost.Text
