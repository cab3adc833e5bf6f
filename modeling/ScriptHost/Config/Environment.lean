import ScriptHost.Config.Tree
import ScriptHost.Decimal.Reading
import ScriptHost.Text.Blank
import ScriptHost.Text.Lines
import ScriptHost.Text.Number
import ScriptHost.Toml.Quoted

/-! Overrides from the environment. The name of a variable is a path in lower case, with two underscores
between its parts; its text is a number, a truth value, a quoted string, a table in braces, and otherwise
itself. -/

namespace ScriptHost.Environment

/-- What the names of overrides begin with. -/
def lead : String := "SANDSCRIPT_"

/-- The text with a point for every two underscores. -/
def pointed : List Char → List Char
  | '_' :: '_' :: rest => '.' :: pointed rest
  | c :: rest => c :: pointed rest
  | [] => []

/-- The path that a variable names. -/
def path? (name : String) : Option (List String) := do
  let name := Text.trim name
  let rest ← Text.after? (Text.lower lead).toList (Text.lower name).toList
  let path := Text.split '.' (Text.trim (String.ofList (pointed rest)))
  if path.any (·.isEmpty) then none else some path

/-! ### Values -/

open Text (Reader)

def isBlank (c : Char) : Bool := c == ' ' || ('\t' ≤ c && c ≤ '\r' && c != '\x0b')

def skipBlanks : Reader Unit := Reader.skipWhile isBlank

def isKeyChar (c : Char) : Bool := c.isAlphanum || c == '_' || c == '-'

def isWordChar (c : Char) : Bool := !(c == ',' || c == '\x7b' || c == '\x7d' || c == '[' || c == ']')

/-- What a bare word stands for: with a point a decimal, if it is one, and otherwise a whole number or
the word itself. -/
def ofWord (word : String) : Scalar :=
  match (if word.contains '.' then Decimal.parse? word else none) with
  | some x => .float x
  | none =>
    match Text.int64? word with
    | some n => .integer n
    | none =>
      match Text.word64? word with
      | some n => .float n.toFloat
      | none => .string word

def key : Reader String := do
  skipBlanks
  let k ← if (← Reader.peek) == some '"' then Toml.quoted else do
    let word ← Reader.takeWhile isKeyChar
    if word.isEmpty then failure
    pure (String.ofList word)
  skipBlanks
  return k

/-- The entries of a table up to its closing brace, over those read so far. -/
def entriesStep (value : Reader RawTree) (es : List (String × RawTree)) :
    Reader (List (String × RawTree) ⊕ List (String × RawTree)) := do
  if ← Reader.tryEat "\x7d" then return .inr es
  let k ← key
  Reader.eat '='
  let es := Entries.insert k (← value) es
  if ← Reader.tryEat "," then return .inl es
  Reader.eat '\x7d'
  return .inr es

/-- The items of an array up to its closing bracket. -/
def itemsStep (value : Reader RawTree) : Reader (Unit ⊕ Unit) := do
  if ← Reader.tryEat "]" then return .inr ()
  let _ ← value
  if ← Reader.tryEat "," then return .inl ()
  Reader.eat ']'
  return .inr ()

/-- A value nested at most `depth` deep, and the blanks around it. -/
def value : (depth : Nat) → Reader RawTree
  | 0 => failure
  | depth + 1 => do
    skipBlanks
    let v : RawTree ←
      if ← Reader.tryEat "true" then pure (.leaf (some (.boolean true)))
      else if ← Reader.tryEat "false" then pure (.leaf (some (.boolean false)))
      else match ← Reader.peek with
        | some '\x7b' =>
          Reader.eat '\x7b'
          pure (.table (← Reader.loop (entriesStep (value depth)) []))
        | some '[' =>
          Reader.eat '['
          Reader.loop (fun _ => itemsStep (value depth)) ()
          pure (.leaf none)
        | some '"' => pure (.leaf (some (.string (← Toml.quoted))))
        | some '\'' =>
          Reader.eat '\''
          let cs ← get
          if cs.isEmpty then failure
          set (cs.drop 1)
          Reader.eat '\''
          pure (.leaf none)
        | _ =>
          let word ← Reader.takeWhile isWordChar
          pure (.leaf (some (ofWord (Text.trim (String.ofList word)))))
    skipBlanks
    return v

/-- What the text of a variable stands for. One that is not read to its end stands for itself. -/
def ofText (s : String) : RawTree :=
  (Reader.readAll? (value (s.length + 1)) s.toList).getD (.leaf (some (.string s)))

/-! ### Variables -/

/-- A value at the end of a path. -/
def nest (v : RawTree) : List String → RawTree
  | [] => v
  | k :: path => .table [(k, nest v path)]

/-- What the variables of an environment override, a later one over an earlier one. -/
def overrides (vars : List (String × String)) : List (String × RawTree) :=
  vars.foldl (fun es v =>
    match path? v.1 with
    | some (k :: path) => Tree.mergeEntries es [(k, nest (ofText v.2) path)]
    | _ => es) []

end ScriptHost.Environment
