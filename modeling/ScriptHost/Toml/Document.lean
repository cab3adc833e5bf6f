import ScriptHost.Toml.Node
import ScriptHost.Toml.Quoted
import ScriptHost.Toml.Scalar

/-! Documents of TOML, read as trees. Arrays have to be well formed, but nothing is kept of them. -/

namespace ScriptHost.Toml

open Text (Reader)

/-- How deep values nest, and how many parts a key has, at most. -/
def depthLimit : Nat := 79

def isKeyChar (c : Char) : Bool := c.isAlphanum || c == '_' || c == '-'

def isWordChar (c : Char) : Bool := isKeyChar c || c == '+' || c == '.' || c == ':'

def skipBlanks : Reader Unit := Reader.skipWhile isBlank

/-- A comment, if one is next. -/
def skipComment : Reader Unit := do
  if ← Reader.tryEat "#" then Reader.skipWhile isPlain

/-- The end of a line and of the blanks and the comment in front of it. -/
def endLine : Reader Unit := do
  skipBlanks
  skipComment
  match ← get with
  | [] => return
  | cs =>
    match break? cs with
    | some rest => set rest
    | none => failure

/-- Skips blanks, line breaks and comments, as they may stand in an array. -/
def skipLines : Reader Unit := Reader.loop (fun _ => do
  skipBlanks
  skipComment
  match break? (← get) with
  | some rest => set rest; return .inl ()
  | none => return .inr ()) ()

/-! ### Keys and values -/

/-- One part of a key. -/
def keyPart : Reader String := do
  skipBlanks
  let k ← match ← Reader.peek with
    | some '"' => quoted
    | some '\'' => literal
    | _ =>
      let word ← Reader.takeWhile isKeyChar
      if word.isEmpty then failure
      pure (String.ofList word)
  skipBlanks
  return k

/-- A key: the parts before its last dot, and the last one. -/
def key : Reader (List String × String) := do
  let parts ← Reader.loop (fun parts => do
    let parts := (← keyPart) :: parts
    return if ← Reader.tryEat "." then .inl parts else .inr parts) ([] : List String)
  match parts with
  | last :: before =>
    if parts.length > depthLimit then failure
    return (before.reverse, last)
  | [] => failure

/-- A value of one word. A blank may stand between a date and a time. -/
def word : Reader RawTree := do
  let w ← Reader.takeWhile isWordChar
  let more ← match ← get with
    | ' ' :: c :: rest =>
      if c.isDigit && (Reader.readAll? date w).isSome then
        set (c :: rest)
        pure (' ' :: (← Reader.takeWhile isWordChar))
      else pure []
    | _ => pure []
  match ofWord? (w ++ more) with
  | some v => return v
  | none => failure

/-- One item of an array and what follows it. -/
def arrayStep (value : Reader RawTree) : Reader (Unit ⊕ Unit) := do
  skipLines
  if ← Reader.tryEat "]" then return .inr ()
  let _ ← value
  skipLines
  if ← Reader.tryEat "," then return .inl ()
  Reader.eat ']'
  return .inr ()

/-- One entry of a table in braces and what follows it. -/
def entryStep (value : Reader RawTree) (es : List (String × Node)) :
    Reader (List (String × Node) ⊕ List (String × Node)) := do
  let (path, k) ← key
  Reader.eat '='
  skipBlanks
  let v ← value
  skipBlanks
  match Node.put path k v .header es with
  | none => failure
  | some es =>
    if ← Reader.tryEat "," then return .inl es
    Reader.eat '\x7d'
    return .inr es

/-- The entries of a table in braces. -/
def entries (value : Reader RawTree) : Reader (List (String × Node)) := do
  skipBlanks
  if ← Reader.tryEat "\x7d" then return []
  Reader.loop (entryStep value) []

/-- A value in which others nest at most `depth` deep. -/
def value : (depth : Nat) → Reader RawTree
  | 0 => leaf
  | depth + 1 => do
    if ← Reader.tryEat "[" then
      Reader.loop (fun _ => arrayStep (value depth)) ()
      return .leaf none
    if ← Reader.tryEat "\x7b" then return .table (Node.toTrees (← entries (value depth)))
    leaf
where
  /-- A value that holds no others. -/
  leaf : Reader RawTree := do
    match ← Reader.peek with
    | some '"' | some '\'' => return .leaf (some (.string (← text)))
    | _ => word

/-! ### Lines -/

/-- What has been read: the entries so far, and the path of the table that the next line adds to. -/
structure Document where
  entries : List (String × Node) := []
  current : List String := []

namespace Document

/-- Opens the table of a header. -/
def opened (d : Document) (path : List String) (key : String)
    (f : String → Opening → List (String × Node) → Option (List (String × Node))) : Option Document := do
  return ⟨← Node.change .inner (f key) path .header d.entries, path ++ [key]⟩

/-- Adds a value to the current table. -/
def added (d : Document) (path : List String) (key : String) (v : RawTree) : Option Document := do
  return { d with entries := ← Node.change .inner (Node.put path key v) d.current .header d.entries }

def lift (d : Option Document) : Reader Document := StateT.lift d

/-- One line after its blanks. -/
def line (d : Document) : Reader Document := do
  if (break? (← get)).isSome || (← Reader.peek) == some '#' then
    return d
  else if ← Reader.tryEat "[[" then
    let (path, k) ← key
    Reader.eat ']'
    Reader.eat ']'
    lift (d.opened path k Node.openItem)
  else if ← Reader.tryEat "[" then
    let (path, k) ← key
    Reader.eat ']'
    lift (d.opened path k Node.openTable)
  else
    let (path, k) ← key
    Reader.eat '='
    skipBlanks
    lift (d.added path k (← value depthLimit))

/-- Reads the lines up to the end of the text. -/
def lines : Reader Document := Reader.loop (fun d => do
  skipBlanks
  if (← get).isEmpty then return .inr d
  let d ← line d
  endLine
  return .inl d) {}

/-- The document that a text spells. -/
def read? (s : String) : Option (List (String × RawTree)) := do
  let cs := (Text.after? ['\uFEFF'] s.toList).getD s.toList
  let d ← Reader.readAll? lines cs
  return Node.toTrees d.entries

end Document

end ScriptHost.Toml
