import ScriptHost.Config.Tree
import ScriptHost.Decimal.Shortest
import ScriptHost.Text.Number

/-! Trees printed as TOML. Every table has a header of its own, its scalars come before the tables within
it, and texts take the first form that needs no escapes. -/

namespace ScriptHost.Toml

/-! ### Texts -/

def isControl (c : Char) : Bool := c < ' ' || c == '\x7f'

/-- The escape of a control character that has no letter. -/
def codeOf (c : Char) : List Char :=
  '\\' :: 'u' :: (Text.hexDigits 4 c.toNat).map Char.toUpper

/-- What a character of a text in quotes is written as. -/
def written (block : Bool) (c : Char) : List Char :=
  match [('\x08', 'b'), ('\t', 't'), ('\x0c', 'f'), ('\r', 'r'), ('\\', '\\')].lookup c with
  | some e => ['\\', e]
  | none =>
    if c = '\n' then if block then [c] else ['\\', 'n']
    else if isControl c then codeOf c
    else [c]

/-- A text as it stands within quotes, of which it may hold `free` in a row as they are. `run` counts those
right before the current point. -/
def escapedFrom (block : Bool) (free run : Nat) : List Char → List Char
  | [] => []
  | c :: rest =>
    if c = '"' then
      if run < free then c :: escapedFrom block free (run + 1) rest
      else '\\' :: c :: escapedFrom block free 0 rest
    else written block c ++ escapedFrom block free 0 rest

/-- The most of a character that stand in a row. -/
def longestRun (mark : Char) (cs : List Char) : Nat :=
  (cs.foldl (fun (longest, run) c =>
    let run := if c = mark then run + 1 else 0
    (max longest run, run)) (0, 0)).1

/-- Whether a text holds characters that only escapes can write. -/
def hasCodes (cs : List Char) : Bool := cs.any fun c => isControl c && c != '\t' && c != '\n'

inductive Style
  | basic
  | literal
  | basicBlock
  | literalBlock

def Style.ofText (cs : List Char) : Style :=
  let marks := longestRun '"' cs
  let apostrophes := longestRun '\'' cs
  let codes := hasCodes cs
  let slash := cs.contains '\\'
  let breaks := cs.contains '\n'
  if !codes && !slash && marks = 0 && !breaks then .basic
  else if !codes && apostrophes = 0 && !breaks then .literal
  else if !codes && !slash && marks ≤ 2 then .basicBlock
  else if !codes && apostrophes ≤ 2 then .literalBlock
  else if breaks then .basicBlock
  else .basic

def Style.mark : Style → List Char
  | basic => ['"']
  | literal => ['\'']
  | basicBlock => ['"', '"', '"']
  | literalBlock => ['\'', '\'', '\'']

/-- A text within the marks of a style. A text of several lines starts on a line of its own. -/
def Style.print (style : Style) (cs : List Char) : String :=
  let inner := match style with
    | basic => escapedFrom false 0 0 cs
    | basicBlock => escapedFrom true 2 0 cs
    | literal | literalBlock => cs
  let lead := match style with
    | basicBlock | literalBlock => if cs.contains '\n' then ['\n'] else []
    | basic | literal => []
  String.ofList (style.mark ++ lead ++ inner ++ style.mark)

def textOf (s : String) : String := (Style.ofText s.toList).print s.toList

/-- A key is bare if it can be, and otherwise a text of one line. -/
def keyOf (s : String) : String :=
  let cs := s.toList
  if !cs.isEmpty && cs.all (fun c => c.isAlphanum || c == '_' || c == '-') then s
  else if cs.any isCode then Style.basic.print cs
  else if !cs.contains '\\' && !cs.contains '"' then Style.basic.print cs
  else if !cs.contains '\'' then Style.literal.print cs
  else Style.basic.print cs
where
  /-- Characters that a key holds in escapes only. -/
  isCode (c : Char) : Bool := isControl c && c != '\t'

/-! ### Scalars and tables -/

/-- A decimal has a point, unless it is not finite. -/
def floatOf (x : Float) : String :=
  if x.isNaN then "nan"
  else
    let s := Decimal.text x
    if s.contains '.' || x.isInf then s else s ++ ".0"

def scalarOf : Scalar → String
  | .boolean b => if b then "true" else "false"
  | .integer n => toString n.toInt
  | .float x => floatOf x
  | .string s => textOf s

/-- The scalars among entries, a line for each. -/
def scalarLines (es : List (String × Tree Scalar)) : List String :=
  es.filterMap fun (k, t) => match t with
    | .leaf s => some (keyOf k ++ " = " ++ scalarOf s ++ "\n")
    | .table _ => none

/-- The header of a table and its scalars. A table that holds nothing but tables needs none. -/
def ownBlock (path : List String) (es : List (String × Tree Scalar)) : List String :=
  let lines := scalarLines es
  if path.isEmpty then if lines.isEmpty then [] else [String.join lines]
  else if lines.isEmpty && !es.isEmpty then []
  else [String.join (("[" ++ ".".intercalate (path.map keyOf) ++ "]\n") :: lines)]

mutual

/-- The blocks of a table and of those within it. -/
def blocks (path : List String) : Tree Scalar → List String
  | .leaf _ => []
  | .table es => ownBlock path es ++ innerBlocks path es

def innerBlocks (path : List String) : List (String × Tree Scalar) → List String
  | [] => []
  | (k, t) :: rest => blocks (path ++ [k]) t ++ innerBlocks path rest

end

/-- The document of some entries, with a blank line between two tables. -/
def print (es : List (String × Tree Scalar)) : String := "\n".intercalate (blocks [] (.table es))

end ScriptHost.Toml
