import ScriptHost.Config.Tree

/-! The tables of a document while it is read. A table is opened once: by its header, by a header of a
table within it, or by a key with dots. -/

namespace ScriptHost.Toml

/-- What opened a table. -/
inductive Opening
  /-- Its own header, or the document itself. -/
  | header
  /-- The header of a table within it; its own may still come. -/
  | inner
  /-- A key with dots. -/
  | dotted
  deriving DecidableEq

inductive Node
  | value (v : RawTree)
  | table (opening : Opening) (entries : List (String × Node))
  /-- A list of tables, of which only the last can grow. -/
  | tables (last : List (String × Node))

namespace Node

mutual

def toTree : Node → RawTree
  | value v => v
  | table _ es => .table (toTrees es)
  | tables _ => .leaf none

def toTrees : List (String × Node) → List (String × RawTree)
  | [] => []
  | (k, n) :: rest => (k, toTree n) :: toTrees rest

end

/-- Changes the entries of the table at the end of a path, of which the missing tables are opened. A key
with dots cannot lead into a table that has a header of its own. -/
def change (opening : Opening) (f : Opening → List (String × Node) → Option (List (String × Node))) :
    (path : List String) → Opening → List (String × Node) → Option (List (String × Node))
  | [], here, es => f here es
  | k :: path, _, es => do
    let n ← match es.lookup k with
      | none => return Entries.insert k (table opening (← change opening f path opening [])) es
      | some (value _) => none
      | some (table there inner) =>
        if opening = .dotted && there = .header then none
        else (change opening f path there inner).map (table there)
      | some (tables last) => (change opening f path .header last).map tables
    return Entries.insert k n es

/-- Puts a value under a key that may have dots. The table that it goes to belongs to the same keys: one
without dots does not add to a table of dotted keys, nor the other way round. -/
def put (path : List String) (key : String) (v : RawTree) :
    Opening → List (String × Node) → Option (List (String × Node)) :=
  change .dotted (fun here es =>
    if decide (here = .dotted) == path.isEmpty || (es.lookup key).isSome then none
    else some (Entries.insert key (value v) es)) path

/-- Opens the table of a header. -/
def openTable (key : String) (_ : Opening) (es : List (String × Node)) : Option (List (String × Node)) :=
  match es.lookup key with
  | none => some (Entries.insert key (table .header []) es)
  | some (table .inner inner) => some (Entries.insert key (table .header inner) es)
  | some _ => none

/-- Opens one more table of a list. -/
def openItem (key : String) (_ : Opening) (es : List (String × Node)) : Option (List (String × Node)) :=
  match es.lookup key with
  | none | some (tables _) => some (Entries.insert key (tables []) es)
  | some _ => none

end Node

end ScriptHost.Toml
