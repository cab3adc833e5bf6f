import ScriptHost.Dict
import ScriptHost.Value

/-! What stands under the keys of a configuration: scalars, and tables to any depth. A tree has its
leaves in a type of its own, so that sources may hold more than configurations do. -/

namespace ScriptHost

inductive Scalar
  | boolean (b : Bool)
  | integer (n : Int64)
  | float (x : Float)
  | string (s : String)
  deriving Inhabited

namespace Scalar

/-- The scalar as a value of scripts and their host. -/
def toValue : Scalar → Value
  | boolean b => .boolean b
  | integer n => .integer n
  | float x => .float x
  | string s => .string s

/-- The text for which a scalar stands. -/
def text (s : Scalar) : String := s.toValue.text

end Scalar

/-- A leaf, or a table of trees. -/
inductive Tree (α : Type)
  | leaf (a : α)
  | table (entries : List (String × Tree α))

/-- Trees of which a leaf may be something that no configuration holds. -/
abbrev RawTree := Tree (Option Scalar)

namespace Tree

variable {α : Type}

mutual

/-- A tree under a later one: two tables are united, and otherwise the later tree counts. -/
def merge (before : Tree α) : Tree α → Tree α
  | leaf a => leaf a
  | table es =>
    match before with
    | leaf _ => table es
    | table old => table (mergeEntries old es)

/-- Entries under later ones. -/
def mergeEntries (old : List (String × Tree α)) : List (String × Tree α) → List (String × Tree α)
  | [] => old
  | (k, t) :: rest =>
    match old.lookup k with
    | some before => mergeEntries (Entries.insert k (merge before t) old) rest
    | none => mergeEntries (Entries.insert k t old) rest

end

mutual

/-- The tree with something in every leaf. -/
def raw : Tree α → Tree (Option α)
  | leaf a => leaf (some a)
  | table es => table (rawEntries es)

def rawEntries : List (String × Tree α) → List (String × Tree (Option α))
  | [] => []
  | (k, t) :: rest => (k, raw t) :: rawEntries rest

end

mutual

/-- The tree, if every leaf holds something. -/
def solid? : Tree (Option α) → Option (Tree α)
  | leaf a => a.map leaf
  | table es => (solidEntries? es).map table

def solidEntries? : List (String × Tree (Option α)) → Option (List (String × Tree α))
  | [] => some []
  | (k, t) :: rest => do return (k, ← solid? t) :: (← solidEntries? rest)

end

/-- A key of a table within a table. -/
def joinKey (label key : String) : String := if label.isEmpty then key else label ++ "." ++ key

mutual

/-- The scalars of a tree, each under the keys that lead to it, with dots between them. -/
def flatten (label : String) : Tree Scalar → List (String × String)
  | leaf s => [(label, s.text)]
  | table es => flattenEntries label es

def flattenEntries (label : String) : List (String × Tree Scalar) → List (String × String)
  | [] => []
  | (k, t) :: rest => flatten (joinKey label k) t ++ flattenEntries label rest

end

end Tree

end ScriptHost
