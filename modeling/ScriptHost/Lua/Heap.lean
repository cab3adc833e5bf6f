import ScriptHost.Lua.Table

/-! The heap: tables, closures, and the variables that closures share. Objects stay where they are, so
that an address means the same object for good; how much memory a program has taken since it was last
measured is counted beside them. -/

namespace ScriptHost.Lua

/-- A function of a program together with the variables around it. -/
structure Closure where
  body : FunctionBody
  chunk : Bytes
  /-- The cells of its upvalues. -/
  upvalues : Array Nat
  deriving Inhabited

structure Heap where
  tables : Array Table
  closures : Array Closure
  /-- The variables that closures share. -/
  cells : Array Val
  /-- The table of globals. -/
  globals : Nat
  /-- The metatable of strings. -/
  strings : Nat
  /-- The state of the generator of random numbers. -/
  random : UInt64 × UInt64 × UInt64 × UInt64
  /-- The addresses that programs see. -/
  address : Val → Nat
  /-- The tables whose finalizers are still to run, the one that was marked last first. -/
  marked : List Nat
  /-- Whether no more tables are marked. -/
  sealed : Bool
  /-- Bytes taken, as far as they have been counted. -/
  used : Nat
  /-- The greatest number of bytes; 0 for no bound. -/
  limit : Nat
  deriving Inhabited

namespace Heap

def empty : Heap := ⟨#[], #[], #[], 0, 0, (1, 2, 3, 4), fun _ => 0, [], false, 0, 0⟩

def charge (h : Heap) (bytes : Nat) : Heap := { h with used := h.used + bytes }

/-- A request that no program is granted, whatever it gives up. -/
def refuses (h : Heap) (bytes : Nat) : Bool := bytes > Nat.pow 2 31 || (h.limit > 0 && bytes > h.limit)

/-- Whether there may be too little memory. -/
def isOver (h : Heap) : Bool := h.limit > 0 && h.used > h.limit

def table (h : Heap) (a : Nat) : Table := h.tables.getD a .empty

def addTable (h : Heap) (t : Table) : Nat × Heap :=
  (h.tables.size, { h with tables := h.tables.push t, used := h.used + t.size })

def addClosure (h : Heap) (c : Closure) : Nat × Heap :=
  (h.closures.size,
    { h with closures := h.closures.push c, used := h.used + 32 + 8 * c.upvalues.size })

def addCell (h : Heap) (v : Val) : Nat × Heap :=
  (h.cells.size, { h with cells := h.cells.push v, used := h.used + 40 })

def cell (h : Heap) (a : Nat) : Val := h.cells.getD a .nil

def setCell (h : Heap) (a : Nat) (v : Val) : Heap := { h with cells := h.cells.setIfInBounds a v }

def modifyTable (h : Heap) (a : Nat) (f : Table → Table) : Heap :=
  { h with tables := h.tables.modify a f }

def rawGet (h : Heap) (a : Nat) (k : Val) : Val := (h.table a).get k

/-- Sets a field of a table. A table that grows for it is counted with its new size. -/
def rawSet (h : Heap) (a : Nat) (k v : Val) : Heap :=
  let before := (h.table a).size
  let h := h.modifyTable a (·.set k v)
  h.charge ((h.table a).size - before)

def setText (h : Heap) (a : Nat) (k : String) (v : Val) : Heap := h.rawSet a (.text k) v

/-- The metatable of a value. -/
def metatable? (h : Heap) : Val → Option Nat
  | .table a => (h.table a).metatable
  | .str _ => some h.strings
  | _ => none

/-- What the metatable of a value has under a name. -/
def metamethod (h : Heap) (v : Val) (event : String) : Val :=
  match h.metatable? v with
  | some m => (h.table m).getText event
  | none => .nil

/-- The name of a value's type in messages. -/
def typeName (h : Heap) (v : Val) : String :=
  match v with
  | .table _ =>
    match h.metamethod v "__name" with
    | .str s => s.toText
    | _ => v.typeName
  | _ => v.typeName

/-! ### Finalizers -/

/-- Marks a table that has just got a metatable, if there is a finalizer in that. -/
def mark (h : Heap) (a : Nat) : Heap :=
  if h.sealed || h.marked.contains a || (h.metamethod (.table a) "__gc").isNil then h
  else { h with marked := a :: h.marked }

def unmark (h : Heap) (a : Nat) : Heap := { h with marked := h.marked.erase a }

/-! ### Measuring -/

/-- What has been met while live memory is measured. -/
structure Survey where
  tables : Array Bool
  closures : Array Bool
  cells : Array Bool
  strings : Std.HashSet Bytes
  bytes : Nat

namespace Survey

def start (h : Heap) : Survey :=
  ⟨Array.replicate h.tables.size false, Array.replicate h.closures.size false,
    Array.replicate h.cells.size false, ∅, 0⟩

/-- Counts a value that is met for the first time, and adds what it refers to. -/
def visit (h : Heap) (s : Survey) (v : Val) (todo : List Val) : Survey × List Val :=
  match v with
  | .str b =>
    if b.size < 8 || s.strings.contains b then (s, todo)
    else ({ s with strings := s.strings.insert b, bytes := s.bytes + 25 + b.size }, todo)
  | .table a =>
    if s.tables.getD a true then (s, todo)
    else
      let t := h.table a
      let todo := match t.metatable with
        | some m => .table m :: todo
        | none => todo
      let todo := t.array.foldl (fun todo v => v :: todo) todo
      let todo := t.nodes.foldl (fun todo (k, v) => if v.isNil then todo else k :: v :: todo) todo
      ({ s with tables := s.tables.setIfInBounds a true, bytes := s.bytes + t.size }, todo)
  | .function a =>
    if s.closures.getD a true then (s, todo)
    else
      let c := h.closures.getD a default
      let s := { s with
        closures := s.closures.setIfInBounds a true, bytes := s.bytes + 32 + 8 * c.upvalues.size }
      c.upvalues.foldl (fun (s, todo) i =>
        if s.cells.getD i true then (s, todo)
        else
          ({ s with cells := s.cells.setIfInBounds i true, bytes := s.bytes + 40 },
            h.cell i :: todo)) (s, todo)
  | .builtin (.matcher a) => (s, .table a :: todo)
  | _ => (s, todo)

/-- Visits what there is to do, as long as the bound allows. -/
def run (h : Heap) (s : Survey) : List Val → Nat → Survey
  | [], _ | _, 0 => s
  | v :: todo, fuel + 1 =>
    let (s, todo) := visit h s v todo
    run h s todo fuel

end Survey

/-- A bound on the values that a survey visits. -/
def references (h : Heap) : Nat :=
  h.tables.foldl (fun n t => n + t.array.size + 2 * t.nodes.size + 2) 0 +
    h.closures.foldl (fun n c => n + c.upvalues.size + 1) 0 + h.cells.size

/-- Counts the memory that can be reached from some values anew; `base` is what the machine itself
takes. -/
def measure (h : Heap) (roots : List Val) (base : Nat) : Heap :=
  let roots := .table h.globals :: .table h.strings :: roots
  let s := Survey.run h (.start h) roots (h.references + roots.length + 1)
  { h with used := s.bytes + base }

end Heap

end ScriptHost.Lua
