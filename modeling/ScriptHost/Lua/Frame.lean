import ScriptHost.Lua.NumericLoop
import ScriptHost.Lua.Routine
import ScriptHost.Lua.Surroundings

/-! What a running program is made of. The innermost thing to be done is the control; what is to be done
with its outcome stands in frames, the innermost first. A function has an activation of its own, and the
frame below those of its body holds the activation to go back to. -/

namespace ScriptHost.Lua

/-- A local variable: its value, or the cell that it shares with closures. -/
inductive Slot
  | value (v : Val)
  | shared (cell : Nat)
  deriving Inhabited

/-- A function at work. -/
structure Activation where
  chunk : Bytes
  /-- The line that messages about this function name. -/
  line : Nat
  slots : Array Slot
  upvalues : Array Nat
  varargs : List Val
  /-- How many functions of the program are at work around it. -/
  depth : Nat
  deriving Inhabited

/-- What a program calls something: the kind of the thing and its name. -/
abbrev Naming := String × String

/-- An operation that stands in the text of a program. -/
structure Origin where
  line : Nat
  /-- The name of the operation in metatables, after its underscores. -/
  event : String
  /-- The operands, which messages name. -/
  first : Option Expr
  second : Option Expr

/-- On whose behalf a routine runs. -/
inductive Performer
  | operation (o : Origin)
  /-- A built-in function, under the name by which it was called. -/
  | builtin (f : Builtin) (name : Option Naming)

/-- Where an assigned value goes. -/
inductive Target
  | var (place : Place)
  | field (t k : Val) (object : Expr) (line : Nat)

/-- What becomes of the values of a list of expressions. -/
inductive Use
  | call (f : Val) (name : Option Naming) (line : Nat) (tail : Bool)
  /-- New locals; `closing` tells which of them is to be closed. -/
  | locals (names : List String) (closing : Option Nat) (line : Nat)
  /-- The targets are in the order in which they are assigned. -/
  | assign (targets : List Target) (line : Nat)
  | result
  | numericFor (body : List Stat) (line : Nat)
  | genericFor (names : Nat) (body : List Stat) (line : Nat)

/-- How a block is left before its end. -/
inductive Exit
  | loop
  | goto (label : String)
  | function (vs : List Val)

/-- An error on its way. -/
structure Thrown where
  value : Val
  /-- Whether there was too little memory. Then no handler sees the error. -/
  isMemory : Bool
  deriving Inhabited

/-- What goes on once a variable has been closed. -/
inductive Resumption
  | next
  | leave (x : Exit)
  | unwind (e : Thrown)

/-- What waits for the value of an expression within a larger one. -/
inductive ExprFrame
  | indexKey (object key : Expr) (line : Nat)
  | indexWith (t : Val) (object : Expr) (line : Nat)
  | unary (op : UnaryOp) (e : Expr) (line : Nat)
  | left (op : BinaryOp) (a b : Expr) (line : Nat)
  | right (op : BinaryOp) (v : Val) (a b : Expr) (line : Nat)
  /-- One value is wanted. -/
  | one
  /-- The expressions of a list that are left, and the values so far, the last one first. -/
  | items (done : List Val) (rest : List Expr) (use : Use)
  | callee (f : Expr) (args : List Expr) (line : Nat) (tail : Bool)
  | receiver (object : Expr) (name : String) (args : List Expr) (line : Nat) (tail : Bool)
  | methodOf (self : Val) (name : String) (args : List Expr) (line : Nat) (tail : Bool)
  /-- A table under construction and its positional values so far, the last one first. -/
  | tableItem (t : Nat) (done : List Val) (rest : List Item)
  | tableKey (t : Nat) (done : List Val) (value : Expr) (rest : List Item) (line : Nat)
  | tableValue (t : Nat) (k : Val) (done : List Val) (rest : List Item) (line : Nat)

/-- What waits for the end of a statement or for a value that it needs. -/
inductive StatFrame
  /-- The statements left of a block, and all of them, among which a jump may find its label. -/
  | block (rest all : List Stat) (base : Nat)
  | discard
  | targetTable (object key : Expr) (line : Nat) (done : List Target) (rest values : List Expr)
      (statement : Nat)
  | targetKey (t : Val) (object : Expr) (line : Nat) (done : List Target) (rest values : List Expr)
      (statement : Nat)
  | assigned (rest : List (Target × Val))
  /-- A table under construction whose last field is being set. -/
  | constructing (t : Nat) (done : List Val) (rest : List Item)
  | whileTest (condition : Expr) (body : List Stat) (base : Nat)
  | whileBody (condition : Expr) (body : List Stat) (base : Nat)
  | repeatBody (body : List Stat) (condition : Expr) (base : Nat)
  | repeatTest (body : List Stat) (condition : Expr) (base : Nat)
  | ifTest (body rest : List Stat)
  | numericLoop (loop : NumericLoop) (body : List Stat) (base : Nat)
  | genericCall (f state : Val) (names : Nat) (body : List Stat) (base line : Nat)
  | genericLoop (f state control : Val) (names : Nat) (body : List Stat) (base line : Nat)
  | returning

/-- What is to be done with an outcome. -/
inductive Frame
  | expr (f : ExprFrame)
  | stat (f : StatFrame)
  /-- A variable that is closed when its block is left. -/
  | toClose (v : Val)
  | closed (after : Resumption)
  | caller (saved : Activation)
  | routine (rest : List Val → Heap → Stage (List Val)) (performer : Performer)
  /-- A protected call, with the function that errors go through. -/
  | protect (handler : Option Val) (saved : Activation)
  /-- A function that an error goes through. -/
  | handling (saved : Activation)
  /-- Where a coroutine was resumed. -/
  | coroutine (thread : Nat) (wrapped : Bool) (saved : Activation) (nesting : Nat)
  /-- Where the host called. -/
  | base

/-- What is to be done first. -/
inductive Control
  | eval (e : Expr)
  | exec (s : Stat)
  /-- A statement has been carried out. -/
  | next
  | give (vs : List Val)
  | leave (x : Exit)
  | invoke (f : Val) (args : List Val) (name : Option Naming)
  /-- An error has been raised. -/
  | raise (e : Thrown)
  | unwind (e : Thrown)
  /-- A function of the host has been called. -/
  | ask (name : String) (args : List Val)
  | halt (result : Except Thrown (List Val))

/-- Whether memory and budget are looked at first. -/
def Control.isInstruction : Control → Bool
  | .next => true
  | .eval e =>
    match e with
    | .const _ | .var _ _ | .vararg | .paren _ => false
    | _ => true
  | .invoke f _ _ =>
    match f with
    | .function _ | .builtin (.host _) | .builtin (.control .pcall) | .builtin (.control .xpcall)
    | .builtin (.control .resume) => true
    | _ => false
  | _ => false

/-- How a coroutine stands. -/
inductive Coroutine
  | fresh (f : Val)
  | suspended (act : Activation) (frames : List Frame)
  /-- Running, or waiting for one that it has resumed. -/
  | active
  | dead
  | failed (v : Val)

/-- The budget of an invocation, and the work that the machine has done. -/
structure Meter where
  /-- Instructions between two looks at the clock. -/
  interval : Nat
  /-- Milliseconds that an invocation may take. -/
  slice : Nat
  around : Surroundings
  /-- What the clock showed at the beginning of the invocation. -/
  started : Nat
  /-- Instructions since the last look. -/
  count : Nat
  /-- The work done so far. -/
  spent : Nat
  /-- Whether the host wants the program to end. -/
  cancelled : Bool
  /-- Whether the budget is looked at: reading a global variable for the host has none. -/
  watched : Bool
  /-- The abort of this invocation. -/
  aborted : Option String
  deriving Inhabited

def Meter.moment (t : Meter) : Moment := t.around.moment t.spent

/-- What the clock of the host shows. -/
def Meter.now (t : Meter) : Nat := t.moment.instant

/-- What a program was about to do when a finalizer interrupted it. -/
structure Paused where
  act : Activation
  frames : List Frame
  nesting : Nat
  control : Control
  isInstruction : control.isInstruction = true

/-- Whether a machine is at a finalizer. -/
inductive Finalizing
  | no
  /-- The program goes on afterwards. -/
  | amid (p : Paused)
  /-- The machine has been given up: nothing but finalizers runs any more. -/
  | last

structure Machine where
  heap : Heap
  threads : Array Coroutine
  /-- The coroutines at work, the running one first. -/
  running : List Nat
  act : Activation
  frames : List Frame
  /-- How many calls from outside the program text are nested. -/
  nesting : Nat
  control : Control
  meter : Meter
  finalizing : Finalizing

end ScriptHost.Lua
