import ScriptHost.Lua.Heap

/-! Routines: what the operations and the built-in functions of Lua do. A routine works on the heap and
may call functions of the program on the way; a call stops it until the results are there. -/

namespace ScriptHost.Lua

/-- Why a routine fails. Where a message names a place, it is added when the error is raised. -/
inductive Complaint
  /-- An argument is not what the function takes. -/
  | argument (index : Nat) (what : String)
  /-- A built-in function fails; the place is that of its call. -/
  | native (message : Bytes)
  /-- An operation fails; the place is that of the operation. -/
  | operation (message : String)
  /-- An operand is not what the operation takes; its name stands between the two texts. -/
  | operand (before after : String) (second : Bool)
  /-- An error with a value of its own. -/
  | raised (v : Val)
  | outOfMemory

/-- How far a routine has come. -/
inductive Stage (α : Type) where
  | done (a : α) (heap : Heap)
  | complain (c : Complaint) (heap : Heap)
  | call (f : Val) (args : List Val) (heap : Heap) (rest : List Val → Heap → Stage α)

/-- A computation on the heap that may call functions. -/
abbrev Routine (α : Type) := Heap → Stage α

namespace Stage

variable {α β : Type}

def bind (s : Stage α) (f : α → Routine β) : Stage β :=
  match s with
  | done a heap => f a heap
  | complain c heap => .complain c heap
  | call g args heap rest => .call g args heap fun vs heap => (rest vs heap).bind f

theorem bind_done (s : Stage α) : s.bind (fun a heap => .done a heap) = s := by
  induction s with
  | done | complain => rfl
  | call g args heap rest ih => simp only [bind]; congr 1; funext vs heap; exact ih vs heap

theorem bind_assoc {γ : Type} (s : Stage α) (f : α → Routine β) (g : β → Routine γ) :
    (s.bind f).bind g = s.bind fun a heap => (f a heap).bind g := by
  induction s with
  | done | complain => rfl
  | call f' args heap rest ih => simp only [bind]; congr 1; funext vs heap; exact ih vs heap

end Stage

namespace Routine

variable {α β : Type}

instance : Monad Routine where
  pure a heap := .done a heap
  bind r f heap := (r heap).bind f

def fail (c : Complaint) : Routine α := fun heap => .complain c heap

/-- A failure of a built-in function. -/
def failText (message : String) : Routine α := fail (.native (.ofString message))

/-- Looks something up in the heap. -/
def reads (f : Heap → α) : Routine α := fun heap => .done (f heap) heap

def modifies (f : Heap → Heap) : Routine Unit := fun heap => .done () (f heap)

/-- Changes the heap and gives something of it. -/
def updates (f : Heap → α × Heap) : Routine α := fun heap =>
  let (a, heap) := f heap
  .done a heap

/-- Calls a function for all its results. -/
def call (f : Val) (args : List Val) : Routine (List Val) := fun heap =>
  .call f args heap fun vs heap => .done vs heap

/-- Calls a function for its first result. -/
def call1 (f : Val) (args : List Val) : Routine Val := do return (← call f args).headD .nil

/-- Gives up if a request for memory is out of reach. -/
def reserve (bytes : Nat) : Routine Unit := fun heap =>
  if heap.refuses bytes then .complain .outOfMemory heap else .done () (heap.charge bytes)

/-- A string that the program has made. -/
def newString (b : Bytes) : Routine Val := do
  reserve (25 + b.size)
  return .str b

def newTable (t : Table) : Routine Val := updates fun heap =>
  let (a, heap) := heap.addTable t
  (.table a, heap)

/-! ### Arguments -/

/-- The type of an argument in messages. -/
def gotName (heap : Heap) (args : List Val) (i : Nat) : String :=
  match args[i]? with
  | some v => heap.typeName v
  | none => "no value"

/-- An argument has the wrong type. Arguments are counted from 1 in messages. -/
def wrongType (args : List Val) (i : Nat) (wanted : String) : Routine α := do
  let got ← reads fun heap => gotName heap args i
  fail (.argument (i + 1) s!"{wanted} expected, got {got}")

def arg (args : List Val) (i : Nat) : Val := args.getD i .nil

/-- An argument that must be there. -/
def anyArg (args : List Val) (i : Nat) : Routine Val :=
  match args[i]? with
  | some v => pure v
  | none => fail (.argument (i + 1) "value expected")

def numberArg (args : List Val) (i : Nat) : Routine Number :=
  match (arg args i).asNumber? with
  | some n => pure n
  | none => wrongType args i "number"

def intArg (args : List Val) (i : Nat) : Routine Int64 :=
  match (arg args i).asInt? with
  | some n => pure n
  | none =>
    if (arg args i).asNumber?.isSome then fail (.argument (i + 1) "number has no integer representation")
    else wrongType args i "number"

/-- An integer argument that may be left out. -/
def intArgD (args : List Val) (i : Nat) (d : Int64) : Routine Int64 :=
  if (arg args i).isNil then pure d else intArg args i

def bytesArg (args : List Val) (i : Nat) : Routine Bytes :=
  match (arg args i).asBytes? with
  | some b => pure b
  | none => wrongType args i "string"

def bytesArgD (args : List Val) (i : Nat) (d : Bytes) : Routine Bytes :=
  if (arg args i).isNil then pure d else bytesArg args i

/-- The address of an argument that must be a table. -/
def tableArg (args : List Val) (i : Nat) : Routine Nat :=
  match arg args i with
  | .table a => pure a
  | _ => wrongType args i "table"

end Routine

end ScriptHost.Lua
