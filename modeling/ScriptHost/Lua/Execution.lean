import ScriptHost.Lua.Machine
import ScriptHost.Text.Blank

/-! Running machines. The instructions of the main program are counted: after every so many of them the
budget of the invocation is looked at, and once it is used up, or the host wants the program to end, an
abort is recorded for the rest of the invocation and raised again at every later look. The finalizer of a table
that the collector finds dead comes between two instructions of the program. No budget bounds finalizers. -/

namespace ScriptHost.Lua

/-! ### Budgets -/

namespace Meter

def nanosPerMilli : Nat := 1000000

def exceededMessage (slice : Nat) : String := s!"execution budget exceeded ({slice} ms)"

def cancelledMessage : String := "script cancelled"

def start (interval slice : Nat) (around : Surroundings) : Meter :=
  { interval := max interval 1, slice, around, started := (around.moment 0).instant, count := 0, spent := 0
    cancelled := false, watched := true, aborted := none }

/-- The meter at the beginning of an invocation, with a budget or without one. -/
def restart (t : Meter) (watched : Bool) : Meter :=
  { t with started := t.now, count := 0, watched, aborted := none }

/-- Looks at the budget: the abort that stands from now on, if there is one. -/
def look (t : Meter) : Option String :=
  match t.aborted with
  | some message => some message
  | none =>
    if t.cancelled then some cancelledMessage
    else if t.now - t.started ≥ t.slice * nanosPerMilli then some (exceededMessage t.slice)
    else none

/-- Counts an instruction. Those of coroutines, and those without a budget, count as work only, and for those of
finalizers the budget is not looked at. -/
def tick (t : Meter) (isMain isProgram : Bool) : Meter × Option String :=
  let t := { t with spent := t.spent + 1 }
  if !(isMain && t.watched) then (t, none)
  else if t.count + 1 ≥ t.interval then
    let t := { t with count := 0 }
    if isProgram then
      let aborted := t.look
      ({ t with aborted }, aborted)
    else (t, none)
  else ({ t with count := t.count + 1 }, none)

end Meter

/-! ### Memory -/

/-- The values that an activation holds. -/
def Activation.roots (heap : Heap) (a : Activation) : List Val :=
  a.varargs ++ a.slots.toList.map (fun s => match s with
    | .value v => v
    | .shared c => heap.cell c) ++ a.upvalues.toList.map heap.cell

def Use.roots : Use → List Val
  | .call f _ _ _ => [f]
  | .assign targets _ => targets.flatMap fun t => match t with
    | .field t k _ _ => [t, k]
    | .var _ => []
  | _ => []

def ExprFrame.roots : ExprFrame → List Val
  | .indexWith t _ _ => [t]
  | .right _ v _ _ _ | .methodOf v _ _ _ _ => [v]
  | .items done _ use => done ++ use.roots
  | .tableItem t done _ | .tableKey t done _ _ _ => .table t :: done
  | .tableValue t k done _ _ => .table t :: k :: done
  | _ => []

def StatFrame.roots : StatFrame → List Val
  | .targetKey t _ _ _ _ _ _ => [t]
  | .assigned rest => rest.map (·.2)
  | .constructing t done _ => .table t :: done
  | .genericCall f state _ _ _ _ => [f, state]
  | .genericLoop f state _ _ _ _ _ => [f, state]
  | _ => []

def Frame.roots (heap : Heap) : Frame → List Val
  | .expr f => f.roots
  | .stat f => f.roots
  | .toClose v => [v]
  | .caller saved | .protect none saved | .handling saved => saved.roots heap
  | .protect (some h) saved => h :: saved.roots heap
  | .coroutine _ _ saved _ => saved.roots heap
  | _ => []

def Coroutine.roots (heap : Heap) : Coroutine → List Val
  | .fresh f => [f]
  | .suspended act frames => act.roots heap ++ frames.flatMap (·.roots heap)
  | .failed v => [v]
  | _ => []

def Finalizing.roots (heap : Heap) : Finalizing → List Val
  | .amid p => p.act.roots heap ++ p.frames.flatMap (·.roots heap)
  | _ => []

namespace Machine

/-- Bytes that a function at work takes. -/
def activationSize : Nat := 150

/-- Counts the memory anew. -/
def measure (m : Machine) : Machine :=
  let h := m.heap
  let roots := m.act.roots h ++ m.frames.flatMap (·.roots h) ++
    m.threads.toList.flatMap (·.roots h) ++ m.finalizing.roots h ++ h.marked.map .table
  { m with heap := h.measure roots Library.baseSize }

/-- Whether the program may have too little memory, with that of the functions at work. -/
def isTight (m : Machine) : Bool :=
  m.heap.limit > 0 && m.heap.used + activationSize * m.act.depth > m.heap.limit

/-! ### Steps -/

def isInstruction (m : Machine) : Bool := m.control.isInstruction

/-- Whether the program itself runs, and no finalizer. -/
def isProgram (m : Machine) : Bool :=
  match m.finalizing with
  | .no => true
  | _ => false

/-- One step. Before an instruction memory and budget are looked at. -/
def step (m : Machine) : Machine :=
  if m.isInstruction then
    let m := if m.isTight then m.measure else m
    if m.isTight then m.outOfMemory
    else
      let (meter, abort) := m.meter.tick m.running.isEmpty m.isProgram
      let m := { m with meter }
      match abort with
      | some message => m.raiseValue (.failure message)
      | none => m.carryOn
  else m.carryOn

/-! ### Finalizers -/

/-- The table whose finalizer comes before the next instruction of the program, if there is one. -/
def due? (m : Machine) : Option Nat :=
  if m.heap.marked.isEmpty || !m.isProgram || !m.isInstruction then none
  else m.meter.moment.dead.filter m.heap.marked.contains

theorem isInstruction_of_due? {m : Machine} {a : Nat} (h : m.due? = some a) : m.isInstruction = true := by
  unfold due? at h
  split at h
  · cases h
  · simp_all

/-- Whether a finalizer is at work, or comes next. -/
def isFinalizing (m : Machine) : Bool := !m.isProgram || m.due?.isSome

/-- Begins with the finalizer of a table. -/
def finalize (m : Machine) (a : Nat) : Machine :=
  { m with
    heap := m.heap.unmark a
    frames := []
    nesting := m.nesting + 1
    control := .invoke (m.heap.metamethod (.table a) "__gc") [.table a] (some ("metamethod", "gc"))
    meter := { m.meter with spent := m.meter.spent + 1 } }

/-- Has a finalizer interrupt the program before an instruction. -/
def interrupt (m : Machine) (a : Nat) (h : m.isInstruction = true) : Machine :=
  { m.finalize a with finalizing := .amid ⟨m.act, m.frames, m.nesting, m.control, h⟩ }

/-- Goes back to a program once the finalizer has ended, with an error or without one. -/
def goBack (m : Machine) (p : Paused) : Machine :=
  match m.control with
  | .halt _ =>
    { m with act := p.act, frames := p.frames, nesting := p.nesting, control := p.control, finalizing := .no }
  | _ => m

/-- Begins with the next finalizer of a machine that is given up. At first it may still be that of a table that the
collector finds dead; then no more tables are marked, and the one that was marked last comes first. -/
def finalizeNext? (m : Machine) : Option Machine :=
  let last (m : Machine) (a : Nat) : Machine :=
    let m := m.finalize a
    { m with running := [], act := default, nesting := 3, meter := m.meter.restart false, finalizing := .last }
  let dead := if m.heap.sealed then none else m.meter.moment.dead.filter m.heap.marked.contains
  match dead, m.heap.marked with
  | some a, _ => some (last m a)
  | none, a :: _ => some (last { m with heap := { m.heap with sealed := true } } a)
  | none, [] => none

/-! ### Runs -/

/-- What a machine does next by itself. -/
def beat (m : Machine) : Machine :=
  match h : m.due?, m.finalizing with
  | some a, _ => m.interrupt a (isInstruction_of_due? h)
  | none, .amid p => m.step.goBack p
  | none, _ => m.step

/-- Whether the machine can go on by itself. -/
def isStopped (m : Machine) : Bool :=
  match m.control with
  | .ask _ _ | .halt _ => true
  | _ => false

/-- Runs until the machine stops, but no more than a number of steps. -/
def run (m : Machine) : Nat → Machine
  | 0 => m
  | fuel + 1 => if m.isStopped then m else m.beat.run fuel

/-- Answers a call of a host function: with whether it succeeded, and its value or the message about what
went wrong. -/
def answer (m : Machine) (r : Except String Val) : Machine :=
  match r with
  | .ok v => m.go (.give [.bool true, v])
  | .error message => m.go (.give [.bool false, .text message])

/-! ### Invocations -/

/-- A machine before its first invocation. -/
def fresh (memoryLimit : Nat) (meter : Meter) : Machine :=
  { heap := {
      Library.freshHeap memoryLimit with
      random := Library.seeded meter.moment.seed 0, address := meter.around.address }
    threads := #[.active], running := [], act := default, frames := [], nesting := 3
    control := .halt (.ok []), meter, finalizing := .no }

/-- Begins to call a function for the host. -/
def start (m : Machine) (f : Val) (args : List Val) : Machine :=
  { m with
    running := []
    act := default
    frames := [.base]
    nesting := 3
    control := .invoke f args none
    meter := m.meter.restart true
    finalizing := .no }

/-- Begins to read a global variable for the host, which may call a function of the program. No budget
bounds that. -/
def startReading (m : Machine) (name : String) : Machine :=
  { m with
    running := []
    act := default
    frames := [.expr (.indexWith (.table m.heap.globals) (.const .nil) 0), .base]
    nesting := 3
    control := .give [.text name]
    meter := m.meter.restart false
    finalizing := .no }

/-- A global variable, whatever metatable the table of globals has. -/
def global (m : Machine) (name : String) : Val := m.heap.rawGet m.heap.globals (.text name)

def setGlobal (m : Machine) (name : String) (v : Val) : Machine :=
  { m with heap := m.heap.setText m.heap.globals name v }

/-- The function of a chunk: its only upvalue is the table of globals. -/
def load (m : Machine) (chunk : Bytes) (body : FunctionBody) : Val × Machine :=
  let (cell, heap) := m.heap.addCell (.table m.heap.globals)
  let (a, heap) := heap.addClosure ⟨body, chunk, #[cell]⟩
  (.function a, { m with heap })

/-- How an invocation has ended, if it has. One that ended without an error although an abort was
recorded ends with the abort. -/
def result? (m : Machine) : Option (Except Thrown (List Val)) :=
  match m.control with
  | .halt (.ok vs) =>
    match m.meter.aborted with
    | some message => some (.error ⟨.failure message, false⟩)
    | none => some (.ok vs)
  | .halt (.error e) => some (.error e)
  | _ => none

end Machine

/-- The message about an error that has reached the host. -/
def Thrown.message (e : Thrown) : String :=
  let text := match e.value with
    | .failure m => m
    | .str s => s.toText
    | _ => ""
  if e.isMemory then "memory limit exceeded: " ++ Text.firstLine text else Text.firstLine text

end ScriptHost.Lua
