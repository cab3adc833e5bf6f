import ScriptHost.Artifact
import ScriptHost.Engine.Bridge
import ScriptHost.Engine.Kind
import ScriptHost.Lua.Chunk

/-! Workers. Each script has a worker of its own, with a machine that nothing else touches. It runs the
chunk of the script, delivers the startup event and then the events of its queue, one after another; the
first error ends it. Posting an event and the end of a worker are made of single steps, since a worker and
those who post to it take turns in any order. -/

namespace ScriptHost

/-- Something that happened, with the arguments for its handler. -/
structure ScriptEvent where
  name : String
  args : List Value

/-- What a worker has its machine run. -/
inductive Invocation
  | chunk
  /-- The search for the handler of an event. -/
  | search (e : ScriptEvent)
  | handler (e : ScriptEvent)

inductive WorkerStage
  /-- Nothing has been run yet. -/
  | fresh
  | running (i : Invocation)
  /-- Between two events. -/
  | idle
  /-- Nothing but finalizers runs any more. -/
  | closing (outcome : ScriptStatus)
  /-- Over, with the queue given up; the status does not say so yet. -/
  | leaving (outcome : ScriptStatus)
  /-- Over, and the status says so; the counter of pending events does not yet. -/
  | reported
  | finished

/-- A call of a host function that is about to be served. -/
structure ResolvedCall where
  context : ScriptContext
  function : HostFunction
  args : List Value

structure Worker where
  context : ScriptContext
  handle : Handle
  unit : CompiledUnit
  machine : Lua.Machine
  stage : WorkerStage
  call : Option ResolvedCall
  queue : List ScriptEvent
  /-- Whether events may still be put into the queue. -/
  sending : Bool
  /-- Whether the worker still takes events out of it. -/
  receiving : Bool
  cancelled : Bool
  status : ScriptStatus
  /-- Events accepted and not yet handled. The startup counts as one. -/
  pending : UInt64

/-- What bounds the work of a script, and by whose clock. -/
structure WorkerLimits where
  /-- Bytes that it may hold; 0 for no bound. -/
  memory : Nat
  slice : Nat
  interval : Nat
  around : Lua.Surroundings

namespace Worker

/-- The event that is delivered once the chunk has run. -/
def startup : ScriptEvent := ⟨"state_entry", []⟩

/-- How many events a queue holds. -/
def queueCapacity : Nat := 256

/-- A worker for a compiled script, with the host functions that the script will find. -/
def spawn (unit : CompiledUnit) (context : ScriptContext) (functions : List String) (handle : Handle)
    (limits : WorkerLimits) : Worker :=
  { context, handle, unit
    machine := Bridge.install functions
      (.fresh limits.memory (.start limits.interval limits.slice limits.around))
    stage := .fresh, call := none, queue := [], sending := true, receiving := true, cancelled := false
    status := .running, pending := 1 }

def isFinished (w : Worker) : Bool :=
  match w.stage with
  | .finished => true
  | _ => false

/-- Whether only the host can get the worker going again. -/
def isAtRest (w : Worker) : Bool :=
  match w.stage with
  | .finished => true
  | .idle => w.queue.isEmpty && w.sending
  | _ => false

/-! ### Posting -/

/-- Why a worker does not take an event. -/
inductive PostError
  | faulted (message : String)
  | stopped
  | queueFull
  deriving DecidableEq

def PostError.message : PostError → String
  | faulted m => s!"script faulted: {m}"
  | stopped => "script stopped"
  | queueFull => "event queue full"

/-- What can be told before an event is offered. -/
def refusal? (w : Worker) : Option PostError :=
  match w.status with
  | .faulted m => some (.faulted m)
  | _ => if w.sending then none else some .stopped

/-- Counts an event that is going to be offered. -/
def countUp (w : Worker) : Worker := { w with pending := w.pending + 1 }

def countDown (w : Worker) : Worker := { w with pending := w.pending - 1 }

/-- Puts an event into the queue. -/
def offer (w : Worker) (e : ScriptEvent) : Except PostError Worker :=
  if !w.receiving then .error .stopped
  else if w.queue.length ≥ queueCapacity then .error .queueFull
  else .ok { w with queue := w.queue ++ [e] }

/-- Posts an event: it counts as pending before it is offered, and no more once it is refused. -/
def post (w : Worker) (e : ScriptEvent) : Except PostError Unit × Worker :=
  match w.refusal? with
  | some r => (.error r, w)
  | none =>
    match w.countUp.offer e with
    | .ok w => (.ok (), w)
    | .error r => (.error r, w.countUp.countDown)

/-- Tells a worker to end. -/
def stop (w : Worker) : Worker :=
  { w with
    cancelled := true
    sending := false
    machine := { w.machine with meter := { w.machine.meter with cancelled := true } } }

/-! ### Working -/

/-- Gives up the queue, with an outcome that is still to be reported. -/
def leave (w : Worker) (outcome : ScriptStatus) : Worker :=
  { w with stage := .leaving outcome, queue := [], receiving := false }

def fault (w : Worker) (message : String) : Worker := w.leave (.faulted message)

/-- Gives the machine up, with an outcome that is still to be reported. Its finalizers come first. -/
def giveUp (w : Worker) (outcome : ScriptStatus) : Worker :=
  match w.machine.finalizeNext? with
  | some machine => { w with machine, stage := .closing outcome }
  | none => w.leave outcome

/-- Whether a bound on memory leaves no room for a machine. -/
def isTooTight (limit : Nat) : Bool := limit > 0 && limit < Lua.Library.baseSize

/-- Begins with the chunk of the script. -/
def begin (w : Worker) : Worker :=
  if isTooTight w.machine.heap.limit then w.fault (Lua.Thrown.message ⟨.str Lua.Machine.memoryMessage, true⟩)
  else
    match Lua.Chunk.load w.context.name w.unit.artifact.code with
    | .error e => w.fault (Text.firstLine e.message)
    | .ok body =>
      let (f, m) := w.machine.load (Lua.chunkId w.context.name) body
      { w with machine := m.start f [], stage := .running .chunk }

/-- Begins to deliver an event. -/
def deliver (w : Worker) (e : ScriptEvent) : Worker :=
  { w with machine := w.machine.startReading e.name, stage := .running (.search e) }

/-- An event, or the startup, is done with. -/
def handled (w : Worker) : Worker := { w.countDown with stage := .idle }

/-- An invocation has ended without an error. An event without a function as its handler is done
with. -/
def succeed (w : Worker) (i : Invocation) (results : List Lua.Val) : Worker :=
  match i with
  | .chunk => w.deliver startup
  | .search e =>
    match results.headD .nil with
    | .function f =>
      { w with machine := w.machine.start (.function f) (e.args.map Value.toLua), stage := .running (.handler e) }
    | .builtin f =>
      { w with machine := w.machine.start (.builtin f) (e.args.map Value.toLua), stage := .running (.handler e) }
    | _ => w.handled
  | .handler _ => w.handled

/-- Takes the next event. A worker that is told to end does so here, whatever its queue holds. -/
def receive (w : Worker) : Worker :=
  match w.queue with
  | [] => if w.sending then w else w.giveUp .stopped
  | e :: rest =>
    let w := { w with queue := rest }
    if w.cancelled then w.giveUp .stopped else w.deliver e

/-- One step of a worker that waits for no host function, in which its machine goes on for up to `n`
steps. -/
def stepFor (n : Nat) (w : Worker) : Worker :=
  match w.stage with
  | .fresh => w.begin
  | .running i =>
    let w := { w with machine := w.machine.run n }
    match w.machine.result? with
    | none => w
    | some (.ok results) => w.succeed i results
    | some (.error e) => w.giveUp (.faulted e.message)
  | .idle => w.receive
  | .closing outcome =>
    let w := { w with machine := w.machine.run n }
    match w.machine.result? with
    | none => w
    | some _ => w.giveUp outcome
  | .leaving outcome => { w with status := outcome, stage := .reported }
  | .reported => { w with pending := 0, stage := .finished }
  | .finished => w

/-- How far a machine usually runs in one step of its worker. -/
def burst : Nat := 1000000

/-- The call of a host function at which the worker waits. -/
def question? (w : Worker) : Option (String × List Value) :=
  match w.stage with
  | .running _ | .closing _ => Bridge.question? w.machine
  | _ => none

/-- Answers the call of a host function. -/
def answer (w : Worker) (r : Except CallError Value) : Worker :=
  { w with machine := Bridge.answer w.machine r, call := none }

/-- One step of a worker on its surface, in which its machine goes on for up to `n` steps: a call of a host
function is resolved in one step and served in the next. -/
def stepOn (n : Nat) (w : Worker) (s : Surface) (now : Nat) : Worker × Surface × List HostEvent :=
  match w.call with
  | some c =>
    let (v, events) := s.serve c.context c.function c.args
    (w.answer (.ok v), s, events)
  | none =>
    match w.question? with
    | none => (w.stepFor n, s, [])
    | some (name, args) =>
      match s.resolve w.handle name now with
      | (.error e, s) => (w.answer (.error e), s, [])
      | (.ok (context, function), s) => ({ w with call := some ⟨context, function, args⟩ }, s, [])

/-- What a step makes of the worker itself. -/
def turn (n : Nat) (w : Worker) (s : Surface) (now : Nat) : Worker := (w.stepOn n s now).1

/-- Whether the worker is about to serve a call that is held back. -/
def isHeld (held : HostFunction → Bool) (w : Worker) : Bool := w.call.any fun c => held c.function

/-- Lets a worker work until it is at rest or held, but no more than a number of steps. -/
def settle (held : HostFunction → Bool) (now : Nat) (w : Worker) (s : Surface) (events : List HostEvent) :
    Nat → Worker × Surface × List HostEvent
  | 0 => (w, s, events)
  | fuel + 1 =>
    if w.isAtRest || w.isHeld held then (w, s, events)
    else
      match w.stepOn burst s now with
      | (w, s, more) => settle held now w s (events ++ more) fuel

end Worker

end ScriptHost
