import ScriptHost.Panicking
import ScriptHost.Region
import ScriptHost.Script
import ScriptHost.Value

/-! Host functions. A function answers with a value, or the host refuses: then its neutral value is
what the script gets, so that a refusal cannot be told from an empty answer. -/

namespace ScriptHost

/-- Why a valid call gets the neutral value. -/
inductive Denial
  | capabilityDisabled (capability : String)
  | permissionDenied
  | malformedArgument (what : String)
  | serviceUnavailable (why : String)
  deriving DecidableEq

def Denial.message : Denial → String
  | capabilityDisabled name => s!"capability '{name}' is disabled"
  | permissionDenied => "caller lacks the required privilege"
  | malformedArgument what => s!"malformed argument: {what}"
  | serviceUnavailable why => s!"backing service unavailable: {why}"

/-- The text of a panic that may carry a message. -/
def panicText (message : Option String) : String := message.getD "unknown panic"

/-- What host functions do besides answering. -/
inductive HostEvent
  /-- A script wrote to the log. -/
  | logged (script text : String)
  /-- A function refused a call. -/
  | denied (function : String) (reason : Denial)
  /-- A function panicked. -/
  | panicked (function : String) (message : Option String)
  /-- The account service was asked for a user. -/
  | asked (scope user : ObjectId)
  /-- A function began to serve a call. -/
  | served (script : ObjectId) (function : String) (args : List Value)

/-- Why a handler gives no value. -/
inductive Refusal
  | denied (reason : Denial)
  | panicked (message : Option String)

/-- The work of a handler: events on the way to a value or a refusal. -/
abbrev Serving := ExceptT Refusal (StateM (List HostEvent))

namespace Serving

def emit (e : HostEvent) : Serving Unit := fun events => (.ok (), events ++ [e])

def deny {α : Type} (reason : Denial) : Serving α := throw (.denied reason)

def panic {α : Type} (message : Option String) : Serving α := throw (.panicked message)

def ofExcept {α : Type} : Except Denial α → Serving α
  | .ok a => pure a
  | .error d => deny d

variable {α : Type} (events : List HostEvent)

@[simp] theorem pure_apply (a : α) : (pure a : Serving α) events = (.ok a, events) := rfl

@[simp] theorem emit_apply (e : HostEvent) : emit e events = (.ok (), events ++ [e]) := rfl

@[simp] theorem deny_apply (reason : Denial) :
    (deny reason : Serving α) events = (.error (.denied reason), events) := rfl

@[simp] theorem ofExcept_apply (x : Except Denial α) :
    ofExcept x events = (x.mapError .denied, events) := by cases x <;> rfl

end Serving

/-- What a handler sees of the call that it serves. -/
structure Call where
  context : ScriptContext
  region : Region
  /-- Whether there is a runtime on which to wait for services. -/
  attached : Bool
  /-- How long to wait for a service. -/
  timeout : Nat

/-- What a service will say, and after what time. -/
structure Awaited (α : Type) where
  after : Nat
  answer : Except String α

/-- Waits for a service, but no longer than the call's time limit. -/
def Call.await {α : Type} (call : Call) (service : Awaited α) : Except Denial α :=
  if !call.attached then .error (.serviceUnavailable "no runtime attached")
  else if call.timeout < service.after then
    .error (.serviceUnavailable s!"no answer within {call.timeout} ms")
  else
    match service.answer with
    | .ok a => .ok a
    | .error why => .error (.serviceUnavailable why)

abbrev Handler := Call → List Value → Serving Value

/-- A function that scripts may call. -/
structure HostFunction where
  name : String
  /-- The capability without which the handler is not run. -/
  capability : Option String
  /-- What a script gets when the call is refused. -/
  neutral : Value
  handler : Handler

/-- A group of host functions. -/
structure HostModule where
  name : String
  functions : List HostFunction

/-- An argument that has to be the key of an object. -/
def keyArgument (args : List Value) (index : Nat) : Except Denial ObjectId :=
  match args[index]? with
  | none => .error (.malformedArgument s!"missing argument #{index + 1}")
  | some v =>
    match v.asString?.bind ObjectId.parseLenient? with
    | some id => .ok id
    | none => .error (.malformedArgument s!"'{v.text}' is not a key")

end ScriptHost
