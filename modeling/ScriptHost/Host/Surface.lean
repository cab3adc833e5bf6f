import ScriptHost.Capability
import ScriptHost.Host.Arena
import ScriptHost.Host.Function

/-! The surface through which scripts reach the host: the table of host functions and the arena of
the handles that may call them. A call is resolved first, which can fail and uses the handle; a
resolved call is then served, which always gives a value. -/

namespace ScriptHost

/-- Why modules cannot share a surface. -/
inductive BuildError
  /-- Two functions have one name. -/
  | duplicateFunction (name module existing : String)
  deriving DecidableEq

def BuildError.message : BuildError → String
  | duplicateFunction name module existing =>
    s!"host function '{name}' from module '{module}' is already defined by '{existing}'"

/-- Functions by name, each with the name of its module. -/
abbrev FunctionTable := Dict (String × HostFunction)

namespace FunctionTable

/-- Adds a function of a module, unless its name is taken. -/
def add (module : String) (table : FunctionTable) (f : HostFunction) :
    Except BuildError FunctionTable :=
  match table.get? f.name with
  | some (existing, _) => .error (.duplicateFunction f.name module existing)
  | none => .ok (table.insert f.name (module, f))

/-- The functions of all modules, or the first clash in their order. -/
def ofModules (modules : List HostModule) : Except BuildError FunctionTable :=
  modules.foldlM (fun table m => m.functions.foldlM (add m.name) table) Dict.empty

end FunctionTable

structure Surface where
  functions : Dict HostFunction
  arena : Arena
  capabilities : Capabilities
  region : Region
  /-- Whether there is a runtime on which to wait for services. -/
  attached : Bool
  /-- How long a handler waits for a service. -/
  timeout : Nat

namespace Surface

/-- How long a handler waits for a service unless told otherwise. -/
def defaultTimeout : Nat := 2000

def build (region : Region) (capabilities : Capabilities) (modules : List HostModule)
    (attached : Bool) (timeout : Nat) : Except BuildError Surface := do
  let table ← FunctionTable.ofModules modules
  return { functions := table.mapValues fun _ f => f.2, arena := .empty, capabilities, region
           attached, timeout }

/-- Nobody holds a handle of a new surface. -/
theorem build_arena {region : Region} {capabilities : Capabilities} {modules : List HostModule}
    {attached : Bool} {timeout : Nat} {s : Surface}
    (h : build region capabilities modules attached timeout = .ok s) : s.arena = .empty := by
  unfold build at h
  cases htable : FunctionTable.ofModules modules with
  | error e =>
    rw [htable] at h
    cases h
  | ok table =>
    rw [htable] at h
    cases h
    rfl

/-- The names of the host functions, in order. -/
def functionNames (s : Surface) : List String := s.functions.keys

/-- The capability that keeps a function from running. -/
def closedGate? (s : Surface) (f : HostFunction) : Option String :=
  f.capability.filter fun c => !s.capabilities.isEnabled c

/-- Finds the caller and the function of a call. A handle that resolves counts as used even where
there is no such function. -/
def resolve (s : Surface) (h : Handle) (name : String) (now : Nat) :
    Except CallError (ScriptContext × HostFunction) × Surface :=
  match s.arena.access h now with
  | (.error e, arena) => (.error e, { s with arena })
  | (.ok context, arena) =>
    match s.functions.get? name with
    | some f => (.ok (context, f), { s with arena })
    | none => (.error (.unknownFunction name), { s with arena })

/-- Serves a resolved call: the handler's value, or the neutral value if the handler may not run, or
refuses, or panics. -/
def serve (s : Surface) (context : ScriptContext) (f : HostFunction) (args : List Value) :
    Value × List HostEvent :=
  match s.closedGate? f with
  | some c => (f.neutral, [.denied f.name (.capabilityDisabled c)])
  | none =>
    match f.handler ⟨context, s.region, s.attached, s.timeout⟩ args
      [.served context.script f.name args] with
    | (.ok v, events) => (v, events)
    | (.error (.denied reason), events) => (f.neutral, events ++ [.denied f.name reason])
    | (.error (.panicked message), events) => (f.neutral, events ++ [.panicked f.name message])

/-- Calls a host function in the name of the script that holds a handle. -/
def invoke (s : Surface) (h : Handle) (name : String) (args : List Value) (now : Nat) :
    Except CallError Value × List HostEvent × Surface :=
  match s.resolve h name now with
  | (.error e, s) => (.error e, [], s)
  | (.ok (context, f), s) =>
    let (v, events) := s.serve context f args
    (.ok v, events, s)

def issue (s : Surface) (context : ScriptContext) (policy : LeasePolicy) (now : Nat) :
    Handle × Surface :=
  let (h, arena) := s.arena.issue context policy now
  (h, { s with arena })

def renew (s : Surface) (h : Handle) (now : Nat) : Except CallError Unit × Surface :=
  let (r, arena) := s.arena.renew h now
  (r, { s with arena })

def dispose (s : Surface) (h : Handle) : Bool × Surface :=
  let (r, arena) := s.arena.dispose h
  (r, { s with arena })

def disposeOwner (s : Surface) (script : ObjectId) : Nat × Surface :=
  let (n, arena) := s.arena.disposeOwner script
  (n, { s with arena })

def disposeAll (s : Surface) : Nat × Surface :=
  let (n, arena) := s.arena.disposeAll
  (n, { s with arena })

/-- Reclaims the expired leases, and says how many there were. -/
def sweep (s : Surface) (now : Nat) : Nat × Surface :=
  let (expired, arena) := s.arena.sweep now
  (expired.length, { s with arena })

/-- Changes the region's account service, if it has one. -/
def updateDirectory (s : Surface) (f : Directory → Directory) : Surface :=
  { s with region := { s.region with directory := s.region.directory.map f } }

end Surface

end ScriptHost
