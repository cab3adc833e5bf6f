import ScriptHost.Compile.Chain
import ScriptHost.Compile.LuaBackend
import ScriptHost.Config.Settings
import ScriptHost.Config.Source
import ScriptHost.Engine.Kind
import ScriptHost.Engine.Worker
import ScriptHost.Host.Modules

/-! The Lua engine of a region. While it is active it has a surface of host functions, a compiler and a
worker for each of its scripts. -/

namespace ScriptHost

/-- What an engine has only between its initialization and its end. -/
structure ActiveEngine where
  region : Region
  surface : Surface
  compiler : Compile.Compiler
  /-- The workers of the scripts that the engine has, at most one for a script. -/
  scripts : List Worker
  /-- Workers of superseded and removed scripts that have not ended yet. -/
  retired : List Worker

structure LuaEngine where
  state : EngineState
  settings : EngineSettings
  backend : Compile.Backend
  /-- Modules besides the standard ones. -/
  modules : List HostModule
  active : Option ActiveEngine

/-- The bounds that settings put on a script in its surroundings. -/
def EngineSettings.limits (s : EngineSettings) (around : Lua.Surroundings) : WorkerLimits :=
  ⟨s.memoryLimit, s.maxSlice, s.instructionInterval, around⟩

namespace ActiveEngine

def worker? (a : ActiveEngine) (script : ObjectId) : Option Worker :=
  a.scripts.find? (·.context.script == script)

/-- The workers of the other scripts. -/
def others (a : ActiveEngine) (script : ObjectId) : List Worker :=
  a.scripts.filter (·.context.script != script)

/-- Changes the worker of a script. -/
def setWorker (a : ActiveEngine) (w : Worker) : ActiveEngine :=
  { a with scripts := a.scripts.map fun v => if v.context.script == w.context.script then w else v }

/-- Retires the worker of a script, and takes the handles of the script away. -/
def retire (a : ActiveEngine) (w : Worker) : ActiveEngine :=
  { a with
    surface := (a.surface.disposeOwner w.context.script).2
    scripts := a.others w.context.script
    retired := w.stop :: a.retired.filter (!·.isFinished) }

/-- How many other scripts have a worker that has not ended. -/
def unfinished (a : ActiveEngine) (script : ObjectId) : Nat := (a.others script).countP (!·.isFinished)

/-- Starts a compiled script, in place of the one with its id. -/
def start (a : ActiveEngine) (unit : CompiledUnit) (context : ScriptContext) (lease : LeasePolicy)
    (limits : WorkerLimits) (now : Nat) : ActiveEngine :=
  let a := match a.worker? context.script with
    | some w => a.retire w
    | none => a
  let (handle, surface) := a.surface.issue context lease now
  let w := Worker.spawn unit context surface.functionNames handle limits
  { a with surface, scripts := w :: a.scripts }

/-- One step of the worker of a script. -/
def stepWorker (a : ActiveEngine) (script : ObjectId) (now : Nat) : ActiveEngine × List HostEvent :=
  match a.worker? script with
  | none => (a, [])
  | some w =>
    let (w, surface, events) := w.stepOn Worker.burst a.surface now
    ({ a with surface }.setWorker w, events)

/-- Lets workers work one after another until each is at rest or held. -/
def settleAll (held : HostFunction → Bool) (now fuel : Nat) :
    List Worker → Surface → List HostEvent → List Worker × Surface × List HostEvent
  | [], s, events => ([], s, events)
  | w :: ws, s, events =>
    let (w, s, events) := w.settle held now s events fuel
    let (ws, s, events) := settleAll held now fuel ws s events
    (w :: ws, s, events)

/-- Lets every worker work until it is at rest or about to serve a call that is held back. -/
def settle (a : ActiveEngine) (held : HostFunction → Bool) (now fuel : Nat) :
    ActiveEngine × List HostEvent :=
  let (scripts, surface, events) := settleAll held now fuel a.scripts a.surface []
  let (retired, surface, events) := settleAll held now fuel a.retired surface events
  ({ a with scripts, surface, retired := retired.filter (!·.isFinished) }, events)

end ActiveEngine

namespace LuaEngine

def name : String := "lua"

def fresh : LuaEngine := ⟨.uninitialized, .default, Compile.LuaBackend.backend, [], none⟩

/-- The settings of the engine, which are written to the configuration where it has none. -/
def readSection {κ : Type} [ConfigSource κ] (c : κ) : Section × κ :=
  match ConfigSource.read? c EngineSettings.sectionName with
  | some s => (s, c)
  | none =>
    (EngineSettings.defaults,
      ConfigSource.write c EngineSettings.sectionName EngineSettings.defaults)

/-- The settings that a configuration gives. -/
def settingsOf {κ : Type} [ConfigSource κ] (c : κ) : EngineSettings := .ofSection (readSection c).1

/-- Brings the engine up. One that its settings disable stays as it is; its settings are taken over in
any case. -/
def setUp {κ : Type} [ConfigSource κ] (e : LuaEngine) (region : Region) (c : κ) :
    Except EngineError Unit × κ × LuaEngine :=
  let (own, c) := readSection c
  let settings := EngineSettings.ofSection own
  let e := { e with settings }
  if !settings.enabled then (.ok (), c, e)
  else
    match e.state.moveTo .initialized with
    | .error l => (.error (.lifecycle l), c, e)
    | .ok state =>
      let capabilities := EngineSettings.capabilities own (ConfigSource.read? c EngineSettings.capabilitySection)
      match Surface.build region capabilities (Modules.standard ++ e.modules) true
          settings.serviceTimeout with
      | .error b => (.error (.config b.message), c, e)
      | .ok surface =>
        let compiler := Compile.standard e.backend settings.defaultLanguage
        (.ok (), c, { e with state, active := some ⟨region, surface, compiler, [], []⟩ })

/-- Brings an engine up, where the runtime that its workers need may not start. It is started once the settings
and the state of the engine allow it. -/
def setUpOn {κ : Type} [ConfigSource κ] (runtime : Except String Unit) (e : LuaEngine) (region : Region)
    (c : κ) : Except EngineError Unit × κ × LuaEngine :=
  match runtime with
  | .ok () => e.setUp region c
  | .error why =>
    if (settingsOf c).enabled && e.state.canMoveTo .initialized then
      (.error (.runtime s!"failed to start runtime: {why}"), (readSection c).2,
        { e with settings := settingsOf c })
    else e.setUp region c

/-- The second phase of startup, if the first one has brought the engine up. -/
def complete (e : LuaEngine) : LuaEngine :=
  if e.state = .initialized && e.active.isSome then { e with state := .postInitialized } else e

/-- Ends every script and takes all handles away. -/
def close (e : LuaEngine) : LuaEngine := { e with state := .closed, active := none }

/-- Compiles a script and starts it in place of the one with its id. The compiler acts in a monad, so that it
is seen whether the compiler is called. The surroundings are those that the script's machine will meet. -/
def loadWith {m : Type → Type} [Monad m]
    (compile : Compile.Compiler → Compile.Metadata → String → m (Except CompileError CompiledUnit))
    (e : LuaEngine) (item : ScriptItem) (now : Nat) (around : Lua.Surroundings) :
    m (Except ScriptError CompiledUnit × LuaEngine) :=
  match e.active with
  | none => pure (.error (.notActive e.state), e)
  | some a => do
    match ← compile a.compiler ⟨item.script, item.name⟩ item.source with
    | .error err => pure (.error (.compile err), e)
    | .ok unit =>
      if a.unfinished item.script ≥ e.settings.maxScripts then
        pure (.error (.worker s!"script limit reached ({e.settings.maxScripts})"), e)
      else
        let context := ScriptContext.ofItem item name a.region.name
        let limits := e.settings.limits around
        pure (.ok unit, { e with active := some (a.start unit context e.settings.lease limits now) })

def load (e : LuaEngine) (item : ScriptItem) (now : Nat) (around : Lua.Surroundings) :
    Except ScriptError CompiledUnit × LuaEngine :=
  loadWith (m := Id) Compile.Compiler.compile e item now around

theorem load_eq (e : LuaEngine) (item : ScriptItem) (now : Nat) (around : Lua.Surroundings) :
    e.load item now around =
      match e.active with
      | none => (.error (.notActive e.state), e)
      | some a =>
        match a.compiler.compile ⟨item.script, item.name⟩ item.source with
        | .error err => (.error (.compile err), e)
        | .ok unit =>
          if a.unfinished item.script ≥ e.settings.maxScripts then
            (.error (.worker s!"script limit reached ({e.settings.maxScripts})"), e)
          else
            (.ok unit, { e with
              active := some (a.start unit (.ofItem item name a.region.name) e.settings.lease
                (e.settings.limits around) now) }) := by
  unfold load loadWith
  cases e.active with
  | none => rfl
  | some a =>
    dsimp only [bind, pure]
    cases a.compiler.compile ⟨item.script, item.name⟩ item.source <;> rfl

/-- Removes a script, and says whether it was there. -/
def remove (e : LuaEngine) (script : ObjectId) : Bool × LuaEngine :=
  match e.active with
  | none => (false, e)
  | some a =>
    match a.worker? script with
    | none => (false, e)
    | some w => (true, { e with active := some (a.retire w) })

/-- Posts an event to a script. Its handle is renewed, if that is still possible. -/
def post (e : LuaEngine) (script : ObjectId) (event : ScriptEvent) (now : Nat) :
    Except ScriptError Unit × LuaEngine :=
  match e.active with
  | none => (.error (.notActive e.state), e)
  | some a =>
    match a.worker? script with
    | none => (.error (.unknownScript script), e)
    | some w =>
      let surface := (a.surface.renew w.handle now).2
      let (r, w) := w.post event
      (r.mapError (fun p => .worker p.message), { e with active := some ({ a with surface }.setWorker w) })

/-- Reclaims the handles whose leases have expired, and says how many there were. -/
def sweep (e : LuaEngine) (now : Nat) : Nat × LuaEngine :=
  match e.active with
  | none => (0, e)
  | some a =>
    let (n, surface) := a.surface.sweep now
    (n, { e with active := some { a with surface } })

def worker? (e : LuaEngine) (script : ObjectId) : Option Worker := e.active.bind (·.worker? script)

def status? (e : LuaEngine) (script : ObjectId) : Option ScriptStatus := (e.worker? script).map (·.status)

def unit? (e : LuaEngine) (script : ObjectId) : Option CompiledUnit := (e.worker? script).map (·.unit)

/-- How many events of a script are pending; none for a script that is not there. -/
def pending (e : LuaEngine) (script : ObjectId) : Nat :=
  ((e.worker? script).map (·.pending.toNat)).getD 0

/-- The scripts that run, in the order of their names. -/
def running (e : LuaEngine) : List ScriptContext :=
  let contexts := ((e.active.map (·.scripts)).getD []).filterMap fun w =>
    if w.status = .running then some w.context else none
  contexts.mergeSort fun a b => a.name ≤ b.name

def capabilities? (e : LuaEngine) : Option Capabilities := e.active.map (·.surface.capabilities)

def languages (e : LuaEngine) : List Language := (e.active.map (·.compiler.languages)).getD []

def functionNames (e : LuaEngine) : List String := (e.active.map (·.surface.functionNames)).getD []

def liveHandles (e : LuaEngine) : Nat := (e.active.map (·.surface.arena.size)).getD 0

/-- One step of the worker of a script. -/
def stepWorker (e : LuaEngine) (script : ObjectId) (now : Nat) : LuaEngine × List HostEvent :=
  match e.active with
  | none => (e, [])
  | some a =>
    let (a, events) := a.stepWorker script now
    ({ e with active := some a }, events)

/-- Lets every worker work until it is at rest or about to serve a call that is held back. -/
def settle (e : LuaEngine) (held : HostFunction → Bool) (now fuel : Nat) : LuaEngine × List HostEvent :=
  match e.active with
  | none => (e, [])
  | some a =>
    let (a, events) := a.settle held now fuel
    ({ e with active := some a }, events)

/-- Changes the account service of the engine's region, if it has one. -/
def updateDirectory (e : LuaEngine) (f : Directory → Directory) : LuaEngine :=
  { e with active := e.active.map fun a => { a with surface := a.surface.updateDirectory f } }

def kind (κ : Type) [ConfigSource κ] : EngineKind κ LuaEngine where
  name _ := name
  state := state
  isAvailable _ := true
  setUp region c e :=
    let (r, c, e) := e.setUp region c
    (r.mapError .failed, c, e)
  complete e := (.ok (), e.complete)
  close e := (.ok (), e.close)

end LuaEngine

end ScriptHost
