import ScriptHost.CommandLine.Arguments
import ScriptHost.CommandLine.Event
import ScriptHost.CommandLine.Script
import ScriptHost.Config.Loading
import ScriptHost.Config.Validation
import ScriptHost.Engine.Loader
import ScriptHost.Toml.Printer

/-! The commands of the program as functions of what they read. -/

namespace ScriptHost.CommandLine

/-- The engines that configurations can select. -/
def engineRegistry : Registry LuaEngine := .standard .fresh

/-- A text and blanks up to a width. -/
def padded (width : Nat) (s : String) : String :=
  s ++ String.ofList (List.replicate (width - s.length) ' ')

/-- The engines, whether they are there, and which of them is selected. -/
def listEngines (c : FileConfig) : Outcome :=
  let selected := (Startup.read c).engine
  { output := engineRegistry.entries.map fun (name, e) =>
      let there := if (LuaEngine.kind FileConfig).isAvailable e then "available" else "unavailable"
      padded 12 name ++ " " ++ padded 12 there ++ " " ++ if name = selected then "(selected)" else "" }

/-- The compiler that a configuration sets up. -/
def compilerOf (c : FileConfig) : Compile.Compiler :=
  let settings := match c.keyValues? EngineSettings.sectionName with
    | some s => EngineSettings.ofSection s
    | none => .default
  Compile.standard Compile.LuaBackend.backend settings.defaultLanguage

def compileFile (c : FileConfig) (path : String) (content : FileText) (json : Bool) (script : ObjectId)
    (time : String) : Outcome :=
  withScript path content fun name source =>
    match (compilerOf c).compile ⟨script, name⟩ source with
    | .ok u => { output := [if json then (unitJson u time).print else unitLine path u] }
    | .error e =>
      if json then { output := [(errorJson e).print], failure := some compilationFailed }
      else { complaints := [errorLine path e], failure := some compilationFailed }

/-! ### Running a script -/

/-- The ids that a run makes up. -/
structure RunIds where
  owner : ObjectId
  region : ObjectId
  hostObject : ObjectId
  script : ObjectId

/-- A region with nobody in it, whose estate may belong to the owner of the script. -/
def scratchRegion (o : RunOptions) (ids : RunIds) : Region where
  name := o.region
  id := ids.region
  scope := .nil
  directory := some (.ofList [])
  permissions := ({ gods := [], owner := if o.privileged then some ids.owner else none, managers := [] } :
    Permissions)

/-- Posts events until one is refused. -/
def postAll (script : ObjectId) : List String → LuaEngine → LuaEngine × List String
  | [], e => (e, [])
  | raw :: rest, e =>
    let (name, args) := parseEvent raw
    match e.post script ⟨name, args⟩ 0 with
    | (.ok (), e) => postAll script rest e
    | (.error err, e) => (e, [s!"not delivered {name}: {err.message}"])

/-- What the clock of a script shows. -/
def clockOf (e : LuaEngine) (script : ObjectId) : Nat :=
  ((e.worker? script).map (·.machine.meter.now)).getD 0

/-- Lets a script handle its events until it is through, or has taken as many nanoseconds as one waits
for. -/
def await (script : ObjectId) (e : LuaEngine) (patience : Nat) : (steps : Nat) → LuaEngine
  | 0 => e
  | steps + 1 =>
    if e.pending script = 0 || patience = 0 then e
    else
      let before := clockOf e script
      let e := (e.stepWorker script 0).1
      await script e (patience - (clockOf e script - before)) steps

/-- More steps than one waits for in any case. -/
def stepBound : Nat := 1000000000

/-- What a script has come to. -/
def verdict (script : ObjectId) (e : LuaEngine) (timeout : Nat) (o : Outcome) : Outcome :=
  let fail (message : String) : Outcome := { o with failure := some ⟨message, none⟩ }
  if e.pending script > 0 then
    fail ("script did not finish within " ++ if timeout = 0 then "0ns" else s!"{timeout}s")
  else
    match e.status? script with
    | some .running => { o with output := o.output ++ ["status Running"] }
    | some .stopped => { o with output := o.output ++ ["status Stopped"] }
    | some (.faulted m) => fail ("script faulted: " ++ m)
    | none => fail s!"script {script} disappeared"

/-- Loads a script into an engine, posts events to it and waits until it is through. -/
def drive (path : String) (item : ScriptItem) (o : RunOptions) (e : LuaEngine) : Outcome :=
  match e.load item 0 default with
  | (.error (.compile err), _) =>
    { complaints := [errorLine path err], failure := some compilationFailed }
  | (.error err, _) => .failed err.message
  | (.ok u, e) =>
    let (e, refused) := postAll item.script o.events e
    let e := await item.script e (o.timeout * 1000 * Lua.Meter.nanosPerMilli) stepBound
    verdict item.script e o.timeout
      { output := [s!"loaded {path} as {item.script} ({u.source.tag})"], complaints := refused }

def runFile (c : FileConfig) (path : String) (content : FileText) (o : RunOptions) (ids : RunIds) :
    Outcome :=
  withScript path content fun name source =>
    let kind := LuaEngine.kind FileConfig
    let (l, _, created) := Loader.fresh.regionCreated kind (engineRegistry.create .ok) (scratchRegion o ids) c
    let (l, completed) := l.regionCompleted kind
    let item : ScriptItem :=
      { script := ids.script, name, hostObject := ids.hostObject, owner := ids.owner, hostOwner := ids.owner, source }
    let outcome := match l.engine with
      | some e => drive path item o e
      | none => .failed
        "scripting is disabled for this region (see `sandscript config --validate`)"
    let (_, closed) := l.regionClosing kind
    { outcome with logs := created.logs ++ completed.logs ++ closed.logs }

/-! ### Configuration -/

/-- An issue in one line. -/
def issueLine (i : ConfigIssue) : String :=
  match i.severity with
  | .error => "error: " ++ i.message
  | .warning => "warning: " ++ i.message

/-- Where settings come from and what they are and, if it is asked for, what is wrong with them. -/
def showConfig (c : FileConfig) (sources : List String) (validate : Bool) : Outcome :=
  let shown := sources ++ ["", Toml.print c.toEntries]
  if !validate then { output := shown }
  else
    let issues := c.validate engineRegistry.names
    if issues.isEmpty then { output := shown ++ ["configuration OK"] }
    else
      let errors := issues.countP (·.severity == .error)
      { output := shown ++ issues.map issueLine
        failure := if errors = 0 then none else some ⟨s!"{errors} configuration error(s)", none⟩ }

end ScriptHost.CommandLine
