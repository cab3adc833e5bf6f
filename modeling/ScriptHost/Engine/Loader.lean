import ScriptHost.Config.Startup
import ScriptHost.Engine.Registry

/-! The engine of one region, as the region's life drives it. A region comes up whatever its configuration
says about scripting: whatever goes wrong with an engine is logged, and the region goes on without it. -/

namespace ScriptHost

/-- The text of what went wrong with an engine. -/
def EngineFault.message : EngineFault → String
  | failed e => e.message
  | panicked m => s!"panic: {panicText m}"

/-- What went wrong with a call, whichever way it did. -/
def EngineFault.flatten : Except (Option String) (Except EngineError Unit) → Except EngineFault Unit
  | .ok r => r.mapError failed
  | .error message => .error (panicked message)

/-- Calls an engine and catches its panics. -/
def guarded {ω : Type} (call : Panicking ω (Except EngineError Unit)) :
    Panicking ω (Except EngineFault Unit) := do
  return EngineFault.flatten (← call.caught)

theorem contained_guarded {ω : Type} (call : Panicking ω (Except EngineError Unit)) :
    (guarded call).Contained :=
  (Panicking.contained_caught call).bind fun _ => Panicking.contained_pure _

/-- What owns the engine of a region. -/
structure Loader (σ : Type) where
  engine : Option σ
  /-- The name of the region that was created last. -/
  region : Option String

/-- What a hook leaves behind besides the loader. -/
structure HookReport (σ : Type) where
  logs : List LogRecord
  /-- The engines that were let go, closed, in this order. -/
  released : List σ

namespace HookReport

variable {σ : Type}

def none : HookReport σ := ⟨[], []⟩

def logging (records : List LogRecord) : HookReport σ := ⟨records, []⟩

/-- A report and the one after it. -/
def append (a b : HookReport σ) : HookReport σ := ⟨a.logs ++ b.logs, a.released ++ b.released⟩

end HookReport

namespace Loader

variable {ω κ σ : Type}

def fresh : Loader σ := ⟨none, none⟩

/-- Closes an engine and lets it go, whatever comes of it. -/
def release (port : EnginePort ω κ σ) (region : String) (e : σ) : Panicking ω (σ × HookReport σ) := do
  let (r, e) ← (guarded port.close).on e
  match r with
  | .ok () => return (e, ⟨[], [e]⟩)
  | .error fault =>
    return (e, ⟨[⟨.warn, "Error while closing script engine",
      [("region", region), ("engine", port.name e), ("error", fault.message)]⟩], [e]⟩)

/-- The region as records name it. -/
def regionName (l : Loader σ) : String := l.region.getD "?"

/-- The region closes: so does its engine. -/
def onClosing (port : EnginePort ω κ σ) (l : Loader σ) : Panicking ω (Loader σ × HookReport σ) :=
  match l.engine with
  | none => return (l, .none)
  | some e => do
    let (e, released) ← release port l.regionName e
    return ({ l with engine := none },
      released.append (.logging [⟨.info, "Script engine closed",
        [("region", l.regionName), ("engine", port.name e)]⟩]))

/-- Brings a new engine up. It is kept unless that goes wrong; one that its configuration disables is kept
too, so that its state can be seen. -/
def attach (port : EnginePort ω κ σ) (region : Region) (name : String) (e : σ) (c : κ) :
    Panicking ω (Option σ × κ × HookReport σ) := do
  let fields := [("region", region.name), ("engine", name)]
  let (r, e, c) ← (guarded (port.setUp region)).on (e, c)
  match r with
  | .error fault =>
    let (_, released) ← release port region.name e
    return (none, c, (HookReport.logging [⟨.error,
      "Script engine failed to initialize; region continues without scripting",
      fields ++ [("error", fault.message)]⟩]).append released)
  | .ok () =>
    return (some e, c, .logging [
      if (port.state e).isActive then ⟨.info, "Script engine initialized", fields⟩
      else ⟨.info, "Script engine disabled by its configuration",
        fields ++ [("state", (port.state e).name)]⟩])

/-- Makes the engine that a configuration asks for and brings it up. -/
def start (port : EnginePort ω κ σ) [ConfigSource κ]
    (create : String → Panicking ω (Except RegistryError σ)) (region : Region) (c : κ) :
    Panicking ω (Option σ × κ × HookReport σ) :=
  let startup := Startup.read c
  if !startup.enabled then
    return (none, c, .logging [⟨.info, "Scripting disabled for region", [("region", region.name)]⟩])
  else do
    match ← create startup.engine with
    | .error e =>
      return (none, c, .logging [⟨.error, "Could not create script engine; region continues without scripting",
        [("region", region.name), ("engine", startup.engine), ("error", e.message)]⟩])
    | .ok e => attach port region startup.engine e c

/-- A region is created: its engine is selected, made and brought up. An engine that is still there from
an earlier creation is closed first. -/
def onCreated (port : EnginePort ω κ σ) [ConfigSource κ]
    (create : String → Panicking ω (Except RegistryError σ)) (l : Loader σ) (region : Region) (c : κ) :
    Panicking ω (Loader σ × κ × HookReport σ) := do
  let notice : HookReport σ :=
    if l.engine.isSome then
      .logging [⟨.warn, "Region created twice; closing previous script engine", [("region", region.name)]⟩]
    else .none
  let (_, closing) ← l.onClosing port
  let (engine, c, starting) ← start port create region c
  return (⟨engine, some region.name⟩, c, (notice.append closing).append starting)

/-- The second phase of startup. An engine that fails in it is closed and let go. -/
def onCompleted (port : EnginePort ω κ σ) (l : Loader σ) : Panicking ω (Loader σ × HookReport σ) :=
  match l.engine with
  | none => return (l, .none)
  | some e => do
    let (r, e) ← (guarded port.complete).on e
    match r with
    | .ok () => return ({ l with engine := some e }, .none)
    | .error fault =>
      let (_, released) ← release port l.regionName e
      return ({ l with engine := none },
        (HookReport.logging [⟨.error, "Script engine failed post-initialization; disabling scripting",
          [("region", l.regionName), ("engine", port.name e), ("error", fault.message)]⟩]).append released)

/-! ### Containment -/

theorem contained_release (port : EnginePort ω κ σ) (region : String) (e : σ) :
    (release port region e).Contained := by
  refine ((contained_guarded _).on e).bind fun (r, e) => ?_
  cases r <;> exact Panicking.contained_pure _

theorem contained_onClosing (port : EnginePort ω κ σ) (l : Loader σ) : (l.onClosing port).Contained := by
  unfold onClosing
  split
  · exact Panicking.contained_pure _
  · exact (contained_release _ _ _).bind fun _ => Panicking.contained_pure _

theorem contained_attach (port : EnginePort ω κ σ) (region : Region) (name : String) (e : σ) (c : κ) :
    (attach port region name e c).Contained := by
  refine ((contained_guarded _).on (e, c)).bind fun (r, e, c) => ?_
  cases r with
  | ok => exact Panicking.contained_pure _
  | error fault => exact (contained_release _ _ _).bind fun _ => Panicking.contained_pure _

theorem contained_onCompleted (port : EnginePort ω κ σ) (l : Loader σ) :
    (l.onCompleted port).Contained := by
  unfold onCompleted
  split
  · exact Panicking.contained_pure _
  · refine ((contained_guarded _).on _).bind fun (r, e) => ?_
    cases r with
    | ok => exact Panicking.contained_pure _
    | error fault => exact (contained_release _ _ _).bind fun _ => Panicking.contained_pure _

variable [ConfigSource κ] {create : String → Panicking ω (Except RegistryError σ)}

theorem contained_start (port : EnginePort ω κ σ) (hcreate : ∀ name, (create name).Contained)
    (region : Region) (c : κ) : (start port create region c).Contained := by
  unfold start
  dsimp only
  split
  · exact Panicking.contained_pure _
  · refine (hcreate _).bind fun made => ?_
    cases made with
    | error e => exact Panicking.contained_pure _
    | ok e => exact contained_attach _ _ _ _ _

theorem contained_onCreated (port : EnginePort ω κ σ) (hcreate : ∀ name, (create name).Contained)
    (l : Loader σ) (region : Region) (c : κ) : (l.onCreated port create region c).Contained := by
  refine (contained_onClosing port l).bind fun _ => ?_
  exact (contained_start port hcreate region c).bind fun _ => Panicking.contained_pure _

/-! ### Hooks for a kind of engines -/

def regionClosing (kind : EngineKind κ σ) (l : Loader σ) : Loader σ × HookReport σ :=
  (l.onClosing kind.port).result (contained_onClosing _ _) ()

def regionCreated (kind : EngineKind κ σ) (create : String → Except RegistryError σ)
    (l : Loader σ) (region : Region) (c : κ) : Loader σ × κ × HookReport σ :=
  (l.onCreated kind.port (fun name => pure (create name)) region c).result
    (contained_onCreated _ (fun _ => Panicking.contained_pure _) _ _ _) ()

def regionCompleted (kind : EngineKind κ σ) (l : Loader σ) : Loader σ × HookReport σ :=
  (l.onCompleted kind.port).result (contained_onCompleted _ _) ()

/-- Whether scripts can be loaded. -/
def isEnabled (port : EnginePort ω κ σ) (l : Loader σ) : Bool :=
  l.engine.any fun e => (port.state e).isActive

def isScriptingEnabled (kind : EngineKind κ σ) (l : Loader σ) : Bool := l.isEnabled kind.port

end Loader

end ScriptHost
