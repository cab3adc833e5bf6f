import ScriptHost.Artifact
import ScriptHost.Config.Source
import ScriptHost.Lifecycle
import ScriptHost.Panicking
import ScriptHost.Region
import ScriptHost.Script
import ScriptHost.Text.Number
import ScriptHost.Value

/-! What regions ask of script engines, and the ways in which it goes wrong. -/

namespace ScriptHost

/-- Why an engine does not go on in its life. -/
inductive EngineError
  | lifecycle (e : LifecycleError)
  | config (what : String)
  | runtime (what : String)
  deriving DecidableEq

def EngineError.message : EngineError → String
  | lifecycle e => e.message
  | config what => s!"engine configuration error: {what}"
  | runtime what => s!"engine runtime error: {what}"

/-- Why a script is not loaded, or cannot be addressed. -/
inductive ScriptError
  | notActive (state : EngineState)
  | compile (e : CompileError)
  | unknownScript (script : ObjectId)
  | worker (what : String)
  deriving DecidableEq

def ScriptError.message : ScriptError → String
  | notActive state => s!"script engine is not active (state: {state.name})"
  | compile e => e.text
  | unknownScript script => s!"unknown script: {script}"
  | worker what => s!"script worker unavailable: {what}"

/-- How a script fares. -/
inductive ScriptStatus
  | running
  /-- An error has ended it. -/
  | faulted (message : String)
  /-- It was removed, or its engine was closed. -/
  | stopped
  deriving DecidableEq

/-- How a call of an engine goes wrong. -/
inductive EngineFault
  | failed (e : EngineError)
  /-- The engine panicked, perhaps with a message. -/
  | panicked (message : Option String)
  deriving DecidableEq

/-- A kind of engines: engines are values of `σ` and read their settings from values of `κ`. Each call
leaves an engine behind, also where it goes wrong. -/
structure EngineKind (κ σ : Type) where
  name : σ → String
  state : σ → EngineState
  /-- Whether there is an engine at all. -/
  isAvailable : σ → Bool
  /-- Brings an engine up for a region. -/
  setUp : Region → κ → σ → Except EngineFault Unit × κ × σ
  /-- The second phase of startup. -/
  complete : σ → Except EngineFault Unit × σ
  close : σ → Except EngineFault Unit × σ

/-- Engines as their loader sees them, in a world that they may act on. Each call is work on the engine and
the world, and may panic. -/
structure EnginePort (ω κ σ : Type) where
  name : σ → String
  state : σ → EngineState
  setUp : Region → Panicking ((σ × κ) × ω) (Except EngineError Unit)
  complete : Panicking (σ × ω) (Except EngineError Unit)
  close : Panicking (σ × ω) (Except EngineError Unit)

/-- The call of an engine that goes wrong by a panic does panic. -/
def EngineFault.thrown : Except EngineFault Unit → Except (Option String) (Except EngineError Unit)
  | .ok () => .ok (.ok ())
  | .error (failed e) => .ok (.error e)
  | .error (panicked message) => .error message

/-- Engines of a kind, which have no world to act on. -/
def EngineKind.port {κ σ : Type} (kind : EngineKind κ σ) : EnginePort Unit κ σ where
  name := kind.name
  state := kind.state
  setUp region := fun ((e, c), _) =>
    let (r, c, e) := kind.setUp region c e
    (EngineFault.thrown r, (e, c), ())
  complete := fun (e, _) =>
    let (r, e) := kind.complete e
    (EngineFault.thrown r, e, ())
  close := fun (e, _) =>
    let (r, e) := kind.close e
    (EngineFault.thrown r, e, ())

/-- Engines of either of two kinds. -/
def EngineKind.sum {κ σ τ : Type} (a : EngineKind κ σ) (b : EngineKind κ τ) : EngineKind κ (σ ⊕ τ) where
  name := Sum.elim a.name b.name
  state := Sum.elim a.state b.state
  isAvailable := Sum.elim a.isAvailable b.isAvailable
  setUp region c
    | .inl e => let (r, c, e) := a.setUp region c e; (r, c, .inl e)
    | .inr e => let (r, c, e) := b.setUp region c e; (r, c, .inr e)
  complete
    | .inl e => (a.complete e).map id .inl
    | .inr e => (b.complete e).map id .inr
  close
    | .inl e => (a.close e).map id .inl
    | .inr e => (b.close e).map id .inr

/-- The engine that stands in where there is no scripting: it does nothing and refuses scripts. -/
structure NoEngine where
  state : EngineState
  deriving DecidableEq

namespace NoEngine

def name : String := "none"

def fresh : NoEngine := ⟨.uninitialized⟩

def close (_ : NoEngine) : NoEngine := ⟨.closed⟩

def load (e : NoEngine) (_ : ScriptItem) : Except ScriptError CompiledUnit := .error (.notActive e.state)

def remove (_ : NoEngine) (_ : ObjectId) : Bool := false

def post (_ : NoEngine) (script : ObjectId) (_ : String) (_ : List Value) : Except ScriptError Unit :=
  .error (.unknownScript script)

def running (_ : NoEngine) : List ScriptContext := []

def status? (_ : NoEngine) (_ : ObjectId) : Option ScriptStatus := none

def unit? (_ : NoEngine) (_ : ObjectId) : Option CompiledUnit := none

def sweep (_ : NoEngine) (_ : Nat) : Nat := 0

def pending (_ : NoEngine) (_ : ObjectId) : Nat := 0

def kind (κ : Type) : EngineKind κ NoEngine where
  name _ := name
  state := state
  isAvailable _ := false
  setUp _ c e := (.ok (), c, e)
  complete e := (.ok (), e)
  close e := (.ok (), e.close)

end NoEngine

end ScriptHost
