import ScriptHost.Dict
import ScriptHost.Engine.LuaEngine
import ScriptHost.Log

/-! The registry of engines: what makes an engine, by the name under which configurations ask for it. -/

namespace ScriptHost

/-- Why a factory makes no engine. -/
inductive FactoryFailure
  | refused (why : String)
  /-- The factory panicked, perhaps with a message. -/
  | panicked (message : Option String)
  deriving DecidableEq

def FactoryFailure.message : FactoryFailure → String
  | refused why => why
  | panicked m => s!"engine factory panicked: {panicText m}"

/-- A factory that fails by a panic does panic. -/
def FactoryFailure.thrown {σ : Type} : Except FactoryFailure σ → Panicking Unit (Except String σ)
  | .ok e => pure (.ok e)
  | .error (refused why) => pure (.error why)
  | .error (panicked message) => throw message

inductive RegistryError
  | notFound (name : String)
  | duplicate (name : String)
  | creation (name : String) (why : FactoryFailure)
  deriving DecidableEq

namespace RegistryError

def message : RegistryError → String
  | notFound name => s!"script engine not found: '{name}'"
  | duplicate name => s!"script engine already registered: '{name}'"
  | creation name why => s!"script engine '{name}' failed to start: {why.message}"

def isNotFound : RegistryError → Bool
  | notFound _ => true
  | _ => false

end RegistryError

/-- Factories by name. -/
abbrev Registry (φ : Type) := Dict φ

namespace Registry

variable {ω φ σ : Type}

/-- Registers a factory. A name that is taken keeps its factory. -/
def register (r : Registry φ) (name : String) (factory : φ) :
    Except RegistryError Unit × Registry φ × List LogRecord :=
  if r.contains name then
    (.error (.duplicate name), r,
      [⟨.warn, "Rejected duplicate script engine registration", [("engine", name)]⟩])
  else (.ok (), r.insert name factory, [])

/-- Registers a factory in place of the one that has the name. -/
def replace (r : Registry φ) (name : String) (factory : φ) : Registry φ × List LogRecord :=
  (r.insert name factory,
    if r.contains name then
      [⟨.warn, "Replaced existing script engine registration", [("engine", name)]⟩]
    else [])

/-- Takes a registration back, and says whether there was one. -/
def unregister (r : Registry φ) (name : String) : Bool × Registry φ := (r.contains name, r.erase name)

/-- The factory under a name. -/
def factory (r : Registry φ) (name : String) : Except RegistryError φ :=
  match r.get? name with
  | some f => .ok f
  | none => .error (.notFound name)

/-- Has the factory under a name make an engine. The factory may panic. -/
def instantiate (r : Registry φ) (make : φ → Panicking ω (Except String σ)) (name : String) :
    Panicking ω (Except RegistryError σ) :=
  match r.factory name with
  | .error e => return .error e
  | .ok f => do
    match ← (make f).caught with
    | .ok (.ok e) => return .ok e
    | .ok (.error why) => return .error (.creation name (.refused why))
    | .error message => return .error (.creation name (.panicked message))

theorem contained_instantiate (r : Registry φ) (make : φ → Panicking ω (Except String σ))
    (name : String) : (r.instantiate make name).Contained := by
  unfold instantiate
  split
  · exact Panicking.contained_pure _
  · refine (Panicking.contained_caught _).bind fun made => ?_
    split <;> exact Panicking.contained_pure _

/-- The same for factories that make an engine or say why not. -/
def create (r : Registry φ) (make : φ → Except FactoryFailure σ) (name : String) :
    Except RegistryError σ :=
  (r.instantiate (fun f => FactoryFailure.thrown (make f)) name).result (contained_instantiate _ _ _) ()

/-- The names that are taken, in order. -/
def names (r : Registry φ) : List String := r.keys

/-- Registers the engine that every host has. -/
def registerBuiltin (r : Registry φ) (lua : φ) : Except RegistryError Unit × Registry φ × List LogRecord :=
  r.register LuaEngine.name lua

/-- The registry of a host with no engines of its own. -/
def standard (lua : φ) : Registry φ := (registerBuiltin Dict.empty lua).2.1

end Registry

end ScriptHost
