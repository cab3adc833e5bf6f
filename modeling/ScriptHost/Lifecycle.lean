/-! The life of a script engine. An engine is initialized, then completed once the region runs, and
closed from any state; one that its configuration disables stays uninitialized until it is closed. -/

namespace ScriptHost

inductive EngineState
  | uninitialized
  | initialized
  | postInitialized
  | closed
  deriving DecidableEq, Inhabited

/-- A step between states that the life of an engine does not allow. -/
structure LifecycleError where
  source : EngineState
  target : EngineState
  deriving DecidableEq

namespace EngineState

def name : EngineState → String
  | uninitialized => "uninitialized"
  | initialized => "initialized"
  | postInitialized => "post_initialized"
  | closed => "closed"

/-- Whether an engine in this state accepts scripts. -/
def isActive : EngineState → Bool
  | initialized | postInitialized => true
  | uninitialized | closed => false

/-- The legal steps: to the next state, and from every other state to the closed one. -/
def canMoveTo : EngineState → EngineState → Bool
  | uninitialized, initialized | initialized, postInitialized => true
  | uninitialized, closed | initialized, closed | postInitialized, closed => true
  | _, _ => false

def moveTo (source target : EngineState) : Except LifecycleError EngineState :=
  if source.canMoveTo target then .ok target else .error ⟨source, target⟩

theorem moveTo_eq_ok_iff {s t u : EngineState} :
    s.moveTo t = .ok u ↔ s.canMoveTo t = true ∧ u = t := by
  unfold moveTo
  split
  · rename_i h
    simp [h, eq_comm (a := u)]
  · rename_i h
    simp [h]

theorem canMoveTo_initialized_iff {s : EngineState} :
    s.canMoveTo initialized = true ↔ s = uninitialized := by
  cases s <;> simp [canMoveTo]

theorem canMoveTo_closed_left (t : EngineState) : closed.canMoveTo t = false := by
  cases t <;> rfl

end EngineState

def LifecycleError.message (e : LifecycleError) : String :=
  s!"illegal engine transition: {e.source.name} -> {e.target.name}"

end ScriptHost
