import ScriptHost.Proofs.Engine.Standing
import ScriptHost.Proofs.Worker.Alone

/-! The course of one script. The operations on a script, each made once the script is at rest, settle by
themselves what becomes of it: the course of the script is determined by them and by the terms on which its
engine runs scripts. -/

namespace ScriptHost

/-- What an operation asks of a script. -/
inductive Errand
  /-- The surroundings are those that the script's machine will meet. -/
  | load (item : ScriptItem) (around : Lua.Surroundings)
  | post (event : ScriptEvent)
  | remove

/-- What an engine brings to each of its scripts, besides the handle. -/
structure Terms where
  settings : EngineSettings
  region : Region
  compiler : Compile.Compiler
  /-- The surface without its arena. -/
  surface : Surface

namespace Terms

/-- What an errand makes of the worker of a script, and its result, if the number of scripts does not
matter. -/
def serve (t : Terms) (script : ObjectId) (u : Option Worker) : Errand → Option Worker × Incident
  | .load item around =>
    match t.compiler.compile ⟨item.script, item.name⟩ item.source with
    | .error err => (u, .loaded (.error (.compile err)))
    | .ok unit =>
      let context := ScriptContext.ofItem item LuaEngine.name t.region.name
      let limits := t.settings.limits around
      (some (.spawn unit context t.surface.functionNames default limits), .loaded (.ok unit))
  | .post event =>
    match u with
    | none => (none, .posted (.error (.unknownScript script)))
    | some w => (some (w.post event).2, .posted ((w.post event).1.mapError fun p => .worker p.message))
  | .remove => (none, .removed u.isSome)

end Terms

/-- A script is at rest, or not there. -/
def isResting (u : Option Worker) : Bool := u.all (·.isAtRest)

/-- What becomes of a script whose errands come when it is at rest, up to its rest after the last one. -/
inductive Course (t : Terms) (script : ObjectId) :
    Option Worker → List Errand → List Incident → Option Worker → Prop
  | rests {u : Option Worker} : isResting u = true → Course t script u [] [] u
  | strides {w : Worker} {u : Option Worker} {es : List Errand} {is : List Incident} :
      w.isAtRest = false → Course t script (some (w.stride t.surface).1) es is u →
      Course t script (some w) es ((w.stride t.surface).2 ++ is) u
  | errand {u v : Option Worker} {e : Errand} {es : List Errand} {is : List Incident} :
      isResting u = true → Course t script (t.serve script u e).1 es is v →
      Course t script u (e :: es) ((t.serve script u e).2 :: is) v

namespace Course

variable {t : Terms} {script : ObjectId} {u v v' : Option Worker} {w w' : Worker} {es : List Errand}
  {is is' js : List Incident}

/-- A script has one course. -/
theorem unique (h : Course t script u es is v) (h' : Course t script u es is' v') : is = is' ∧ v = v' := by
  induction h generalizing is' v' with
  | rests hrest =>
    cases h' with
    | rests => exact ⟨rfl, rfl⟩
    | strides hgoes => exact absurd hrest (by simp [isResting, hgoes])
  | strides hgoes _ ih =>
    cases h' with
    | rests hrest => exact absurd hrest (by simp [isResting, hgoes])
    | strides _ hlater =>
      obtain ⟨rfl, rfl⟩ := ih hlater
      exact ⟨rfl, rfl⟩
    | errand hrest => exact absurd hrest (by simp [isResting, hgoes])
  | errand hrest _ ih =>
    cases h' with
    | strides hgoes => exact absurd hrest (by simp [isResting, hgoes])
    | errand _ hlater =>
      obtain ⟨rfl, rfl⟩ := ih hlater
      exact ⟨rfl, rfl⟩

/-- Strides are part of the course, also those that a worker at rest only seems to make. -/
theorem of_strides (hs : Worker.Strides t.surface w js w') (hfit : w.Fit)
    (h : Course t script (some w') es is v) : Course t script (some w) es (js ++ is) v := by
  induction hs with
  | stays => exact h
  | @goes w _ js _ ih =>
    have hlater := ih (Worker.stride_fit hfit t.surface) h
    rw [List.append_assoc]
    cases hrest : w.isAtRest with
    | false => exact .strides hrest hlater
    | true =>
      -- Such a stride changes nothing and makes nothing known, and the course has none for it.
      rw [Worker.stride_of_isAtRest hfit hrest] at hlater ⊢
      exact hlater

end Course

namespace Worker.Strides

variable {s : Surface} {w v : Worker} {is : List Incident}

/-- Strides do not depend on the number of a handle. -/
theorem anonymous (h : Strides s w is v) : Strides s w.anonymous is v.anonymous := by
  induction h with
  | stays => exact .stays
  | @goes w _ _ _ ih =>
    have hstride := w.stride_anonymous s
    have hgoes := Strides.goes (w := w.anonymous) (s := s) (by rw [hstride]; exact ih)
    rw [hstride] at hgoes
    exact hgoes

/-- Nor do they on the arena. -/
theorem without_arena (h : Strides s w is v) : Strides { s with arena := .empty } w is v := by
  induction h with
  | stays => exact .stays
  | @goes w _ _ _ ih =>
    have hstride : w.stride { s with arena := .empty } = w.stride s := rfl
    have hgoes := Strides.goes (w := w) (s := { s with arena := .empty }) (by rw [hstride]; exact ih)
    rw [hstride] at hgoes
    exact hgoes

end Worker.Strides

end ScriptHost
