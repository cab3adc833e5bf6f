import ScriptHost.Engine.LuaEngine
import ScriptHost.Proofs.Arena.Upkeep
import ScriptHost.Proofs.Host.Invocation

/-! Which activity extends a lease. A call that succeeds extends the lease of its own handle, if the terms
say so. A use that fails should leave everything as it was, but the handle is used before the function of a
call is looked up, and renewed before an event is offered to its script. -/

namespace ScriptHost

namespace Surface

variable {s : Surface} {h : Handle} {name : String} {args : List Value} {now : Nat} {e : CallError}
  {x : Holding}

/-- A refusal never names a function. -/
theorem access_ne_unknownFunction (a : Arena) (h : Handle) (now : Nat) :
    (a.access h now).1 ≠ .error (.unknownFunction name) := by
  unfold Arena.access
  split
  · split <;> simp
  · simp
  · simp

/-- What a call that fails may leave behind: only the search for a function disturbs anything, and only if
the handle was not used at that very time, or its lease is extended by it. -/
theorem undisturbed_invoke_iff (he : (s.invoke h name args now).1 = .error e) :
    Arena.Undisturbed now s.arena (s.invoke h name args now).2.2.arena ↔
      (e = .unknownFunction name → ∀ x, s.arena.state? h = some (.live x) →
        x.lastCall = some now ∧ (x.lease.policy.renewOnCall = true → ¬ x.lease.Extends now)) := by
  rw [invoke_arena]
  obtain hrefused | ⟨⟨context, hcontext⟩, -, hunknown⟩ := invoke_eq_error_iff.1 he
  · refine iff_of_true (Arena.undisturbed_access hrefused) ?_
    intro hunknown
    rw [hunknown] at hrefused
    exact absurd hrefused (access_ne_unknownFunction _ _ _)
  · obtain ⟨x, hx, hruns, -⟩ := Arena.access_eq_ok_iff.1 hcontext
    rw [Arena.undisturbed_access_iff hx hruns]
    constructor
    · intro hkept _ y hy
      rw [← Arena.state?_live_unique hx hy]
      exact hkept
    · intro hall
      exact hall hunknown x hx

end Surface

namespace LuaEngine

variable {e : LuaEngine} {script : ObjectId} {event : ScriptEvent} {now : Nat}

/-- The arena of an engine; one that is not active has no handles. -/
def arena (e : LuaEngine) : Arena := (e.active.map (·.surface.arena)).getD .empty

theorem arena_post (e : LuaEngine) (script : ObjectId) (event : ScriptEvent) (now : Nat) :
    (e.post script event now).2.arena =
      match e.worker? script with
      | some w => (e.arena.renew w.handle now).2
      | none => e.arena := by
  obtain ⟨state, settings, backend, modules, active⟩ := e
  cases active with
  | none => rfl
  | some a =>
    simp only [post, arena, worker?, Option.bind_some, Option.map_some, Option.getD_some]
    cases a.worker? script <;> rfl

/-- Posting disturbs nothing but the lease of the script, whether the event is taken or not. -/
theorem undisturbed_post_iff :
    Arena.Undisturbed now e.arena (e.post script event now).2.arena ↔
      ∀ w x, e.worker? script = some w → e.arena.state? w.handle = some (.live x) →
        x.lease.isExpired now = false → ¬ x.lease.Extends now := by
  rw [arena_post]
  cases hw : e.worker? script with
  | none =>
    refine iff_of_true (.refl now e.arena) ?_
    intro w x hnone
    cases hnone
  | some w =>
    rw [Arena.undisturbed_renew_iff]
    constructor
    · intro hall w' x hw' hx hruns
      cases hw'
      exact hall x hx hruns
    · intro hall x hx hruns
      exact hall w x rfl hx hruns

end LuaEngine

/-- Which activity moves what is noted of a handle. A renewal that fails moves nothing, and a call that
succeeds moves what is noted of its own handle, as the terms of its lease say. A call that fails moves
nothing just if it is not for an unknown function, or adds nothing to what is noted; a post that fails moves
nothing just if the lease of the script is not extended. -/
theorem activity_undisturbed_iff (s : Surface) (h : Handle) (name : String) (args : List Value)
    (engine : LuaEngine) (script : ObjectId) (event : ScriptEvent) (now : Nat) :
    (∀ e, (s.renew h now).1 = .error e → Arena.Undisturbed now s.arena (s.renew h now).2.arena) ∧
    (∀ v, (s.invoke h name args now).1 = .ok v →
      ∃ x, s.arena.state? h = some (.live x) ∧ ∀ g,
        (s.invoke h name args now).2.2.arena.upkeep? g =
          if g = h then
            some ⟨if x.lease.policy.renewOnCall then
              x.lease.ends.map fun stop => max stop (now + x.lease.policy.initial) else x.lease.ends,
              some now⟩
          else s.arena.upkeep? g) ∧
    (∀ e, (s.invoke h name args now).1 = .error e →
      (Arena.Undisturbed now s.arena (s.invoke h name args now).2.2.arena ↔
        (e = .unknownFunction name → ∀ x, s.arena.state? h = some (.live x) →
          x.lastCall = some now ∧ (x.lease.policy.renewOnCall = true → ¬ x.lease.Extends now)))) ∧
    ∀ e, (engine.post script event now).1 = .error e →
      (Arena.Undisturbed now engine.arena (engine.post script event now).2.arena ↔
        ∀ w x, engine.worker? script = some w → engine.arena.state? w.handle = some (.live x) →
          x.lease.isExpired now = false → ¬ x.lease.Extends now) := by
  refine ⟨?_, ?_, ?_, ?_⟩
  · intro e he
    exact Arena.undisturbed_renew he
  · intro v hv
    obtain ⟨context, hcontext⟩ := Surface.invoke_eq_ok hv
    obtain ⟨x, hx, hruns, -⟩ := Arena.access_eq_ok_iff.1 hcontext
    refine ⟨x, hx, ?_⟩
    intro g
    rw [Surface.invoke_arena]
    exact Arena.upkeep?_access hx hruns g
  · intro e he
    exact Surface.undisturbed_invoke_iff he
  · intro e _
    exact LuaEngine.undisturbed_post_iff

/-- A call for an unknown function puts off the end of a lease, and counts as the last call. -/
theorem unknown_function_extends :
    let context : ScriptContext := default
    let arena := (Arena.empty.issue context ⟨1000, 0, true⟩ 0).2
    let s : Surface := ⟨.empty, arena, .none, default, true, Surface.defaultTimeout⟩
    (s.invoke ⟨0, 0⟩ "nope" [] 500).1 = .error (.unknownFunction "nope") ∧
      s.arena.upkeep? ⟨0, 0⟩ = some ⟨some 1000, none⟩ ∧
      (s.invoke ⟨0, 0⟩ "nope" [] 500).2.2.arena.upkeep? ⟨0, 0⟩ = some ⟨some 1500, some 500⟩ ∧
      ¬ Arena.Undisturbed 500 s.arena (s.invoke ⟨0, 0⟩ "nope" [] 500).2.2.arena := by
  intro context arena s
  have hbefore : s.arena.upkeep? ⟨0, 0⟩ = some ⟨some 1000, none⟩ := by decide
  have hafter : (s.invoke ⟨0, 0⟩ "nope" [] 500).2.2.arena.upkeep? ⟨0, 0⟩ =
      some ⟨some 1500, some 500⟩ := by decide
  refine ⟨rfl, hbefore, hafter, ?_⟩
  intro hall
  have hhandle := hall ⟨0, 0⟩
  rw [hbefore, hafter] at hhandle
  simp at hhandle

end ScriptHost
