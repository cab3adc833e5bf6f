import ScriptHost.Engine.LuaEngine
import ScriptHost.Proofs.Arena.Holders
import ScriptHost.Proofs.Worker.Exchange

/-! An engine in use. Those who drive it ask for one operation after another, in any order, and the
workers take turns in between, also those of scripts that were superseded or removed. `Session.Steps`
says what one operation can do to the scripts of the engine and to their handles. -/

namespace ScriptHost

/-! ### Turns of workers -/

namespace ActiveEngine

/-- One turn of the worker of a script, in which its machine goes on for up to `n` steps. -/
def turnWorker (a : ActiveEngine) (script : ObjectId) (n now : Nat) : ActiveEngine :=
  match a.worker? script with
  | none => a
  | some w => { a with surface := (w.stepOn n a.surface now).2.1 }.setWorker (w.turn n a.surface now)

theorem stepWorker_eq_turnWorker (a : ActiveEngine) (script : ObjectId) (now : Nat) :
    (a.stepWorker script now).1 = a.turnWorker script Worker.burst now := by
  unfold stepWorker turnWorker
  cases a.worker? script with
  | none => rfl
  | some w => rfl

/-- One turn of a worker whose script was superseded or removed. -/
def turnRetired (a : ActiveEngine) (i n now : Nat) : ActiveEngine :=
  match a.retired[i]? with
  | none => a
  | some w =>
    { a with
      surface := (w.stepOn n a.surface now).2.1
      retired := a.retired.set i (w.turn n a.surface now) }

/-- Retires the worker of a script, if there is one. -/
def vacate (a : ActiveEngine) (script : ObjectId) : ActiveEngine :=
  match a.worker? script with
  | some w => a.retire w
  | none => a

/-- What the workers still find that have not ended when the engine is closed. -/
def close (a : ActiveEngine) : ActiveEngine :=
  { a with
    surface := a.surface.disposeAll.2
    scripts := []
    retired := a.scripts.map (·.stop) ++ a.retired }

end ActiveEngine

/-! ### Operations -/

/-- What may happen to an engine that is configured from values of `κ`. -/
inductive Operation (κ : Type)
  | setUp (region : Region) (config : κ)
  | complete
  | load (item : ScriptItem) (now : Nat) (around : Lua.Surroundings)
  | post (script : ObjectId) (event : ScriptEvent) (now : Nat)
  | remove (script : ObjectId)
  | sweep (now : Nat)
  | close
  | work (script : ObjectId) (n now : Nat)
  /-- Turns of all workers until each is at rest or about to serve a call that is held back. -/
  | settle (held : HostFunction → Bool) (now fuel : Nat)
  /-- A turn of a worker whose script was superseded or removed, or that outlives the engine. -/
  | workRetired (i n now : Nat)
  /-- A change of the region's account service. -/
  | directory (f : Directory → Directory)

/-- A handle that was issued: for which script, and on which terms. -/
structure Issue where
  script : ObjectId
  handle : Handle
  lease : LeasePolicy
  deriving DecidableEq

/-- An engine, what its close has left to its workers, and the handles issued so far, the latest
first. -/
structure Session where
  engine : LuaEngine
  left : Option ActiveEngine
  issued : List Issue

namespace Session

variable {κ : Type} [ConfigSource κ]

/-- A new engine with a compiler of its own and modules besides the standard ones. -/
def start (backend : Compile.Backend) (modules : List HostModule) : Session :=
  ⟨{ LuaEngine.fresh with backend, modules }, none, []⟩

def step (s : Session) : Operation κ → Session
  | .setUp region config => { s with engine := (s.engine.setUp region config).2.2 }
  | .complete => { s with engine := s.engine.complete }
  | .load item now around =>
    let engine := (s.engine.load item now around).2
    match (s.engine.load item now around).1 with
    | .error _ => { s with engine }
    | .ok _ =>
      let issue (w : Worker) : Issue := ⟨item.script, w.handle, engine.settings.lease⟩
      { s with engine, issued := (engine.worker? item.script).toList.map issue ++ s.issued }
  | .post script event now => { s with engine := (s.engine.post script event now).2 }
  | .remove script => { s with engine := (s.engine.remove script).2 }
  | .sweep now => { s with engine := (s.engine.sweep now).2 }
  | .close =>
    { s with engine := s.engine.close, left := (s.engine.active.map (·.close)).or s.left }
  | .work script n now =>
    { s with engine.active := s.engine.active.map (·.turnWorker script n now) }
  | .settle held now fuel => { s with engine := (s.engine.settle held now fuel).1 }
  | .workRetired i n now =>
    match s.engine.active with
    | some a => { s with engine.active := some (a.turnRetired i n now) }
    | none => { s with left := s.left.map (·.turnRetired i n now) }
  | .directory f => { s with engine := s.engine.updateDirectory f }

def run (s : Session) (ops : List (Operation κ)) : Session := ops.foldl step s

/-- The script whose earlier handles an operation takes away. -/
def revokes? (s : Session) : Operation κ → Option ObjectId
  | .remove script => some script
  | .load item now around =>
    match (s.engine.load item now around).1 with
    | .ok _ => some item.script
    | .error _ => none
  | _ => none

/-- The table of scripts. -/
def scripts (s : Session) : List Worker := (s.engine.active.map (·.scripts)).getD []

/-- The surface that workers call. -/
def surface? (s : Session) : Option Surface := (s.engine.active.or s.left).map (·.surface)

theorem run_append (s : Session) (ops more : List (Operation κ)) :
    s.run (ops ++ more) = (s.run ops).run more := List.foldl_append

end Session

/-! ### Holders of handles -/

def Worker.holder (w : Worker) : Holder := (w.context, w.handle)

theorem Worker.holder_turn (w : Worker) (n : Nat) (s : Surface) (now : Nat) :
    (w.turn n s now).holder = w.holder :=
  Prod.ext (w.turn_same_script n s now).2.1 (w.turn_same_script n s now).2.2

theorem Worker.holder_post (w : Worker) (e : ScriptEvent) : (w.post e).2.holder = w.holder := by
  unfold post
  split
  · rfl
  · split
    · rename_i hoffer
      obtain ⟨-, -, rfl⟩ := offer_eq_ok_iff.1 hoffer
      rfl
    · rfl

namespace ActiveEngine

variable {a b : ActiveEngine} {w v : Worker} {script : ObjectId}

def holders (a : ActiveEngine) : List Holder := a.scripts.map (·.holder)

theorem mem_of_worker? (h : a.worker? script = some w) :
    w ∈ a.scripts ∧ w.context.script = script :=
  ⟨List.mem_of_find?_eq_some h, by simpa using List.find?_some h⟩

theorem ids_eq (a : ActiveEngine) :
    a.holders.map (·.1.script) = a.scripts.map (·.context.script) := List.map_map

/-- A worker takes the place of the one with its handle. -/
theorem holders_setWorker (distinct : (a.holders.map (·.1.script)).Nodup) (hw : w ∈ a.scripts)
    (hv : v.holder = w.holder) : (a.setWorker v).holders = a.holders := by
  unfold setWorker holders
  rw [List.map_map]
  refine List.map_congr_left fun u hu => ?_
  rw [Function.comp_apply]
  split
  · rename_i hscript
    have hcontext : v.context = w.context := congrArg Prod.fst hv
    rw [hcontext, beq_iff_eq] at hscript
    rw [ids_eq] at distinct
    obtain rfl : u = w := List.inj_on_of_nodup_map distinct hu hw hscript
    exact hv
  · rfl

end ActiveEngine

/-! ### Use of handles -/

theorem Surface.resolve_uses (s : Surface) (h : Handle) (name : String) (now : Nat) :
    s.arena.Uses (s.resolve h name now).2.arena := by
  have haccess := (Arena.Uses.nothing (a := s.arena)).access h now
  unfold resolve
  split
  · rename_i hresult
    rwa [hresult] at haccess
  · rename_i hresult
    rw [hresult] at haccess
    split <;> exact haccess

theorem Worker.stepOn_uses (w : Worker) (n : Nat) (s : Surface) (now : Nat) :
    s.arena.Uses (w.stepOn n s now).2.1.arena := by
  unfold stepOn
  split
  · exact .nothing
  · split
    · exact .nothing
    · rename_i name args _
      have huses := s.resolve_uses w.handle name now
      split <;> (rename_i hresult; rw [hresult] at huses; exact huses)

theorem Worker.settle_uses (held : HostFunction → Bool) (now : Nat) (w : Worker) (s : Surface)
    (events : List HostEvent) (fuel : Nat) :
    (w.settle held now s events fuel).1.holder = w.holder ∧
      s.arena.Uses (w.settle held now s events fuel).2.1.arena := by
  induction fuel generalizing w s events with
  | zero => exact ⟨rfl, .nothing⟩
  | succ fuel ih =>
    unfold settle
    split
    · exact ⟨rfl, .nothing⟩
    · have hholder := w.holder_turn burst s now
      have huses := w.stepOn_uses burst s now
      obtain ⟨hrest, hlater⟩ := ih (w.stepOn burst s now).1 (w.stepOn burst s now).2.1
        (events ++ (w.stepOn burst s now).2.2)
      exact ⟨hrest.trans hholder, huses.trans hlater⟩

theorem ActiveEngine.settleAll_uses (held : HostFunction → Bool) (now fuel : Nat) (ws : List Worker)
    (s : Surface) (events : List HostEvent) :
    (settleAll held now fuel ws s events).1.map (·.holder) = ws.map (·.holder) ∧
      s.arena.Uses (settleAll held now fuel ws s events).2.1.arena := by
  induction ws generalizing s events with
  | nil => exact ⟨rfl, .nothing⟩
  | cons w ws ih =>
    obtain ⟨hholder, huses⟩ := w.settle_uses held now s events fuel
    obtain ⟨hholders, hlater⟩ := ih (w.settle held now s events fuel).2.1
      (w.settle held now s events fuel).2.2
    exact ⟨congrArg₂ List.cons hholder hholders, huses.trans hlater⟩

/-- What may happen to an engine while its scripts and their handles stay. -/
structure ActiveEngine.Uses (a b : ActiveEngine) : Prop where
  holders : b.holders = a.holders
  arena : a.surface.arena.Uses b.surface.arena

namespace ActiveEngine

variable (a : ActiveEngine) (script : ObjectId) (n now : Nat)

theorem turnWorker_uses (distinct : (a.holders.map (·.1.script)).Nodup) :
    a.Uses (a.turnWorker script n now) := by
  unfold turnWorker
  split
  · exact ⟨rfl, .nothing⟩
  · rename_i w hw
    refine ⟨?_, w.stepOn_uses n a.surface now⟩
    exact holders_setWorker distinct (mem_of_worker? hw).1 (w.holder_turn n a.surface now)

theorem turnRetired_uses (i : Nat) : a.Uses (a.turnRetired i n now) := by
  unfold turnRetired
  split
  · exact ⟨rfl, .nothing⟩
  · rename_i w _
    exact ⟨rfl, w.stepOn_uses n a.surface now⟩

theorem settle_uses (held : HostFunction → Bool) (fuel : Nat) :
    a.Uses (a.settle held now fuel).1 := by
  obtain ⟨hholders, huses⟩ := settleAll_uses held now fuel a.scripts a.surface []
  obtain ⟨-, hlater⟩ := settleAll_uses held now fuel a.retired
    (settleAll held now fuel a.scripts a.surface []).2.1
    (settleAll held now fuel a.scripts a.surface []).2.2
  exact ⟨hholders, huses.trans hlater⟩

end ActiveEngine

/-! ### What an operation does -/

/-- The worker of a script that has just been started is in the table. -/
theorem ActiveEngine.worker?_start (a : ActiveEngine) (unit : CompiledUnit) (context : ScriptContext)
    (lease : LeasePolicy) (limits : WorkerLimits) (now : Nat) :
    ∃ w, (a.start unit context lease limits now).worker? context.script = some w ∧
      w.handle = ((a.vacate context.script).surface.issue context lease now).1 := by
  refine ⟨_, List.find?_cons_of_pos ?_, rfl⟩
  exact beq_self_eq_true _

/-- A script is loaded, or the engine stays as it is. -/
theorem LuaEngine.load_cases (e : LuaEngine) (item : ScriptItem) (now : Nat) (around : Lua.Surroundings) :
    (∃ err, e.load item now around = (.error err, e)) ∨
      ∃ a unit context limits, e.active = some a ∧ context.script = item.script ∧
        e.load item now around =
          (.ok unit, { e with active := some (a.start unit context e.settings.lease limits now) }) := by
  rw [load_eq]
  split
  · exact .inl ⟨_, rfl⟩
  · rename_i a hactive
    split
    · exact .inl ⟨_, rfl⟩
    · rename_i unit _
      split
      · exact .inl ⟨_, rfl⟩
      · exact .inr ⟨a, unit, _, _, hactive, rfl, rfl⟩

namespace Session

/-- What one operation can do to the scripts and their handles, and whose handles it takes away. -/
inductive Steps (s : Session) : Option ObjectId → Session → Prop
  /-- There is nothing to be done, or it is refused. The settings may change. -/
  | rests (settings : EngineSettings) {revoked : Option ObjectId} :
      revoked = none ∨ s.engine.active = none →
      Steps s revoked { s with engine.settings := settings }
  | rises {settings : EngineSettings} {a : ActiveEngine} : s.engine.state = .uninitialized →
      a.surface.arena = .empty → a.scripts = [] →
      Steps s none { s with
        engine := { s.engine with settings, state := .initialized, active := some a } }
  | completes : s.engine.state = .initialized → Steps s none { s with engine.state := .postInitialized }
  | uses {a b : ActiveEngine} : s.engine.active = some a → a.Uses b →
      Steps s none { s with engine.active := some b }
  | vacates {a : ActiveEngine} {script : ObjectId} : s.engine.active = some a →
      Steps s (some script) { s with engine.active := some (a.vacate script) }
  | starts {a : ActiveEngine} (unit : CompiledUnit) (context : ScriptContext) (limits : WorkerLimits)
      (now : Nat) : s.engine.active = some a →
      Steps s (some context.script) { s with
        engine.active := some (a.start unit context s.engine.settings.lease limits now)
        issued :=
          ⟨context.script,
            ((a.vacate context.script).surface.issue context s.engine.settings.lease now).1,
            s.engine.settings.lease⟩ :: s.issued }
  | closes : Steps s none { s with
      engine := s.engine.close
      left := (s.engine.active.map (·.close)).or s.left }
  /-- A worker goes on that outlives the engine. -/
  | works {a b : ActiveEngine} : s.engine.active = none → s.left = some a → a.Uses b →
      Steps s none { s with left := some b }

variable {s : Session} {κ : Type} [ConfigSource κ]

theorem Steps.nothing (s : Session) : s.Steps none s := .rests s.engine.settings (.inl rfl)

theorem setUp_steps (s : Session) (region : Region) (config : κ) :
    s.Steps none { s with engine := (s.engine.setUp region config).2.2 } := by
  unfold LuaEngine.setUp
  generalize LuaEngine.readSection config = c
  obtain ⟨own, c⟩ := c
  dsimp only
  split
  · exact .rests _ (.inl rfl)
  · split
    · exact .rests _ (.inl rfl)
    · rename_i hmove
      split
      · exact .rests _ (.inl rfl)
      · rename_i hbuild
        obtain ⟨hstate, rfl⟩ := EngineState.moveTo_eq_ok_iff.1 hmove
        exact .rises (EngineState.canMoveTo_initialized_iff.1 hstate) (Surface.build_arena hbuild) rfl

theorem complete_steps (s : Session) : s.Steps none { s with engine := s.engine.complete } := by
  unfold LuaEngine.complete
  split
  · rename_i h
    exact .completes (by simpa using (Bool.and_eq_true_iff.1 h).1)
  · exact .nothing s

/-- A load that leaves the engine as it is. -/
theorem step_load_error {item : ScriptItem} {now : Nat} {around : Lua.Surroundings} {err : ScriptError}
    (hload : s.engine.load item now around = (.error err, s.engine)) :
    s.step (.load item now around : Operation κ) = s := by
  simp only [step, hload]

theorem load_steps (s : Session) (item : ScriptItem) (now : Nat) (around : Lua.Surroundings) :
    s.Steps (s.revokes? (.load item now around : Operation κ)) (s.step (.load item now around : Operation κ)) := by
  rcases s.engine.load_cases item now around with
      ⟨e, hload⟩ | ⟨a, unit, context, limits, hactive, hscript, hload⟩ <;>
    simp only [revokes?, step, hload]
  · exact .nothing s
  · obtain ⟨w, hworker, hhandle⟩ := a.worker?_start unit context s.engine.settings.lease limits now
    rw [← hscript, LuaEngine.worker?, Option.bind_some, hworker]
    have hstarts := Steps.starts unit context limits now hactive
    rw [← hhandle] at hstarts
    exact hstarts

theorem remove_steps (s : Session) (script : ObjectId) :
    s.Steps (some script) { s with engine := (s.engine.remove script).2 } := by
  unfold LuaEngine.remove
  split
  · rename_i hactive
    exact .rests s.engine.settings (.inr hactive)
  · rename_i a hactive
    have hvacates := @Steps.vacates s a script hactive
    unfold ActiveEngine.vacate at hvacates
    split
    · rename_i hnone
      rw [hnone, ← hactive] at hvacates
      exact hvacates
    · rename_i w hw
      rw [hw] at hvacates
      exact hvacates

theorem post_steps (s : Session) (script : ObjectId) (event : ScriptEvent) (now : Nat)
    (distinct : ∀ a ∈ s.engine.active, (a.holders.map (·.1.script)).Nodup) :
    s.Steps none { s with engine := (s.engine.post script event now).2 } := by
  unfold LuaEngine.post
  split
  · exact .nothing s
  · rename_i a hactive
    split
    · exact .nothing s
    · rename_i w hw
      refine .uses hactive ⟨?_, .renew w.handle now .nothing⟩
      exact ActiveEngine.holders_setWorker (distinct a hactive) (ActiveEngine.mem_of_worker? hw).1
        (w.holder_post event)

theorem sweep_steps (s : Session) (now : Nat) :
    s.Steps none { s with engine := (s.engine.sweep now).2 } := by
  unfold LuaEngine.sweep
  split
  · exact .nothing s
  · rename_i a hactive
    exact .uses hactive ⟨rfl, .sweep now .nothing⟩

theorem settle_steps (s : Session) (held : HostFunction → Bool) (now fuel : Nat) :
    s.Steps none { s with engine := (s.engine.settle held now fuel).1 } := by
  unfold LuaEngine.settle
  split
  · exact .nothing s
  · rename_i a hactive
    exact .uses hactive (a.settle_uses now held fuel)

/-- A change of an active engine that leaves its scripts and their handles alone. -/
theorem map_steps (s : Session) {f : ActiveEngine → ActiveEngine}
    (hf : ∀ a, s.engine.active = some a → a.Uses (f a)) :
    s.Steps none { s with engine.active := s.engine.active.map f } := by
  cases hactive : s.engine.active with
  | none =>
    rw [Option.map_none, ← hactive]
    exact .nothing s
  | some a => exact .uses hactive (hf a hactive)

theorem step_steps (distinct : ∀ a ∈ s.engine.active, (a.holders.map (·.1.script)).Nodup)
    (op : Operation κ) : s.Steps (s.revokes? op) (s.step op) := by
  cases op with
  | setUp region config => exact setUp_steps s region config
  | complete => exact complete_steps s
  | load item now around => exact load_steps s item now around
  | remove script => exact remove_steps s script
  | post script event now => exact post_steps s script event now distinct
  | sweep now => exact sweep_steps s now
  | close => exact .closes
  | work script n now =>
    exact s.map_steps fun a ha => a.turnWorker_uses script n now (distinct a ha)
  | settle held now fuel => exact settle_steps s held now fuel
  | workRetired i n now =>
    unfold revokes? step
    dsimp only
    split
    · rename_i a hactive
      exact .uses hactive (a.turnRetired_uses n now i)
    · rename_i hactive
      cases hleft : s.left with
      | none =>
        rw [Option.map_none, ← hleft]
        exact .nothing s
      | some a => exact .works hactive hleft (a.turnRetired_uses n now i)
  | directory f => exact s.map_steps fun a _ => ⟨rfl, .nothing⟩

end Session

end ScriptHost
