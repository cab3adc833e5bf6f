import ScriptHost.Proofs.Arena.Lasting
import ScriptHost.Proofs.Engine.Ownership

/-! What holds of an engine at all times. Its table has a script once, its arena is in order, and under
leases without an end each script in the table keeps its handle, however many handles are issued. Host
functions are called by workers that run. -/

namespace ScriptHost

/-! ### Operations on an active engine -/

namespace ActiveEngine

/-- Posts an event to a script that there is. -/
def post (a : ActiveEngine) (script : ObjectId) (event : ScriptEvent) (now : Nat) : ActiveEngine :=
  match a.worker? script with
  | none => a
  | some w => { a with surface := (a.surface.renew w.handle now).2 }.setWorker (w.post event).2

def sweep (a : ActiveEngine) (now : Nat) : ActiveEngine := { a with surface := (a.surface.sweep now).2 }

end ActiveEngine

namespace LuaEngine

theorem post_eq (e : LuaEngine) (script : ObjectId) (event : ScriptEvent) (now : Nat) :
    (e.post script event now).2 = { e with active := e.active.map (·.post script event now) } := by
  obtain ⟨state, settings, backend, modules, active⟩ := e
  cases active with
  | none => rfl
  | some a =>
    simp only [post, Option.map_some, ActiveEngine.post]
    cases a.worker? script <;> rfl

theorem remove_eq (e : LuaEngine) (script : ObjectId) :
    (e.remove script).2 = { e with active := e.active.map (·.vacate script) } := by
  obtain ⟨state, settings, backend, modules, active⟩ := e
  cases active with
  | none => rfl
  | some a =>
    simp only [remove, Option.map_some, ActiveEngine.vacate]
    cases a.worker? script <;> rfl

theorem sweep_eq (e : LuaEngine) (now : Nat) :
    (e.sweep now).2 = { e with active := e.active.map (·.sweep now) } := by
  obtain ⟨state, settings, backend, modules, active⟩ := e
  cases active <;> rfl

theorem settle_eq (e : LuaEngine) (held : HostFunction → Bool) (now fuel : Nat) :
    (e.settle held now fuel).1 = { e with active := e.active.map fun a => (a.settle held now fuel).1 } := by
  obtain ⟨state, settings, backend, modules, active⟩ := e
  cases active <;> rfl

end LuaEngine

namespace ActiveEngine

variable {a b : ActiveEngine} {lasting : Prop} {w v : Worker}

/-! ### Handles of scripts -/

/-- The arena and the table of scripts are in order. If leases have no end, the handles of the scripts
last. -/
structure Regular (a : ActiveEngine) (lasting : Prop) : Prop where
  valid : a.surface.arena.Valid
  once : (a.holders.map (·.1.script)).Nodup
  lasts : lasting → ∀ p ∈ a.holders, a.surface.arena.Lasts p.2 p.1

theorem Regular.nodup_scripts (h : a.Regular lasting) : (a.scripts.map (·.context.script)).Nodup := by
  rw [← a.ids_eq]
  exact h.once

theorem Regular.uses (h : a.Regular lasting) (huses : a.Uses b) : b.Regular lasting := by
  refine ⟨h.valid.uses huses.arena, ?_, ?_⟩
  · rw [huses.holders]
    exact h.once
  · intro hlasting p hp
    rw [huses.holders] at hp
    exact (h.lasts hlasting p hp).uses huses.arena

theorem Regular.vacate (h : a.Regular lasting) (script : ObjectId) :
    (a.vacate script).Regular lasting ∧ script ∉ (a.vacate script).holders.map (·.1.script) := by
  unfold ActiveEngine.vacate
  split
  · rename_i w hw
    obtain ⟨-, rfl⟩ := mem_of_worker? hw
    refine ⟨⟨h.valid.call (.disposeOwner w.context.script), ?_, ?_⟩, ?_⟩
    · rw [holders_retire]
      exact h.once.sublist (List.filter_sublist.map _)
    · intro hlasting p hp
      rw [holders_retire] at hp
      obtain ⟨hp, hother⟩ := List.mem_filter.1 hp
      exact (h.lasts hlasting p hp).disposeOwner (by simpa using hother)
    · rw [holders_retire]
      simp
  · rename_i hnone
    refine ⟨h, fun hmem => ?_⟩
    rw [ids_eq, List.mem_map] at hmem
    obtain ⟨w, hw, rfl⟩ := hmem
    simpa using List.find?_eq_none.1 hnone w hw

theorem Regular.start (h : a.Regular lasting) (unit : CompiledUnit) (context : ScriptContext)
    (lease : LeasePolicy) (limits : WorkerLimits) (now : Nat) :
    (a.start unit context lease limits now).Regular (lasting ∧ lease.mode = .manual) := by
  obtain ⟨hvacated, hnew⟩ := h.vacate context.script
  refine ⟨hvacated.valid.issue context lease now, List.nodup_cons.2 ⟨hnew, hvacated.once⟩, ?_⟩
  rintro ⟨hlasting, hmanual⟩ p hp
  rcases List.mem_cons.1 hp with rfl | hp
  · exact hvacated.valid.lasts_issue context hmanual now
  · exact (hvacated.lasts hlasting p hp).issue hvacated.valid context lease now

/-! ### Workers -/

/-- All workers of an engine are fit. -/
def Fit (a : ActiveEngine) : Prop := ∀ w ∈ a.scripts ++ a.retired, w.Fit

theorem Fit.scripts (h : a.Fit) (hw : w ∈ a.scripts) : w.Fit := h w (List.mem_append_left _ hw)

theorem Fit.retired (h : a.Fit) (hw : w ∈ a.retired) : w.Fit := h w (List.mem_append_right _ hw)

theorem Fit.setWorker (h : a.Fit) (hv : v.Fit) (surface : Surface) :
    ({ a with surface }.setWorker v).Fit := by
  intro w hw
  rcases List.mem_append.1 hw with hw | hw
  · obtain ⟨u, hu, rfl⟩ := List.mem_map.1 hw
    split
    · exact hv
    · exact h.scripts hu
  · exact h.retired hw

theorem Fit.vacate (h : a.Fit) (script : ObjectId) : (a.vacate script).Fit := by
  unfold ActiveEngine.vacate
  split
  · rename_i w hw
    have hfit := h.scripts (mem_of_worker? hw).1
    have hstop : w.stop.Fit := hfit
    intro v hv
    rcases List.mem_append.1 hv with hv | hv
    · exact h.scripts (List.mem_of_mem_filter hv)
    · rcases List.mem_cons.1 hv with rfl | hv
      · exact hstop
      · exact h.retired (List.mem_of_mem_filter hv)
  · exact h

theorem Fit.start (h : a.Fit) (unit : CompiledUnit) (context : ScriptContext) (lease : LeasePolicy)
    (limits : WorkerLimits) (now : Nat) : (a.start unit context lease limits now).Fit := by
  intro w hw
  rcases List.mem_cons.1 hw with rfl | hw
  · exact nofun
  · exact h.vacate context.script w hw

end ActiveEngine

theorem Worker.Fit.post {w : Worker} (h : w.Fit) (e : ScriptEvent) : (w.post e).2.Fit := by
  unfold Worker.post
  split
  · exact h
  · split
    · rename_i hoffer
      obtain ⟨-, -, rfl⟩ := Worker.offer_eq_ok_iff.1 hoffer
      exact h
    · exact h

theorem Worker.Fit.turn {w : Worker} (h : w.Fit) (n : Nat) (s : Surface) (now : Nat) :
    (w.turn n s now).Fit :=
  (Worker.turn_turns h n s now).fit h

theorem Worker.Fit.settle {w : Worker} (h : w.Fit) (held : HostFunction → Bool) (now : Nat) (s : Surface)
    (events : List HostEvent) (fuel : Nat) : (w.settle held now s events fuel).1.Fit := by
  induction fuel generalizing w s events with
  | zero => exact h
  | succ fuel ih =>
    unfold Worker.settle
    split
    · exact h
    · exact ih (h.turn Worker.burst s now) _ _

namespace ActiveEngine

variable {a : ActiveEngine}

theorem fit_settleAll (held : HostFunction → Bool) (now fuel : Nat) {ws : List Worker}
    (h : ∀ w ∈ ws, w.Fit) (s : Surface) (events : List HostEvent) :
    ∀ w ∈ (settleAll held now fuel ws s events).1, w.Fit := by
  induction ws generalizing s events with
  | nil => exact List.forall_mem_nil _
  | cons v ws ih =>
    obtain ⟨hv, hws⟩ := List.forall_mem_cons.1 h
    unfold settleAll
    refine List.forall_mem_cons.2 ⟨hv.settle held now s events fuel, ?_⟩
    exact ih hws _ _

theorem Fit.settle (h : a.Fit) (held : HostFunction → Bool) (now fuel : Nat) :
    (a.settle held now fuel).1.Fit := by
  intro w hw
  rcases List.mem_append.1 hw with hw | hw
  · exact fit_settleAll held now fuel (fun w hw => h.scripts hw) _ _ w hw
  · exact fit_settleAll held now fuel (fun w hw => h.retired hw) _ _ w (List.mem_of_mem_filter hw)

theorem Fit.post (h : a.Fit) (script : ObjectId) (event : ScriptEvent) (now : Nat) :
    (a.post script event now).Fit := by
  unfold ActiveEngine.post
  split
  · exact h
  · rename_i w hw
    exact h.setWorker ((h.scripts (mem_of_worker? hw).1).post event) _

theorem Fit.turnWorker (h : a.Fit) (script : ObjectId) (n now : Nat) : (a.turnWorker script n now).Fit := by
  unfold ActiveEngine.turnWorker
  split
  · exact h
  · rename_i w hw
    exact h.setWorker ((h.scripts (mem_of_worker? hw).1).turn n a.surface now) _

theorem Fit.turnRetired (h : a.Fit) (i n now : Nat) : (a.turnRetired i n now).Fit := by
  unfold ActiveEngine.turnRetired
  split
  · exact h
  · rename_i w hw
    intro v hv
    rcases List.mem_append.1 hv with hv | hv
    · exact h.scripts hv
    · rcases List.mem_or_eq_of_mem_set hv with hv | rfl
      · exact h.retired hv
      · exact (h.retired (List.mem_of_getElem? hw)).turn n a.surface now

end ActiveEngine

/-! ### Sessions -/

namespace Session

variable {s t : Session} {revoked : Option ObjectId} {κ : Type} [ConfigSource κ]

/-- The handles of an active engine are in order. -/
def Regular (s : Session) : Prop :=
  ∀ a ∈ s.engine.active, a.Regular (∀ i ∈ s.issued, i.lease.mode = .manual)

/-- The workers of an active engine are. -/
def Fit (s : Session) : Prop := ∀ a ∈ s.engine.active, a.Fit

theorem Steps.regular (h : s.Steps revoked t) (hs : s.Regular) : t.Regular := by
  cases h with
  | rests | completes | works => exact hs
  | rises _ harena hscripts =>
    intro b hb
    obtain rfl := Option.some.inj hb
    refine ⟨?_, ?_, ?_⟩
    · rw [harena]
      exact Arena.valid_empty
    · rw [ActiveEngine.holders, hscripts]
      exact .nil
    · rw [ActiveEngine.holders, hscripts]
      intro hmanual r hr
      cases hr
  | uses ha huses =>
    intro c hc
    obtain rfl := Option.some.inj hc
    exact (hs _ ha).uses huses
  | vacates ha =>
    intro b hb
    obtain rfl := Option.some.inj hb
    exact ((hs _ ha).vacate _).1
  | starts unit context limits now ha =>
    intro b hb
    obtain rfl := Option.some.inj hb
    -- The handles are all under leases without an end if the new one is and the earlier ones were.
    have hstart := (hs _ ha).start unit context s.engine.settings.lease limits now
    refine ⟨hstart.valid, hstart.once, fun hmanual => hstart.lasts ?_⟩
    obtain ⟨hnew, hold⟩ := List.forall_mem_cons.1 hmanual
    exact ⟨hold, hnew⟩
  | closes =>
    intro b hb
    cases hb

theorem Regular.step (h : s.Regular) (op : Operation κ) : (s.step op).Regular :=
  (step_steps (fun a ha => (h a ha).once) op).regular h

theorem Fit.setUp (h : s.Fit) (region : Region) (config : κ) :
    ∀ a ∈ (s.engine.setUp region config).2.2.active, a.Fit := by
  unfold LuaEngine.setUp
  generalize LuaEngine.readSection config = c
  obtain ⟨own, c⟩ := c
  dsimp only
  split
  · exact h
  · split
    · exact h
    · split
      · exact h
      · intro a ha
        obtain rfl := Option.some.inj ha
        exact List.forall_mem_nil _

theorem Fit.step (h : s.Fit) (op : Operation κ) : (s.step op).Fit := by
  have hmap (f : ActiveEngine → ActiveEngine) (hf : ∀ a : ActiveEngine, a.Fit → (f a).Fit) :
      ∀ b ∈ s.engine.active.map f, b.Fit := by
    intro b hb
    obtain ⟨a, ha, rfl⟩ := Option.map_eq_some_iff.1 hb
    exact hf a (h a ha)
  cases op with
  | setUp region config => exact h.setUp region config
  | complete =>
    show ∀ a ∈ s.engine.complete.active, a.Fit
    unfold LuaEngine.complete
    split <;> exact h
  | load item now around =>
    rcases s.engine.load_cases item now around with ⟨e, hload⟩ | ⟨a, unit, context, limits, ha, -, hload⟩ <;>
      simp only [Fit, Session.step, hload]
    · exact h
    · intro b hb
      obtain rfl := Option.some.inj hb
      exact (h a ha).start unit context _ limits now
  | post script event now =>
    show ∀ a ∈ (s.engine.post script event now).2.active, a.Fit
    rw [LuaEngine.post_eq]
    exact hmap _ fun a ha => ha.post script event now
  | remove script =>
    show ∀ a ∈ (s.engine.remove script).2.active, a.Fit
    rw [LuaEngine.remove_eq]
    exact hmap _ fun a ha => ha.vacate script
  | sweep now =>
    show ∀ a ∈ (s.engine.sweep now).2.active, a.Fit
    rw [LuaEngine.sweep_eq]
    exact hmap _ fun a ha => ha
  | close =>
    intro b hb
    cases hb
  | work script n now => exact hmap _ fun a ha => ha.turnWorker script n now
  | settle held now fuel =>
    show ∀ a ∈ (s.engine.settle held now fuel).1.active, a.Fit
    rw [LuaEngine.settle_eq]
    exact hmap _ fun a ha => ha.settle held now fuel
  | workRetired i n now =>
    unfold Session.step
    dsimp only
    split
    · rename_i a ha
      intro b hb
      obtain rfl := Option.some.inj hb
      exact (h a ha).turnRetired i n now
    · exact h
  | directory f => exact hmap _ fun a ha => ha

theorem Regular.run (h : s.Regular) (ops : List (Operation κ)) : (s.run ops).Regular := by
  induction ops generalizing s with
  | nil => exact h
  | cons op ops ih => exact ih (h.step op)

theorem Fit.run (h : s.Fit) (ops : List (Operation κ)) : (s.run ops).Fit := by
  induction ops generalizing s with
  | nil => exact h
  | cons op ops ih => exact ih (h.step op)

theorem regular_run (backend : Compile.Backend) (modules : List HostModule) (ops : List (Operation κ)) :
    ((start backend modules).run ops).Regular ∧ ((start backend modules).run ops).Fit := by
  have hregular : (start backend modules).Regular := nofun
  have hfit : (start backend modules).Fit := nofun
  exact ⟨hregular.run ops, hfit.run ops⟩

end Session

end ScriptHost
