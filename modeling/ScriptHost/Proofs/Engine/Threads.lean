import Mathlib.Data.List.Induction
import ScriptHost.Proofs.Engine.Lifespan
import ScriptHost.Proofs.Engine.Replacement

/-! The threads of an engine. Each worker that has not ended takes a thread of a pool, which has one for every
script that the table may hold and some more for workers that are winding down. The workers in the table stay
within their bound. Those of superseded and removed scripts are not counted when a script is loaded, so the
pool is large enough just if nothing is loaded while all of its threads are taken. -/

namespace ScriptHost

/-! ### Workers that have not ended -/

namespace Worker

variable {w v : Worker} {ws : List Worker}

theorem isFinished_iff : w.isFinished = true ↔ w.stage = .finished := by
  unfold isFinished
  cases w.stage <;> simp

theorem isFinished_post (w : Worker) (e : ScriptEvent) : (w.post e).2.isFinished = w.isFinished := by
  unfold post
  split
  · rfl
  · split
    · rename_i hoffer
      obtain ⟨-, -, rfl⟩ := offer_eq_ok_iff.1 hoffer
      rfl
    · rfl

/-- A worker that has ended does nothing any more. -/
theorem isFinished_turn (h : w.isFinished = true) (n : Nat) (s : Surface) (now : Nat) :
    (w.turn n s now).isFinished = true := by
  rw [isFinished_iff] at h
  unfold turn stepOn
  split
  · exact isFinished_iff.2 h
  · split
    · have hstep : w.stepFor n = w := by
        unfold stepFor
        rw [h]
      rw [hstep]
      exact isFinished_iff.2 h
    · rename_i hquestion
      obtain ⟨i, hstage⟩ | ⟨outcome, hstage⟩ := isAtWork_of_question? hquestion <;>
      · rw [h] at hstage
        cases hstage

theorem isFinished_settle (held : HostFunction → Bool) (now : Nat) (h : w.isFinished = true) (s : Surface)
    (events : List HostEvent) (fuel : Nat) : (w.settle held now s events fuel).1.isFinished = true := by
  induction fuel generalizing w s events with
  | zero => exact h
  | succ fuel ih =>
    unfold settle
    split
    · exact h
    · exact ih (isFinished_turn h burst s now) _ _

/-- How many workers hold a thread. -/
def threads (ws : List Worker) : Nat := ws.countP (!·.isFinished)

theorem threads_cons (w : Worker) (ws : List Worker) : threads (w :: ws) = threads ws + threads [w] := by
  simp [threads, List.countP_cons]

theorem threads_append (ws vs : List Worker) : threads (ws ++ vs) = threads ws + threads vs :=
  List.countP_append

theorem threads_unfinished (ws : List Worker) : threads (ws.filter (!·.isFinished)) = threads ws := by
  rw [threads, List.countP_filter]
  simp [threads]

theorem threads_le_of_isFinished (h : w.isFinished = true → v.isFinished = true) :
    threads [v] ≤ threads [w] := by
  cases hw : w.isFinished with
  | true => simp [threads, hw, h hw]
  | false => cases hv : v.isFinished <;> simp [threads, hw, hv]

theorem threads_map_le {f : Worker → Worker} (h : ∀ w ∈ ws, w.isFinished = true → (f w).isFinished = true) :
    threads (ws.map f) ≤ threads ws := by
  unfold threads
  rw [List.countP_map]
  refine List.countP_mono_left fun w hw hrunning => ?_
  cases hfinished : w.isFinished with
  | false => rfl
  | true =>
    rw [Function.comp_apply, h w hw hfinished] at hrunning
    cases hrunning

theorem threads_set_le {i : Nat} (hw : ws[i]? = some w) (h : w.isFinished = true → v.isFinished = true) :
    threads (ws.set i v) ≤ threads ws := by
  obtain ⟨hi, hget⟩ := List.getElem?_eq_some_iff.1 hw
  unfold threads
  rw [List.countP_set hi, hget]
  cases hfinished : w.isFinished with
  | true => simp [h hfinished]
  | false =>
    have hpos : 0 < ws.countP (!·.isFinished) :=
      List.countP_pos_iff.2 ⟨w, List.mem_of_getElem? hw, by simp [hfinished]⟩
    have hv : (if (!v.isFinished) = true then 1 else 0) ≤ 1 := by split <;> simp
    simp only [Bool.not_false, if_true]
    omega

end Worker

open Worker (threads)

namespace ActiveEngine

variable {a b : ActiveEngine} {w v : Worker} {script : ObjectId}

theorem threads_settleAll_le (held : HostFunction → Bool) (now fuel : Nat) (ws : List Worker) (s : Surface)
    (events : List HostEvent) : threads (settleAll held now fuel ws s events).1 ≤ threads ws := by
  induction ws generalizing s events with
  | nil => exact Nat.le_refl _
  | cons w ws ih =>
    unfold settleAll
    have hw := Worker.threads_le_of_isFinished fun h => w.isFinished_settle held now h s events fuel
    have hws := ih (w.settle held now s events fuel).2.1 (w.settle held now s events fuel).2.2
    rw [Worker.threads_cons w]
    exact Nat.le_trans (Nat.le_of_eq (Worker.threads_cons _ _)) (Nat.add_le_add hws hw)

/-- No more workers hold a thread, neither among those in the table nor in all. -/
structure Thins (a b : ActiveEngine) : Prop where
  scripts : threads b.scripts ≤ threads a.scripts
  all : threads b.scripts + threads b.retired ≤ threads a.scripts + threads a.retired

theorem Thins.refl (a : ActiveEngine) : a.Thins a := ⟨Nat.le_refl _, Nat.le_refl _⟩

theorem thins_setWorker (once : (a.scripts.map (·.context.script)).Nodup) (hw : a.worker? script = some w)
    (hv : v.context = w.context) (h : w.isFinished = true → v.isFinished = true) (surface : Surface) :
    a.Thins ({ a with surface }.setWorker v) := by
  have hscripts : threads (({ a with surface } : ActiveEngine).setWorker v).scripts ≤ threads a.scripts := by
    refine Worker.threads_map_le fun u hu hfinished => ?_
    split
    · rename_i hscript
      obtain ⟨hmem, -⟩ := mem_of_worker? hw
      rw [hv, beq_iff_eq] at hscript
      obtain rfl : u = w := List.inj_on_of_nodup_map once hu hmem hscript
      exact h hfinished
    · exact hfinished
  exact ⟨hscripts, Nat.add_le_add_right hscripts _⟩

theorem thins_turnWorker (once : (a.scripts.map (·.context.script)).Nodup) (script : ObjectId) (n now : Nat) :
    a.Thins (a.turnWorker script n now) := by
  unfold turnWorker
  split
  · exact .refl a
  · rename_i w hw
    exact thins_setWorker once hw (w.turn_same_script n a.surface now).2.1
      (fun h => Worker.isFinished_turn h n a.surface now) _

theorem thins_post (once : (a.scripts.map (·.context.script)).Nodup) (script : ObjectId) (event : ScriptEvent)
    (now : Nat) : a.Thins (a.post script event now) := by
  unfold post
  split
  · exact .refl a
  · rename_i w hw
    exact thins_setWorker once hw (congrArg Prod.fst (w.holder_post event))
      (fun h => (w.isFinished_post event).trans h) _

theorem thins_turnRetired (a : ActiveEngine) (i n now : Nat) : a.Thins (a.turnRetired i n now) := by
  unfold turnRetired
  split
  · exact .refl a
  · rename_i w hw
    have hle := Worker.threads_set_le hw fun h => w.isFinished_turn h n a.surface now
    exact ⟨Nat.le_refl _, Nat.add_le_add_left hle _⟩

theorem thins_settle (a : ActiveEngine) (held : HostFunction → Bool) (now fuel : Nat) :
    a.Thins (a.settle held now fuel).1 := by
  have hscripts := threads_settleAll_le held now fuel a.scripts a.surface []
  have hretired := threads_settleAll_le held now fuel a.retired
    (settleAll held now fuel a.scripts a.surface []).2.1 (settleAll held now fuel a.scripts a.surface []).2.2
  refine ⟨hscripts, Nat.add_le_add hscripts ?_⟩
  unfold settle
  dsimp only
  rw [Worker.threads_unfinished]
  exact hretired

/-! ### Superseded and removed scripts -/

theorem threads_others (once : (a.scripts.map (·.context.script)).Nodup) (hw : a.worker? script = some w) :
    threads a.scripts = a.unfinished script + threads [w] := by
  obtain ⟨hmem, rfl⟩ := mem_of_worker? hw
  unfold unfinished others
  generalize a.scripts = ws at once hmem
  induction ws with
  | nil => cases hmem
  | cons u ws ih =>
    obtain ⟨hnew, once⟩ := List.nodup_cons.1 once
    rcases List.mem_cons.1 hmem with rfl | hmem
    · have hothers : ws.filter (·.context.script != w.context.script) = ws := by
        refine List.filter_eq_self.2 fun v hv => ?_
        have hne : v.context.script ≠ w.context.script := fun hsame =>
          hnew (List.mem_map.2 ⟨v, hv, hsame⟩)
        simpa using hne
      rw [List.filter_cons_of_neg (by simp), hothers]
      exact Worker.threads_cons w ws
    · have hne : u.context.script ≠ w.context.script := fun hsame =>
        hnew (List.mem_map.2 ⟨w, hmem, hsame.symm⟩)
      have hthreads := ih once hmem
      rw [List.filter_cons_of_pos (by simpa using hne), Worker.threads_cons u]
      refine Eq.trans ?_ (congrArg (· + threads [w]) (Worker.threads_cons u _).symm)
      unfold threads at hthreads ⊢
      omega

/-- The worker of a script that is taken out keeps its thread. -/
theorem threads_vacate (once : (a.scripts.map (·.context.script)).Nodup) (script : ObjectId) :
    threads (a.vacate script).scripts = a.unfinished script ∧
      threads (a.vacate script).scripts + threads (a.vacate script).retired =
        threads a.scripts + threads a.retired := by
  unfold vacate
  split
  · rename_i w hw
    obtain ⟨-, rfl⟩ := mem_of_worker? hw
    have hscripts := threads_others once hw
    have hretired : threads (a.retire w).retired = threads a.retired + threads [w] := by
      refine (Worker.threads_cons w.stop _).trans ?_
      rw [Worker.threads_unfinished]
      rfl
    have hothers : threads (a.retire w).scripts = a.unfinished w.context.script := rfl
    refine ⟨hothers, ?_⟩
    omega
  · rename_i hnone
    have hothers : a.others script = a.scripts := by
      refine List.filter_eq_self.2 fun v hv => ?_
      have habsent := List.find?_eq_none.1 hnone v hv
      simpa using habsent
    refine ⟨?_, rfl⟩
    unfold unfinished
    rw [hothers]
    rfl

theorem thins_vacate (once : (a.scripts.map (·.context.script)).Nodup) (script : ObjectId) :
    a.Thins (a.vacate script) := by
  obtain ⟨hscripts, hall⟩ := threads_vacate once script
  refine ⟨?_, Nat.le_of_eq hall⟩
  rw [hscripts]
  exact List.filter_sublist.countP_le

/-- A script that is started takes one thread more, besides those of the other scripts in the table. -/
theorem threads_start (once : (a.scripts.map (·.context.script)).Nodup) (unit : CompiledUnit)
    (context : ScriptContext) (lease : LeasePolicy) (limits : WorkerLimits) (now : Nat) :
    let b := a.start unit context lease limits now
    threads b.scripts = a.unfinished context.script + 1 ∧
      threads b.scripts + threads b.retired = threads a.scripts + threads a.retired + 1 := by
  intro b
  obtain ⟨hscripts, hall⟩ := threads_vacate once context.script
  have hnew : threads b.scripts = threads (a.vacate context.script).scripts + 1 := Worker.threads_cons _ _
  have hretired : b.retired = (a.vacate context.script).retired := rfl
  rw [hnew, hretired]
  omega

theorem unfinished_start (a : ActiveEngine) (unit : CompiledUnit) (context : ScriptContext)
    (lease : LeasePolicy) (limits : WorkerLimits) (now : Nat) :
    (a.start unit context lease limits now).unfinished context.script = a.unfinished context.script := by
  have hvacate : (a.vacate context.script).others context.script = a.others context.script := by
    unfold vacate
    split
    · rename_i w hw
      obtain ⟨-, hscript⟩ := mem_of_worker? hw
      rw [← hscript]
      simp [others, retire]
    · rfl
  have hstart : (a.start unit context lease limits now).others context.script =
      (a.vacate context.script).others context.script :=
    List.filter_cons_of_neg (by simp [Worker.spawn])
  unfold unfinished
  rw [hstart, hvacate]

theorem compile_start (a : ActiveEngine) (unit : CompiledUnit) (context : ScriptContext) (lease : LeasePolicy)
    (limits : WorkerLimits) (now : Nat) (item : ScriptItem) :
    (a.start unit context lease limits now).compile item = a.compile item := by
  have hterms : ((a.start unit context lease limits now).terms .default).compiler = (a.terms .default).compiler :=
    congrArg Terms.compiler (a.terms_start .default unit context lease limits)
  exact congrArg (·.compile ⟨item.script, item.name⟩ item.source) hterms

end ActiveEngine

/-! ### Sessions -/

namespace Session

variable {κ : Type} [ConfigSource κ] {s t : Session}

/-- Scripts in the table whose workers have not ended. -/
def atWork (s : Session) : Nat := threads s.scripts

/-- Superseded and removed workers that have not ended. -/
def winding (s : Session) : Nat := threads (((s.engine.active.or s.left).map (·.retired)).getD [])

/-- All workers that hold a thread. -/
def crowd (s : Session) : Nat := s.atWork + s.winding

def Accepts (s : Session) (item : ScriptItem) (now : Nat) (around : Lua.Surroundings) : Prop :=
  ∃ unit, (s.engine.load item now around).1 = .ok unit

/-- No more threads are held. -/
structure Thins (s t : Session) : Prop where
  atWork : t.atWork ≤ s.atWork
  crowd : t.crowd ≤ s.crowd

theorem Thins.refl (s : Session) : s.Thins s := ⟨Nat.le_refl _, Nat.le_refl _⟩

theorem thins_active {a b : ActiveEngine} {e : LuaEngine} (ha : s.engine.active = some a)
    (hb : e.active = some b) (h : a.Thins b) : s.Thins { s with engine := e } := by
  have hs : s.scripts = a.scripts ∧ s.winding = threads a.retired := by
    rw [scripts, winding, ha]
    exact ⟨rfl, rfl⟩
  have ht : ({ s with engine := e } : Session).scripts = b.scripts ∧
      ({ s with engine := e } : Session).winding = threads b.retired := by
    rw [scripts, winding, hb]
    exact ⟨rfl, rfl⟩
  constructor
  · rw [atWork, atWork, hs.1, ht.1]
    exact h.scripts
  · rw [crowd, crowd, atWork, atWork, hs.1, ht.1, hs.2, ht.2]
    exact h.all

theorem thins_map {e : LuaEngine} {f : ActiveEngine → ActiveEngine} (he : e.active = s.engine.active.map f)
    (hf : ∀ a, s.engine.active = some a → a.Thins (f a)) : s.Thins { s with engine := e } := by
  cases ha : s.engine.active with
  | some a =>
    rw [ha] at he
    exact thins_active ha he (hf a ha)
  | none =>
    rw [ha] at he
    have hscripts : ({ s with engine := e } : Session).scripts = s.scripts := by
      rw [scripts, scripts, he, ha]
      rfl
    have hwinding : ({ s with engine := e } : Session).winding = s.winding := by
      rw [winding, winding, he, ha]
      rfl
    have hatWork := congrArg threads hscripts
    exact ⟨Nat.le_of_eq hatWork, Nat.le_of_eq (congrArg₂ (· + ·) hatWork hwinding)⟩

theorem thins_close (s : Session) : s.Thins (s.step (.close : Operation κ)) := by
  have hscripts : (s.step (.close : Operation κ)).scripts = [] := rfl
  have hatWork : (s.step (.close : Operation κ)).atWork = 0 := rfl
  refine ⟨by rw [hatWork]; exact Nat.zero_le _, ?_⟩
  rw [crowd, crowd, hatWork]
  unfold winding atWork scripts
  cases ha : s.engine.active with
  | none => simp [step, LuaEngine.close, ha]
  | some a =>
    have hstop : threads (a.scripts.map (·.stop)) ≤ threads a.scripts :=
      Worker.threads_map_le fun w _ h => h
    have hleft : (s.step (.close : Operation κ)).left = some a.close := by
      simp [step, ha]
    have hactive : (s.step (.close : Operation κ)).engine.active = none := rfl
    rw [hactive, hleft]
    have happend := Worker.threads_append (a.scripts.map (·.stop)) a.retired
    simp only [Option.none_or, Option.map_some, Option.getD_some, Option.some_or, ActiveEngine.close]
    omega

/-- Only a load that is accepted takes a thread. -/
theorem step_thins (hs : s.Regular) (op : Operation κ) (hsetUp : ∀ region config, op ≠ .setUp region config)
    (hload : ∀ item now around, op = .load item now around → ¬ s.Accepts item now around) :
    s.Thins (s.step op) := by
  have honce (a : ActiveEngine) (ha : s.engine.active = some a) := (hs a ha).nodup_scripts
  cases op with
  | setUp region config => exact absurd rfl (hsetUp region config)
  | complete =>
    unfold step LuaEngine.complete
    dsimp only
    split
    · exact ⟨Nat.le_refl _, Nat.le_refl _⟩
    · exact .refl s
  | load item now around =>
    rcases s.engine.load_cases item now around with ⟨err, hresult⟩ | ⟨a, unit, _, _, -, -, hresult⟩
    · simp only [step, hresult]
      exact .refl s
    · exact absurd ⟨unit, by rw [hresult]⟩ (hload item now around rfl)
  | post script event now =>
    have hactive := congrArg LuaEngine.active (s.engine.post_eq script event now)
    exact thins_map hactive fun a ha => ActiveEngine.thins_post (honce a ha) script event now
  | remove script =>
    have hactive := congrArg LuaEngine.active (s.engine.remove_eq script)
    exact thins_map hactive fun a ha => ActiveEngine.thins_vacate (honce a ha) script
  | sweep now =>
    have hactive := congrArg LuaEngine.active (s.engine.sweep_eq now)
    exact thins_map hactive fun a _ => ⟨Nat.le_refl _, Nat.le_refl _⟩
  | close => exact thins_close s
  | work script n now =>
    exact thins_map rfl fun a ha => ActiveEngine.thins_turnWorker (honce a ha) script n now
  | settle held now fuel =>
    have hactive := congrArg LuaEngine.active (s.engine.settle_eq held now fuel)
    exact thins_map hactive fun a _ => a.thins_settle held now fuel
  | workRetired i n now =>
    unfold step
    dsimp only
    split
    · rename_i a ha
      exact thins_active ha rfl (a.thins_turnRetired i n now)
    · rename_i hnone
      refine ⟨Nat.le_refl _, Nat.add_le_add_left ?_ _⟩
      unfold winding
      simp only [hnone, Option.none_or]
      cases s.left with
      | none => exact Nat.le_refl _
      | some a =>
        have hscripts : (a.turnRetired i n now).scripts = a.scripts := by
          unfold ActiveEngine.turnRetired
          split <;> rfl
        have hall := (a.thins_turnRetired i n now).all
        rw [hscripts] at hall
        exact Nat.le_of_add_le_add_left hall
  | directory f => exact thins_map rfl fun a _ => ⟨Nat.le_refl _, Nat.le_refl _⟩

/-! ### Loads that are accepted -/

theorem accepts_iff {a : ActiveEngine} (ha : s.engine.active = some a) (item : ScriptItem) (now : Nat)
    (around : Lua.Surroundings) :
    s.Accepts item now around ↔ (∃ unit, a.compile item = .ok unit) ∧
      a.unfinished item.script < s.engine.settings.maxScripts := by
  have hloads := s.engine.load_loads ha item now around
  unfold Accepts
  simp only [hloads.accepted_iff, exists_and_right]

theorem Accepts.active {item : ScriptItem} {now : Nat} {around : Lua.Surroundings} (h : s.Accepts item now around) :
    ∃ a, s.engine.active = some a := by
  obtain ⟨unit, hload⟩ := h
  cases ha : s.engine.active with
  | none => simp [LuaEngine.load_eq, ha] at hload
  | some a => exact ⟨a, rfl⟩

/-- A load that is accepted takes one thread more, and leaves room for the scripts in the table. What was
accepted once is accepted again. -/
theorem Accepts.step {item : ScriptItem} {now : Nat} {around : Lua.Surroundings}
    (h : s.Accepts item now around) (hs : s.Regular) :
    let t := s.step (.load item now around : Operation κ)
    t.atWork ≤ s.engine.settings.maxScripts ∧ t.crowd = s.crowd + 1 ∧
      t.engine.settings = s.engine.settings ∧ t.Accepts item now around := by
  intro t
  obtain ⟨a, ha⟩ := h.active
  obtain ⟨unit, hload⟩ := h
  have hloads := s.engine.load_loads ha item now around
  obtain ⟨hcompile, hfree⟩ := hloads.accepted_iff.1 hload
  have hstep : t = _ := step_load_of_starts (κ := κ) rfl (hloads.started hload)
  have hactive := congrArg (·.engine.active) hstep
  have hsettings := congrArg (·.engine.settings) hstep
  obtain ⟨hatWork, hall⟩ := ActiveEngine.threads_start (hs a ha).nodup_scripts unit
    (.ofItem item LuaEngine.name a.region.name) s.engine.settings.lease
    (s.engine.settings.limits around) now
  refine ⟨?_, ?_, hsettings, (accepts_iff hactive item now around).2 ⟨⟨unit, ?_⟩, ?_⟩⟩
  · unfold atWork scripts
    rw [hactive]
    exact Nat.le_trans (Nat.le_of_eq hatWork) hfree
  · unfold crowd atWork winding scripts
    rw [hactive, ha]
    exact hall
  · rw [ActiveEngine.compile_start]
    exact hcompile
  · rw [hsettings]
    exact Nat.lt_of_le_of_lt (Nat.le_of_eq (ActiveEngine.unfinished_start ..)) hfree

/-- Loading a script again and again leaves a worker behind each time, until those have ended. -/
theorem crowd_reloads (hs : s.Regular) {item : ScriptItem} {now : Nat} {around : Lua.Surroundings}
    (h : s.Accepts item now around) (n : Nat) :
    (s.run (List.replicate n (.load item now around : Operation κ))).crowd = s.crowd + n ∧
      (s.run (List.replicate n (.load item now around : Operation κ))).Accepts item now around := by
  induction n generalizing s with
  | zero => exact ⟨rfl, h⟩
  | succ n ih =>
    obtain ⟨-, hcrowd, -, hagain⟩ := h.step (κ := κ) hs
    obtain ⟨hlater, haccepts⟩ := ih (hs.step (.load item now around : Operation κ)) hagain
    rw [List.replicate_succ]
    refine ⟨hlater.trans ?_, haccepts⟩
    omega

/-! ### Runs -/

theorem atWork_run (hs : s.Regular) (hroom : s.atWork ≤ s.engine.settings.maxScripts) (ops : List (Operation κ))
    (hsetUp : ∀ region config, .setUp region config ∉ ops) :
    (s.run ops).atWork ≤ s.engine.settings.maxScripts := by
  induction ops generalizing s with
  | nil => exact hroom
  | cons op ops ih =>
    have hop : ∀ region config, op ≠ .setUp region config := by
      rintro region config rfl
      exact hsetUp region config List.mem_cons_self
    have hsettings := s.settings_step op hop
    have hstep : (s.step op).atWork ≤ s.engine.settings.maxScripts := by
      by_cases hload : ∃ item now around, op = .load item now around ∧ s.Accepts item now around
      · obtain ⟨item, now, around, rfl, haccepts⟩ := hload
        exact (haccepts.step hs).1
      · refine Nat.le_trans (step_thins hs op hop ?_).atWork hroom
        exact fun item now around heq haccepts => hload ⟨item, now, around, heq, haccepts⟩
    rw [← hsettings] at hstep ⊢
    exact ih (hs.step op) hstep fun region config hmem => hsetUp region config (List.mem_cons_of_mem _ hmem)

/-- The bound on all threads is kept just if no load that is accepted finds all of them taken. -/
theorem crowd_run_iff (hs : s.Regular) {size : Nat} (hstart : s.crowd ≤ size) (ops : List (Operation κ))
    (hsetUp : ∀ region config, .setUp region config ∉ ops) :
    (∀ done, done <+: ops → (s.run done).crowd ≤ size) ↔
      ∀ done item now around, done ++ [.load item now around] <+: ops → (s.run done).Accepts item now around →
        (s.run done).crowd < size := by
  constructor
  · intro hall done item now around hdone haccepts
    have hlater := hall _ hdone
    rw [run_append] at hlater
    obtain ⟨-, hcrowd, -⟩ := haccepts.step (κ := κ) (hs.run done)
    exact Nat.lt_of_lt_of_le (Nat.lt_of_lt_of_eq (Nat.lt_succ_self _) hcrowd.symm) hlater
  · intro hloads done hdone
    induction done using List.reverseRecOn with
    | nil => exact hstart
    | append_singleton done op ih =>
      have hbefore := ih ((List.prefix_append done [op]).trans hdone)
      rw [run_append]
      by_cases hload : ∃ item now around, op = .load item now around ∧ (s.run done).Accepts item now around
      · obtain ⟨item, now, around, rfl, haccepts⟩ := hload
        obtain ⟨-, hcrowd, -⟩ := haccepts.step (κ := κ) (hs.run done)
        exact Nat.le_trans (Nat.le_of_eq hcrowd) (hloads done item now around hdone haccepts)
      · have hop : ∀ region config, op ≠ .setUp region config := by
          rintro region config rfl
          exact hsetUp region config (hdone.subset (by simp))
        have hthins := step_thins (hs.run done) op hop
          fun item now around heq haccepts => hload ⟨item, now, around, heq, haccepts⟩
        exact Nat.le_trans hthins.crowd hbefore

/-- A new engine has no workers. -/
theorem crowd_setUp (backend : Compile.Backend) (modules : List HostModule) (region : Region) (config : κ) :
    ((start backend modules).step (.setUp region config)).crowd = 0 := by
  unfold step LuaEngine.setUp
  generalize LuaEngine.readSection config = c
  obtain ⟨own, c⟩ := c
  dsimp only
  split
  · rfl
  · split
    · rfl
    · split <;> rfl

/-- However scripts are loaded, superseded and removed, and whenever their workers end, those in the table
that have not ended are as few as the settings say, and so are all of them with the headroom if not more are
winding down than that. All have a thread just if no load is accepted while all threads are taken. -/
theorem pool_suffices_iff (backend : Compile.Backend) (modules : List HostModule) (region : Region) (config : κ)
    (ops : List (Operation κ)) (hsetUp : ∀ region config, .setUp region config ∉ ops) :
    let s := (start backend modules).step (.setUp region config)
    let settings := s.engine.settings
    (∀ done, done <+: ops → (s.run done).atWork ≤ settings.maxScripts ∧
      ((s.run done).winding ≤ EngineSettings.headroom →
        (s.run done).crowd ≤ settings.maxScripts + EngineSettings.headroom)) ∧
    ((∀ done, done <+: ops → (s.run done).crowd ≤ settings.poolSize) ↔
      ∀ done item now around, done ++ [.load item now around] <+: ops → (s.run done).Accepts item now around →
        (s.run done).crowd < settings.poolSize) := by
  intro s settings
  have hregular : s.Regular := (regular_run backend modules [.setUp region config]).1
  have hcrowd : s.crowd = 0 := crowd_setUp backend modules region config
  constructor
  · intro done hdone
    have hatWork : (s.run done).atWork ≤ settings.maxScripts := by
      refine atWork_run hregular ?_ done fun region config hmem => hsetUp region config (hdone.subset hmem)
      exact Nat.le_trans (Nat.le_add_right _ _) (Nat.le_trans (Nat.le_of_eq hcrowd) (Nat.zero_le _))
    exact ⟨hatWork, Nat.add_le_add hatWork⟩
  · exact crowd_run_iff hregular (Nat.le_trans (Nat.le_of_eq hcrowd) (Nat.zero_le _)) ops hsetUp

/-- A script that is loaded twice and removed, where there is room for one. -/
theorem pool_suffices_iff_removal :
    let config : Sections := Dict.empty.insert EngineSettings.sectionName (Dict.ofList [("max_scripts", "1")])
    let door : ScriptItem := default
    let ops : List (Operation Sections) := [.load door 0 default, .load door 1 default, .remove door.script]
    let s := (start Compile.LuaBackend.backend []).step (.setUp default config)
    s.engine.settings.maxScripts = 1 ∧ (s.run ops).crowd = 2 ∧
      ∀ done, done <+: ops → (s.run done).atWork ≤ 1 := by
  intro config door ops s
  have hmax : s.engine.settings.maxScripts = 1 := by decide +kernel
  obtain ⟨hatWork, -⟩ := pool_suffices_iff Compile.LuaBackend.backend [] default config ops (by simp [ops])
  refine ⟨hmax, by decide +kernel, ?_⟩
  intro done hdone
  rw [← hmax]
  exact (hatWork done hdone).1

/-- A script that is loaded once more than there are threads. -/
theorem reloads_outgrow_pool :
    let config : Sections := Dict.empty.insert EngineSettings.sectionName (Dict.ofList [("max_scripts", "1")])
    let door : ScriptItem := default
    let s := (start Compile.LuaBackend.backend []).step (.setUp default config)
    let ops : List (Operation Sections) := List.replicate 18 (.load door 0 default)
    s.engine.settings.poolSize = 17 ∧ (s.run ops).crowd = 18 ∧ (s.run ops).atWork = 1 ∧
      (s.run ops).Accepts door 0 default := by
  intro config door s ops
  have hsize : s.engine.settings.poolSize = 17 := by decide +kernel
  have hnone : s.crowd = 0 := crowd_setUp Compile.LuaBackend.backend [] default config
  have hregular : s.Regular := (regular_run Compile.LuaBackend.backend [] [.setUp default config]).1
  have haccepts : s.Accepts door 0 default := by
    have hok : (s.engine.load door 0 default).1.isOk = true := by decide +kernel
    unfold Accepts
    cases hload : (s.engine.load door 0 default).1 with
    | error err =>
      rw [hload] at hok
      cases hok
    | ok unit => exact ⟨unit, rfl⟩
  obtain ⟨hcrowd, hagain⟩ := crowd_reloads (κ := Sections) hregular haccepts 18
  rw [hnone] at hcrowd
  exact ⟨hsize, hcrowd, by decide +kernel, hagain⟩

end Session

end ScriptHost
