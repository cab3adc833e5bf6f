import ScriptHost.Proofs.Lua.Calling
import ScriptHost.Proofs.Worker.Alone

/-! Workers that fault. A worker over time takes turns of any length, and between them the host may do
something. Once an abort is recorded on an invocation, the worker stays with it until it faults, if no finalizer
keeps it from that. -/

namespace ScriptHost.Worker

variable {w : Worker} {v : Nat → Worker} {i : Invocation} {m : Lua.Machine} {message : String}

open Lua.Machine (told advance Along Ends)

/-! ### Workers over time -/

/-- In a turn of up to `n` steps of the machine no finalizer is at work or comes next. -/
structure IsCalm (w : Worker) (n : Nat) : Prop where
  program : ∀ i, w.stage = .running i → ∀ j ≤ n, (w.machine.run j).isFinalizing = false
  kept : ∀ outcome, w.stage ≠ .closing outcome

/-- What may become of a worker between two moments: it takes a turn of some kind, or the host does something. -/
inductive Passes (kind : Worker → Nat → Prop) (w : Worker) : Worker → Prop
  | turn (n : Nat) (s : Surface) (now : Nat) : kind w n → Passes kind w (w.turn n s now)
  | meanwhile {w' : Worker} (stop : Bool) : w'.stage = w.stage → w'.call = w.call →
      w'.machine = w.machine.told stop → Passes kind w w'

/-- A worker over time, which always gets another turn. All turns are of some kind. -/
structure Life (kind : Worker → Nat → Prop) (v : Nat → Worker) : Prop where
  passes : ∀ n, Passes kind (v n) (v (n + 1))
  fair : ∀ n, ∃ k ≥ n, ∃ j s now, kind (v k) (j + 1) ∧ v (k + 1) = (v k).turn (j + 1) s now

variable {kind : Worker → Nat → Prop}

theorem Life.later (hv : Life kind v) (k : Nat) : Life kind fun n => v (k + n) where
  passes n := hv.passes (k + n)
  fair n := by
    obtain ⟨l, hl, hturn⟩ := hv.fair (k + n)
    refine ⟨l - k, by omega, ?_⟩
    have hindex : k + (l - k) = l := by omega
    show ∃ j s now, kind (v (k + (l - k))) (j + 1) ∧ v (k + (l - k) + 1) = (v (k + (l - k))).turn (j + 1) s now
    rwa [hindex]

/-- Where all turns are calm, the machine is not given up for its finalizers. -/
theorem Life.stage_ne_closing (hv : Life IsCalm v) (outcome : ScriptStatus) : (v 0).stage ≠ .closing outcome := by
  intro hclosing
  have hstays (k : Nat) : (v k).stage = .closing outcome := by
    induction k with
    | zero => exact hclosing
    | succ k ih =>
      generalize hnext : v (k + 1) = w
      have hpasses := hv.passes k
      rw [hnext] at hpasses
      cases hpasses with
      | turn n s now hcalm => exact absurd ih (hcalm.kept outcome)
      | meanwhile stop hstage => exact hstage.trans ih
  obtain ⟨k, -, j, s, now, hcalm, -⟩ := hv.fair 0
  exact hcalm.kept outcome (hstays k)

/-- An invocation goes on until the worker faults, with nothing but finalizers in between. -/
def Faults (i : Invocation) (v : Nat → Worker) : Prop :=
  ∃ n message, (∀ k < n, (v k).stage = .running i ∨ (v k).stage = .closing (.faulted message)) ∧
    (v n).stage = .leaving (.faulted message)

theorem Faults.of_later {k : Nat} (h : Faults i fun n => v (k + n)) (hbefore : ∀ n < k, (v n).stage = .running i) :
    Faults i v := by
  obtain ⟨n, message, hruns, hfaults⟩ := h
  refine ⟨k + n, message, fun l hl => ?_, hfaults⟩
  by_cases hlk : l < k
  · exact .inl (hbefore l hlk)
  · have hlater := hruns (l - k) (by omega)
    have hindex : k + (l - k) = l := by omega
    dsimp only at hlater
    rwa [hindex] at hlater

/-- What lasts until the worker's next turn leads to a fault if that turn does. -/
theorem Life.faults_of_turn {Q : Worker → Prop} (hstage : ∀ w, Q w → w.stage = .running i)
    (hpass : ∀ v, Life IsCalm v → Q (v 0) → Q (v 1) ∨ Faults i v)
    (hturn : ∀ v, Life IsCalm v → Q (v 0) → ∀ j s now, (v 0).IsCalm (j + 1) →
      v 1 = (v 0).turn (j + 1) s now → Faults i v)
    (hv : Life IsCalm v) (hQ : Q (v 0)) : Faults i v := by
  obtain ⟨k, -, j, s, now, hk⟩ := hv.fair 0
  induction k generalizing v with
  | zero => exact hturn v hv hQ j s now hk.1 hk.2
  | succ k ih =>
    rcases hpass v hv hQ with hQ' | hfaults
    · refine Faults.of_later (k := 1) ?_ fun n hn => ?_
      · refine ih (hv.later 1) hQ' ?_
        show (v (1 + k)).IsCalm (j + 1) ∧ v (1 + (k + 1)) = (v (1 + k)).turn (j + 1) s now
        rw [Nat.add_comm 1 k, Nat.add_comm 1 (k + 1)]
        exact hk
      · obtain rfl : n = 0 := by omega
        exact hstage _ hQ
    · exact hfaults

/-! ### Turns of an invocation -/

/-- A worker at an invocation that has come to a machine, which may have been told to end since. -/
structure At (i : Invocation) (m : Lua.Machine) (w : Worker) : Prop where
  stage : w.stage = .running i
  call : w.call = none
  machine : ∃ stop, w.machine = m.told stop

/-- A worker at an invocation whose call of a host function is served. -/
structure Calling (i : Invocation) (m : Lua.Machine) (w : Worker) : Prop where
  stage : w.stage = .running i
  call : w.call ≠ none
  machine : ∃ stop, w.machine = m.told stop

theorem machine_meanwhile {w' : Worker} {stop : Bool} (hw : ∃ stop, w.machine = m.told stop)
    (hmachine : w'.machine = w.machine.told stop) : ∃ stop, w'.machine = m.told stop := by
  obtain ⟨a, ha⟩ := hw
  exact ⟨a || stop, by rw [hmachine, ha, Lua.Machine.told_told]⟩

/-- With the answer to its call the machine goes on. -/
theorem at_answer {name : String} {args : List Lua.Val} (hask : m.control = .ask name args)
    (hstage : w.stage = .running i) (hmachine : ∃ stop, w.machine = m.told stop) (r : Except CallError Value) :
    ∃ stop r', At i (m.advance stop r') (w.answer r) := by
  obtain ⟨stop, hstop⟩ := hmachine
  have hadvance (r' : Except String Lua.Val) : m.advance stop r' = (m.told stop).answer r' := by
    unfold advance
    rw [hask]
  have hanswer (r' : Except String Lua.Val) (hr : (w.answer r).machine = w.machine.answer r') :
      At i (m.advance stop r') (w.answer r) :=
    ⟨hstage, rfl, false, by rw [hr, hstop, hadvance, Lua.Machine.told_false]⟩
  cases r with
  | ok x => exact ⟨stop, .ok x.toLua, hanswer _ rfl⟩
  | error e => exact ⟨stop, .error e.message, hanswer _ rfl⟩

theorem turn_of_call {c : ResolvedCall} (hcall : w.call = some c) (n : Nat) (s : Surface) (now : Nat) :
    ∃ r, w.turn n s now = w.answer r :=
  ⟨.ok (s.serve c.context c.function c.args).1, by simp only [turn, stepOn, hcall]⟩

/-- A call of a host function that is served is answered in the next turn. -/
theorem Calling.faults {name : String} {args : List Lua.Val} (hask : m.control = .ask name args)
    (hnext : ∀ stop r v, Life IsCalm v → At i (m.advance stop r) (v 0) → Faults i v) (hv : Life IsCalm v)
    (h : Calling i m (v 0)) : Faults i v := by
  have hturn (v : Nat → Worker) (hv : Life IsCalm v) (h : Calling i m (v 0)) (n : Nat) (s : Surface) (now : Nat)
      (hv1 : v 1 = (v 0).turn n s now) : Faults i v := by
    obtain ⟨c, hcall⟩ := Option.ne_none_iff_exists'.1 h.call
    obtain ⟨r, hr⟩ := turn_of_call hcall n s now
    obtain ⟨stop, r', hat⟩ := at_answer hask h.stage h.machine r
    rw [← hr, ← hv1] at hat
    refine Faults.of_later (k := 1) (hnext stop r' _ (hv.later 1) hat) fun n hn => ?_
    obtain rfl : n = 0 := by omega
    exact h.stage
  refine Life.faults_of_turn (Q := Calling i m) (fun w h => h.stage) (fun v hv h => ?_)
    (fun v hv h j s now _ hv1 => hturn v hv h (j + 1) s now hv1) hv h
  generalize hv1 : v 1 = w
  have hpasses := hv.passes 0
  rw [hv1] at hpasses
  cases hpasses with
  | turn n s now => exact .inr (hturn v hv h n s now hv1)
  | meanwhile stop hstage hcall hmachine =>
    exact .inl ⟨hstage.trans h.stage, hcall ▸ h.call, machine_meanwhile h.machine hmachine⟩

/-! ### Faults -/

theorem giveUp_stage (w : Worker) (outcome : ScriptStatus) :
    (w.giveUp outcome).stage = .closing outcome ∨ (w.giveUp outcome).stage = .leaving outcome := by
  obtain ⟨m, h⟩ | h := w.giveUp_cases outcome <;> rw [h]
  · exact .inl rfl
  · exact .inr rfl

theorem stepFor_of_error {e : Lua.Thrown} {n : Nat} (hstage : w.stage = .running i)
    (hresult : (w.machine.run n).result? = some (.error e)) :
    (w.stepFor n).stage = .closing (.faulted e.message) ∨ (w.stepFor n).stage = .leaving (.faulted e.message) := by
  simp only [stepFor, hstage, hresult]
  exact giveUp_stage _ _

/-- Where all turns are calm, an error is the end of the worker. -/
theorem Life.faults_of_error (hv : Life IsCalm v) (hstage : (v 0).stage = .running i) {e : Lua.Thrown} {n : Nat}
    (hresult : ((v 0).machine.run n).result? = some (.error e)) (hv1 : v 1 = (v 0).stepFor n) : Faults i v := by
  have hfails := stepFor_of_error hstage hresult
  rw [← hv1] at hfails
  refine ⟨1, e.message, fun n hn => ?_, hfails.resolve_left ((hv.later 1).stage_ne_closing _)⟩
  obtain rfl : n = 0 := by omega
  exact .inl hstage

/-- What a turn makes of an invocation. -/
theorem At.turn_cases (h : At i m w) (n : Nat) (s : Surface) (now : Nat) :
    (∃ name args, m.control = .ask name args) ∧
        ((∃ stop r, At i (m.advance stop r) (w.turn n s now)) ∨ Calling i m (w.turn n s now)) ∨
      (∀ name args, m.control ≠ .ask name args) ∧ w.turn n s now = w.stepFor n := by
  obtain ⟨stop, hstop⟩ := h.machine
  have hcontrol : w.machine.control = m.control := by rw [hstop]; rfl
  cases hx : m.control with
  | ask name args =>
    have hquestion : w.question? = some (name, args.map Value.ofLua) := by
      simp only [question?, h.stage, Bridge.question?, hcontrol, hx]
    refine .inl ⟨⟨name, args, rfl⟩, ?_⟩
    simp only [turn, stepOn, h.call, hquestion]
    split
    · exact .inl (at_answer hx h.stage h.machine (.error _))
    · exact .inr ⟨h.stage, Option.some_ne_none _, h.machine⟩
  | _ =>
    have hquestion : w.question? = none := by simp only [question?, h.stage, Bridge.question?, hcontrol, hx]
    have hturn : w.turn n s now = w.stepFor n := turn_of_question?_none h.call hquestion n s now
    exact .inr ⟨(fun _ _ hask => by cases hask), hturn⟩

/-- A machine that has halted with an abort on record has its worker fault in the next turn. -/
theorem At.faults_of_halt {r : Except Lua.Thrown (List Lua.Val)} (haborted : m.meter.aborted = some message)
    (hhalt : m.control = .halt r) (hv : Life IsCalm v) (h : At i m (v 0)) {n : Nat} {s : Surface} {now : Nat}
    (hv1 : v 1 = (v 0).turn n s now) : Faults i v := by
  obtain ⟨stop, hstop⟩ := h.machine
  have hhalt' : (v 0).machine.control = .halt r := by rw [hstop]; exact hhalt
  have haborted' : (v 0).machine.meter.aborted = some message := by rw [hstop]; exact haborted
  obtain ⟨e, he⟩ := Lua.Machine.result?_of_halt haborted' hhalt'
  have hrun := Lua.Machine.run_of_isStopped (Lua.Machine.isStopped_of_result? he) n
  obtain ⟨⟨name, args, hask⟩, -⟩ | ⟨-, hturn⟩ := h.turn_cases n s now
  · cases hhalt.symm.trans hask
  · exact hv.faults_of_error h.stage (by rw [hrun, he]) (hv1.trans hturn)

/-- However long a machine is let run, that is a turn, if the machine does not wait for an answer. -/
theorem At.passes_stepFor (h : At i m w) (n : Nat) (hkind : kind w n) (s : Surface) (now : Nat) :
    Passes kind w (w.stepFor n) := by
  obtain ⟨⟨name, args, hask⟩, -⟩ | ⟨-, hturn⟩ := h.turn_cases n s now
  · obtain ⟨stop, hstop⟩ := h.machine
    have hask' : w.machine.control = .ask name args := by rw [hstop]; exact hask
    have hstopped : w.machine.isStopped = true := by rw [Lua.Machine.isStopped, hask']
    have hrun := Lua.Machine.run_of_isStopped hstopped n
    have hnone : (w.machine.run n).result? = none := by rw [hrun, Lua.Machine.result?, hask']
    rw [stepFor_of_result? (.inl ⟨i, h.stage⟩) hnone, hrun]
    exact .meanwhile false rfl rfl (Lua.Machine.told_false _).symm
  · rw [← hturn]
    exact .turn n s now hkind

/-- A machine that can go on by itself does so in the next turn, for at least a step. -/
theorem At.faults_of_stepFor (haborted : m.meter.aborted = some message) (hstopped : m.isStopped = false)
    (hnext : ∀ stop r v, Life IsCalm v → At i (m.advance stop r) (v 0) → Faults i v)
    (hv : Life IsCalm v) (h : At i m (v 0)) {n : Nat} (hcalm : (v 0).IsCalm (n + 1)) (s : Surface) (now : Nat) (hv1 : v 1 = (v 0).stepFor (n + 1)) :
    Faults i v := by
  obtain ⟨stop, hstop⟩ := h.machine
  have hstopped' : (v 0).machine.isStopped = false := by rw [hstop]; exact hstopped
  have haborted' : (v 0).machine.meter.aborted = some message := by rw [hstop]; exact haborted
  have hrun : (v 0).machine.run 1 = m.advance stop (.ok .nil) := by
    have hone : (v 0).machine.run 1 = (v 0).machine.beat := by simp [Lua.Machine.run, hstopped']
    rw [hone, hstop, Lua.Machine.advance_of_not_isStopped hstopped]
  cases hresult : ((v 0).machine.run 1).result? with
  | some result =>
    have hfinal := Lua.Machine.run_of_isStopped (Lua.Machine.isStopped_of_result? hresult) n
    rw [← Lua.Machine.run_succ] at hfinal
    cases result with
    | ok vs => exact absurd hresult (Lua.Machine.result?_of_aborted (Lua.Machine.run_aborted haborted' 1) vs)
    | error e => exact hv.faults_of_error h.stage (by rw [hfinal, hresult]) hv1
  | none =>
    have hworks : (v 0).IsAtWork := .inl ⟨i, h.stage⟩
    have hfirst := stepFor_of_result? hworks hresult
    have hat : At i (m.advance stop (.ok .nil)) ((v 0).stepFor 1) := by
      rw [hfirst]
      exact ⟨h.stage, h.call, false, hrun.trans (Lua.Machine.told_false _).symm⟩
    -- The worker has as good as taken a turn for the first step and another one for the rest.
    let u := fun n => if n = 0 then (v 0).stepFor 1 else v n
    have hu (n : Nat) : u (n + 1) = v (n + 1) := if_neg (Nat.succ_ne_zero n)
    have hlife : Life IsCalm u := by
      refine ⟨fun k => ?_, fun k => ?_⟩
      · cases k with
        | zero =>
          rw [hu, hv1, stepFor_succ hworks hresult]
          refine hat.passes_stepFor n ⟨fun _ _ j hj => ?_, fun outcome hclosing => ?_⟩ s now
          · have hrest := hcalm.program i h.stage (j + 1) (by omega)
            rw [Lua.Machine.run_succ] at hrest
            rw [hfirst]
            exact hrest
          · cases hat.stage.symm.trans hclosing
        | succ k =>
          rw [hu, hu]
          exact hv.passes (k + 1)
      · obtain ⟨l, hl, hturn⟩ := hv.fair (k + 1)
        obtain ⟨l, rfl⟩ := Nat.exists_eq_add_of_le' (Nat.le_trans (Nat.le_add_left 1 k) hl)
        exact ⟨l + 1, by omega, by rwa [hu, hu]⟩
    obtain ⟨l, message, hruns, hfaults⟩ := hnext _ _ u hlife hat
    cases l with
    | zero => cases hat.stage.symm.trans hfaults
    | succ l =>
      rw [hu] at hfaults
      refine ⟨l + 1, message, fun k hk => ?_, hfaults⟩
      cases k with
      | zero => exact .inl h.stage
      | succ k => exact hu k ▸ hruns (k + 1) hk

/-- Until the worker's next turn its machine may only be told to end. -/
theorem At.faults_of_turn
    (hturn : ∀ v, Life IsCalm v → At i m (v 0) → ∀ n s now, (v 0).IsCalm n → v 1 = (v 0).turn n s now →
      At i m (v 1) ∧ n = 0 ∨ Faults i v)
    (hv : Life IsCalm v) (h : At i m (v 0)) : Faults i v := by
  refine Life.faults_of_turn (Q := At i m) (fun w h => h.stage) (fun v hv h => ?_)
    (fun v hv h j s now hcalm hv1 => ?_) hv h
  · generalize hv1 : v 1 = w
    have hpasses := hv.passes 0
    rw [hv1] at hpasses
    cases hpasses with
    | turn n s now hcalm =>
      have hone := hturn v hv h n s now hcalm hv1
      rw [hv1] at hone
      exact hone.imp_left And.left
    | meanwhile stop hstage hcall hmachine =>
      exact .inl ⟨hstage.trans h.stage, hcall.trans h.call, machine_meanwhile h.machine hmachine⟩
  · exact (hturn v hv h (j + 1) s now hcalm hv1).resolve_left fun hzero => Nat.succ_ne_zero j hzero.2

/-- If a machine that has not halted ends in a fault after its next step, it ends in one. -/
theorem At.faults_of_advance (haborted : m.meter.aborted = some message) (hgoes : ∀ r, m.control ≠ .halt r)
    (hnext : ∀ stop r v, Life IsCalm v → At i (m.advance stop r) (v 0) → Faults i v)
    (hv : Life IsCalm v) (h : At i m (v 0)) : Faults i v := by
  refine At.faults_of_turn (fun v hv h n s now hcalm hv1 => ?_) hv h
  have hfirst (k : Nat) (hk : k < 1) : (v k).stage = .running i := by
    obtain rfl : k = 0 := by omega
    exact h.stage
  obtain ⟨⟨name, args, hask⟩, ⟨stop, r, hat⟩ | hcalling⟩ | ⟨hask, hturn⟩ := h.turn_cases n s now
  · rw [← hv1] at hat
    exact .inr (.of_later (k := 1) (hnext stop r _ (hv.later 1) hat) hfirst)
  · rw [← hv1] at hcalling
    exact .inr (.of_later (k := 1) (hcalling.faults hask hnext (hv.later 1)) hfirst)
  · have hstopped : m.isStopped = false := Lua.Machine.isStopped_eq_false hask hgoes
    rw [hturn] at hv1
    cases n with
    | zero =>
      obtain ⟨stop, hstop⟩ := h.machine
      have hnone : ((v 0).machine.run 0).result? = none := Option.eq_none_iff_forall_ne_some.2 fun r hr => by
        have hend := Lua.Machine.isStopped_of_result? hr
        rw [hstop] at hend
        exact absurd hend (Bool.eq_false_iff.1 hstopped)
      rw [hv1, stepFor_of_result? (.inl ⟨i, h.stage⟩) hnone]
      exact .inl ⟨⟨h.stage, h.call, h.machine⟩, rfl⟩
    | succ n => exact .inr (h.faults_of_stepFor haborted hstopped hnext hv hcalm s now hv1)

/-- Whatever the host does, the invocation of a machine that ends goes on until the worker faults. -/
theorem At.faults (hends : Ends m) (haborted : m.meter.aborted = some message)
    (halone : ∀ m', Along m m' → m'.running = []) (hv : Life IsCalm v) (h : At i m (v 0)) : Faults i v := by
  induction hends generalizing v with
  | halts hhalt =>
    exact At.faults_of_turn (fun v hv h _ _ _ _ hv1 => .inr (h.faults_of_halt haborted hhalt hv hv1)) hv h
  | resumes hrunning => exact absurd (halone _ .stays) hrunning
  | @finalizes m hfinalizing =>
    refine At.faults_of_turn (fun v _ h n _ _ hcalm _ => ?_) hv h
    obtain ⟨stop, hstop⟩ := h.machine
    have hquiet : (m.told stop).isFinalizing = false := hstop ▸ hcalm.program i h.stage 0 (Nat.zero_le n)
    cases hfinalizing.symm.trans hquiet
  | @goes m _ ih =>
    by_cases hhalt : ∃ r, m.control = .halt r
    · obtain ⟨r, hr⟩ := hhalt
      exact At.faults_of_turn (fun v hv h _ _ _ _ hv1 => .inr (h.faults_of_halt haborted hr hv hv1)) hv h
    · refine h.faults_of_advance haborted (fun r hr => hhalt ⟨r, hr⟩) (fun stop r v hv hat => ?_) hv
      have hfirst : Along m (m.advance stop r) := .advance stop r .stays
      exact ih stop r (Lua.Machine.advance_aborted haborted stop r) (fun m' hm' => halone m' (hfirst.trans hm')) hv hat

/-! ### Invocations -/

/-- An invocation that has ended without an error is not gone on with. -/
theorem succeed_stage_ne (w : Worker) (i : Invocation) (results : List Lua.Val) :
    (w.succeed i results).stage ≠ .running i := by
  cases i with
  | chunk => exact fun h => by cases h
  | search e =>
    unfold succeed
    dsimp only
    split <;> exact fun h => by cases h
  | handler e => exact fun h => by cases h

theorem Passes.along {w' : Worker} (h : Passes kind w w') (hstage : w.stage = .running i)
    (hstage' : w'.stage = .running i) (hask : w.call ≠ none → ∃ name args, w.machine.control = .ask name args) :
    Along w.machine w'.machine ∧ (w'.call ≠ none → ∃ name args, w'.machine.control = .ask name args) := by
  have hat {stop : Bool} {r : Except String Lua.Val} (h : At i (w.machine.advance stop r) w') :
      Along w.machine w'.machine ∧ (w'.call ≠ none → ∃ name args, w'.machine.control = .ask name args) := by
    obtain ⟨a, ha⟩ := h.machine
    exact ⟨ha ▸ (Along.advance stop r .stays).told a, fun hcall => absurd h.call hcall⟩
  have hself : ∃ stop, w.machine = w.machine.told stop := ⟨false, (Lua.Machine.told_false _).symm⟩
  cases h with
  | meanwhile stop _ hcall hmachine =>
    rw [hmachine, hcall]
    exact ⟨.told stop .stays, hask⟩
  | turn n s now =>
    by_cases hcall : w.call = none
    · have hnow : At i w.machine w := ⟨hstage, hcall, hself⟩
      obtain ⟨⟨name, args, hasked⟩, ⟨stop, r, hlater⟩ | hcalling⟩ | ⟨-, hturn⟩ := hnow.turn_cases n s now
      · exact hat hlater
      · obtain ⟨a, ha⟩ := hcalling.machine
        exact ⟨ha ▸ .told a .stays, fun _ => ⟨name, args, by rw [ha]; exact hasked⟩⟩
      · rw [hturn] at hstage' ⊢
        unfold stepFor at hstage' ⊢
        rw [hstage] at hstage' ⊢
        dsimp only at hstage' ⊢
        split at hstage'
        · exact ⟨Lua.Machine.along_run _ _, fun h => absurd hcall h⟩
        · exact absurd hstage' (succeed_stage_ne _ _ _)
        · obtain hgiven | hgiven := giveUp_stage _ _ <;> cases hstage'.symm.trans hgiven
    · obtain ⟨name, args, hasked⟩ := hask hcall
      obtain ⟨c, hc⟩ := Option.ne_none_iff_exists'.1 hcall
      obtain ⟨r, hr⟩ := turn_of_call hc n s now
      obtain ⟨stop, r', hlater⟩ := at_answer hasked hstage hself r
      rw [← hr] at hlater
      exact hat hlater

theorem Life.along (hv : Life kind v) (hcall : (v 0).call = none) {k : Nat}
    (hstage : ∀ n ≤ k, (v n).stage = .running i) :
    Along (v 0).machine (v k).machine ∧
      ((v k).call ≠ none → ∃ name args, (v k).machine.control = .ask name args) := by
  induction k with
  | zero => exact ⟨.stays, fun h => absurd hcall h⟩
  | succ k ih =>
    obtain ⟨halong, hask⟩ := ih fun n hn => hstage n (Nat.le_succ_of_le hn)
    obtain ⟨hnext, hasked⟩ := (hv.passes k).along (hstage k (Nat.le_succ k)) (hstage (k + 1) (Nat.le_refl _)) hask
    exact ⟨halong.trans hnext, hasked⟩

/-- An invocation with a budget on which an abort is recorded goes on until the worker faults, if all turns are calm
from then on. -/
theorem Life.faults (hv : Life kind v) (hcall : (v 0).call = none) (hwatched : (v 0).machine.meter.watched = true)
    (halone : ∀ m, Along (v 0).machine m → m.running = []) {k : Nat}
    (hstage : ∀ n ≤ k, (v n).stage = .running i) (haborted : (v k).machine.meter.aborted ≠ none)
    (hcalm : Life IsCalm fun n => v (k + n)) : Faults i v := by
  obtain ⟨halong, hask⟩ := hv.along hcall hstage
  obtain ⟨message, hmessage⟩ := Option.ne_none_iff_exists'.1 haborted
  have hfaults (m : Lua.Machine) (hm : Along (v k).machine m) (hstands : m.meter.aborted = some message)
      (v : Nat → Worker) (hv : Life IsCalm v) (hat : At i m (v 0)) : Faults i v := by
    have hends : Ends m := Lua.Machine.ends_of_aborted (by rw [hstands]; exact Option.some_ne_none _)
      ((halong.trans hm).watched.trans hwatched)
    exact hat.faults hends hstands (fun m' hm' => halone m' ((halong.trans hm).trans hm')) hv
  have hself : ∃ stop, (v k).machine = (v k).machine.told stop := ⟨false, (Lua.Machine.told_false _).symm⟩
  refine Faults.of_later (k := k) ?_ fun n hn => hstage n (Nat.le_of_lt hn)
  by_cases hnone : (v k).call = none
  · exact hfaults _ .stays hmessage _ hcalm ⟨hstage k (Nat.le_refl k), hnone, hself⟩
  · obtain ⟨name, args, hasked⟩ := hask hnone
    have hnext (stop : Bool) (r : Except String Lua.Val) :=
      hfaults _ (.advance stop r .stays) (Lua.Machine.advance_aborted hmessage stop r)
    exact Calling.faults hasked hnext hcalm ⟨hstage k (Nat.le_refl k), hnone, hself⟩

/-! ### Finalizers -/

theorem Turns.of_aborted {w' : Worker} (h : Turns w w') (hstage : w.stage = .running i)
    (haborted : w.machine.meter.aborted ≠ none) :
    w'.stage = .running i ∧ w'.machine.meter.aborted ≠ none ∨
      ∃ message, w'.stage = .closing (.faulted message) ∨ w'.stage = .leaving (.faulted message) := by
  cases h with
  | works _ hkeeps =>
    obtain ⟨a, ha⟩ := Option.ne_none_iff_exists'.1 haborted
    have hstands := hkeeps a ha
    exact .inl ⟨hstage, hstands ▸ Option.some_ne_none a⟩
  | fails => exact .inr ⟨_, giveUp_stage _ _⟩
  | ran _ _ hnone | found _ _ hnone | absent _ _ hnone | returned _ _ hnone => exact absurd hnone haborted
  | begins hother | unfit hother | takes hother | waits hother | leaves hother | winds hother | wound hother
  | reports hother | finishes hother | rests hother => cases hstage.symm.trans hother

theorem Turns.of_closing {w' : Worker} {outcome : ScriptStatus} (h : Turns w w')
    (hstage : w.stage = .closing outcome) : w'.stage = .closing outcome ∨ w'.stage = .leaving outcome := by
  cases h with
  | winds => exact .inl hstage
  | wound hother =>
    cases hstage.symm.trans hother
    exact giveUp_stage _ _
  | begins hother | unfit hother | works hother | fails hother | ran hother | found hother | absent hother
  | returned hother | takes hother | waits hother | leaves hother | reports hother | finishes hother
  | rests hother => cases hstage.symm.trans hother

theorem Passes.turns {w' : Worker} (h : Passes kind w w') (hfit : w.Fit) :
    Turns w w' ∨ w'.stage = w.stage ∧ w'.machine.meter.aborted = w.machine.meter.aborted := by
  cases h with
  | turn n s now => exact .inl (turn_turns hfit n s now)
  | meanwhile stop hstage _ hmachine => exact .inr ⟨hstage, by rw [hmachine]; rfl⟩

theorem Turns.hasLeft {w' : Worker} (h : Turns w w') (hleft : w.stage.HasLeft) : w'.stage.HasLeft := by
  cases h with
  | reports => exact .reported
  | finishes => exact .finished
  | rests => exact hleft
  | begins hstage | unfit hstage | works hstage | fails hstage | ran hstage | found hstage | absent hstage
  | returned hstage | takes hstage | waits hstage | leaves hstage | winds hstage | wound hstage =>
    rw [hstage] at hleft
    cases hleft

theorem Passes.fit {w' : Worker} (h : Passes kind w w') (hfit : w.Fit) : w'.Fit := by
  cases h with
  | turn n s now => exact (turn_turns hfit n s now).fit hfit
  | meanwhile stop hstage hcall =>
    intro hsome
    rw [hcall] at hsome
    exact (hfit hsome).of_stage hstage

theorem Life.fit (hv : Life kind v) (hfit : (v 0).Fit) (n : Nat) : (v n).Fit := by
  induction n with
  | zero => exact hfit
  | succ n ih => exact (hv.passes n).fit ih

/-- A worker that has left does not come back. -/
theorem Life.hasLeft (hv : Life kind v) (hfit : (v 0).Fit) {k : Nat} (hleft : (v k).stage.HasLeft) (n : Nat) :
    (v (k + n)).stage.HasLeft := by
  induction n with
  | zero => exact hleft
  | succ n ih =>
    obtain hturns | ⟨hstage, -⟩ := (hv.passes (k + n)).turns (hv.fit hfit (k + n))
    · exact hturns.hasLeft ih
    · exact hstage ▸ ih

theorem hasLeft_of_isFinished (h : w.isFinished = true) : w.stage.HasLeft := by
  unfold isFinished at h
  split at h
  · rename_i hstage
    rw [hstage]
    exact .finished
  · cases h

theorem isCalm_of_hasLeft (hleft : w.stage.HasLeft) (n : Nat) : w.IsCalm n := by
  refine ⟨fun i hstage => ?_, fun outcome hstage => ?_⟩ <;>
  · rw [hstage] at hleft
    cases hleft

/-- What has become of an invocation on which an abort was recorded, unless its worker has faulted: it still goes on,
or the machine has been given up for the finalizers. -/
theorem Life.stage_of_aborted (hv : Life kind v) {k : Nat} (hstage : ∀ n ≤ k, (v n).stage = .running i)
    (haborted : (v k).machine.meter.aborted ≠ none) (l : Nat) :
    Faults i v ∨ ((∀ n ≤ k + l, (v n).stage = .running i) ∧ (v (k + l)).machine.meter.aborted ≠ none) ∨
      ∃ message, (∀ n < k + l, (v n).stage = .running i ∨ (v n).stage = .closing (.faulted message)) ∧
        (v (k + l)).stage = .closing (.faulted message) := by
  induction l with
  | zero => exact .inr (.inl ⟨hstage, haborted⟩)
  | succ l ih =>
    have hbefore {P : WorkerStage → Prop} (h : ∀ n < k + l, P (v n).stage) (hlast : P (v (k + l)).stage) :
        ∀ n < k + l + 1, P (v n).stage := fun n hn => by
      obtain hlt | rfl := Nat.lt_or_eq_of_le (Nat.le_of_lt_succ hn)
      · exact h n hlt
      · exact hlast
    have hpasses := hv.passes (k + l)
    obtain hfaults | ⟨hruns, hstands⟩ | ⟨message, hsame, hclosing⟩ := ih
    · exact .inl hfaults
    · have hnow := hruns (k + l) (Nat.le_refl _)
      have hnext : (v (k + l + 1)).stage = .running i ∧ (v (k + l + 1)).machine.meter.aborted ≠ none ∨
          ∃ message, (v (k + l + 1)).stage = .closing (.faulted message) ∨
            (v (k + l + 1)).stage = .leaving (.faulted message) := by
        obtain hturns | ⟨hkept, hrecord⟩ := hpasses.turns fun _ => .inl ⟨i, hnow⟩
        · exact hturns.of_aborted hnow hstands
        · exact .inl ⟨hkept.trans hnow, hrecord ▸ hstands⟩
      have hall (message : String) (n : Nat) (hn : n < k + l + 1) :
          (v n).stage = .running i ∨ (v n).stage = .closing (.faulted message) :=
        .inl (hruns n (Nat.le_of_lt_succ hn))
      obtain ⟨hrunning, haborted⟩ | ⟨message, hclosing | hleaving⟩ := hnext
      · refine .inr (.inl ⟨fun n hn => ?_, haborted⟩)
        obtain hlt | rfl := Nat.lt_or_eq_of_le hn
        · exact hruns n (Nat.le_of_lt_succ hlt)
        · exact hrunning
      · exact .inr (.inr ⟨message, hall message, hclosing⟩)
      · exact .inl ⟨k + l + 1, message, hall message, hleaving⟩
    · have hall := hbefore (P := fun s => s = .running i ∨ s = .closing (.faulted message)) hsame (.inr hclosing)
      have hnext : (v (k + l + 1)).stage = .closing (.faulted message) ∨
          (v (k + l + 1)).stage = .leaving (.faulted message) := by
        obtain hturns | ⟨hkept, -⟩ := hpasses.turns fun _ => .inr ⟨_, hclosing⟩
        · exact hturns.of_closing hclosing
        · exact .inl (hkept.trans hclosing)
      obtain hclosing | hleaving := hnext
      · exact .inr (.inr ⟨message, hall, hclosing⟩)
      · exact .inl ⟨k + l + 1, message, hall, hleaving⟩

/-! ### Exchanges -/

/-- A worker and those who post to it, after the first moves of a sequence that goes on forever. -/
def Exchange.after (x : Exchange) (moves : Nat → Move) : Nat → Exchange
  | 0 => x
  | n + 1 => (x.after moves n).step (moves n)

/-- The worker always gets another turn. -/
def Fair (moves : Nat → Move) : Prop := ∀ n, ∃ k ≥ n, ∃ j s now, moves k = .work (j + 1) s now

/-- The turns of a worker that are among the moves. -/
theorem Exchange.passes (x : Exchange) (move : Move)
    (hkind : ∀ n s now, move = .work n s now → kind x.worker n) : Passes kind x.worker (x.step move).worker := by
  have hrests (m : Lua.Machine) : m = m.told false := (Lua.Machine.told_false m).symm
  cases move with
  | post e =>
    unfold Exchange.step
    dsimp only
    split <;> exact .meanwhile false rfl rfl (hrests _)
  | proceed i =>
    show Passes kind x.worker (x.proceed i).worker
    unfold Exchange.proceed
    split
    · exact .meanwhile false rfl rfl (hrests _)
    · exact .meanwhile false rfl rfl (hrests _)
    · split
      · rename_i hoffer
        obtain ⟨-, -, rfl⟩ := offer_eq_ok_iff.1 hoffer
        exact .meanwhile false rfl rfl (hrests _)
      · exact .meanwhile false rfl rfl (hrests _)
    · exact .meanwhile false rfl rfl (hrests _)
  | cancel =>
    refine .meanwhile true rfl rfl ?_
    unfold told
    rw [Bool.or_true]
    rfl
  | hangUp => exact .meanwhile false rfl rfl (hrests _)
  | work n s now => exact .turn n s now (hkind n s now rfl)

theorem Exchange.life (x : Exchange) {moves : Nat → Move} (hfair : Fair moves) (first : Nat)
    (hkind : ∀ l ≥ first, ∀ n s now, moves l = .work n s now → kind (x.after moves l).worker n) :
    Life kind fun n => (x.after moves (first + n)).worker where
  passes n := (x.after moves (first + n)).passes (moves (first + n)) (hkind _ (Nat.le_add_right _ _))
  fair n := by
    obtain ⟨l, hl, j, s, now, hwork⟩ := hfair (first + n)
    obtain ⟨k, rfl⟩ := Nat.exists_eq_add_of_le (Nat.le_trans (Nat.le_add_right first n) hl)
    refine ⟨k, by omega, j, s, now, hkind _ (Nat.le_add_right _ _) _ s now hwork, ?_⟩
    show ((x.after moves (first + k)).step (moves (first + k))).worker = _
    rw [hwork]
    rfl

/-- A worker in an exchange with turns of any kind. -/
theorem Exchange.life_of_fair (x : Exchange) {moves : Nat → Move} (hfair : Fair moves) :
    Life (fun _ _ => True) fun n => (x.after moves n).worker := by
  have hlife : Life (fun _ _ => True) fun n => (x.after moves (0 + n)).worker :=
    x.life hfair 0 fun _ _ _ _ _ _ => trivial
  simpa only [Nat.zero_add] using hlife

end ScriptHost.Worker
