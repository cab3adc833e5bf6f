import ScriptHost.Engine.Kind
import ScriptHost.Proofs.Arena.Lasting
import ScriptHost.Proofs.Lua.Progress
import ScriptHost.Proofs.Worker.Delivery

/-! A worker on its own. While its handle lasts, the worker is all that matters to what it does next, and
the terms on which the surface serves it: the functions, the capabilities and the region, but not the
arena, the time or the number of the handle. However its turns are cut, they are made of the same strides. -/

namespace ScriptHost

/-- What becomes known of a script. -/
inductive Incident
  | loaded (result : Except ScriptError CompiledUnit)
  | removed (present : Bool)
  | posted (result : Except ScriptError Unit)
  /-- The script's machine has been made to run something. -/
  | invoked (i : Invocation) (m : Lua.Machine)
  /-- A call of a host function has got its result. -/
  | answered (function : String) (args : List Value) (result : Except CallError Value)

/-! ### Machines -/

namespace Lua.Machine

variable {m : Machine}

theorem run_succ (m : Machine) (n : Nat) : m.run (n + 1) = (m.run 1).run n := by
  rw [Nat.add_comm, run_add]

theorem isStopped_of_result? {r : Except Thrown (List Val)} (h : m.result? = some r) :
    m.isStopped = true := by
  unfold result? at h
  unfold isStopped
  split at h <;> simp_all

theorem isStopped_of_question? {q : String × List Value} (h : Bridge.question? m = some q) :
    m.isStopped = true := by
  unfold Bridge.question? at h
  unfold isStopped
  split at h <;> simp_all

end Lua.Machine

namespace Worker

variable {w v u : Worker} {s : Surface} {n now : Nat}

/-! ### Incidents -/

def invocation (p : Invocation × Lua.Machine) : Incident := .invoked p.1 p.2

/-- The results that host functions give to a worker in its next turn. -/
def answers (w : Worker) (s : Surface) (now : Nat) : List Incident :=
  match w.call, w.question? with
  | some c, _ => [.answered c.function.name c.args (.ok (s.serve c.context c.function c.args).1)]
  | none, some (name, args) =>
    match (s.resolve w.handle name now).1 with
    | .error e => [.answered name args (.error e)]
    | .ok _ => []
  | none, none => []

/-- What becomes known of a worker in a turn. -/
def incidents (n : Nat) (w : Worker) (s : Surface) (now : Nat) : List Incident :=
  (began w (w.turn n s now)).map invocation ++ w.answers s now

/-! ### Strides -/

/-- The least that a worker with a lasting handle does in a turn, and what becomes known of it. -/
def stride (s : Surface) (w : Worker) : Worker × List Incident :=
  match w.call, w.question? with
  | some c, _ =>
    let r := .ok (s.serve c.context c.function c.args).1
    (w.answer r, [.answered c.function.name c.args r])
  | none, some (name, args) =>
    match s.functions.get? name with
    | some f => ({ w with call := some ⟨w.context, f, args⟩ }, [])
    | none =>
      let r := .error (.unknownFunction name)
      (w.answer r, [.answered name args r])
  | none, none => (w.stepFor 1, (began w (w.stepFor 1)).map invocation)

/-- Some strides in a row. -/
inductive Strides (s : Surface) : Worker → List Incident → Worker → Prop
  | stays {w : Worker} : Strides s w [] w
  | goes {w v : Worker} {is : List Incident} :
      Strides s (w.stride s).1 is v → Strides s w ((w.stride s).2 ++ is) v

theorem strides_one (s : Surface) (w : Worker) : Strides s w (w.stride s).2 (w.stride s).1 := by
  have hone := Strides.goes (w := w) (s := s) .stays
  rwa [List.append_nil] at hone

theorem began_of_stage (h : v.stage = w.stage) : began w u = began v u := by
  unfold began
  rw [h]

/-! ### Runs of the machine -/

section

variable (hworks : w.IsAtWork)

include hworks

theorem stepFor_congr {k : Nat} (h : w.machine.run n = w.machine.run k) : w.stepFor n = w.stepFor k := by
  obtain ⟨i, hstage⟩ | ⟨outcome, hstage⟩ := hworks <;> simp only [stepFor, hstage, h]

theorem stepFor_of_result? (h : (w.machine.run n).result? = none) :
    w.stepFor n = { w with machine := w.machine.run n } := by
  obtain ⟨i, hstage⟩ | ⟨outcome, hstage⟩ := hworks <;> simp only [stepFor, hstage, h]

theorem stepFor_succ (h : (w.machine.run 1).result? = none) :
    w.stepFor (n + 1) = (w.stepFor 1).stepFor n := by
  rw [stepFor_of_result? hworks h]
  obtain ⟨i, hstage⟩ | ⟨outcome, hstage⟩ := hworks <;>
  · simp only [stepFor, hstage]
    rw [Lua.Machine.run_succ]

theorem question?_of_isAtWork : w.question? = Bridge.question? w.machine := by
  obtain ⟨i, hstage⟩ | ⟨outcome, hstage⟩ := hworks <;> simp only [question?, hstage]

end

theorem stride_of_stepFor (hcall : w.call = none) (hquestion : w.question? = none) :
    w.stride s = (w.stepFor 1, (began w (w.stepFor 1)).map invocation) := by
  unfold stride
  rw [hcall, hquestion]

/-- A machine that is let run for longer makes more strides, up to its end or its next call. -/
theorem stepFor_strides (hworks : w.IsAtWork) (hcall : w.call = none) (hquestion : w.question? = none) (n : Nat) :
    Strides s w ((began w (w.stepFor n)).map invocation) (w.stepFor n) := by
  induction n generalizing w with
  | zero =>
    cases hresult : w.machine.result? with
    | none =>
      have hstays : w.stepFor 0 = w := stepFor_of_result? (n := 0) hworks hresult
      rw [hstays, (nothing_of_stage rfl).1]
      exact .stays
    | some r =>
      have hstopped := Lua.Machine.isStopped_of_result? hresult
      have hone := strides_one s w
      rw [stride_of_stepFor hcall hquestion] at hone
      have hrun : w.machine.run 0 = w.machine.run 1 := (Lua.Machine.run_of_isStopped hstopped 1).symm
      rw [stepFor_congr hworks hrun]
      exact hone
  | succ n ih =>
    have hone := strides_one s w
    rw [stride_of_stepFor hcall hquestion] at hone
    -- A machine that stops after one step stays there, whether it is at its end or at a call.
    have hstops (hstopped : (w.machine.run 1).isStopped = true) :
        Strides s w ((began w (w.stepFor (n + 1))).map invocation) (w.stepFor (n + 1)) := by
      have hrun : w.machine.run (n + 1) = w.machine.run 1 := by
        rw [Lua.Machine.run_succ, Lua.Machine.run_of_isStopped hstopped]
      rw [stepFor_congr hworks hrun]
      exact hone
    cases hresult : (w.machine.run 1).result? with
    | some r => exact hstops (Lua.Machine.isStopped_of_result? hresult)
    | none =>
      have hfirst := stepFor_of_result? hworks hresult
      cases hasks : Bridge.question? (w.machine.run 1) with
      | some q => exact hstops (Lua.Machine.isStopped_of_question? hasks)
      | none =>
        have hsame : (w.stepFor 1).stage = w.stage := by rw [hfirst]
        have hworks' : (w.stepFor 1).IsAtWork := hworks.of_stage hsame
        have hquestion' : (w.stepFor 1).question? = none := by
          rw [question?_of_isAtWork hworks', hfirst]
          exact hasks
        have hlater := ih hworks' (by rw [hfirst]; exact hcall) hquestion'
        rw [stepFor_succ hworks hresult, began_of_stage hsame]
        have hmore := Strides.goes (w := w) (s := s) (by rw [stride_of_stepFor hcall hquestion]; exact hlater)
        rw [stride_of_stepFor hcall hquestion, (nothing_of_stage hsame).1] at hmore
        exact hmore

end Worker

/-! ### Turns -/

theorem Surface.resolve_eq {s : Surface} {h : Handle} {context : ScriptContext}
    (hl : s.arena.Lasts h context) (name : String) (now : Nat) :
    (s.resolve h name now).1 =
      match s.functions.get? name with
      | some f => .ok (context, f)
      | none => .error (.unknownFunction name) := by
  have haccess := hl.access_eq now
  unfold resolve
  split
  · rename_i hresult
    rw [hresult] at haccess
    cases haccess
  · rename_i hresult
    rw [hresult] at haccess
    cases haccess
    cases s.functions.get? name <;> rfl

namespace Worker

variable {w v : Worker} {s : Surface} {n now : Nat}

/-- A turn that is about a call of a host function is one stride. -/
theorem strides_of_stride (hturn : w.turn n s now = (w.stride s).1)
    (hstage : (w.stride s).1.stage = w.stage) (hanswers : w.answers s now = (w.stride s).2) :
    Strides s w (w.incidents n s now) (w.turn n s now) := by
  unfold incidents
  rw [hturn, hanswers, (nothing_of_stage hstage).1]
  exact strides_one s w

/-- While its handle lasts, a worker makes strides and nothing else. -/
theorem turn_strides (hl : s.arena.Lasts w.handle w.context) (n now : Nat) :
    Strides s w (w.incidents n s now) (w.turn n s now) := by
  cases hcall : w.call with
  | some c =>
    apply strides_of_stride <;> simp [turn, stepOn, stride, answers, answer, hcall]
  | none =>
    cases hquestion : w.question? with
    | some q =>
      obtain ⟨name, args⟩ := q
      have hresolve := Surface.resolve_eq hl name now
      obtain ⟨later, hlater⟩ : ∃ later, s.resolve w.handle name now = (_, later) :=
        ⟨_, Prod.ext hresolve rfl⟩
      cases hf : s.functions.get? name with
      | some f | none =>
        rw [hf] at hlater
        apply strides_of_stride <;>
          simp [turn, stepOn, stride, answers, answer, hcall, hquestion, hf, hlater]
    | none =>
      have hturn : w.turn n s now = w.stepFor n := turn_of_question?_none hcall hquestion n s now
      have hanswers : w.answers s now = [] := by simp [answers, hcall, hquestion]
      unfold incidents
      rw [hturn, hanswers, List.append_nil]
      cases hstage : w.stage with
      | running i => exact stepFor_strides (.inl ⟨i, hstage⟩) hcall hquestion n
      | closing outcome => exact stepFor_strides (.inr ⟨outcome, hstage⟩) hcall hquestion n
      | _ =>
        have hsame : w.stepFor n = w.stepFor 1 := by simp only [stepFor, hstage]
        have hone := strides_one s w
        rw [stride_of_stepFor hcall hquestion] at hone
        rw [hsame]
        exact hone

/-! ### Strides without a handle -/

/-- A worker without the number of its handle. -/
def anonymous (w : Worker) : Worker := { w with handle := default }

theorem begin_anonymous (w : Worker) : w.anonymous.begin = w.begin.anonymous := by
  unfold begin anonymous
  dsimp only
  split
  · rfl
  · split <;> rfl

theorem succeed_anonymous (w : Worker) (i : Invocation) (results : List Lua.Val) :
    w.anonymous.succeed i results = (w.succeed i results).anonymous := by
  cases i with
  | chunk | handler => rfl
  | search e =>
    unfold succeed
    dsimp only
    split <;> rfl

theorem giveUp_anonymous (w : Worker) (outcome : ScriptStatus) :
    w.anonymous.giveUp outcome = (w.giveUp outcome).anonymous := by
  unfold giveUp anonymous
  dsimp only
  split <;> rfl

theorem receive_anonymous (w : Worker) : w.anonymous.receive = w.receive.anonymous := by
  have hqueue : w.anonymous.queue = w.queue := rfl
  unfold receive
  rw [hqueue]
  split
  · show (if w.sending then w.anonymous else w.anonymous.giveUp .stopped) = _
    split
    · rfl
    · exact w.giveUp_anonymous .stopped
  · rename_i e rest _
    have hgiven := giveUp_anonymous { w with queue := rest } .stopped
    show (if w.cancelled then (anonymous { w with queue := rest }).giveUp .stopped else _) = _
    split
    · simpa [*] using hgiven
    · simp [*, deliver, anonymous]

theorem stepFor_anonymous (w : Worker) (n : Nat) : w.anonymous.stepFor n = (w.stepFor n).anonymous := by
  have hstage : w.anonymous.stage = w.stage := rfl
  unfold stepFor
  rw [hstage]
  cases h : w.stage with
  | running i =>
    have hmachine : w.anonymous.machine = w.machine := rfl
    dsimp only
    rw [hmachine]
    cases hresult : (w.machine.run n).result? with
    | none => rfl
    | some r =>
      cases r with
      | ok results =>
        exact succeed_anonymous { w with machine := w.machine.run n, stage := .running i } i results
      | error e => exact giveUp_anonymous { w with machine := w.machine.run n, stage := .running i } _
  | closing outcome =>
    have hmachine : w.anonymous.machine = w.machine := rfl
    dsimp only
    rw [hmachine]
    cases hresult : (w.machine.run n).result? with
    | none => rfl
    | some r => exact giveUp_anonymous { w with machine := w.machine.run n, stage := .closing outcome } outcome
  | fresh => simpa [h, hstage] using w.begin_anonymous
  | idle => simpa [h, hstage] using w.receive_anonymous
  | leaving | reported | finished => simp [h, anonymous]

theorem stride_anonymous (w : Worker) (s : Surface) :
    w.anonymous.stride s = ((w.stride s).1.anonymous, (w.stride s).2) := by
  have hcall : w.anonymous.call = w.call := rfl
  have hquestion : w.anonymous.question? = w.question? := rfl
  unfold stride
  rw [hcall, hquestion]
  cases w.call with
  | some c => rfl
  | none =>
    cases w.question? with
    | some q =>
      dsimp only
      cases s.functions.get? q.1 <;> rfl
    | none =>
      dsimp only
      rw [stepFor_anonymous]
      rfl

theorem offer_anonymous (w : Worker) (e : ScriptEvent) :
    w.anonymous.offer e = (w.offer e).map anonymous := by
  unfold offer anonymous
  dsimp only
  split
  · rfl
  · split <;> rfl

theorem post_anonymous (w : Worker) (e : ScriptEvent) :
    w.anonymous.post e = ((w.post e).1, (w.post e).2.anonymous) := by
  have hrefusal : w.anonymous.refusal? = w.refusal? := rfl
  have hcount : w.anonymous.countUp = w.countUp.anonymous := rfl
  unfold post
  rw [hrefusal, hcount, offer_anonymous]
  cases w.refusal? with
  | some r => rfl
  | none => cases w.countUp.offer e <;> rfl

/-! ### Rest -/

theorem Fit.call_eq_none (hfit : w.Fit) (hrests : ¬ w.IsAtWork) : w.call = none :=
  Option.not_isSome_iff_eq_none.1 (mt hfit hrests)

theorem question?_eq_none (hrests : ¬ w.IsAtWork) : w.question? = none := by
  cases hquestion : w.question? with
  | none => rfl
  | some q => exact absurd (isAtWork_of_question? hquestion) hrests

theorem stride_fit (hfit : w.Fit) (s : Surface) : (w.stride s).1.Fit := by
  unfold stride
  split
  · exact nofun
  · rename_i hquestion
    split
    · exact fun _ => isAtWork_of_question? hquestion
    · exact nofun
  · rename_i hcall _
    exact (stepFor_turns hcall 1).fit hfit

/-- A worker at rest does not move. -/
theorem stride_of_isAtRest (hfit : w.Fit) (hrest : w.isAtRest = true) (s : Surface) :
    w.stride s = (w, []) := by
  have hrests : ¬ w.IsAtWork := by
    rintro (⟨i, hstage⟩ | ⟨outcome, hstage⟩) <;> simp [isAtRest, hstage] at hrest
  have hstays : w.stepFor 1 = w := by
    unfold isAtRest at hrest
    unfold stepFor receive
    cases hw : w.stage with
    | idle =>
      rw [hw] at hrest
      obtain ⟨hqueue, hsending⟩ := Bool.and_eq_true_iff.1 hrest
      simp [List.isEmpty_iff.1 hqueue, hsending]
    | finished => rfl
    | _ => simp [hw] at hrest
  rw [stride_of_stepFor (hfit.call_eq_none hrests) (question?_eq_none hrests), hstays,
    (nothing_of_stage rfl).1]
  rfl

/-- Nothing is left for a worker to do but to come to its end. -/
def isSpent (w : Worker) : Bool :=
  match w.stage with
  | .fresh | .running _ => false
  | .idle => w.queue.isEmpty
  | .closing _ | .leaving _ | .reported | .finished => true

/-- Whether nothing but finalizers runs any more. -/
def isClosing (w : Worker) : Bool :=
  match w.stage with
  | .closing _ => true
  | _ => false

theorem isSpent_of_isAtRest (hrest : w.isAtRest = true) : w.isSpent = true := by
  unfold isAtRest at hrest
  unfold isSpent
  split at hrest
  · rename_i hstage
    rw [hstage]
  · rename_i hstage
    rw [hstage]
    exact (Bool.and_eq_true_iff.1 hrest).1
  · cases hrest

theorem isSpent_of_isOver (h : w.stage.IsOver) : w.isSpent = true := by
  unfold isSpent
  generalize w.stage = stage at h
  cases h <;> rfl

theorem Turns.of_isSpent (h : Turns w v) (hspent : w.isSpent = true) :
    v.isSpent = true ∧ began w v = [] := by
  have hgiven (u : Worker) (outcome : ScriptStatus) :
      (u.giveUp outcome).isSpent = true ∧ began w (u.giveUp outcome) = [] :=
    ⟨isSpent_of_isOver (giveUp_isOver u outcome), (nothing_of_over (giveUp_isOver u outcome)).1⟩
  cases h with
  | waits | rests => exact ⟨hspent, (nothing_of_stage rfl).1⟩
  | leaves | wound => exact hgiven _ _
  | winds hstage => exact ⟨isSpent_of_isOver (by rw [hstage]; exact .closing _), (nothing_of_stage rfl).1⟩
  | reports => exact ⟨rfl, rfl⟩
  | finishes => exact ⟨rfl, rfl⟩
  | takes hstage _ hqueue => simp [isSpent, hstage, hqueue] at hspent
  | begins hstage | unfit hstage | works hstage | fails hstage | ran hstage | found hstage
  | absent hstage | returned hstage => simp [isSpent, hstage] at hspent

/-- Nothing becomes known any more of a worker that is spent, its finalizers apart. -/
theorem turn_of_isSpent (hfit : w.Fit) (hspent : w.isSpent = true) (n : Nat) (s : Surface) (now : Nat) :
    (w.turn n s now).isSpent = true ∧ (w.isClosing = false → w.incidents n s now = []) := by
  obtain ⟨hlater, hbegan⟩ := (turn_turns hfit n s now).of_isSpent hspent
  refine ⟨hlater, fun hclosing => ?_⟩
  have hrests : ¬ w.IsAtWork := by
    rintro (⟨i, hstage⟩ | ⟨outcome, hstage⟩)
    · simp [isSpent, hstage] at hspent
    · simp [isClosing, hstage] at hclosing
  unfold incidents answers
  rw [hbegan, hfit.call_eq_none hrests, question?_eq_none hrests]
  rfl

end Worker

end ScriptHost
