import ScriptHost.Engine.Worker
import ScriptHost.Proofs.Lua.Budget

/-! What a worker can do in one turn. A turn may be as short as one step of the machine, so that the host
can come between any two of them. `Turns` names everything that a turn can change, and what it leaves
alone. -/

namespace ScriptHost.Worker

variable {w w' : Worker} {i : Invocation}

/-- A worker that waits for nothing takes a step of its own. -/
theorem turn_of_question?_none (hcall : w.call = none) (hquestion : w.question? = none) (n : Nat)
    (s : Surface) (now : Nat) : w.turn n s now = w.stepFor n := by
  simp only [turn, stepOn, hcall, hquestion]

/-! ### Invocations -/

/-- What a machine calls that the host has called into. -/
def IsFunction : Lua.Val → Prop
  | .function _ | .builtin _ => True
  | _ => False

/-- The machines with which invocations begin: the chunk is that of the script's code, the search is for
the function with the name of the event, and what it found is called with the arguments of the event. -/
inductive Starts (unit : CompiledUnit) (context : ScriptContext) : Invocation → Lua.Machine → Prop
  | chunk {body : Lua.FunctionBody} {m m' : Lua.Machine} {f : Lua.Val} :
      Lua.Chunk.load context.name unit.artifact.code = .ok body →
      m.load (Lua.chunkId context.name) body = (f, m') → Starts unit context .chunk (m'.start f [])
  | search {m : Lua.Machine} (e : ScriptEvent) :
      Starts unit context (.search e) (m.startReading e.name)
  | handler {m : Lua.Machine} {results : List Lua.Val} (e : ScriptEvent) :
      m.result? = some (.ok results) → IsFunction (results.headD .nil) →
      Starts unit context (.handler e) (m.start (results.headD .nil) (e.args.map Value.toLua))

/-- The machine is being run, for the script or for its last finalizers. -/
def IsAtWork (w : Worker) : Prop := (∃ i, w.stage = .running i) ∨ ∃ outcome, w.stage = .closing outcome

theorem IsAtWork.of_stage (h : w.IsAtWork) (hstage : w'.stage = w.stage) : w'.IsAtWork := by
  unfold IsAtWork
  rwa [hstage]

/-- A call of a host function is served only while the machine is being run. -/
def Fit (w : Worker) : Prop := w.call.isSome → w.IsAtWork

/-- What one turn can make of a worker. -/
inductive Turns (w : Worker) : Worker → Prop
  | begins {m : Lua.Machine} : w.stage = .fresh → w.call = none → Starts w.unit w.context .chunk m →
      Turns w { w with machine := m, stage := .running .chunk }
  | unfit {message : String} : w.stage = .fresh → w.call = none → Turns w (w.fault message)
  /-- The script goes on, or a call of a host function. -/
  | works {i : Invocation} {m : Lua.Machine} {call : Option ResolvedCall} : w.stage = .running i →
      (∀ a, w.machine.meter.aborted = some a → m.meter.aborted = some a) →
      Turns w { w with machine := m, call }
  | fails {i : Invocation} {m : Lua.Machine} {message : String} : w.stage = .running i →
      w.call = none → Turns w (giveUp { w with machine := m } (.faulted message))
  /-- The chunk is through. -/
  | ran {m : Lua.Machine} : w.stage = .running .chunk → w.call = none →
      w.machine.meter.aborted = none → Turns w (deliver { w with machine := m } startup)
  | found {e : ScriptEvent} {m : Lua.Machine} {results : List Lua.Val} :
      w.stage = .running (.search e) → w.call = none → w.machine.meter.aborted = none →
      m.result? = some (.ok results) → IsFunction (results.headD .nil) →
      Turns w { w with
        machine := m.start (results.headD .nil) (e.args.map Value.toLua)
        stage := .running (.handler e) }
  /-- The event has no function as its handler. -/
  | absent {e : ScriptEvent} {m : Lua.Machine} {results : List Lua.Val} :
      w.stage = .running (.search e) → w.call = none → w.machine.meter.aborted = none →
      m.result? = some (.ok results) → ¬ IsFunction (results.headD .nil) →
      Turns w (handled { w with machine := m })
  | returned {e : ScriptEvent} {m : Lua.Machine} : w.stage = .running (.handler e) →
      w.call = none → w.machine.meter.aborted = none → Turns w (handled { w with machine := m })
  | takes {e : ScriptEvent} {rest : List ScriptEvent} : w.stage = .idle → w.call = none →
      w.queue = e :: rest → w.cancelled = false → Turns w (deliver { w with queue := rest } e)
  | waits : w.stage = .idle → w.queue = [] → w.sending = true → Turns w w
  | leaves : w.stage = .idle → w.call = none → w.cancelled = true ∨ w.queue = [] ∧ w.sending = false →
      Turns w (giveUp { w with queue := w.queue.tail } .stopped)
  /-- A finalizer goes on, or a call of a host function. -/
  | winds {outcome : ScriptStatus} {m : Lua.Machine} {call : Option ResolvedCall} : w.stage = .closing outcome →
      Turns w { w with machine := m, call }
  | wound {outcome : ScriptStatus} {m : Lua.Machine} : w.stage = .closing outcome → w.call = none →
      Turns w (giveUp { w with machine := m } outcome)
  | reports {outcome : ScriptStatus} : w.stage = .leaving outcome → w.call = none →
      Turns w { w with status := outcome, stage := .reported }
  | finishes : w.stage = .reported → w.call = none →
      Turns w { w with pending := 0, stage := .finished }
  | rests : w.stage = .finished → Turns w w

theorem begin_turns (hstage : w.stage = .fresh) (hcall : w.call = none) : Turns w w.begin := by
  unfold begin
  split
  · exact .unfit hstage hcall
  · split
    · exact .unfit hstage hcall
    · rename_i body hbody
      exact .begins hstage hcall (.chunk hbody rfl)

theorem succeed_turns {m : Lua.Machine} {results : List Lua.Val} (hstage : w.stage = .running i)
    (hcall : w.call = none) (habort : w.machine.meter.aborted = none)
    (hresult : m.result? = some (.ok results)) :
    Turns w (succeed { w with machine := m } i results) := by
  cases i with
  | chunk => exact .ran hstage hcall habort
  | search e =>
    have hfound := @Turns.found w e m results hstage hcall habort hresult
    have habsent := @Turns.absent w e m results hstage hcall habort hresult
    simp only [succeed]
    generalize results.headD .nil = f at hfound habsent
    split
    · exact hfound trivial
    · exact hfound trivial
    · rename_i hfunction hbuiltin
      refine habsent fun hf => ?_
      cases f with
      | function a => exact hfunction a rfl
      | builtin b => exact hbuiltin b rfl
      | _ => exact hf
  | handler e => exact .returned hstage hcall habort

theorem receive_turns (hstage : w.stage = .idle) (hcall : w.call = none) : Turns w w.receive := by
  have hleaves := @Turns.leaves w hstage hcall
  unfold receive
  split
  · rename_i hqueue
    split
    · exact .waits hstage hqueue ‹_›
    · rename_i hsending
      have hsame : ({ w with queue := w.queue.tail } : Worker) = w := by rw [hqueue, List.tail_nil, ← hqueue]
      rw [hsame] at hleaves
      exact hleaves (.inr ⟨hqueue, Bool.eq_false_iff.2 hsending⟩)
  · rename_i e rest hqueue
    dsimp only
    split
    · rw [hqueue] at hleaves
      exact hleaves (.inl ‹_›)
    · rename_i hcancelled
      exact .takes hstage hcall hqueue (Bool.eq_false_iff.2 hcancelled)

theorem stepFor_turns (hcall : w.call = none) (n : Nat) : Turns w (w.stepFor n) := by
  unfold stepFor
  split
  · exact begin_turns ‹_› hcall
  · rename_i i hstage
    have haborts := fun a h => @Lua.Machine.run_aborted w.machine a h n
    dsimp only
    split
    · exact .works hstage haborts
    · rename_i results hresult
      -- An invocation that ends without an error has no abort on record, so it had none before.
      have hnone : w.machine.meter.aborted = none := Option.eq_none_iff_forall_ne_some.2
        fun a ha => Lua.Machine.result?_of_aborted (haborts a ha) results hresult
      exact succeed_turns hstage hcall hnone hresult
    · exact .fails hstage hcall
  · exact receive_turns ‹_› hcall
  · rename_i hstage
    dsimp only
    split
    · exact .winds hstage
    · exact .wound hstage hcall
  · exact .reports ‹_› hcall
  · exact .finishes ‹_› hcall
  · exact .rests ‹_›

theorem answer_aborted (w : Worker) (r : Except CallError Value) :
    (w.answer r).machine.meter.aborted = w.machine.meter.aborted := by
  cases r <;> exact Lua.Machine.answer_aborted _

theorem isAtWork_of_question? {name : String} {args : List Value} (h : w.question? = some (name, args)) :
    w.IsAtWork := by
  unfold question? at h
  split at h
  · exact .inl ⟨_, ‹_›⟩
  · exact .inr ⟨_, ‹_›⟩
  · cases h

/-- Every turn is one of those named. -/
theorem turn_turns (hw : w.Fit) (n : Nat) (s : Surface) (now : Nat) : Turns w (w.turn n s now) := by
  unfold turn stepOn
  split
  · rename_i c hcall
    obtain ⟨i, hstage⟩ | ⟨outcome, hstage⟩ := hw (by rw [hcall]; rfl)
    · exact .works hstage fun a ha => (w.answer_aborted _).trans ha
    · exact .winds hstage
  · rename_i hcall
    split
    · exact stepFor_turns hcall n
    · rename_i name args hquestion
      obtain ⟨i, hstage⟩ | ⟨outcome, hstage⟩ := isAtWork_of_question? hquestion
      · split
        · exact .works hstage fun a ha => (w.answer_aborted _).trans ha
        · exact .works hstage fun a ha => ha
      · split
        · exact .winds hstage
        · exact .winds hstage

/-- Giving a machine up leads to its finalizers, or to the end. -/
theorem giveUp_cases (w : Worker) (outcome : ScriptStatus) :
    (∃ m, w.giveUp outcome = { w with machine := m, stage := .closing outcome }) ∨
      w.giveUp outcome = w.leave outcome := by
  unfold giveUp
  split
  · exact .inl ⟨_, rfl⟩
  · exact .inr rfl

/-- A worker stays with its script and the handle of that. -/
theorem Turns.same_script (h : Turns w w') :
    w'.unit = w.unit ∧ w'.context = w.context ∧ w'.handle = w.handle := by
  have hgiven (v : Worker) (outcome : ScriptStatus) : (v.giveUp outcome).unit = v.unit ∧
      (v.giveUp outcome).context = v.context ∧ (v.giveUp outcome).handle = v.handle := by
    unfold giveUp
    split <;> exact ⟨rfl, rfl, rfl⟩
  cases h with
  | fails | leaves | wound => exact hgiven _ _
  | _ => exact ⟨rfl, rfl, rfl⟩

theorem turn_same_script (w : Worker) (n : Nat) (s : Surface) (now : Nat) :
    (w.turn n s now).unit = w.unit ∧ (w.turn n s now).context = w.context ∧
      (w.turn n s now).handle = w.handle := by
  unfold turn stepOn
  split
  · exact ⟨rfl, rfl, rfl⟩
  · split
    · exact (stepFor_turns ‹_› n).same_script
    · split <;> exact ⟨rfl, rfl, rfl⟩

theorem Turns.fit (h : Turns w w') (hw : w.Fit) : w'.Fit := by
  have hnone (hcall : w.call = none) (w' : Worker) (heq : w'.call = w.call) : w'.Fit := by
    intro hsome
    rw [heq, hcall] at hsome
    cases hsome
  have hgiven (v : Worker) (outcome : ScriptStatus) : (v.giveUp outcome).call = v.call := by
    unfold giveUp
    split <;> rfl
  cases h with
  | works hstage _ => exact fun _ => .inl ⟨_, hstage⟩
  | winds hstage => exact fun _ => .inr ⟨_, hstage⟩
  | waits | rests => exact hw
  | fails _ hcall | leaves _ hcall | wound _ hcall => exact hnone hcall _ (hgiven _ _)
  | begins _ hcall | unfit _ hcall | ran _ hcall | found _ hcall | absent _ hcall
  | returned _ hcall | takes _ hcall | reports _ hcall | finishes _ hcall =>
    exact hnone hcall _ rfl

end ScriptHost.Worker
