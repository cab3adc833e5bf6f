import ScriptHost.Proofs.Lua.Catching
import ScriptHost.Proofs.Lua.Fields
import ScriptHost.Proofs.Worker.Faults

/-! Aborts of invocations. Once an abort is recorded, no protected call hands anything on; until then errors are
caught. The invocation ends with an error, and its worker faults, just if the finalizers come to an end: no budget
bounds those. The next invocation knows nothing of it. -/

namespace ScriptHost

namespace Lua.Machine

variable {m m' : Machine}

/-! ### The next invocation -/

/-- Machines in which the program has the same state, at the same time in the same surroundings, with the same
budget and the same word from the host. -/
structure SameProgram (m m' : Machine) : Prop where
  heap : m'.heap = m.heap
  threads : m'.threads = m.threads
  interval : m'.meter.interval = m.meter.interval
  slice : m'.meter.slice = m.meter.slice
  around : m'.meter.around = m.meter.around
  spent : m'.meter.spent = m.meter.spent
  cancelled : m'.meter.cancelled = m.meter.cancelled

theorem SameProgram.restart (h : SameProgram m m') (watched : Bool) :
    m'.meter.restart watched = m.meter.restart watched := by
  simp only [Meter.restart, Meter.now, Meter.moment, h.interval, h.slice, h.around, h.spent, h.cancelled]

/-- Nothing else of an earlier invocation matters to the next one. -/
theorem SameProgram.start (h : SameProgram m m') (f : Val) (args : List Val) :
    m'.start f args = m.start f args := by
  simp only [Machine.start, h.heap, h.threads, h.restart]

theorem SameProgram.startReading (h : SameProgram m m') (name : String) :
    m'.startReading name = m.startReading name := by
  simp only [Machine.startReading, h.heap, h.threads, h.restart]

/-! ### Invocations -/

/-- How the course of an invocation deals with aborts and errors. -/
structure Upholds (w : Nat → Machine) : Prop where
  /-- Once an abort is recorded, no protected call gives values to its caller any more. -/
  withholds : ∀ k, (w k).meter.aborted ≠ none → ∀ n ≥ k, ¬ ProtectedGives (w n) (w (n + 1))
  /-- Then the invocation ends, and it does so with an error, just if no finalizer keeps it from that for good. -/
  fails : ∀ k, (w k).meter.aborted ≠ none →
    ((∃ e n, ∀ l, (w (n + l)).result? = some (.error e)) ↔ ∃ n, ∀ l ≥ n, (w l).isFinalizing = false)
  /-- As long as none is recorded, errors are caught. -/
  catches : ∀ k, (w k).meter.aborted = none → Catches fun n => w (k + n)
  /-- Wherever it has come, the next invocation begins without an abort. -/
  forgets : ∀ k f args, ((w k).start f args).meter.aborted = none
  /-- Of all that has happened only the state of the program matters to that. -/
  leaves : ∀ k m', SameProgram (w k) m' →
    (∀ f args, m'.start f args = (w k).start f args) ∧ ∀ name, m'.startReading name = (w k).startReading name

theorem halt_of_result? {r : Except Thrown (List Val)} (h : m.result? = some r) : ∃ r, m.control = .halt r := by
  unfold result? at h
  split at h
  · exact ⟨_, ‹_›⟩
  · exact ⟨_, ‹_›⟩
  · cases h

theorem upholds (host : Nat → Bool × Except String Val) (hwatched : m.meter.watched = true) (hkept : m.IsKept)
    (halone : ∀ n, (m.course host n).running = []) : Upholds (m.course host) := by
  have hlater (k n : Nat) : (m.course host (k + n)) = (m.course host k).course (fun i => host (k + i)) n :=
    course_add m host k n
  refine ⟨fun k haborted n hn => ?_, fun k haborted => ?_, fun k haborted => ?_, fun _ _ _ => rfl,
    fun k m' h => ⟨h.start, h.startReading⟩⟩
  · obtain ⟨message, hmessage⟩ := Option.ne_none_iff_exists'.1 haborted
    obtain ⟨l, rfl⟩ := Nat.exists_eq_add_of_le hn
    have hstands : (m.course host (k + l)).meter.aborted = some message := by
      rw [hlater]
      exact course_aborted hmessage _ l
    exact not_protectedGives hstands (halone _) _ _
  · obtain ⟨message, hmessage⟩ := Option.ne_none_iff_exists'.1 haborted
    constructor
    · rintro ⟨e, n, hfails⟩
      refine ⟨n, fun l hl => ?_⟩
      obtain ⟨j, rfl⟩ := Nat.exists_eq_add_of_le hl
      obtain ⟨r, hr⟩ := halt_of_result? (hfails j)
      exact (hkept.course host _).isFinalizing_of_halt hr
    · rintro ⟨n, hcalm⟩
      have hstands : (m.course host (k + n)).meter.aborted = some message := by
        rw [hlater]
        exact course_aborted hmessage _ n
      have hends : Ends (m.course host (k + n)) :=
        ends_of_aborted (hstands ▸ Option.some_ne_none _) ((along_course m host _).watched.trans hwatched)
      obtain ⟨e, j, hfails⟩ := hends.fails hstands (fun i => host (k + n + i))
        (fun j => hlater (k + n) j ▸ halone _) fun j => hlater (k + n) j ▸ hcalm _ (by omega)
      exact ⟨e, k + n + j, fun l => by rw [Nat.add_assoc, hlater, hfails]⟩
  · have hcatches := catches haborted fun i => host (k + i)
    rwa [← funext (hlater k)] at hcatches

/-- Whether a machine that has been told to end halts after some steps, without coroutines or the host. -/
def haltsAlone (m : Machine) : Nat → Bool
  | 0 =>
    match m.control with
    | .halt _ => m.running.isEmpty
    | _ => false
  | n + 1 => m.running.isEmpty && m.meter.cancelled && !m.isStopped && m.beat.haltsAlone n

theorem alone_of_haltsAlone {n : Nat} (h : m.haltsAlone n = true) (host : Nat → Bool × Except String Val)
    (k : Nat) : (m.course host k).running = [] := by
  induction n generalizing m host k with
  | zero =>
    unfold haltsAlone at h
    split at h
    · rename_i hhalt
      rw [course_of_halt hhalt]
      exact List.isEmpty_iff.1 h
    · cases h
  | succ n ih =>
    simp only [haltsAlone, Bool.and_eq_true, Bool.not_eq_true'] at h
    obtain ⟨⟨⟨hmain, hcancelled⟩, hstopped⟩, hlater⟩ := h
    cases k with
    | zero => exact List.isEmpty_iff.1 hmain
    | succ k =>
      -- Telling it again changes nothing.
      have htold : m.told (host 0).1 = m := by
        unfold told
        rw [hcancelled, Bool.true_or, ← hcancelled]
      rw [course_succ, advance_of_not_isStopped hstopped, htold]
      exact ih hlater _ k

/-! ### Finalizers without an end -/

/-- Whether a machine is in a loop whose condition is `true` and whose body is empty. -/
def isLooping (m : Machine) : Bool :=
  match m.control, m.frames with
  | .eval (.const (.boolean true)), .stat (.whileTest (.const (.boolean true)) [] _) :: _ => true
  | .give [.bool true], .stat (.whileTest (.const (.boolean true)) [] _) :: _ => true
  | .next, .stat (.block [] _ _) :: .stat (.whileBody (.const (.boolean true)) [] _) :: _ => true
  | .next, .stat (.whileBody (.const (.boolean true)) [] _) :: _ => true
  | _, _ => false

/-- Whether such a loop is that of a finalizer of a machine that has been given up, with no bound on its memory. -/
def isEndless (m : Machine) : Bool :=
  m.isLooping && m.heap.limit == 0 && !m.meter.watched &&
    match m.finalizing with
    | .last => true
    | _ => false

theorem isLooping_carryOn (h : m.isLooping = true) :
    m.carryOn.isLooping = true ∧ m.carryOn.heap.limit = m.heap.limit := by
  obtain ⟨heap, threads, running, act, frames, nesting, control, meter, finalizing⟩ := m
  unfold isLooping at h
  dsimp only at h
  split at h
  · exact ⟨rfl, rfl⟩
  · exact ⟨rfl, rfl⟩
  · exact ⟨rfl, rfl⟩
  · exact ⟨rfl, rfl⟩
  · cases h

theorem isStopped_of_isEndless (h : m.isEndless = true) : m.isStopped = false := by
  simp only [isEndless, Bool.and_eq_true] at h
  obtain ⟨⟨⟨hloops, -⟩, -⟩, -⟩ := h
  refine isStopped_eq_false (fun f args hask => ?_) fun r hhalt => ?_
  · simp [isLooping, hask] at hloops
  · simp [isLooping, hhalt] at hloops

theorem isEndless_beat (h : m.isEndless = true) : m.beat.isEndless = true := by
  simp only [isEndless, Bool.and_eq_true, beq_iff_eq, Bool.not_eq_true'] at h
  obtain ⟨⟨⟨hloops, hlimit⟩, hwatched⟩, hlast⟩ := h
  have hfinalizing : m.finalizing = .last := by
    split at hlast
    · assumption
    · cases hlast
  have hslack : m.isTight = false := by simp [isTight, hlimit]
  have hcarry (meter : Meter) (hmeter : meter.watched = false) :
      isEndless ({ m with meter } : Machine).carryOn = true := by
    obtain ⟨hloops', hlimit'⟩ := isLooping_carryOn (m := { m with meter }) hloops
    have hbudget := carryOn_budget { m with meter }
    have hwatched' : ({ m with meter } : Machine).carryOn.meter.watched = false :=
      (congrArg (·.1.watched) hbudget).trans hmeter
    have hfinalizing' : ({ m with meter } : Machine).carryOn.finalizing = .last :=
      (congrArg Prod.snd hbudget).trans hfinalizing
    simp [isEndless, hloops', hlimit'.trans hlimit, hwatched', hfinalizing']
  have hstep : m.step.isEndless = true := by
    unfold step
    simp only [hslack, Bool.false_eq_true, if_false]
    split
    · have htick : m.meter.tick m.running.isEmpty m.isProgram =
          ({ m.meter with spent := m.meter.spent + 1 }, none) := by
        simp [Meter.tick, hwatched]
      rw [htick]
      exact hcarry _ hwatched
    · exact hcarry m.meter hwatched
  unfold beat
  split
  · rename_i hdue
    simp [due?, isProgram, hfinalizing] at hdue
  · rename_i hamid
    cases hfinalizing.symm.trans hamid
  · exact hstep

theorem isEndless_run (h : m.isEndless = true) (n : Nat) : (m.run n).isEndless = true := by
  induction n generalizing m with
  | zero => exact h
  | succ n ih =>
    rw [run_of_not_isStopped (isStopped_of_isEndless h)]
    exact ih (isEndless_beat h)

/-! ### A program that is told to end before it begins -/

theorem beat_of_quiet (hprogram : m.finalizing = .no) (hquiet : m.isInstruction = false) : m.beat = m.carryOn := by
  have hdue : m.due? = none := by simp [due?, hquiet]
  have hcalm : m.isFinalizing = false := by simp [isFinalizing, hdue, isProgram, hprogram]
  rw [beat_of_isFinalizing_eq_false hcalm, step, if_neg (Bool.eq_false_iff.1 hquiet)]

theorem step_of_abort {t : Meter} {message : String} (hslack : m.isTight = false)
    (hinstruction : m.isInstruction = true)
    (hlook : m.meter.tick m.running.isEmpty m.isProgram = (t, some message)) :
    m.step = ({ m with meter := t } : Machine).raiseValue (.failure message) := by
  unfold step
  simp only [hslack, hinstruction, hlook, Bool.false_eq_true, if_false, if_true]

/-- A machine that looks at its budget before each instruction, and has been told to end. -/
structure IsTold (m : Machine) : Prop where
  unbounded : m.heap.limit = 0
  interval : m.meter.interval = 1
  cancelled : m.meter.cancelled = true
  alive : ∀ n, (m.meter.around.moment n).dead = none

theorem IsTold.beat_start (h : m.IsTold) (f : Nat) : (m.start (.function f) []).beat =
    { m.start (.function f) [] with
      control := .raise ⟨.failure Meter.cancelledMessage, false⟩
      meter := { m.meter.restart true with
        spent := m.meter.spent + 1, aborted := some Meter.cancelledMessage } } := by
  have hdue : (m.start (.function f) []).due? = none := by
    simp [due?, Meter.moment, h.alive, start, Meter.restart]
  have hcalm : (m.start (.function f) []).isFinalizing = false := by
    rw [isFinalizing, hdue]
    rfl
  have hslack : (m.start (.function f) []).isTight = false := by simp [isTight, start, h.unbounded]
  have hlook : (m.start (.function f) []).meter.tick (m.start (.function f) []).running.isEmpty
      (m.start (.function f) []).isProgram = ({ m.meter.restart true with
        spent := m.meter.spent + 1, aborted := some Meter.cancelledMessage }, some Meter.cancelledMessage) := by
    simp [Meter.tick, start, isProgram, Meter.restart, Meter.look, h.interval, h.cancelled]
  rw [beat_of_isFinalizing_eq_false hcalm, step_of_abort hslack rfl hlook]
  rfl

/-- The error goes through the function for its text and then up. -/
theorem IsTold.run_start (h : m.IsTold) (f : Nat) :
    let t := { m.meter.restart true with
      spent := m.meter.spent + 2, aborted := some Meter.cancelledMessage }
    (m.start (.function f) []).run 4 = { m.start (.function f) [] with
        control := .unwind ⟨.failure Meter.cancelledMessage, false⟩, meter := t } ∧
      (m.start (.function f) []).run 5 = { m.start (.function f) [] with
        frames := [], control := .halt (.error ⟨.failure Meter.cancelledMessage, false⟩), meter := t } := by
  intro t
  have hfour : (m.start (.function f) []).run 4 = { m.start (.function f) [] with
      control := .unwind ⟨.failure Meter.cancelledMessage, false⟩, meter := t } := by
    have hwork : m.meter.spent + 1 + 1 + (m.heap.used - m.heap.used) / 64 = m.meter.spent + 2 := by
      rw [Nat.sub_self]
    rw [run_of_not_isStopped rfl, h.beat_start, run_of_not_isStopped rfl, beat_of_quiet rfl rfl,
      run_of_not_isStopped rfl, beat_of_quiet rfl rfl, run_of_not_isStopped rfl, beat_of_quiet rfl rfl]
    simp only [t]
    rw [← hwork]
    rfl
  refine ⟨hfour, ?_⟩
  rw [run_add _ 4 1, hfour, run_of_not_isStopped rfl, beat_of_quiet rfl rfl]
  rfl

theorem finalizeNext?_of_marked {a : Nat} {rest : List Nat} (hmarked : m.heap.marked = a :: rest)
    (hdead : m.meter.moment.dead = none) :
    m.finalizeNext? = some { ({ m with heap := { m.heap with sealed := true } } : Machine).finalize a with
      running := [], act := default, nesting := 3
      meter := { m.meter with spent := m.meter.spent + 1 }.restart false, finalizing := .last } := by
  unfold finalizeNext?
  simp only [hmarked, hdead, Option.filter_none, ite_self]
  rfl

/-- A machine that was told to end before it began, at its last finalizer. -/
def closed (m : Machine) (f : Val) (a : Nat) : Machine :=
  { m with
    heap := { m.heap.unmark a with sealed := true }
    running := [], act := default, frames := [], nesting := 3
    control := .invoke f [.table a] (some ("metamethod", "gc"))
    meter := { m.meter.restart true with
      spent := m.meter.spent + 3, aborted := some Meter.cancelledMessage }.restart false
    finalizing := .last }

theorem IsTold.finalizeNext?_run (h : m.IsTold) (f : Nat) {a : Nat} (hmarked : m.heap.marked = [a]) :
    ((m.start (.function f) []).run 5).finalizeNext? =
      some (m.closed (m.heap.metamethod (.table a) "__gc") a) := by
  obtain ⟨-, hfive⟩ := h.run_start f
  rw [hfive]
  exact finalizeNext?_of_marked hmarked (h.alive _)

end Lua.Machine

namespace Lua.Heap

/-- A heap with one more table, whose metatable has a finalizer. -/
def finalizable (h : Heap) (f : Val) : Heap :=
  let (m, h) := h.addTable (Library.fields [("__gc", f)])
  (h.addTable { Table.empty with metatable := some m }).2

theorem metamethod_finalizable (h : Heap) (f : Val) :
    (h.finalizable f).metamethod (.table (h.tables.size + 1)) "__gc" = f := by
  have hsize : (h.addTable (Library.fields [("__gc", f)])).2.tables.size = h.tables.size + 1 := Array.size_push _
  have hfields : (h.finalizable f).table h.tables.size = Library.fields [("__gc", f)] := by
    rw [finalizable, table_addTable _ _ (by rw [hsize]; exact Nat.lt_succ_self _), table_addTable_new]
  have htable : (h.finalizable f).table (h.tables.size + 1) =
      { Table.empty with metatable := some h.tables.size } := by
    rw [← hsize]
    exact table_addTable_new _ _
  have hget : (Library.fields [("__gc", f)]).getText "__gc" = f :=
    Library.get_fields (by simp) List.mem_cons_self
  rw [metamethod, metatable?, htable]
  show ((h.finalizable f).table h.tables.size).getText "__gc" = f
  rw [hfields, hget]

end Lua.Heap

namespace Worker

open Lua.Machine (Upholds)

/-- However calls are protected in a script without coroutines, an abort of an invocation with a budget is not
to be caught, while other errors are. The worker faults just if from some time on no finalizer takes part in its
turns. -/
theorem abort_not_swallowed (m : Lua.Machine) (f : Lua.Val) (args : List Lua.Val)
    (halone : ∀ host n, ((m.start f args).course host n).running = []) :
    (∀ host, Upholds ((m.start f args).course host)) ∧
      ∀ (x : Exchange) i moves, x.worker.stage = .running i → x.worker.call = none →
        x.worker.machine = m.start f args → Fair moves →
        ∀ k, (∀ n ≤ k, (x.after moves n).worker.stage = .running i) →
          (x.after moves k).worker.machine.meter.aborted ≠ none →
            ((Faults i fun n => (x.after moves n).worker) ↔
              ∃ n, ∀ l ≥ n, ∀ j s now, moves l = .work j s now → (x.after moves l).worker.IsCalm j) := by
  refine ⟨fun host => Lua.Machine.upholds host rfl (.inl rfl) (halone host), ?_⟩
  intro x i moves hstage hcall hmachine hfair k hruns haborted
  have hlife := x.life_of_fair hfair
  constructor
  · rintro ⟨n, message, -, hleaving⟩
    refine ⟨n, fun l hl _ _ _ _ => isCalm_of_hasLeft ?_ _⟩
    obtain ⟨d, rfl⟩ := Nat.exists_eq_add_of_le hl
    have hfit : x.worker.Fit := fun hsome => by rw [hcall] at hsome; cases hsome
    exact hlife.hasLeft hfit (hleaving ▸ .leaving _) d
  · rintro ⟨n, hcalm⟩
    -- The first turn from then on that comes after the abort.
    obtain ⟨l, hl, j, s, now, hwork⟩ := hfair (k + n)
    obtain ⟨d, rfl⟩ := Nat.exists_eq_add_of_le (Nat.le_trans (Nat.le_add_right k n) hl)
    obtain hfaults | ⟨hruns, haborted⟩ | ⟨message, -, hclosing⟩ := hlife.stage_of_aborted hruns haborted d
    · exact hfaults
    · have hwatched : x.worker.machine.meter.watched = true := by rw [hmachine]; rfl
      have hlater : Life IsCalm fun n => (x.after moves (k + d + n)).worker :=
        x.life hfair (k + d) fun l' hl' => hcalm l' (by omega)
      refine hlife.faults hcall hwatched (fun m' hm' => ?_) hruns haborted hlater
      have hm'' : Lua.Machine.Along x.worker.machine m' := hm'
      rw [hmachine] at hm''
      obtain ⟨host, n, stop, rfl⟩ := hm''.exists_course
      exact halone host n
    · exact absurd hclosing ((hcalm (k + d) (by omega) _ s now hwork).kept _)

/-- A script with a loop inside of two protected calls, told to end before it begins. It has got the function
for protected calls as an argument. -/
theorem abort_not_swallowed_nested :
    let code := "local protect = ... protect(protect, function() while true do end end)"
    let body := (Lua.Chunk.load "demo" code).toOption.getD default
    let fresh := (Lua.Machine.fresh 0 (.start 12 0 default)).told true
    let loaded := fresh.load (Lua.chunkId "demo") body
    let first := loaded.2.start loaded.1 [.builtin (.control .pcall)]
    let w := { spawn default default [] ⟨0, 0⟩ ⟨0, 0, 12, default⟩ with machine := first, stage := .running .chunk }
    let s : Surface := ⟨.empty, .empty, .none, default, true, Surface.defaultTimeout⟩
    (first.run 26).meter.aborted = some "script cancelled" ∧
      ((first.run 26).frames.filter (!·.isOpen)).length = 3 ∧
      (∀ host, Upholds (first.course host)) ∧
      Faults .chunk fun n => ((Exchange.start w).after (fun _ => .work 26 s 0) n).worker := by
  intro code body fresh loaded first w s
  have halone : first.haltsAlone 41 = true := by decide +kernel
  have haborted : (first.run 26).meter.aborted = some "script cancelled" := by decide +kernel
  have hgoes : (first.run 26).result?.isNone = true := by decide +kernel
  have hended : ((Exchange.start w).after (fun _ => .work 26 s 0) 4).worker.isFinished = true := by decide +kernel
  obtain ⟨hupholds, hfaults⟩ := abort_not_swallowed loaded.2 loaded.1 [.builtin (.control .pcall)]
    fun host n => Lua.Machine.alone_of_haltsAlone halone host n
  refine ⟨haborted, by decide +kernel, hupholds, ?_⟩
  have hfair : Fair fun _ => .work 26 s 0 := fun n => ⟨n, Nat.le_refl n, 25, s, 0, rfl⟩
  have hfirst : w.turn 26 s 0 = { w with machine := first.run 26 } := by
    have hturn : w.turn 26 s 0 = w.stepFor 26 := rfl
    have hnone : (w.machine.run 26).result? = none := Option.isNone_iff_eq_none.1 hgoes
    rw [hturn, stepFor_of_result? (.inl ⟨.chunk, rfl⟩) hnone]
  refine (hfaults (Exchange.start w) .chunk _ rfl rfl rfl hfair 1 (fun n hn => ?_) ?_).2 ⟨4, fun l hl _ _ _ _ => ?_⟩
  · cases n with
    | zero => rfl
    | succ n =>
      obtain rfl : n = 0 := by omega
      show (w.turn 26 s 0).stage = _
      rw [hfirst]
  · show (w.turn 26 s 0).machine.meter.aborted ≠ none
    rw [hfirst]
    exact haborted ▸ Option.some_ne_none _
  · have hlife := (Exchange.start w).life_of_fair hfair
    obtain ⟨d, rfl⟩ := Nat.exists_eq_add_of_le hl
    exact isCalm_of_hasLeft (hlife.hasLeft nofun (hasLeft_of_isFinished hended) d) _

/-! ### A finalizer without an end -/

/-- A worker that has been given up for a finalizer that never ends. -/
structure Hangs (w : Worker) : Prop where
  stage : ∃ outcome, w.stage = .closing outcome
  call : w.call = none
  machine : w.machine.isEndless = true
  status : w.status = .running

theorem hangs_turn {w : Worker} {outcome : ScriptStatus} {n : Nat} (hstage : w.stage = .closing outcome)
    (hcall : w.call = none) (hstatus : w.status = .running) (hgoes : w.machine.isStopped = false)
    (hendless : (w.machine.run n).isEndless = true) (s : Surface) (now : Nat) : Hangs (w.turn n s now) := by
  have hworks : w.IsAtWork := .inr ⟨outcome, hstage⟩
  have hquestion : w.question? = none := by
    rw [question?_of_isAtWork hworks]
    cases hasks : Bridge.question? w.machine with
    | none => rfl
    | some q => cases hgoes.symm.trans (Lua.Machine.isStopped_of_question? hasks)
  have hresult : (w.machine.run n).result? = none := by
    cases hresult : (w.machine.run n).result? with
    | none => rfl
    | some r =>
      have hgoes' := Lua.Machine.isStopped_of_isEndless hendless
      cases hgoes'.symm.trans (Lua.Machine.isStopped_of_result? hresult)
  rw [turn_of_question?_none hcall hquestion, stepFor_of_result? hworks hresult]
  exact ⟨⟨outcome, hstage⟩, hcall, hendless, hstatus⟩

theorem Hangs.turn {w : Worker} (h : Hangs w) (n : Nat) (s : Surface) (now : Nat) : Hangs (w.turn n s now) := by
  obtain ⟨outcome, hstage⟩ := h.stage
  exact hangs_turn hstage h.call h.status (Lua.Machine.isStopped_of_isEndless h.machine)
    (Lua.Machine.isEndless_run h.machine n) s now

/-- A script told to end before it begins, in a machine with a table whose finalizer is a loop without an end: the
abort is recorded, and the worker never faults. -/
theorem finalizer_outlasts_abort :
    let body := (Lua.Chunk.load "demo" "while true do end").toOption.getD default
    let fresh := (Lua.Machine.fresh 0 (.start 1 0 default)).told true
    let loaded := fresh.load (Lua.chunkId "demo") body
    let table := loaded.2.heap.tables.size + 1
    let ready := { loaded.2 with heap := (loaded.2.heap.finalizable loaded.1).mark table }
    let first := ready.start loaded.1 []
    let w := { spawn default default [] ⟨0, 0⟩ ⟨0, 0, 1, default⟩ with machine := first, stage := .running .chunk }
    let s : Surface := ⟨.empty, .empty, .none, default, true, Surface.defaultTimeout⟩
    let v := fun n => ((Exchange.start w).after (fun _ => .work 4 s 0) n).worker
    (∀ host n, (first.course host n).running = []) ∧ Fair (fun _ => .work 4 s 0) ∧
      (v 1).stage = .running .chunk ∧ (v 1).machine.meter.aborted = some "script cancelled" ∧
      ¬ Faults .chunk v ∧ ∀ n, (v n).status = .running := by
  intro body fresh loaded table ready first w s v
  have hfinalizer := loaded.2.heap.metamethod_finalizable loaded.1
  have hmarked : (loaded.2.heap.finalizable loaded.1).mark table =
      { loaded.2.heap.finalizable loaded.1 with marked := [table] } := by
    unfold Lua.Heap.mark
    rw [hfinalizer]
    rfl
  have hready : ready =
      { loaded.2 with heap := { loaded.2.heap.finalizable loaded.1 with marked := [table] } } := by
    show ({ loaded.2 with heap := (loaded.2.heap.finalizable loaded.1).mark table } : Lua.Machine) = _
    rw [hmarked]
  have htold : ready.IsTold := by
    rw [hready]
    exact ⟨rfl, rfl, rfl, fun _ => rfl⟩
  have hfour : first.run 4 = _ := (htold.run_start 0).1
  have hfive : first.run 5 = _ := (htold.run_start 0).2
  have haborted : (first.run 4).meter.aborted = some "script cancelled" := by
    rw [hfour]
    rfl
  have hv1 : v 1 = { w with machine := first.run 4 } := by
    have hturn : v 1 = w.stepFor 4 := rfl
    rw [hturn]
    exact stepFor_of_result? (.inl ⟨.chunk, rfl⟩) (show (first.run 4).result? = none by rw [hfour]; rfl)
  have hclosed : ready.closed (ready.heap.metamethod (.table table) "__gc") table =
      Lua.Machine.closed { loaded.2 with heap := { loaded.2.heap.finalizable loaded.1 with marked := [table] } }
        loaded.1 table := by
    rw [← hready, ← hfinalizer, hready]
    rfl
  obtain ⟨u, hlast, hgoes, hendless⟩ : ∃ u, (first.run 5).finalizeNext? = some u ∧ u.isStopped = false ∧
      (u.run 4).isEndless = true := by
    refine ⟨_, htold.finalizeNext?_run 0 (by rw [hready]), rfl, ?_⟩
    rw [hclosed]
    decide +kernel
  have halone : first.haltsAlone 5 = true := by
    show (ready.start loaded.1 []).haltsAlone 5 = true
    rw [hready]
    decide +kernel
  have hv2 : v 2 = { w with machine := u, stage := .closing (.faulted "script cancelled") } := by
    have hhalts : (first.run 4).run 4 = first.run 5 := by
      rw [Lua.Machine.run_add _ 1 3, ← Lua.Machine.run_add _ 4 1]
      exact Lua.Machine.run_of_isStopped (by rw [hfive]; rfl) _
    have hresult : (first.run 5).result? = some (.error ⟨.failure Lua.Meter.cancelledMessage, false⟩) := by
      rw [hfive]
      rfl
    have hturn : v 2 = (v 1).turn 4 s 0 := rfl
    rw [hturn, hv1, turn_of_question?_none rfl (by rw [hfour]; rfl)]
    simp only [stepFor, w, hhalts, hresult, giveUp, hlast]
    rfl
  have hhangs (n : Nat) : Hangs (v (n + 3)) := by
    induction n with
    | zero =>
      have hturn : v 3 = (v 2).turn 4 s 0 := rfl
      rw [hturn, hv2]
      exact hangs_turn rfl rfl rfl hgoes hendless s 0
    | succ n ih => exact ih.turn 4 s 0
  refine ⟨fun host n => Lua.Machine.alone_of_haltsAlone halone host n, fun n => ⟨n, Nat.le_refl n, 3, s, 0, rfl⟩,
    congrArg (·.stage) hv1, (congrArg (·.machine.meter.aborted) hv1).trans haborted, ?_, ?_⟩
  · rintro ⟨_ | _ | _ | n, message, -, hfaults⟩
    · cases hfaults
    · cases (congrArg (·.stage) hv1).symm.trans hfaults
    · cases (congrArg (·.stage) hv2).symm.trans hfaults
    · obtain ⟨outcome, hclosing⟩ := (hhangs n).stage
      cases hclosing.symm.trans hfaults
  · rintro (_ | _ | _ | n)
    · rfl
    · exact congrArg (·.status) hv1
    · exact congrArg (·.status) hv2
    · exact (hhangs n).status

end Worker

end ScriptHost
