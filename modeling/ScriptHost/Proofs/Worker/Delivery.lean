import ScriptHost.Proofs.Worker.Exchange

/-! Delivery of events. However posts, the end of the worker and its turns are mixed, the events accepted
are delivered in the order in which they were, each of them once, after the chunk and the startup. Once
the worker is over, or an abort of its invocation is recorded, nothing more is delivered. -/

namespace ScriptHost

/-- The stages in which a worker runs nothing any more, finalizers apart. -/
inductive WorkerStage.IsOver : WorkerStage → Prop
  | closing (outcome : ScriptStatus) : IsOver (.closing outcome)
  | leaving (outcome : ScriptStatus) : IsOver (.leaving outcome)
  | reported : IsOver .reported
  | finished : IsOver .finished

/-- The stages in which the queue has been given up. -/
inductive WorkerStage.HasLeft : WorkerStage → Prop
  | leaving (outcome : ScriptStatus) : HasLeft (.leaving outcome)
  | reported : HasLeft .reported
  | finished : HasLeft .finished

namespace Worker

variable {w w' : Worker} {stage : WorkerStage} {invoked : List Invocation}
  {handled accepted queue : List ScriptEvent} {e : ScriptEvent}

/-! ### Turns -/

/-- The invocations of a chunk and of the deliveries after it, some of which found a handler. -/
def invocations (ds : List (ScriptEvent × Bool)) : List Invocation :=
  .chunk :: ds.flatMap fun (e, found) => if found then [.search e, .handler e] else [.search e]

theorem invocations_snoc (ds : List (ScriptEvent × Bool)) (e : ScriptEvent) (found : Bool) :
    invocations (ds ++ [(e, found)]) =
      invocations ds ++ if found then [.search e, .handler e] else [.search e] := by
  simp [invocations]

/-- How invocations, events done with, events accepted and the queue belong together in each stage. -/
inductive Fares : WorkerStage → List Invocation → List ScriptEvent → List ScriptEvent →
    List ScriptEvent → Prop
  | fresh {queue : List ScriptEvent} : Fares .fresh [] [] queue queue
  | chunk {queue : List ScriptEvent} : Fares (.running .chunk) [.chunk] [] queue queue
  | search {ds : List (ScriptEvent × Bool)} {e : ScriptEvent} {accepted queue : List ScriptEvent} :
      startup :: accepted = ds.map Prod.fst ++ e :: queue →
      Fares (.running (.search e)) (invocations ds ++ [.search e]) (ds.map Prod.fst) accepted queue
  | handler {ds : List (ScriptEvent × Bool)} {e : ScriptEvent} {accepted queue : List ScriptEvent} :
      startup :: accepted = ds.map Prod.fst ++ e :: queue →
      Fares (.running (.handler e)) (invocations ds ++ [.search e, .handler e]) (ds.map Prod.fst)
        accepted queue
  | idle {ds : List (ScriptEvent × Bool)} {accepted queue : List ScriptEvent} :
      startup :: accepted = ds.map Prod.fst ++ queue →
      Fares .idle (invocations ds) (ds.map Prod.fst) accepted queue
  /-- What is in the queue, and what may still be accepted, is not delivered any more. -/
  | quit {stage last : WorkerStage} {invoked : List Invocation}
      {handled accepted queue more left : List ScriptEvent} : stage.IsOver → (stage.HasLeft → left = []) →
      Fares last invoked handled accepted queue → Fares stage invoked handled (accepted ++ more) left

/-- An event that is accepted goes to the end of the queue. -/
theorem Fares.accept (h : Fares stage invoked handled accepted queue) (hstage : ¬ stage.HasLeft)
    (e : ScriptEvent) : Fares stage invoked handled (accepted ++ [e]) (queue ++ [e]) := by
  cases h with
  | fresh => exact .fresh
  | chunk => exact .chunk
  | search heq => exact .search (by rw [← List.cons_append, heq]; simp)
  | handler heq => exact .handler (by rw [← List.cons_append, heq]; simp)
  | idle heq => exact .idle (by rw [← List.cons_append, heq]; simp)
  | quit hover _ hlast =>
    rw [List.append_assoc]
    exact .quit hover (fun hleft => absurd hleft hstage) hlast

theorem giveUp_isOver (w : Worker) (outcome : ScriptStatus) : (w.giveUp outcome).stage.IsOver := by
  obtain ⟨m, h⟩ | h := w.giveUp_cases outcome <;> rw [h]
  · exact .closing _
  · exact .leaving _

theorem nothing_of_over (h : w'.stage.IsOver) : began w w' = [] ∧ ended w w' = [] := by
  unfold began ended
  generalize w'.stage = stage at h
  cases h <;> exact ⟨rfl, rfl⟩

theorem nothing_of_stage (h : w'.stage = w.stage) : began w w' = [] ∧ ended w w' = [] := by
  unfold began ended
  rw [h]
  cases w.stage with
  | running i => cases i <;> exact ⟨rfl, rfl⟩
  | _ => exact ⟨rfl, rfl⟩

theorem Fares.leave (hf : Fares w.stage invoked handled accepted w.queue) (hover : w'.stage.IsOver)
    (hqueue : w'.stage.HasLeft → w'.queue = []) :
    Fares w'.stage (invoked ++ (began w w').map Prod.fst) (handled ++ ended w w') accepted
      w'.queue := by
  rw [(nothing_of_over hover).1, (nothing_of_over hover).2]
  have hquit : Fares w'.stage invoked handled (accepted ++ []) w'.queue := .quit hover hqueue hf
  simpa using hquit

theorem Fares.giveUp (hf : Fares w.stage invoked handled accepted w.queue) (v : Worker) (outcome : ScriptStatus) :
    Fares (v.giveUp outcome).stage (invoked ++ (began w (v.giveUp outcome)).map Prod.fst)
      (handled ++ ended w (v.giveUp outcome)) accepted (v.giveUp outcome).queue := by
  obtain ⟨m, h⟩ | h := v.giveUp_cases outcome <;> rw [h]
  · exact hf.leave (.closing _) fun hleft => by cases hleft
  · exact hf.leave (.leaving _) fun _ => rfl

theorem Fares.queue_of_left (hf : Fares stage invoked handled accepted queue) (hleft : stage.HasLeft) :
    queue = [] := by
  cases hf with
  | quit _ hnothing => exact hnothing hleft
  | _ => cases hleft

/-- Invocations, events done with and events accepted, whatever the stage is. -/
theorem Fares.order (h : Fares stage invoked handled accepted queue) :
    invoked = [] ∧ handled = [] ∨
      ∃ ds, invoked = invocations ds ∧ ds.map Prod.fst <+: startup :: accepted ∧
        handled <+: ds.map Prod.fst ∧ ds.length ≤ handled.length + 1 := by
  induction h with
  | fresh => exact .inl ⟨rfl, rfl⟩
  | chunk => exact .inr ⟨[], rfl, List.nil_prefix, List.nil_prefix, Nat.zero_le _⟩
  | @search ds e accepted queue heq =>
    refine .inr ⟨ds ++ [(e, false)], by simp [invocations_snoc], ⟨queue, by simpa using heq.symm⟩, ?_,
      by simp⟩
    rw [List.map_append]
    exact List.prefix_append _ _
  | @handler ds e accepted queue heq =>
    refine .inr ⟨ds ++ [(e, true)], by simp [invocations_snoc], ⟨queue, by simpa using heq.symm⟩, ?_,
      by simp⟩
    rw [List.map_append]
    exact List.prefix_append _ _
  | @idle ds accepted queue heq =>
    exact .inr ⟨ds, rfl, ⟨queue, heq.symm⟩, List.prefix_rfl, by simp⟩
  | quit _ _ _ ih =>
    refine ih.imp_right fun ⟨ds, hinvoked, hdelivered, hhandled⟩ => ⟨ds, hinvoked, ?_, hhandled⟩
    exact hdelivered.trans (List.prefix_append _ _)

/-- A turn enters at most one invocation, which is the one that is due, and is done with at most one
event, which is the one being delivered. -/
theorem Turns.fares (h : Turns w w') (hf : Fares w.stage invoked handled accepted w.queue) :
    Fares w'.stage (invoked ++ (began w w').map Prod.fst) (handled ++ ended w w') accepted
      w'.queue := by
  have hfares := hf
  generalize hqueue : w.queue = queue at hf
  cases h with
  | begins hstage =>
    rw [hstage] at hf
    cases hf with
    | quit hover => cases hover
    | fresh => simpa [began, ended, hstage, hqueue] using Fares.chunk
  | unfit hstage => exact hfares.leave (.leaving _) fun _ => rfl
  | @works i m call hstage =>
    have hnothing := @nothing_of_stage w { w with machine := m, call } rfl
    rw [hnothing.1, hnothing.2]
    simpa using hfares
  | fails | wound => exact hfares.giveUp _ _
  | ran hstage =>
    rw [hstage] at hf
    cases hf with
    | quit hover => cases hover
    | chunk =>
      have hsearch : Fares (.running (.search startup)) _ _ accepted accepted :=
        .search (show startup :: accepted =
          ([] : List (ScriptEvent × Bool)).map Prod.fst ++ startup :: accepted from rfl)
      simpa [began, ended, hstage, hqueue, deliver, invocations] using hsearch
  | found hstage =>
    rw [hstage] at hf
    cases hf with
    | quit hover => cases hover
    | search heq => simpa [began, ended, hstage, hqueue] using Fares.handler heq
  | @absent e m _ hstage =>
    rw [hstage] at hf
    cases hf with
    | quit hover => cases hover
    | @search ds _ _ _ heq =>
      have hidle := Fares.idle (show startup :: accepted = (ds ++ [(e, false)]).map Prod.fst ++ queue by
        simpa using heq)
      simpa [began, ended, hstage, hqueue, Worker.handled, countDown, invocations_snoc] using hidle
  | @returned e m hstage =>
    rw [hstage] at hf
    cases hf with
    | quit hover => cases hover
    | @handler ds _ _ _ heq =>
      have hidle := Fares.idle (show startup :: accepted = (ds ++ [(e, true)]).map Prod.fst ++ queue by
        simpa using heq)
      simpa [began, ended, hstage, hqueue, Worker.handled, countDown, invocations_snoc] using hidle
  | takes hstage _ htakes =>
    rw [hstage] at hf
    cases hf with
    | quit hover => cases hover
    | idle heq =>
      rw [← hqueue, htakes] at heq
      simpa [began, ended, hstage, deliver] using Fares.search heq
  | waits | rests =>
    have hnothing := @nothing_of_stage w w rfl
    rw [hnothing.1, hnothing.2]
    simpa using hfares
  | leaves hstage => exact hfares.giveUp _ _
  | @winds outcome m call hstage =>
    have hnothing := @nothing_of_stage w { w with machine := m, call } rfl
    rw [hnothing.1, hnothing.2]
    simpa using hfares
  | reports hstage =>
    exact hfares.leave .reported fun _ => hfares.queue_of_left (hstage ▸ .leaving _)
  | finishes hstage =>
    exact hfares.leave .finished fun _ => hfares.queue_of_left (hstage ▸ .reported)

/-- An invocation begins with a machine that has been made to run it. -/
theorem Turns.starts (h : Turns w w') : ∀ p ∈ began w w', Starts w.unit w.context p.1 p.2 := by
  intro p hp
  cases h with
  | begins hstage _ hstarts =>
    simp only [began, hstage, List.mem_singleton] at hp
    subst hp
    exact hstarts
  | ran hstage =>
    simp only [began, hstage, deliver, List.mem_singleton] at hp
    subst hp
    exact .search startup
  | @found e m results hstage _ _ hresult hf =>
    simp only [began, hstage, List.mem_singleton] at hp
    subst hp
    exact .handler e hresult hf
  | @takes e rest hstage =>
    simp only [began, hstage, deliver, List.mem_singleton] at hp
    subst hp
    exact .search e
  | @works i m call hstage =>
    rw [(@nothing_of_stage w { w with machine := m, call } rfl).1] at hp
    cases hp
  | @winds outcome m call hstage =>
    rw [(@nothing_of_stage w { w with machine := m, call } rfl).1] at hp
    cases hp
  | waits | rests =>
    rw [(@nothing_of_stage w w rfl).1] at hp
    cases hp
  | fails | leaves | wound =>
    rw [(nothing_of_over (giveUp_isOver _ _)).1] at hp
    cases hp
  | unfit | reports | finishes | absent | returned => cases hp

/-- A worker that gives up its queue takes no more events. -/
theorem Turns.closed (h : Turns w w') (hw : w.stage.HasLeft → w.receiving = false) :
    w'.stage.HasLeft → w'.receiving = false := by
  have hgiven (v : Worker) (outcome : ScriptStatus) (hleft : (v.giveUp outcome).stage.HasLeft) :
      (v.giveUp outcome).receiving = false := by
    obtain ⟨m, h⟩ | h := v.giveUp_cases outcome <;> rw [h] at hleft ⊢
    · cases hleft
    · rfl
  intro hleft
  cases h with
  | unfit => rfl
  | fails | leaves | wound => exact hgiven _ _ hleft
  | waits | rests => exact hw hleft
  | works hstage => exact hw hleft
  | winds hstage => exact hw hleft
  | reports hstage => exact hw (hstage ▸ .leaving _)
  | finishes hstage => exact hw (hstage ▸ .reported)
  | begins | ran | found | absent | returned | takes => cases hleft

/-- A turn puts nothing into the queue. -/
theorem Turns.length_queue (h : Turns w w') : w'.queue.length ≤ w.queue.length := by
  have hgiven (v : Worker) (outcome : ScriptStatus) : (v.giveUp outcome).queue.length ≤ v.queue.length := by
    unfold giveUp
    split
    · exact Nat.le_refl _
    · exact Nat.zero_le _
  cases h with
  | takes _ _ hqueue => simp [deliver, hqueue]
  | unfit => exact Nat.zero_le _
  | fails | wound => exact hgiven _ _
  | leaves =>
    refine Nat.le_trans (hgiven _ _) ?_
    rw [List.length_tail]
    exact Nat.sub_le _ _
  | _ => exact Nat.le_refl _

/-- The worker has come to its end, or an abort of the invocation is recorded, which is how the machine
takes note that the budget is used up or that the script is to end. -/
def IsOver (w : Worker) : Prop :=
  w.stage.IsOver ∨ ∃ i a, w.stage = .running i ∧ w.machine.meter.aborted = some a

/-- A worker that is over enters no invocation and is done with no event. -/
theorem Turns.isOver (h : Turns w w') (hover : w.IsOver) :
    w'.IsOver ∧ began w w' = [] ∧ ended w w' = [] := by
  rcases hover with hover | ⟨i, a, hrunning, habort⟩
  · cases h with
    | winds => exact ⟨.inl hover, nothing_of_stage rfl⟩
    | wound => exact ⟨.inl (giveUp_isOver _ _), nothing_of_over (giveUp_isOver _ _)⟩
    | reports => exact ⟨.inl .reported, nothing_of_over .reported⟩
    | finishes => exact ⟨.inl .finished, nothing_of_over .finished⟩
    | rests => exact ⟨.inl hover, nothing_of_stage rfl⟩
    | begins hstage | unfit hstage | works hstage | fails hstage | ran hstage | found hstage
    | absent hstage | returned hstage | takes hstage | waits hstage | leaves hstage =>
      rw [hstage] at hover
      cases hover
  · have hsome (h : w.machine.meter.aborted = none) : False := by
      rw [habort] at h
      cases h
    cases h with
    | works hstage hkeeps =>
      exact ⟨.inr ⟨i, a, hrunning, hkeeps a habort⟩, nothing_of_stage rfl⟩
    | fails => exact ⟨.inl (giveUp_isOver _ _), nothing_of_over (giveUp_isOver _ _)⟩
    | ran _ _ hnone => exact (hsome hnone).elim
    | found _ _ hnone => exact (hsome hnone).elim
    | absent _ _ hnone => exact (hsome hnone).elim
    | returned _ _ hnone => exact (hsome hnone).elim
    | begins hstage | unfit hstage | takes hstage | waits hstage | leaves hstage | winds hstage | wound hstage
    | reports hstage | finishes hstage | rests hstage => cases hrunning.symm.trans hstage

/-! ### Moves -/

/-- What posts and the end of the worker leave alone. -/
structure Untouched (w w' : Worker) : Prop where
  unit : w'.unit = w.unit
  context : w'.context = w.context
  stage : w'.stage = w.stage
  call : w'.call = w.call
  receiving : w'.receiving = w.receiving
  aborted : w'.machine.meter.aborted = w.machine.meter.aborted

theorem Untouched.isOver (h : Untouched w w') (hover : w.IsOver) : w'.IsOver := by
  unfold IsOver
  rw [h.stage, h.aborted]
  exact hover

theorem Untouched.fit (h : Untouched w w') (hw : w.Fit) : w'.Fit := by
  intro hsome
  rw [h.call] at hsome
  exact (hw hsome).of_stage h.stage

namespace Exchange

variable {x y : Exchange}

/-- What one move can make of an exchange. -/
inductive Moves (x : Exchange) : Exchange → Prop
  | quiet {y : Exchange} : Untouched x.worker y.worker → y.worker.queue = x.worker.queue →
      y.accepted = x.accepted → y.invoked = x.invoked → y.handled = x.handled → Moves x y
  | accepts {y : Exchange} {e : ScriptEvent} : Untouched x.worker y.worker →
      x.worker.receiving = true → x.worker.queue.length < queueCapacity →
      y.worker.queue = x.worker.queue ++ [e] → y.accepted = x.accepted ++ [e] →
      y.invoked = x.invoked → y.handled = x.handled → Moves x y
  | turns {y : Exchange} : Turns x.worker y.worker → y.accepted = x.accepted →
      y.invoked = x.invoked ++ began x.worker y.worker →
      y.handled = x.handled ++ ended x.worker y.worker → Moves x y

theorem proceed_moves (x : Exchange) (i : Nat) : Moves x (x.proceed i) := by
  have hsame (w : Worker) : Untouched w w := ⟨rfl, rfl, rfl, rfl, rfl, rfl⟩
  unfold proceed
  split
  · exact .quiet (hsame _) rfl rfl rfl rfl
  · exact .quiet ⟨rfl, rfl, rfl, rfl, rfl, rfl⟩ rfl rfl rfl rfl
  · split
    · rename_i hoffer
      obtain ⟨hreceiving, hlength, rfl⟩ := offer_eq_ok_iff.1 hoffer
      exact .accepts ⟨rfl, rfl, rfl, rfl, rfl, rfl⟩ hreceiving hlength rfl
        (accepted_answer_ok _ _) rfl rfl
    · exact .quiet (hsame _) rfl rfl rfl rfl
  · exact .quiet ⟨rfl, rfl, rfl, rfl, rfl, rfl⟩ rfl (accepted_answer_error _ _ _) rfl rfl

/-- Every move is one of those. -/
theorem step_moves (hx : x.worker.Fit) (move : Move) : Moves x (x.step move) := by
  cases move with
  | post e =>
    simp only [step]
    split
    · exact .quiet ⟨rfl, rfl, rfl, rfl, rfl, rfl⟩ rfl (accepted_answer_error _ _ _) rfl rfl
    · exact .quiet ⟨rfl, rfl, rfl, rfl, rfl, rfl⟩ rfl rfl rfl rfl
  | proceed i => exact x.proceed_moves i
  | cancel | hangUp => exact .quiet ⟨rfl, rfl, rfl, rfl, rfl, rfl⟩ rfl rfl rfl rfl
  | work n s now => exact .turns (turn_turns hx n s now) rfl rfl rfl

/-! ### Runs -/

/-- What holds of a worker for a script at all times, whoever posts to it. -/
structure Sound (unit : CompiledUnit) (context : ScriptContext) (x : Exchange) : Prop where
  script : x.worker.unit = unit ∧ x.worker.context = context
  fit : x.worker.Fit
  fares : Fares x.worker.stage (x.invoked.map Prod.fst) x.handled x.accepted x.worker.queue
  closed : x.worker.stage.HasLeft → x.worker.receiving = false
  room : x.worker.queue.length ≤ queueCapacity
  starts : ∀ p ∈ x.invoked, Starts unit context p.1 p.2

variable {unit : CompiledUnit} {context : ScriptContext}

theorem sound_start (unit : CompiledUnit) (context : ScriptContext) (functions : List String)
    (handle : Handle) (limits : WorkerLimits) :
    Sound unit context (start (spawn unit context functions handle limits)) where
  script := ⟨rfl, rfl⟩
  fit := fun h => by cases h
  fares := .fresh
  closed := fun h => by cases h
  room := Nat.zero_le _
  starts := fun p hp => by cases hp

/-- A move that leaves the worker alone but for its queue. -/
theorem Sound.untouched (h : Sound unit context x) (hsame : Untouched x.worker y.worker)
    (hinvoked : y.invoked = x.invoked)
    (hfares : Fares x.worker.stage (x.invoked.map Prod.fst) y.handled y.accepted y.worker.queue)
    (hroom : y.worker.queue.length ≤ queueCapacity) : Sound unit context y := by
  refine ⟨?_, hsame.fit h.fit, ?_, ?_, hroom, ?_⟩
  · rw [hsame.unit, hsame.context]
    exact h.script
  · rw [hsame.stage, hinvoked]
    exact hfares
  · rw [hsame.stage, hsame.receiving]
    exact h.closed
  · rw [hinvoked]
    exact h.starts

theorem Sound.moves (h : Sound unit context x) (hmoves : Moves x y) : Sound unit context y := by
  cases hmoves with
  | quiet hsame hqueue haccepted hinvoked hhandled =>
    refine h.untouched hsame hinvoked ?_ ?_
    · rw [hhandled, haccepted, hqueue]
      exact h.fares
    · rw [hqueue]
      exact h.room
  | accepts hsame hreceiving hlength hqueue haccepted hinvoked hhandled =>
    have hopen : ¬ x.worker.stage.HasLeft := by
      intro hleft
      rw [h.closed hleft] at hreceiving
      cases hreceiving
    refine h.untouched hsame hinvoked ?_ ?_
    · rw [hhandled, haccepted, hqueue]
      exact h.fares.accept hopen _
    · rw [hqueue, List.length_append]
      exact hlength
  | turns hturn haccepted hinvoked hhandled =>
    have hfares : Fares y.worker.stage (y.invoked.map Prod.fst) y.handled y.accepted
        y.worker.queue := by
      rw [hinvoked, List.map_append, hhandled, haccepted]
      exact hturn.fares h.fares
    refine ⟨?_, hturn.fit h.fit, hfares, hturn.closed h.closed, ?_, ?_⟩
    · rw [hturn.same_script.1, hturn.same_script.2.1]
      exact h.script
    · exact Nat.le_trans hturn.length_queue h.room
    · intro p hp
      rw [hinvoked, List.mem_append] at hp
      rcases hp with hp | hp
      · exact h.starts p hp
      · have hstarts := hturn.starts p hp
        rwa [h.script.1, h.script.2] at hstarts

theorem Sound.run (h : Sound unit context x) (moves : List Move) :
    Sound unit context (x.run moves) :=
  run_induction h (fun _ move hx => hx.moves (step_moves hx.fit move)) moves

end Exchange

end Worker

end ScriptHost
