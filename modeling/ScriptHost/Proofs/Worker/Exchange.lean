import ScriptHost.Proofs.Worker.Turns

/-! A worker and those who post to it. A post is made of steps of its own, any number of posts may be under
way, and the worker and the host take turns in any order. -/

namespace ScriptHost.Worker

/-! ### Moves -/

/-- How far a post is that the worker has not refused at first sight. -/
inductive PostStage
  | checked
  /-- The event counts as pending and is going to be offered. -/
  | counted
  /-- The event has been refused and still counts. -/
  | refused (r : PostError)

/-- A worker, the posts under way, and what has happened so far. -/
structure Exchange where
  worker : Worker
  posts : List (ScriptEvent × PostStage)
  /-- The posts that are over, with their answers. -/
  answers : List (ScriptEvent × Except PostError Unit)
  /-- The invocations, with the machines with which they began. -/
  invoked : List (Invocation × Lua.Machine)
  /-- The events, and the startup, that are done with. -/
  handled : List ScriptEvent

inductive Move
  | post (e : ScriptEvent)
  /-- The next step of one of the posts under way. -/
  | proceed (i : Nat)
  | cancel
  /-- Gives up the sending end of the queue. -/
  | hangUp
  | work (n : Nat) (s : Surface) (now : Nat)

/-- The first half of telling a worker to end. -/
def cancel (w : Worker) : Worker :=
  { w with
    cancelled := true
    machine := { w.machine with meter := { w.machine.meter with cancelled := true } } }

/-- The second half. -/
def hangUp (w : Worker) : Worker := { w with sending := false }

theorem stop_eq (w : Worker) : w.stop = w.cancel.hangUp := rfl

/-- The invocation that a turn enters. -/
def began (before after : Worker) : List (Invocation × Lua.Machine) :=
  match after.stage with
  | .running i =>
    match before.stage, i with
    | .running .chunk, .chunk | .running (.search _), .search _
    | .running (.handler _), .handler _ => []
    | _, _ => [(i, after.machine)]
  | _ => []

/-- The event that a turn is done with. -/
def ended (before after : Worker) : List ScriptEvent :=
  match after.stage with
  | .idle =>
    match before.stage with
    | .running (.search e) | .running (.handler e) => [e]
    | _ => []
  | _ => []

namespace Exchange

def start (w : Worker) : Exchange := ⟨w, [], [], [], []⟩

/-- A post has got its answer. -/
def answer (x : Exchange) (e : ScriptEvent) (r : Except PostError Unit) : Exchange :=
  { x with answers := x.answers ++ [(e, r)] }

/-- The next step of the post that is `i`-th among those under way. -/
def proceed (x : Exchange) (i : Nat) : Exchange :=
  match x.posts[i]? with
  | none => x
  | some (e, .checked) =>
    { x with worker := x.worker.countUp, posts := x.posts.set i (e, .counted) }
  | some (e, .counted) =>
    match x.worker.offer e with
    | .ok w => answer { x with worker := w, posts := x.posts.eraseIdx i } e (.ok ())
    | .error r => { x with posts := x.posts.set i (e, .refused r) }
  | some (e, .refused r) =>
    answer { x with worker := x.worker.countDown, posts := x.posts.eraseIdx i } e (.error r)

def step (x : Exchange) : Move → Exchange
  | .post e =>
    match x.worker.refusal? with
    | some r => x.answer e (.error r)
    | none => { x with posts := x.posts ++ [(e, .checked)] }
  | .proceed i => x.proceed i
  | .cancel => { x with worker := x.worker.cancel }
  | .hangUp => { x with worker := x.worker.hangUp }
  | .work n s now =>
    let w := x.worker.turn n s now
    { x with
      worker := w
      invoked := x.invoked ++ began x.worker w
      handled := x.handled ++ ended x.worker w }

def run (x : Exchange) (moves : List Move) : Exchange := moves.foldl step x

variable {x : Exchange} {moves : List Move}

@[simp] theorem run_nil (x : Exchange) : x.run [] = x := rfl

theorem run_append (x : Exchange) (moves more : List Move) :
    x.run (moves ++ more) = (x.run moves).run more := List.foldl_append

/-- What every move keeps, every run keeps. -/
theorem run_induction {P : Exchange → Prop} (h : P x) (hstep : ∀ x move, P x → P (x.step move))
    (moves : List Move) : P (x.run moves) := by
  induction moves generalizing x with
  | nil => exact h
  | cons move moves ih => exact ih (hstep x move h)

/-- The events whose posts were answered with success, in the order in which they were. -/
def accepted (x : Exchange) : List ScriptEvent :=
  x.answers.filterMap fun (e, r) =>
    match r with
    | .ok () => some e
    | .error _ => none

@[simp] theorem accepted_answer_ok (x : Exchange) (e : ScriptEvent) :
    (x.answer e (.ok ())).accepted = x.accepted ++ [e] := by
  simp [accepted, answer]

@[simp] theorem accepted_answer_error (x : Exchange) (e : ScriptEvent) (r : PostError) :
    (x.answer e (.error r)).accepted = x.accepted := by
  simp [accepted, answer]

end Exchange

/-! ### Posts -/

variable {w w' : Worker} {e : ScriptEvent}

/-- Events are taken while the worker receives and its queue is not full, and they go to its end. -/
theorem offer_eq_ok_iff : w.offer e = .ok w' ↔
    w.receiving = true ∧ w.queue.length < queueCapacity ∧ w' = { w with queue := w.queue ++ [e] } := by
  unfold offer
  by_cases hr : w.receiving = true
  · by_cases hlength : w.queue.length < queueCapacity
    · simp [hr, Nat.not_le.2 hlength, hlength, eq_comm]
    · simp [hr, Nat.not_lt.1 hlength, hlength]
  · simp [hr]

/-- A post in one go is a run of its steps. -/
theorem run_post (x : Exchange) (hposts : x.posts = []) (e : ScriptEvent) :
    ∃ moves, x.run moves =
      { x with worker := (x.worker.post e).2, answers := x.answers ++ [(e, (x.worker.post e).1)] } := by
  cases hr : x.worker.refusal? with
  | some r => exact ⟨[.post e], by simp [Exchange.run, Exchange.step, post, hr, Exchange.answer]⟩
  | none =>
    cases ho : x.worker.countUp.offer e with
    | ok w =>
      exact ⟨[.post e, .proceed 0, .proceed 0], by
        simp [Exchange.run, Exchange.step, Exchange.proceed, post, hr, ho, hposts, Exchange.answer]⟩
    | error r =>
      exact ⟨[.post e, .proceed 0, .proceed 0, .proceed 0], by
        simp [Exchange.run, Exchange.step, Exchange.proceed, post, hr, ho, hposts, Exchange.answer]⟩

end ScriptHost.Worker
