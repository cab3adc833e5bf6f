import ScriptHost.Proofs.Lua.Evaluation

/-! Calls end. Whatever a program calls, it calls with less room than before, so by induction on the room that
is left every call leads to an outcome, and every machine on which an abort is recorded comes to an end. -/

namespace ScriptHost.Lua.Machine

variable {c c' d n ρ : Nat} {fs : List Frame} {m : Machine}

/-! ### Functions of the program -/

/-- Calling a function takes an instruction, so one that is called in tail position has fewer left. -/
theorem ends_function (hcalls : Calls ρ) (hroom : room d n fs ≤ ρ) (hs : Sound c d n fs)
    (hm : Stands c d n fs m) (a : Nat) (args : List Val) (name : Option Naming) :
    Ends (m.go (.invoke (.function a) args name)) := by
  induction c using Nat.strongRecOn generalizing m a args name with
  | ind c ih =>
  have hrises := rises hcalls hroom hs.falls
  refine hm.ends_counted rfl hs.falls hrises fun c' hlt {m} hm _ => ?_
  replace hm := hm.go (.invoke (.function a) args name)
  show Ends ((m.go (.invoke (.function a) args name)).invoke (.function a) args name)
  generalize m.go (.invoke (.function a) args name) = m at hm
  have henter (closure : Closure) : Ends (m.enterClosure closure args) := by
    unfold enterClosure
    rcases closure.body with ⟨params, isVararg, -, -, body, -, -⟩
    dsimp only
    split
    · exact hrises hm _
    · rename_i hdepth
      have hsame := hm.depth
      subst hsame
      have hs' := hs.mono (Nat.le_of_lt hlt)
      have hlt' : room (m.act.depth + 1) n (.caller m.act :: fs) < ρ :=
        Nat.lt_of_lt_of_le (room_caller m.act (by omega)) hroom
      have hcaller : Sound c' (m.act.depth + 1) n (.caller m.act :: fs) :=
        .caller hs' (rises hcalls (Nat.le_of_lt hlt') hs.falls.caller) fun _ hm => ih c' hlt hs' hm
      have hblock (base : Nat) := (runs hcalls c' _ n).push ⟨hlt', hcaller⟩ (.stat (.block body body base))
      exact .of_go rfl ((hblock _).sound.nexts
        ⟨congrArg (_ :: _ :: ·) hm.frames, rfl, hm.nesting, hm.aborted, hm.watched, hm.left⟩)
  exact henter _

/-! ### Functions that look at the machine -/

section

variable (hcalls : Calls ρ) (hroom : room d n fs ≤ ρ) (hs : Sound c d n fs) (hm : Stands c d n fs m)

include hcalls hroom hs hm

/-- A protected call takes the room of a nested one. -/
theorem ends_protect (hn : n < maxNesting) (h : Option Val) (f : Val) (args : List Val) :
    Ends { m with
      frames := .protect h m.act :: m.frames, nesting := m.nesting + 1, control := .invoke f args none } := by
  have hlt : room d (n + 1) (.protect h m.act :: fs) < ρ := Nat.lt_of_lt_of_le (room_nested hn _) hroom
  have hback : Rises m.act.depth n fs := by
    rw [hm.depth]
    exact rises hcalls hroom hs.falls
  have hprotect : Falls d (n + 1) (.protect h m.act :: fs) := .protect hback
  have hsound : Sound c d (n + 1) (.protect h m.act :: fs) :=
    .protect hback (rises hcalls (Nat.le_of_lt hlt) hprotect)
  exact hcalls hlt hsound (hm.nest _) f args none

/-- Going on with a coroutine is refused, or the main program is left. -/
theorem ends_resume (thread : Nat) (wrapped : Bool) (args : List Val) :
    Ends (m.resume thread wrapped args) := by
  have hrises := rises hcalls hroom hs.falls
  have hrefuse (b : Bytes) (vs : List Val) : Ends (if wrapped then m.raiseText b else m.guard vs) := by
    split
    · exact hrises hm _
    · exact ends_guard hrises hm vs
  unfold resume
  dsimp only
  split
  · exact hrefuse _ _
  · split
    · exact .resumes (List.cons_ne_nil _ _)
    · exact .resumes (List.cons_ne_nil _ _)
    · exact hrefuse _ _
    · exact hrefuse _ _

theorem ends_closeThread (who : Performer) (thread : Nat) : Ends (m.closeThread who thread) := by
  unfold closeThread
  dsimp only
  split
  · exact hs.given rfl (hm.of_budget rfl hm.frames rfl rfl)
  · exact ends_complain hs.falls (rises hcalls hroom hs.falls) hm who _
  · exact hs.given rfl (hm.of_budget rfl hm.frames rfl rfl)

/-- What the functions do that look at the machine itself. -/
theorem ends_callControl (hmain : m.running = []) (f : ControlFunction) (name : Option Naming)
    (args : List Val) : Ends (m.callControl f name args) := by
  have hrises := rises hcalls hroom hs.falls
  have hperform (who : Performer) (r : Routine (List Val)) : Ends (m.perform who r) :=
    ends_perform hcalls hroom hs hm who r
  have hcomplain (who : Performer) (x : Complaint) : Ends (m.complain who x) :=
    ends_complain hs.falls hrises hm who x
  fun_cases callControl m f name args
  case case4 | case7 =>
    rename_i hnesting
    exact ends_protect hcalls hroom hs hm (by rw [← hm.nesting]; omega) _ _ _
  case case9 | case11 =>
    rename_i hnew
    cases hnew
    exact hs.given rfl (hm.of_budget rfl hm.frames rfl rfl)
  -- The functions over coroutines, which want one first.
  case case12 | case14 | case17 =>
    rename_i withThread
    show Ends (withThread _)
    simp only [withThread]
    split
    · first
        | exact ends_resume hcalls hroom hs hm _ _ _
        | exact hs.gives hm _
        | exact ends_closeThread hcalls hroom hs hm _ _
    · exact hperform _ _
  case case13 =>
    -- Only a coroutine can be stopped.
    unfold yield
    rw [if_pos (by rw [hmain]; rfl)]
    exact hrises hm _
  all_goals
    first
    | exact hperform _ _
    | exact hcomplain _ _
    | exact ends_guard hrises hm _
    | exact hs.gives hm _

/-- A call that is not possible raises an error. -/
theorem ends_refuseCall (message : String) : Ends (m.refuseCall message) := by
  unfold refuseCall
  split <;> exact rises hcalls hroom hs.falls hm _

end

/-! ### All calls -/

/-- A function of the host is answered sooner or later, with a value or with a message. -/
theorem ends_ask (hs : Sound c d n fs) (hm : Stands c d n fs m) (f : String) (args : List Val) :
    Ends (m.go (.ask f args)) := by
  refine .goes fun stop r => ?_
  have hm' : Stands c d n fs ((m.go (.ask f args)).told stop) := (hm.go _).told stop
  cases r <;> exact hs.gives hm' _

section

variable (hcalls : Calls ρ) (hroom : room d n fs ≤ ρ) (hs : Sound c d n fs) (hm : Stands c d n fs m)

include hcalls hroom hs hm

theorem ends_callLibrary (f : Builtin) (args : List Val) (name : Option Naming) :
    Ends (m.callLibrary f args name) := by
  unfold callLibrary
  refine ends_perform hcalls hroom hs ?_ _ _
  exact hm.of_budget rfl hm.frames rfl rfl

theorem ends_builtin (b : Builtin) (args : List Val) (name : Option Naming) :
    Ends (m.go (.invoke (.builtin b) args name)) := by
  refine hm.ends hs.falls (rises hcalls hroom hs.falls) fun {m} hm hmain => ?_
  replace hm := hm.go (.invoke (.builtin b) args name)
  show Ends ((m.go (.invoke (.builtin b) args name)).invoke (.builtin b) args name)
  cases b with
  | control f => exact ends_callControl hcalls hroom hs hm hmain f name args
  | wrapped t => exact ends_resume hcalls hroom hs hm t true args
  | host f => exact ends_ask hs hm f args
  | _ => exact ends_callLibrary hcalls hroom hs hm _ args name

/-- What is no function is called through its metatable, or not at all. -/
theorem ends_callThrough (f : Val) (args : List Val) (name : Option Naming) :
    Ends (m.callThrough f args name) := by
  unfold callThrough
  split
  · exact ends_function hcalls hroom hs hm _ _ _
  · exact ends_builtin hcalls hroom hs hm _ _ _
  · exact ends_refuseCall hcalls hroom hs hm _
  · split
    · exact hs.falls hm _
    · exact ends_refuseCall hcalls hroom hs hm _

theorem ends_invoke (f : Val) (args : List Val) (name : Option Naming) :
    Ends (m.go (.invoke f args name)) := by
  cases hf : f with
  | function a => exact ends_function hcalls hroom hs hm a args name
  | builtin b => exact ends_builtin hcalls hroom hs hm b args name
  | _ =>
    have hthrough (m : Machine) : m.invoke f args name = m.callThrough f args name := by rw [hf]; rfl
    rw [← hf]
    refine hm.ends hs.falls (rises hcalls hroom hs.falls) fun {m} hm _ => ?_
    show Ends ((m.go (.invoke f args name)).invoke f args name)
    rw [hthrough]
    exact ends_callThrough hcalls hroom hs (hm.go _) f args name

end

/-- By induction on the room that is left, every call ends on sound frames. -/
theorem calls (ρ : Nat) : Calls ρ := by
  induction ρ with
  | zero => exact fun _ _ _ _ hroom => absurd hroom (Nat.not_lt_zero _)
  | succ ρ ih => exact fun c d n fs hlt hs m hm => ends_invoke ih (Nat.le_of_lt_succ hlt) hs hm

/-! ### All machines -/

theorem Sound.nil (c d n : Nat) : Sound c d n [] := by
  have hlast {m : Machine} {x : Control} (hframes : m.frames = []) (k : Machine → Frame → Machine)
      (last : Except Thrown (List Val)) : Ends ((m.go x).withFrame k last) := by
    cases m
    cases hframes
    exact .halts rfl
  have hfalls : Falls d n [] := fun _ _ hm e =>
    hm.ends_quiet rfl fun hm _ => hlast hm.frames (fun m f => m.unwindFrame f e) (.error e)
  have hrises := rises (calls (room d n [])) (Nat.le_refl _) hfalls
  refine ⟨hfalls, ?_, ?_, ?_, ?_, ?_⟩
  · exact fun _ hm vs => hm.ends_quiet rfl fun hm _ => hlast hm.frames (fun m f => m.giveFrame f vs) (.ok vs)
  · exact fun _ hm => hm.ends hfalls hrises fun hm _ => hlast hm.frames nextFrame (.ok [])
  · exact fun _ hm x => hm.ends_quiet rfl fun hm _ => hlast hm.frames (fun m f => m.leaveFrame f x) (.ok [])
  · exact fun _ _ htail => by cases htail
  · exact fun _ _ hfs => by cases hfs

/-- A coroutine hands on its outcome where it was resumed. -/
theorem Sound.coroutine {thread nesting : Nat} {wrapped : Bool} {saved : Activation}
    (h : Sound c saved.depth nesting fs) : Sound c d n (.coroutine thread wrapped saved nesting :: fs) := by
  have hback : Rises saved.depth nesting fs := rises (calls _) (Nat.le_refl _) h.falls
  have hleft {c : Nat} {m : Machine} (hm : Stands c d n fs m) (threads : Array Coroutine) :
      Stands c saved.depth nesting fs
        { m with threads, running := m.running.tail, act := saved, nesting } :=
    ⟨hm.frames, rfl, rfl, hm.aborted, hm.watched, hm.left⟩
  have hfalls : Falls d n (.coroutine thread wrapped saved nesting :: fs) := by
    refine .cons fun c m hm e => ?_
    show Ends (failCoroutine _ thread wrapped e)
    unfold failCoroutine
    dsimp only
    split
    · split <;> exact hback (hleft hm _) _
    · exact ends_guard hback (hleft hm _) _
  refine .answering hfalls (rises (calls _) (Nat.le_refl _) hfalls) ?_ (fun _ => rfl) ?_ ?_ ?_
  · intro m hm vs
    cases wrapped with
    | true => exact h.gives (hleft hm _) vs
    | false => exact ends_guard hback (hleft hm _) _
  · exact fun _ x => by cases x <;> exact ⟨_, rfl⟩
  · exact fun _ _ htail => by cases htail
  · exact fun _ hf => by cases hf

/-- All frames are sound, by induction on how many there are. -/
theorem sound (c d n : Nat) (fs : List Frame) : Sound c d n fs := by
  induction fs generalizing c d n with
  | nil => exact .nil c d n
  | cons f fs ih =>
    have hrises {d n : Nat} {fs : List Frame} (h : Falls d n fs) : Rises d n fs :=
      rises (calls _) (Nat.le_refl _) h
    have hplain (hf : Plain f) : Sound c d n (f :: fs) :=
      ((runs (calls _) c d n).push ⟨Nat.lt_succ_self _, ih c d n⟩ hf).sound
    cases f with
    | expr e => exact hplain (.expr e)
    | stat g => exact hplain (.stat g)
    | toClose v => exact hplain (.toClose v)
    | closed after => exact hplain (.closed after)
    | caller saved =>
      have hs := ih c saved.depth n
      exact .caller hs (hrises hs.falls.caller) fun _ hm a => calls _ (Nat.lt_succ_self _) hs hm (.function a)
    | routine rest who =>
      have hs := ih c d (n - 1)
      exact .routine hs.falls (hrises hs.falls.routine) fun _ hm vs =>
        ends_perform (calls _) (Nat.le_refl _) hs hm who (rest vs)
    | protect h saved =>
      have hback := hrises (ih c saved.depth (n - 1)).falls
      exact .protect hback (hrises (.protect hback))
    | handling saved =>
      have hfalls := (ih c saved.depth (n - 1)).falls
      exact .handling hfalls (hrises hfalls.handling)
    | coroutine thread wrapped saved nesting => exact .coroutine (ih c saved.depth nesting)
    | base =>
      have hfalls : Falls d n (.base :: fs) := .cons fun _ _ _ _ => .halts rfl
      refine .answering hfalls (hrises hfalls) (fun _ _ _ => .halts rfl) (fun _ => rfl) ?_ ?_ ?_
      · exact fun _ x => by cases x <;> exact ⟨_, rfl⟩
      · exact fun _ _ htail => by cases htail
      · exact fun _ hf => by cases hf

/-- While an abort is recorded on a watched invocation, its machine comes to an end. -/
theorem ends_of_aborted (haborted : m.meter.aborted ≠ none) (hwatched : m.meter.watched = true) : Ends m := by
  have hm : Stands m.meter.interval m.act.depth m.nesting m.frames m :=
    ⟨rfl, rfl, rfl, haborted, hwatched, by omega⟩
  have hs := sound m.meter.interval m.act.depth m.nesting m.frames
  have hground : Ground (room m.act.depth m.nesting m.frames + 1) m.meter.interval m.act.depth m.nesting m.frames :=
    ⟨Nat.lt_succ_self _, hs⟩
  have hruns := runs (calls (room m.act.depth m.nesting m.frames + 1)) m.meter.interval m.act.depth m.nesting
  have hrises := rises (calls (room m.act.depth m.nesting m.frames)) (Nat.le_refl _) hs.falls
  cases hcontrol : m.control with
  | eval e => exact .of_go hcontrol (hruns.evals hground hm e)
  | exec s => exact .of_go hcontrol (hruns.execs hground hm s)
  | next => exact .of_go hcontrol (hs.nexts hm)
  | give vs => exact .of_go hcontrol (hs.gives hm vs)
  | leave x => exact .of_go hcontrol (hs.leaves hm x)
  | invoke f args name => exact .of_go hcontrol (hground.invoke (calls _) hm f args name)
  | raise e => exact .of_go hcontrol (hrises hm e)
  | unwind e => exact .of_go hcontrol (hs.falls hm e)
  | ask f args => exact .of_go hcontrol (ends_ask hs hm f args)
  | halt r => exact .halts hcontrol

end ScriptHost.Lua.Machine
