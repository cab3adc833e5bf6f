import ScriptHost.Proofs.Lua.Frames
import Mathlib.Data.List.Infix

/-! Protected calls. The frame of one lasts until an outcome comes to it, and while an abort is recorded no
values go on from there. -/

namespace ScriptHost.Lua

/-- Whether a control is an outcome, which comes to the innermost frame. -/
def Control.isOutcome : Control → Bool
  | .next | .give _ | .leave _ | .unwind _ => true
  | _ => false

namespace Machine

variable {m : Machine} {h : Option Val} {saved : Activation} {fs : List Frame} {message : String}

/-! ### Frames that last -/

section

variable (m : Machine)

@[simp] theorem bind_frames (vs : List Val) (n : Nat) : (m.bind vs n).frames = m.frames := by
  induction n generalizing m vs with
  | zero => rfl
  | succ n ih => exact ih _ _

@[simp] theorem setSlot_frames (i : Nat) (v : Val) : (m.setSlot i v).frames = m.frames := by
  unfold setSlot
  split <;> rfl

@[simp] theorem capture_frames (x : Capture) : (m.capture x).2.frames = m.frames := by
  unfold capture
  split
  · split <;> rfl
  · rfl

@[simp] theorem close_frames (f : FunctionBody) : (m.close f).2.frames = m.frames := by
  have hfold (xs : List Capture) (start : Array Nat × Machine) :
      (xs.foldl (fun (acc : Array Nat × Machine) x =>
        (acc.1.push (acc.2.capture x).1, (acc.2.capture x).2)) start).2.frames = start.2.frames := by
    induction xs generalizing start with
    | nil => rfl
    | cons x xs ih => rw [List.foldl_cons, ih, capture_frames]
  cases f
  exact hfold _ (#[], m)

@[simp] theorem complain_frames (who : Performer) (x : Complaint) : (m.complain who x).frames = m.frames := by
  unfold complain
  split <;> rfl

@[simp] theorem guard_frames (vs : List Val) : (m.guard vs).frames = m.frames := by
  unfold guard
  split <;> rfl

theorem frames_perform (who : Performer) (r : Routine (List Val)) :
    m.frames <:+ (m.perform who r).frames := by
  unfold perform
  dsimp only
  split
  · exact List.suffix_rfl
  · unfold settle
    split
    · exact List.suffix_rfl
    · rw [complain_frames]
    · dsimp only
      split
      · rw [complain_frames]
      · exact List.suffix_cons _ _

theorem frames_construct (t : Nat) (done : List Val) (items : List Item) :
    m.frames <:+ (m.construct t done items).frames := by
  unfold construct
  split
  · dsimp only
    split <;> exact List.suffix_rfl
  · exact List.suffix_cons _ _
  · exact List.suffix_cons _ _

theorem frames_numericRound (v : Val) (loop : NumericLoop) (body : List Stat) (base : Nat) :
    m.frames <:+ (m.numericRound v loop body base).frames := by
  have hbind := bind_frames (m.keep (base + numericHidden)) [v] 1
  exact ⟨[_, _], congrArg (_ :: _ :: ·) hbind.symm⟩

theorem frames_enterClosure (x : Closure) (args : List Val) :
    m.frames <:+ (m.enterClosure x args).frames := by
  fun_cases enterClosure m x args
  · exact List.suffix_rfl
  · exact ⟨[_, _], rfl⟩

theorem frames_resume (thread : Nat) (wrapped : Bool) (args : List Val) :
    m.frames <:+ (m.resume thread wrapped args).frames := by
  have hrefuse (b : Bytes) (vs : List Val) :
      m.frames <:+ (if wrapped then m.raiseText b else m.guard vs).frames := by
    split
    · exact List.suffix_rfl
    · rw [guard_frames]
  unfold resume
  dsimp only
  split
  · exact hrefuse _ _
  · split
    · exact ⟨[_], rfl⟩
    · rename_i frames _
      exact ⟨frames ++ [_], List.append_assoc _ _ _⟩
    · exact hrefuse _ _
    · exact hrefuse _ _

theorem frames_closeThread (who : Performer) (thread : Nat) :
    m.frames <:+ (m.closeThread who thread).frames := by
  unfold closeThread
  dsimp only
  split
  · exact List.suffix_rfl
  · rw [complain_frames]
  · exact List.suffix_rfl

theorem frames_callControl (hmain : m.running = []) (f : ControlFunction) (name : Option Naming)
    (args : List Val) : m.frames <:+ (m.callControl f name args).frames := by
  fun_cases callControl m f name args
  case case9 | case11 =>
    rename_i hnew
    cases hnew
    exact List.suffix_rfl
  -- The functions over coroutines, which want one first.
  case case12 | case14 | case17 =>
    rename_i withThread
    show m.frames <:+ (withThread _).frames
    simp only [withThread]
    split
    · first
        | exact frames_resume _ _ _ _
        | exact List.suffix_rfl
        | exact frames_closeThread _ _ _
    · exact frames_perform _ _ _
  case case13 =>
    -- Only a coroutine can be stopped.
    unfold yield
    rw [if_pos (by rw [hmain]; rfl)]
    exact List.suffix_rfl
  all_goals
    first
    | exact List.suffix_rfl
    | exact List.suffix_cons _ _
    | exact frames_perform _ _ _
    | simp

theorem frames_raise (e : Thrown) : m.frames <:+ (m.raise e).frames := by
  unfold raise
  split
  · exact List.suffix_rfl
  · split
    · exact List.suffix_rfl
    · split
      · exact List.suffix_rfl
      · exact List.suffix_cons _ _

theorem frames_callThrough (f : Val) (args : List Val) (name : Option Naming) :
    m.frames <:+ (m.callThrough f args name).frames := by
  have hrefuse (message : String) : m.frames <:+ (m.refuseCall message).frames := by
    unfold refuseCall
    split <;> exact List.suffix_rfl
  unfold callThrough
  split
  · exact List.suffix_rfl
  · exact List.suffix_rfl
  · exact hrefuse _
  · split
    · exact List.suffix_rfl
    · exact hrefuse _

theorem frames_callLibrary (f : Builtin) (args : List Val) (name : Option Naming) :
    m.frames <:+ (m.callLibrary f args name).frames := by
  unfold callLibrary
  exact frames_perform { m with meter := { m.meter with spent := m.meter.spent + 1 } } _ _

theorem frames_invoke (hmain : m.running = []) (f : Val) (args : List Val) (name : Option Naming) :
    m.frames <:+ (m.invoke f args name).frames := by
  fun_cases invoke m f args name
  · exact frames_enterClosure _ _ _
  · exact frames_callControl _ hmain _ _ _
  · exact frames_resume _ _ _ _
  · exact List.suffix_rfl
  · exact frames_callLibrary _ _ _ _
  · exact frames_callThrough _ _ _ _

end

/-! Frames of a function's text may make room for a call, or for a variable that is to be closed; the frame
of a protected call does not. -/

section

variable (hm : m.frames = .protect h saved :: fs)

include hm

theorem frames_callFrom (f : Val) (args : List Val) (name : Option Naming) (line : Nat) (tail : Bool) :
    m.frames <:+ (m.callFrom f args name line tail).frames := by
  have htail : tailFrames? m.frames = none := by rw [hm]; rfl
  unfold callFrom
  split
  · split
    · rename_i hsome
      cases htail.symm.trans hsome
    · exact List.suffix_cons _ _
  · exact List.suffix_rfl

theorem frames_toClose (v : Val) (name : String) (under : Bool) :
    m.frames <:+ (m.toClose v name under).frames := by
  unfold toClose
  split
  · exact List.suffix_rfl
  · split
    · exact List.suffix_rfl
    · rw [hm]
      exact List.suffix_cons _ _

theorem frames_useValues (vs : List Val) (use : Use) : m.frames <:+ (m.useValues vs use).frames := by
  have hassign (m : Machine) (t : Target) (v : Val) : m.frames <:+ (m.assign t v).frames := by
    cases t with
    | var p => cases p <;> simp [assign, setPlace, setCell, go]
    | field => exact frames_perform _ _ _
  cases use with
  | call f name line tail => exact frames_callFrom hm f vs name line tail
  | locals names closing line =>
    have hbind := bind_frames m vs names.length
    cases closing with
    | none => exact hbind ▸ List.suffix_rfl
    | some i =>
      have hclose := frames_toClose (m := (m.bind vs names.length).atLine line) (hbind.trans hm)
      exact hbind ▸ hclose _ _ true
  | assign targets line =>
    simp only [useValues]
    split
    · exact List.suffix_rfl
    · rename_i t v rest _
      exact (List.suffix_cons _ _).trans (hassign (m.pushStat (.assigned rest)) t v)
  | result => exact List.suffix_rfl
  | numericFor body line =>
    simp only [useValues]
    split
    · exact List.suffix_rfl
    · exact List.suffix_rfl
    · exact bind_frames m [] numericHidden ▸ frames_numericRound _ _ _ _ _
  | genericFor names body line =>
    have hbind := bind_frames m [] genericHidden
    have hclose := frames_toClose (m := (m.bind [] genericHidden).atLine line) (hbind.trans hm)
      (vs.getD 3 .nil) "(for state)" false
    replace hclose : m.frames <:+ _ := hbind ▸ hclose
    simp only [useValues]
    split
    · exact hclose.trans (List.suffix_cons _ _)
    · exact hclose

theorem frames_evalList (es : List Expr) (use : Use) : m.frames <:+ (m.evalList es use).frames := by
  cases es with
  | nil => exact frames_useValues hm [] use
  | cons e rest => exact List.suffix_cons _ _

theorem frames_evalTargets (done : List Target) (targets values : List Expr) (line : Nat) :
    m.frames <:+ (m.evalTargets done targets values line).frames := by
  fun_induction evalTargets m done targets values line
  case case1 => exact frames_evalList hm _ _
  case case2 ih => exact ih
  case case3 => exact List.suffix_cons _ _
  case case4 ih => exact ih

end

theorem frames_eval (e : Expr) : m.frames <:+ (m.eval e).frames := by
  cases e with
  | closure f => exact close_frames m f ▸ List.suffix_rfl
  | table items line =>
    simp only [eval]
    generalize m.heap.addTable _ = made
    exact frames_construct { m with heap := made.2 } made.1 [] items
  | const | vararg | var => exact List.suffix_rfl
  | _ => exact List.suffix_cons _ _

theorem frames_exec (hm : m.frames = .protect h saved :: fs) (s : Stat) : m.frames <:+ (m.exec s).frames := by
  have hlist := frames_evalList hm
  fun_cases exec m s
  case case2 f i a m' hclose =>
    have hframes := close_frames (m.bind [] 1) f
    rw [hclose, bind_frames] at hframes
    show m.frames <:+ (m'.setSlot i (.function a)).frames
    rw [setSlot_frames, hframes]
  all_goals
    first
    | exact List.suffix_rfl
    | exact List.suffix_cons _ _
    | exact frames_evalTargets hm _ _ _ _
    | exact hlist _ _
    | exact ⟨[_, _], rfl⟩

/-- Only an outcome takes the frame of a protected call away. -/
theorem frames_carryOn (hm : m.frames = .protect h saved :: fs) (hmain : m.running = [])
    (hcontrol : m.control.isOutcome = false) : m.frames <:+ m.carryOn.frames := by
  cases hx : m.control with
  | eval e =>
    simp only [carryOn, hx]
    exact frames_eval e
  | exec s =>
    simp only [carryOn, hx]
    exact frames_exec hm s
  | invoke f args name =>
    simp only [carryOn, hx]
    exact frames_invoke m hmain f args name
  | raise e =>
    simp only [carryOn, hx]
    exact frames_raise m e
  | ask | halt =>
    simp only [carryOn, hx]
    exact List.suffix_rfl
  | next | give | leave | unwind =>
    rw [hx] at hcontrol
    cases hcontrol

/-! ### Abort -/

/-- A step in which a protected call gives values to its caller, at its end or at once. -/
inductive ProtectedGives (m m' : Machine) : Prop
  | ended {h : Option Val} {saved : Activation} {fs : List Frame} {vs : List Val} :
      m.frames = .protect h saved :: fs → m'.frames = fs → m'.control = .give vs → ProtectedGives m m'
  | atOnce {f : ControlFunction} {args vs : List Val} {name : Option Naming} : f = .pcall ∨ f = .xpcall →
      m.control = .invoke (.builtin (.control f)) args name → m'.control = .give vs → ProtectedGives m m'

/-- A machine that an error is about to go through. -/
def Fails (m : Machine) : Prop := ∃ e, m.control = .raise e ∨ m.control = .unwind e

theorem Fails.ne_give (hm : m.Fails) (vs : List Val) : m.control ≠ .give vs := by
  obtain ⟨e, h | h⟩ := hm <;> rw [h] <;> exact fun hgive => by cases hgive

theorem fails_complain (m : Machine) (who : Performer) (x : Complaint) : (m.complain who x).Fails := by
  unfold complain
  split
  · exact ⟨_, .inr rfl⟩
  all_goals exact ⟨_, .inl rfl⟩

/-- While an abort is recorded a machine fails, or goes on with the abort on record. -/
theorem step_fails_or (haborted : m.meter.aborted = some message) :
    m.step.Fails ∨ ∃ m' : Machine, m.step = m'.carryOn ∧ m'.meter.aborted = some message ∧
      m'.frames = m.frames ∧ m'.control = m.control ∧ m'.running = m.running := by
  obtain ⟨heap, meter, hmeter, hstep⟩ := step_cases m
  have hstands : meter.aborted = some message := by
    rcases hmeter with rfl | rfl
    · exact haborted
    · exact Meter.tick_aborted haborted _ _
  rcases hstep with h | ⟨e, h | h⟩ <;> rw [h]
  · exact .inr ⟨_, rfl, hstands, rfl, rfl, rfl⟩
  · exact .inl ⟨e, .inl rfl⟩
  · exact .inl ⟨e, .inr rfl⟩

theorem fails_guard (haborted : m.meter.aborted = some message) (vs : List Val) : (m.guard vs).Fails := by
  unfold guard
  rw [haborted]
  exact ⟨_, .inl rfl⟩

/-- Whatever outcome comes to a protected call, the abort is raised instead. -/
theorem fails_protect (haborted : m.meter.aborted = some message) (hm : m.frames = .protect h saved :: fs)
    (hcontrol : m.control.isOutcome = true) : m.carryOn.Fails := by
  have hguard (vs : List Val) :
      ({ m with frames := fs, act := saved, nesting := m.nesting - 1 }.guard vs).Fails :=
    fails_guard (m := { m with frames := fs, act := saved, nesting := m.nesting - 1 }) haborted vs
  cases hx : m.control with
  | next | give | unwind =>
    simp only [carryOn, hx]
    rw [withFrame_cons hm]
    exact hguard _
  | leave x =>
    simp only [carryOn, hx]
    rw [withFrame_cons hm]
    cases x <;> exact hguard _
  | _ =>
    rw [hx] at hcontrol
    cases hcontrol

/-- A protected call that is not made fails as well. -/
theorem callControl_ne_give (haborted : m.meter.aborted = some message) {f : ControlFunction}
    (hf : f = .pcall ∨ f = .xpcall) (name : Option Naming) (args vs : List Val) :
    (m.callControl f name args).control ≠ .give vs := by
  rcases hf with rfl | rfl
  · unfold callControl
    dsimp only
    split
    · exact (fails_complain _ _ _).ne_give vs
    · split
      · exact (fails_guard haborted _).ne_give vs
      · exact fun hgive => by cases hgive
  · unfold callControl
    dsimp only
    split
    · exact (fails_complain _ _ _).ne_give vs
    · split
      · exact (fails_guard haborted _).ne_give vs
      · exact fun hgive => by cases hgive

/-- A machine takes a step, or changes between the program and a finalizer, which gives nothing to anyone. -/
theorem beat_eq_step_or (m : Machine) : m.beat = m.step ∨ ∀ vs, m.beat.control ≠ .give vs := by
  unfold beat
  split
  · exact .inr fun _ hgive => by cases hgive
  · rename_i p _ _
    unfold goBack
    split
    · refine .inr fun vs hgive => ?_
      have hinstruction := p.isInstruction
      rw [show p.control = .give vs from hgive] at hinstruction
      cases hinstruction
    · exact .inl rfl
  · exact .inl rfl

/-- While an abort is recorded no protected call gives anything to its caller. -/
theorem not_protectedGives (haborted : m.meter.aborted = some message) (hmain : m.running = [])
    (stop : Bool) (r : Except String Val) : ¬ ProtectedGives m (m.advance stop r) := by
  have hlonger {f : Frame} {fs gs : List Frame} (hm : m.frames = f :: fs) (hkeeps : m.frames <:+ gs) :
      gs ≠ fs := by
    rintro rfl
    have hle := hkeeps.length_le
    rw [hm, List.length_cons] at hle
    omega
  have hstep : ¬ ProtectedGives m (m.told stop).step := by
    intro hgives
    obtain hfails | ⟨u, heq, hu, huframes, hucontrol, humain⟩ :=
      step_fails_or (m := m.told stop) haborted
    · cases hgives with
      | ended _ _ hgive => exact hfails.ne_give _ hgive
      | atOnce _ _ hgive => exact hfails.ne_give _ hgive
    · rw [heq] at hgives
      cases hgives with
      | ended hm hfs hgive =>
        cases hcontrol : u.control.isOutcome with
        | true => exact (fails_protect hu (huframes.trans hm) hcontrol).ne_give _ hgive
        | false =>
          have hkeeps := frames_carryOn (huframes.trans hm) (humain.trans hmain) hcontrol
          exact hlonger hm (huframes ▸ hkeeps) hfs
      | atOnce hf hcontrol hgive =>
        simp only [carryOn, hucontrol.trans hcontrol] at hgive
        exact callControl_ne_give hu hf _ _ _ hgive
  intro hgives
  unfold advance at hgives
  split at hgives
  · rename_i hask
    cases hgives with
    | ended hm hfs _ => exact hlonger hm (by cases r <;> exact List.suffix_rfl) hfs
    | atOnce _ hcontrol _ => cases hask.symm.trans hcontrol
  · rename_i hhalt
    cases hgives with
    | ended _ _ hgive => cases hhalt.symm.trans hgive
    | atOnce _ _ hgive => cases hhalt.symm.trans hgive
  · obtain heq | hother := beat_eq_step_or (m.told stop)
    · exact hstep (heq ▸ hgives)
    · cases hgives with
      | ended _ _ hgive => exact hother _ hgive
      | atOnce _ _ hgive => exact hother _ hgive

end Machine

end ScriptHost.Lua
