import ScriptHost.Proofs.Lua.Protection

/-! Errors on their way to a protected call. While no abort is recorded, an error that is raised inside of one
goes through the function that is set for it, then from frame to frame, and is what the call fails with. -/

namespace ScriptHost.Lua

namespace Frame

/-- Whether errors may go on from a frame to those below. -/
def isOpen : Frame → Bool
  | .protect _ _ | .coroutine _ _ _ _ | .base => false
  | _ => true

/-- Whether they go on at once. -/
def passes : Frame → Bool
  | .toClose _ => false
  | f => f.isOpen

end Frame

namespace Machine

variable {m : Machine} {e : Thrown} {h : Option Val} {saved : Activation} {inner fs : List Frame} {f : Frame}

/-- An error has come upon frames. -/
def Upon (e : Thrown) (fs : List Frame) (m : Machine) : Prop := m.control = .unwind e ∧ m.frames = fs

/-- A protected call has given its caller that it failed with a value. -/
def Failed (v : Val) (saved : Activation) (fs : List Frame) (m : Machine) : Prop :=
  m.control = .give [.bool false, v] ∧ m.frames = fs ∧ m.act = saved

/-- What becomes of an error from some moment on. -/
structure Catches (w : Nat → Machine) : Prop where
  /-- Without a function that it goes through, an error that is raised comes upon the frames at once. -/
  unhandled : ∀ e inner h saved fs, (w 0).control = .raise e → (w 0).frames = inner ++ .protect h saved :: fs →
    (∀ f ∈ inner, f.isOpen = true) → e.isMemory = true ∨ h = none → Upon e (w 0).frames (w 1)
  /-- The function of the protected call gets the error. -/
  handled : ∀ e inner g saved fs, (w 0).control = .raise e →
    (w 0).frames = inner ++ .protect (some g) saved :: fs → (∀ f ∈ inner, f.isOpen = true) →
    e.isMemory = false → handlers (w 0).frames < maxHandlers →
      (w 1).control = .invoke g [e.value] none ∧ (w 1).frames = .handling (w 0).act :: (w 0).frames
  /-- Too many such functions are at work already. -/
  overrun : ∀ e inner g saved fs, (w 0).control = .raise e →
    (w 0).frames = inner ++ .protect (some g) saved :: fs → (∀ f ∈ inner, f.isOpen = true) →
    e.isMemory = false → maxHandlers ≤ handlers (w 0).frames →
      Upon ⟨.text "error in error handling", false⟩ (w 0).frames (w 1)
  /-- What such a function gives is the error from then on. -/
  answered : ∀ vs act fs, (w 0).control = .give vs → (w 0).frames = .handling act :: fs →
    Upon ⟨vs.headD .nil, false⟩ fs (w 1)
  /-- A variable is closed on the way. -/
  closes : ∀ e v fs, Upon e (.toClose v :: fs) (w 0) →
    (w 1).control = .invoke ((w 0).heap.metamethod v "__close") [v, e.value] (some ("metamethod", "close")) ∧
      (w 1).frames = .closed (.unwind e) :: fs
  closed : ∀ e vs fs, (w 0).control = .give vs → (w 0).frames = .closed (.unwind e) :: fs → Upon e fs (w 1)
  /-- All other frames are left one by one, and the call fails with the error. -/
  caught : ∀ e inner h saved fs, Upon e (inner ++ .protect h saved :: fs) (w 0) →
    (∀ f ∈ inner, f.passes = true) → Failed e.value saved fs (w (inner.length + 1))

/-! ### Steps -/

theorem goBack_of_goes (hgoes : ∀ result, m.control ≠ .halt result) (p : Paused) : m.goBack p = m := by
  unfold goBack
  split
  · exact absurd ‹_› (hgoes _)
  · rfl

/-- No instruction is counted before an error goes on, or a frame gets values. -/
theorem advance_quiet (hstopped : m.isStopped = false) (hquiet : m.isInstruction = false) (stop : Bool)
    (r : Except String Val) (hgoes : ∀ result, (m.told stop).carryOn.control ≠ .halt result) :
    m.advance stop r = (m.told stop).carryOn := by
  have hstep : (m.told stop).step = (m.told stop).carryOn := if_neg (Bool.eq_false_iff.1 hquiet)
  rw [advance_of_not_isStopped hstopped]
  unfold beat
  split
  · rename_i hdue
    cases hquiet.symm.trans (isInstruction_of_due? hdue)
  · rw [hstep, goBack_of_goes hgoes]
  · exact hstep

theorem advance_raise (hcontrol : m.control = .raise e) (stop : Bool) (r : Except String Val) :
    m.advance stop r = (m.told stop).raise e := by
  have htold : (m.told stop).control = .raise e := hcontrol
  have hcarry : (m.told stop).carryOn = (m.told stop).raise e := by rw [carryOn, htold]
  rw [← hcarry]
  refine advance_quiet (by rw [isStopped, hcontrol]) (by rw [isInstruction, hcontrol]; rfl) stop r ?_
  rw [hcarry]
  intro result hhalt
  unfold raise at hhalt
  split at hhalt
  · cases hhalt
  · split at hhalt
    · cases hhalt
    · split at hhalt <;> cases hhalt

theorem advance_unwind (hcontrol : m.control = .unwind e) (hm : m.frames = f :: fs) (stop : Bool)
    (r : Except String Val)
    (hgoes : ∀ result, ({ m.told stop with frames := fs }.unwindFrame f e).control ≠ .halt result) :
    m.advance stop r = { m.told stop with frames := fs }.unwindFrame f e := by
  have htold : (m.told stop).control = .unwind e := hcontrol
  have hcarry : (m.told stop).carryOn = { m.told stop with frames := fs }.unwindFrame f e := by
    rw [carryOn, htold]
    exact withFrame_cons (m := m.told stop) hm _ _
  rw [← hcarry] at hgoes ⊢
  exact advance_quiet (by rw [isStopped, hcontrol]) (by rw [isInstruction, hcontrol]; rfl) stop r hgoes

theorem advance_give {vs : List Val} (hcontrol : m.control = .give vs) (hm : m.frames = f :: fs) (stop : Bool)
    (r : Except String Val)
    (hgoes : ∀ result, ({ m.told stop with frames := fs }.giveFrame f vs).control ≠ .halt result) :
    m.advance stop r = { m.told stop with frames := fs }.giveFrame f vs := by
  have htold : (m.told stop).control = .give vs := hcontrol
  have hcarry : (m.told stop).carryOn = { m.told stop with frames := fs }.giveFrame f vs := by
    rw [carryOn, htold]
    exact withFrame_cons (m := m.told stop) hm _ _
  rw [← hcarry] at hgoes ⊢
  exact advance_quiet (by rw [isStopped, hcontrol]) (by rw [isInstruction, hcontrol]; rfl) stop r hgoes

/-! ### Errors that are raised -/

theorem handler?_inner (hinner : ∀ f ∈ inner, f.isOpen = true) (k : Nat) :
    (handler? (inner ++ .protect h saved :: fs) k).1 = h := by
  induction inner generalizing k with
  | nil => rfl
  | cons f inner ih =>
    have hopen := hinner f List.mem_cons_self
    replace ih := ih fun g hg => hinner g (List.mem_cons_of_mem _ hg)
    cases f with
    | protect | coroutine | base => cases hopen
    | _ => exact ih _

/-- The function of the innermost protected call is the one for an error. -/
theorem handler?_frames (hm : m.frames = inner ++ .protect h saved :: fs)
    (hinner : ∀ f ∈ inner, f.isOpen = true) (stop : Bool) :
    handler? (m.told stop).frames 0 = (h, handlers m.frames) := by
  refine Prod.ext ?_ rfl
  show (handler? m.frames 0).1 = h
  rw [hm, handler?_inner hinner]

theorem upon_of_raise (hcontrol : m.control = .raise e) (hm : m.frames = inner ++ .protect h saved :: fs)
    (hinner : ∀ f ∈ inner, f.isOpen = true) (hnone : e.isMemory = true ∨ h = none) (stop : Bool)
    (r : Except String Val) : Upon e m.frames (m.advance stop r) := by
  rw [advance_raise hcontrol, raise, handler?_frames hm hinner]
  split
  · exact ⟨rfl, rfl⟩
  · rename_i hmemory
    rw [hnone.resolve_left hmemory]
    exact ⟨rfl, rfl⟩

theorem advance_handled {g : Val} (hcontrol : m.control = .raise e)
    (hm : m.frames = inner ++ .protect (some g) saved :: fs) (hinner : ∀ f ∈ inner, f.isOpen = true)
    (hmemory : e.isMemory = false) (stop : Bool) (r : Except String Val) :
    m.advance stop r =
      if handlers m.frames ≥ maxHandlers then
        (m.told stop).go (.unwind ⟨.text "error in error handling", false⟩)
      else
        { m.told stop with
          frames := .handling m.act :: m.frames
          nesting := m.nesting + 1
          control := .invoke g [e.value] none } := by
  rw [advance_raise hcontrol, raise, handler?_frames hm hinner, hmemory]
  rfl

/-! ### Errors that have come upon frames -/

/-- An error leaves the frames above a protected call one by one. -/
theorem upon_course (hm : Upon e (inner ++ fs) m) (hinner : ∀ f ∈ inner, f.passes = true)
    (host : Nat → Bool × Except String Val) :
    Upon e fs (m.course host inner.length) ∧
      (m.course host inner.length).meter.aborted = m.meter.aborted := by
  induction inner generalizing m host with
  | nil => exact ⟨hm, rfl⟩
  | cons f inner ih =>
    have hpasses := hinner f List.mem_cons_self
    have hgoes (u : Machine) (result : Except Thrown (List Val)) : (u.unwindFrame f e).control ≠ .halt result := by
      cases f with
      | toClose | protect | coroutine | base => cases hpasses
      | _ => exact fun hhalt => by cases hhalt
    rw [List.length_cons, course_succ, advance_unwind hm.1 hm.2 _ _ (hgoes _)]
    generalize hm' : unwindFrame _ f e = m'
    have hleft : Upon e (inner ++ fs) m' ∧ m'.meter.aborted = m.meter.aborted := by
      subst hm'
      cases f with
      | toClose | protect | coroutine | base => cases hpasses
      | _ => exact ⟨⟨rfl, rfl⟩, rfl⟩
    rw [← hleft.2]
    exact ih hleft.1 (fun g hg => hinner g (List.mem_cons_of_mem _ hg)) _

theorem guard_goes (m : Machine) (vs : List Val) {result : Except Thrown (List Val)} :
    (m.guard vs).control ≠ .halt result := by
  unfold guard
  split <;> exact fun hhalt => by cases hhalt

theorem failed_of_upon (haborted : m.meter.aborted = none) (hm : Upon e (inner ++ .protect h saved :: fs) m)
    (hinner : ∀ f ∈ inner, f.passes = true) (host : Nat → Bool × Except String Val) :
    Failed e.value saved fs (m.course host (inner.length + 1)) := by
  obtain ⟨hupon, hsame⟩ := upon_course hm hinner host
  have hnone := hsame.trans haborted
  rw [course, advance_unwind hupon.1 hupon.2 _ _ fun _ => guard_goes _ _]
  generalize m.course host inner.length = u at hnone
  show Failed _ _ _ (guard _ _)
  unfold guard
  split
  · rename_i hsome
    cases hnone.symm.trans hsome
  · exact ⟨rfl, rfl, rfl⟩

/-- While no abort is recorded errors are caught. -/
theorem catches (haborted : m.meter.aborted = none) (host : Nat → Bool × Except String Val) :
    Catches (m.course host) where
  unhandled _ _ _ _ _ hcontrol hm hinner hnone := upon_of_raise hcontrol hm hinner hnone _ _
  handled _ _ _ _ _ hcontrol hm hinner hmemory hfew := by
    have hstep := advance_handled hcontrol hm hinner hmemory (host 0).1 (host 0).2
    rw [if_neg (by omega)] at hstep
    rw [show m.course host 1 = _ from hstep]
    exact ⟨rfl, rfl⟩
  overrun _ _ _ _ _ hcontrol hm hinner hmemory hmany := by
    have hstep := advance_handled hcontrol hm hinner hmemory (host 0).1 (host 0).2
    rw [if_pos hmany] at hstep
    rw [show m.course host 1 = _ from hstep]
    exact ⟨rfl, rfl⟩
  answered _ _ _ hcontrol hm := by
    rw [show m.course host 1 = _ from advance_give hcontrol hm _ _ fun _ hhalt => by cases hhalt]
    exact ⟨rfl, rfl⟩
  closes _ _ _ hupon := by
    rw [show m.course host 1 = _ from advance_unwind hupon.1 hupon.2 _ _ fun _ hhalt => by cases hhalt]
    exact ⟨rfl, rfl⟩
  closed _ _ _ hcontrol hm := by
    rw [show m.course host 1 = _ from advance_give hcontrol hm _ _ fun _ hhalt => by cases hhalt]
    exact ⟨rfl, rfl⟩
  caught _ _ _ _ _ hupon hinner := failed_of_upon haborted hupon hinner host

end Machine

end ScriptHost.Lua
