import ScriptHost.Proofs.Lua.Ending

/-! Frames that end. The frames of a machine are sound if it ends whatever outcome they are handed while an
abort is recorded. Calls need room: each is nested more deeply than the last, and there are bounds on that. -/

namespace ScriptHost.Lua.Machine

variable {c c' d n ρ : Nat} {fs : List Frame} {f : Frame} {m : Machine}

/-! ### Room -/

/-- How many functions that an error goes through are at work on these frames. -/
def handlers (fs : List Frame) : Nat := (handler? fs 0).2

theorem handler?_eq (fs : List Frame) (k : Nat) :
    handler? fs k = ((handler? fs 0).1, handlers fs + k) := by
  unfold handlers
  induction fs generalizing k with
  | nil => simp [handler?]
  | cons f fs ih =>
    cases f with
    | protect | base | coroutine => simp [handler?]
    | handling saved =>
      simp only [handler?]
      rw [ih (k + 1), ih (0 + 1)]
      simp only [Prod.mk.injEq, true_and]
      omega
    | _ => exact ih k

theorem handlers_handling (saved : Activation) (fs : List Frame) :
    handlers (.handling saved :: fs) = handlers fs + 1 := by
  show (handler? fs (0 + 1)).2 = _
  rw [handler?_eq]

/-- How much deeper calls can be nested. -/
def room (d n : Nat) (fs : List Frame) : Nat :=
  (maxDepth - d) + (maxNesting - n) * (maxHandlers + 1) + (maxHandlers - handlers fs)

theorem room_caller (saved : Activation) (hd : d < maxDepth) :
    room (d + 1) n (.caller saved :: fs) < room d n fs := by
  show (maxDepth - (d + 1)) + _ + (maxHandlers - handlers fs) < _
  unfold room
  omega

theorem room_handling (saved : Activation) (hhandlers : handlers fs < maxHandlers) :
    room d (n + 1) (.handling saved :: fs) < room d n fs := by
  have hnesting : (maxNesting - (n + 1)) * (maxHandlers + 1) ≤ (maxNesting - n) * (maxHandlers + 1) :=
    Nat.mul_le_mul_right _ (by omega)
  unfold room
  rw [handlers_handling]
  omega

theorem room_nested (hn : n < maxNesting) (gs : List Frame) : room d (n + 1) gs < room d n fs := by
  have hnesting : maxNesting - n = maxNesting - (n + 1) + 1 := by omega
  unfold room
  rw [hnesting, Nat.succ_mul]
  omega

/-! ### Sound frames -/

/-- Whatever outcome these frames are handed, the machine ends. -/
structure Sound (c d n : Nat) (fs : List Frame) : Prop where
  falls : Falls d n fs
  gives : ∀ ⦃m : Machine⦄, Stands c d n fs m → ∀ vs, Ends (m.go (.give vs))
  nexts : ∀ ⦃m : Machine⦄, Stands c d n fs m → Ends (m.go .next)
  leaves : ∀ ⦃m : Machine⦄, Stands c d n fs m → ∀ x, Ends (m.go (.leave x))
  /-- A function may make room for one that it calls at its end. -/
  tails : ∀ ⦃saved : Activation⦄ ⦃rest : List Frame⦄, tailFrames? fs = some (saved, rest) →
    ∀ ⦃m : Machine⦄, Stands c saved.depth n rest m → ∀ a args name,
      Ends (m.go (.invoke (.function a) args name))
  /-- A variable that is to be closed may be put under a block. -/
  closes : ∀ ⦃g : StatFrame⦄ ⦃rest : List Frame⦄, fs = .stat g :: rest →
    ∀ ⦃m : Machine⦄ ⦃v : Val⦄, Stands c d n (.stat g :: .toClose v :: rest) m → Ends (m.go .next)

theorem Sound.mono (h : Sound c d n fs) (hle : c' ≤ c) : Sound c' d n fs :=
  ⟨h.falls, fun _ hm => h.gives (hm.mono hle), fun _ hm => h.nexts (hm.mono hle),
    fun _ hm => h.leaves (hm.mono hle), fun _ _ ht _ hm => h.tails ht (hm.mono hle),
    fun _ _ hfs _ _ hm => h.closes hfs (hm.mono hle)⟩

theorem Sound.given (h : Sound c d n fs) {vs : List Val} (hcontrol : m.control = .give vs)
    (hm : Stands c d n fs m) : Ends m :=
  .of_go hcontrol (h.gives hm vs)

theorem withFrame_cons (hframes : m.frames = f :: fs) (k : Machine → Frame → Machine)
    (last : Except Thrown (List Val)) : m.withFrame k last = k { m with frames := fs } f := by
  cases m
  cases hframes
  rfl

theorem withFrame_go (hframes : m.frames = f :: fs) (k : Machine → Frame → Machine)
    (last : Except Thrown (List Val)) (x : Control) :
    (m.go x).withFrame k last = k { m with frames := fs, control := x } f :=
  withFrame_cons (m := m.go x) hframes k last

theorem Falls.cons
    (hunwind : ∀ ⦃c : Nat⦄ ⦃m : Machine⦄, Stands c d n fs m → ∀ e, Ends (m.unwindFrame f e)) :
    Falls d n (f :: fs) := by
  intro c m hm e
  refine hm.ends_quiet rfl fun {m} hm _ => ?_
  show Ends ((m.go (.unwind e)).withFrame (fun m f => m.unwindFrame f e) (.error e))
  rw [withFrame_go hm.frames]
  exact hunwind (hm.pop _) e

/-- With less room than `ρ` calls end on sound frames. -/
def Calls (ρ : Nat) : Prop :=
  ∀ ⦃c d n : Nat⦄ ⦃fs : List Frame⦄, room d n fs < ρ → Sound c d n fs → ∀ ⦃m : Machine⦄,
    Stands c d n fs m → ∀ f args name, Ends (m.go (.invoke f args name))

/-- Before the end of a statement is handed on, an instruction is counted. -/
theorem ends_next (hfalls : Falls d n (f :: fs)) (hrises : Rises d n (f :: fs))
    (hnext : ∀ c' < c, ∀ ⦃m : Machine⦄, Stands c' d n fs m → Ends (m.nextFrame f))
    (hm : Stands c d n (f :: fs) m) : Ends (m.go .next) := by
  refine hm.ends_counted rfl hfalls hrises fun c' hlt {m} hm _ => ?_
  show Ends ((m.go .next).withFrame nextFrame (.ok []))
  rw [withFrame_go hm.frames]
  exact hnext c' hlt (hm.pop _)

/-- Frames are sound if the innermost one ends with every outcome. -/
theorem Sound.cons (hfalls : Falls d n (f :: fs)) (hrises : Rises d n (f :: fs))
    (hgive : ∀ ⦃m : Machine⦄, Stands c d n fs m → ∀ vs, Ends (m.giveFrame f vs))
    (hnext : ∀ c' < c, ∀ ⦃m : Machine⦄, Stands c' d n fs m → Ends (m.nextFrame f))
    (hleave : ∀ ⦃m : Machine⦄, Stands c d n fs m → ∀ x, Ends (m.leaveFrame f x))
    (htail : ∀ ⦃saved : Activation⦄ ⦃rest : List Frame⦄, tailFrames? (f :: fs) = some (saved, rest) →
      ∀ ⦃m : Machine⦄, Stands c saved.depth n rest m → ∀ a args name,
        Ends (m.go (.invoke (.function a) args name)))
    (hclose : ∀ ⦃g : StatFrame⦄, f = .stat g → ∀ ⦃m : Machine⦄ ⦃v : Val⦄,
      Stands c d n (.stat g :: .toClose v :: fs) m → Ends (m.go .next)) : Sound c d n (f :: fs) where
  falls := hfalls
  gives _ hm vs := by
    refine hm.ends_quiet rfl fun {m} hm _ => ?_
    show Ends ((m.go (.give vs)).withFrame (fun m f => m.giveFrame f vs) (.ok vs))
    rw [withFrame_go hm.frames]
    exact hgive (hm.pop _) vs
  nexts _ hm := ends_next hfalls hrises hnext hm
  leaves _ hm x := by
    refine hm.ends_quiet rfl fun {m} hm _ => ?_
    show Ends ((m.go (.leave x)).withFrame (fun m f => m.leaveFrame f x) (.ok []))
    rw [withFrame_go hm.frames]
    exact hleave (hm.pop _) x
  tails := htail
  closes _ _ hfs _ _ hm := by
    cases hfs
    exact hclose rfl hm

/-! ### Frames that hand on what they are handed -/

/-- A frame that is no part of a function's text takes the end of a statement, or of a block, for values. -/
theorem Sound.answering (hfalls : Falls d n (f :: fs)) (hrises : Rises d n (f :: fs))
    (hgive : ∀ ⦃m : Machine⦄, Stands c d n fs m → ∀ vs, Ends (m.giveFrame f vs))
    (hnext : ∀ m : Machine, m.nextFrame f = m.giveFrame f [])
    (hleave : ∀ (m : Machine) x, ∃ vs, m.leaveFrame f x = m.giveFrame f vs)
    (htail : ∀ ⦃saved : Activation⦄ ⦃rest : List Frame⦄, tailFrames? (f :: fs) = some (saved, rest) →
      ∀ ⦃m : Machine⦄, Stands c saved.depth n rest m → ∀ a args name,
        Ends (m.go (.invoke (.function a) args name)))
    (hstat : ∀ g, f ≠ .stat g) : Sound c d n (f :: fs) := by
  refine .cons hfalls hrises hgive ?_ ?_ htail fun g hf => absurd hf (hstat g)
  · intro c' hlt m hm
    rw [hnext]
    exact hgive (hm.mono (Nat.le_of_lt hlt)) []
  · intro m hm x
    obtain ⟨vs, hvs⟩ := hleave m x
    rw [hvs]
    exact hgive hm vs

/-- An error that comes upon a function that errors go through leaves it. -/
theorem Falls.handling {saved : Activation} (h : Falls saved.depth (n - 1) fs) :
    Falls d n (.handling saved :: fs) :=
  .cons fun _ _ hm e => h (hm.back saved) e

/-- What a function gives that an error goes through is the error from then on. -/
theorem Sound.handling {saved : Activation} (hfalls : Falls saved.depth (n - 1) fs)
    (hrises : Rises d n (.handling saved :: fs)) : Sound c d n (.handling saved :: fs) := by
  refine .answering hfalls.handling hrises ?_ (fun _ => rfl) ?_ ?_ ?_
  · exact fun _ hm vs => hfalls (hm.back saved) _
  · exact fun _ x => by cases x <;> exact ⟨_, rfl⟩
  · exact fun _ _ htail => by cases htail
  · exact fun _ hstat => by cases hstat

/-- An error that is raised goes through a function that is set for it, and then on. -/
theorem rises (hcalls : Calls ρ) (hroom : room d n fs ≤ ρ) (hfalls : Falls d n fs) : Rises d n fs := by
  induction hr : room d n fs using Nat.strongRecOn generalizing n fs with
  | ind r ih =>
  intro c m hm e
  refine hm.ends_quiet rfl fun {m} hm _ => ?_
  show Ends ((m.go (.raise e)).raise e)
  unfold raise
  split
  · exact hfalls (hm.go _) e
  · split
    · exact hfalls (hm.go _) e
    · rename_i h k hhandler
      split
      · exact hfalls (hm.go _) _
      · rename_i hfew
        have hhandlers : handlers fs = k := by
          rw [← hm.frames]
          exact congrArg Prod.snd hhandler
        have hlt := room_handling (d := d) (n := n) m.act (by omega : handlers fs < maxHandlers)
        have hfalls' : Falls m.act.depth n fs := by rwa [hm.depth]
        have hrises := ih _ (hr ▸ hlt) (Nat.le_trans (Nat.le_of_lt hlt) hroom) hfalls'.handling rfl
        have hsound : Sound c d (n + 1) (.handling m.act :: fs) := .handling hfalls' hrises
        have hcall := hcalls (Nat.lt_of_lt_of_le hlt hroom) hsound (hm.nest _) h [e.value] none
        exact hcall

/-! ### Routines -/

theorem ends_complain (hfalls : Falls d n fs) (hrises : Rises d n fs) (hm : Stands c d n fs m)
    (who : Performer) (x : Complaint) : Ends (m.complain who x) := by
  unfold complain
  split
  · exact hfalls hm _
  all_goals first | exact hrises hm _ | exact hrises (hm.atLine _) _

/-- An error leaves a built-in function at work. -/
theorem Falls.routine {rest : List Val → Heap → Stage (List Val)} {who : Performer}
    (h : Falls d (n - 1) fs) : Falls d n (.routine rest who :: fs) :=
  .cons fun _ _ hm e => h hm.out e

/-- A built-in function at work goes on with what it is handed. -/
theorem Sound.routine {rest : List Val → Heap → Stage (List Val)} {who : Performer}
    (hfalls : Falls d (n - 1) fs) (hrises : Rises d n (.routine rest who :: fs))
    (hrest : ∀ ⦃m : Machine⦄, Stands c d (n - 1) fs m → ∀ vs, Ends (m.perform who (rest vs))) :
    Sound c d n (.routine rest who :: fs) := by
  refine .answering hfalls.routine hrises ?_ (fun _ => rfl) ?_ ?_ ?_
  · exact fun _ hm vs => hrest hm.out vs
  · exact fun _ x => by cases x <;> exact ⟨_, rfl⟩
  · exact fun _ _ htail => by cases htail
  · exact fun _ hstat => by cases hstat

/-- A routine ends on sound frames, by induction on the stages that it goes through. -/
theorem ends_perform (hcalls : Calls ρ) (hroom : room d n fs ≤ ρ) (hs : Sound c d n fs)
    (hm : Stands c d n fs m) (who : Performer) (r : Routine (List Val)) : Ends (m.perform who r) := by
  have hrises := rises hcalls hroom hs.falls
  generalize hstage : r m.heap = stage
  induction stage generalizing m r with
  | done vs heap =>
    simp only [perform, hstage]
    have hm' : Stands c d n fs { m with
        heap, meter := { m.meter with spent := m.meter.spent + (heap.used - m.heap.used) / 64 } } :=
      hm.of_budget rfl hm.frames rfl rfl
    exact hs.gives hm' vs
  | complain x heap =>
    simp only [perform, hstage, settle]
    exact ends_complain hs.falls hrises ((hm.withHeap heap).go .next) who x
  | call g args heap rest ih =>
    simp only [perform, hstage, settle]
    -- The line of an operation is noted before its metamethod is called.
    have hcall (act : Activation) (hact : act.depth = m.act.depth) (name : Option Naming) :
        Ends (if m.nesting ≥ maxNesting then
            complain { m with heap, act, control := .next } who (.operation "C stack overflow")
          else
            { m with
              heap, act
              frames := .routine rest who :: m.frames
              nesting := m.nesting + 1
              control := .invoke g args name }) := by
      have hm' : Stands c d n fs { m with heap, act, control := .next } :=
        hm.of_budget rfl hm.frames hact rfl
      split
      · exact ends_complain hs.falls hrises hm' who _
      · have hlt : room d (n + 1) (.routine rest who :: fs) < room d n fs :=
          room_nested (by rw [← hm.nesting]; omega) _
        have hsound : Sound c d (n + 1) (.routine rest who :: fs) := by
          have hle := Nat.le_of_lt (Nat.lt_of_lt_of_le hlt hroom)
          exact .routine hs.falls (rises hcalls hle hs.falls.routine) fun m hm vs => ih vs m.heap hm _ rfl
        exact hcalls (Nat.lt_of_lt_of_le hlt hroom) hsound (hm'.nest _) g args name
    cases who with
    | operation o => exact hcall { m.act with line := o.line } rfl (some ("metamethod", o.event))
    | builtin b name => exact hcall m.act rfl none

/-! ### Protected calls -/

/-- While an abort is recorded, what a protected call would give is passed over. -/
theorem ends_guard (hrises : Rises d n fs) (hm : Stands c d n fs m) (vs : List Val) : Ends (m.guard vs) := by
  unfold guard
  split
  · exact hrises hm _
  · exact absurd ‹_› hm.aborted

theorem Falls.protect {h : Option Val} {saved : Activation} (hrises : Rises saved.depth (n - 1) fs) :
    Falls d n (.protect h saved :: fs) :=
  .cons fun _ _ hm _ => ends_guard hrises (hm.back saved) _

theorem Sound.protect {h : Option Val} {saved : Activation} (hback : Rises saved.depth (n - 1) fs)
    (hrises : Rises d n (.protect h saved :: fs)) : Sound c d n (.protect h saved :: fs) := by
  refine .answering (.protect hback) hrises ?_ (fun _ => rfl) ?_ ?_ ?_
  · exact fun _ hm vs => ends_guard hback (hm.back saved) _
  · exact fun _ x => by cases x <;> exact ⟨_, rfl⟩
  · exact fun _ _ htail => by cases htail
  · exact fun _ hstat => by cases hstat

/-! ### Callers -/

theorem Falls.caller {saved : Activation} (h : Falls saved.depth n fs) : Falls d n (.caller saved :: fs) :=
  .cons fun _ _ hm e => h (hm.returned saved) e

theorem Sound.caller {saved : Activation} (h : Sound c saved.depth n fs)
    (hrises : Rises d n (.caller saved :: fs))
    (hcall : ∀ ⦃m : Machine⦄, Stands c saved.depth n fs m → ∀ a args name,
      Ends (m.go (.invoke (.function a) args name))) : Sound c d n (.caller saved :: fs) := by
  refine .answering h.falls.caller hrises ?_ (fun _ => rfl) ?_ ?_ ?_
  · exact fun _ hm vs => h.gives (hm.returned saved) vs
  · exact fun _ x => by cases x <;> exact ⟨_, rfl⟩
  · intro saved' rest htail
    cases htail
    exact hcall
  · exact fun _ hstat => by cases hstat

/-! ### Variables that are closed -/

theorem Falls.closed {after : Resumption} (h : Falls d n fs) : Falls d n (.closed after :: fs) :=
  .cons fun _ _ hm e => h hm e

theorem Sound.closed {after : Resumption} (hcalls : Calls ρ) (hroom : room d n fs ≤ ρ) (hfalls : Falls d n fs)
    (hafter : ∀ ⦃m : Machine⦄, Stands c d n fs m → Ends (m.continueWith after)) :
    Sound c d n (.closed after :: fs) := by
  refine .answering hfalls.closed (rises hcalls hroom hfalls.closed) ?_ (fun _ => rfl) ?_ ?_ ?_
  · exact fun _ hm _ => hafter hm
  · exact fun _ x => ⟨[], by cases x <;> rfl⟩
  · exact fun _ _ htail => by cases htail
  · exact fun _ hstat => by cases hstat

/-- The function that closes a variable is called, and then it goes on. -/
theorem ends_closeVariable (hcalls : Calls ρ) (hroom : room d n fs < ρ) (hfalls : Falls d n fs)
    {after : Resumption} (hafter : ∀ ⦃m : Machine⦄, Stands c d n fs m → Ends (m.continueWith after))
    (hm : Stands c d n fs m) (v e : Val) : Ends (m.closeVariable v e after) := by
  have hsound : Sound c d n (.closed after :: fs) := .closed hcalls (Nat.le_of_lt hroom) hfalls hafter
  have hroom' : room d n (.closed after :: fs) < ρ := hroom
  exact hcalls hroom' hsound (hm.push _) _ _ _

theorem Falls.toClose (hcalls : Calls ρ) (hroom : room d n fs < ρ) (h : Falls d n fs) (v : Val) :
    Falls d n (.toClose v :: fs) := by
  refine .cons fun c m hm e => ?_
  have hafter ⦃m : Machine⦄ (hm : Stands c d n fs m) : Ends (m.continueWith (.unwind e)) := h hm e
  exact ends_closeVariable hcalls hroom h hafter hm v e.value

end ScriptHost.Lua.Machine
