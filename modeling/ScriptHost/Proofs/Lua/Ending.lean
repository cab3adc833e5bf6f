import ScriptHost.Proofs.Lua.Budget

/-! How machines come to an end. While a machine works the host may tell it to end at any time, and answers
the calls of its functions in any way. A machine ends if it halts whatever the host does. -/

namespace ScriptHost.Lua.Machine

variable {m m' : Machine} {message : String}

/-! ### The host -/

/-- The machine after the host may have told it to end. -/
def told (m : Machine) (stop : Bool) : Machine :=
  { m with meter := { m.meter with cancelled := m.meter.cancelled || stop } }

/-- What happens next: the machine takes a step, or its question is answered. -/
def advance (m : Machine) (stop : Bool) (r : Except String Val) : Machine :=
  match m.control with
  | .ask _ _ => (m.told stop).answer r
  | .halt _ => m
  | _ => (m.told stop).beat

/-- What becomes of a machine with a host that gives these signals and answers one after another. -/
def course (m : Machine) (host : Nat → Bool × Except String Val) : Nat → Machine
  | 0 => m
  | n + 1 => (m.course host n).advance (host n).1 (host n).2

theorem course_succ (m : Machine) (host : Nat → Bool × Except String Val) (n : Nat) :
    m.course host (n + 1) = (m.advance (host 0).1 (host 0).2).course (fun n => host (n + 1)) n := by
  induction n with
  | zero => rfl
  | succ n ih =>
    rw [course, ih]
    rfl

theorem advance_aborted (h : m.meter.aborted = some message) (stop : Bool) (r : Except String Val) :
    (m.advance stop r).meter.aborted = some message := by
  unfold advance
  split
  · exact (answer_aborted r).trans h
  · exact h
  · exact beat_aborted h

theorem course_add (m : Machine) (host : Nat → Bool × Except String Val) (k n : Nat) :
    m.course host (k + n) = (m.course host k).course (fun i => host (k + i)) n := by
  induction n with
  | zero => rfl
  | succ n ih =>
    show (m.course host (k + n)).advance _ _ = _
    rw [ih]
    rfl

theorem isStopped_eq_false (hask : ∀ f args, m.control ≠ .ask f args) (hhalt : ∀ r, m.control ≠ .halt r) :
    m.isStopped = false := by
  unfold isStopped
  split
  · exact absurd ‹_› (hask _ _)
  · exact absurd ‹_› (hhalt _)
  · rfl

theorem advance_of_not_isStopped (h : m.isStopped = false) (stop : Bool) (r : Except String Val) :
    m.advance stop r = (m.told stop).beat := by
  unfold isStopped at h
  unfold advance
  split
  · simp_all
  · simp_all
  · rfl

/-- Before a machine goes on, memory and budget may be looked at, and an error raised instead. -/
theorem step_cases (m : Machine) :
    ∃ heap meter, (meter = m.meter ∨ meter = (m.meter.tick m.running.isEmpty m.isProgram).1) ∧
      (m.step = { m with heap, meter }.carryOn ∨
        ∃ e, m.step = { m with heap, meter }.go (.raise e) ∨ m.step = { m with heap, meter }.go (.unwind e)) := by
  obtain ⟨used, hused⟩ := exists_measured m
  unfold step
  split
  · dsimp only
    rw [hused]
    split
    · exact ⟨{ m.heap with used }, m.meter, .inl rfl, .inr ⟨_, .inr rfl⟩⟩
    · split
      · exact ⟨{ m.heap with used }, _, .inr rfl, .inr ⟨_, .inl rfl⟩⟩
      · exact ⟨{ m.heap with used }, _, .inr rfl, .inl rfl⟩
  · exact ⟨m.heap, m.meter, .inl rfl, .inl rfl⟩

theorem tick_watched (t : Meter) (isMain isProgram : Bool) :
    (t.tick isMain isProgram).1.watched = t.watched := by
  unfold Meter.tick
  dsimp only
  split
  · rfl
  · split
    · split <;> rfl
    · rfl

theorem step_watched (m : Machine) : m.step.meter.watched = m.meter.watched := by
  have hcarry (m : Machine) : m.carryOn.meter.watched = m.meter.watched := by
    show m.carryOn.budget.1.watched = m.budget.1.watched
    rw [carryOn_budget]
  obtain ⟨heap, meter, hmeter, hstep⟩ := step_cases m
  have hsame : meter.watched = m.meter.watched := by
    rcases hmeter with rfl | rfl
    · rfl
    · exact tick_watched _ _ _
  rcases hstep with h | ⟨e, h | h⟩ <;> rw [h]
  · exact (hcarry _).trans hsame
  · exact hsame
  · exact hsame

theorem beat_watched (m : Machine) : m.beat.meter.watched = m.meter.watched := by
  unfold beat
  split
  · rfl
  · rw [goBack_meter]
    exact step_watched m
  · exact step_watched m

theorem advance_watched (m : Machine) (stop : Bool) (r : Except String Val) :
    (m.advance stop r).meter.watched = m.meter.watched := by
  unfold advance
  split
  · cases r <;> rfl
  · rfl
  · exact beat_watched _

theorem isProgram_of_isFinalizing_eq_false (h : m.isFinalizing = false) : m.isProgram = true := by
  simpa using (Bool.or_eq_false_iff.1 h).1

/-- Where no finalizer is at work or comes next, the program takes a step. -/
theorem beat_of_isFinalizing_eq_false (h : m.isFinalizing = false) : m.beat = m.step := by
  have hprogram := isProgram_of_isFinalizing_eq_false h
  have hdue := (Bool.or_eq_false_iff.1 h).2
  unfold beat
  split
  · rename_i hsome
    simp [hsome] at hdue
  · rename_i hamid
    simp [isProgram, hamid] at hprogram
  · rfl

theorem step_finalizing (m : Machine) : m.step.finalizing = m.finalizing := by
  have hcarry (m : Machine) : m.carryOn.finalizing = m.finalizing := congrArg Prod.snd m.carryOn_budget
  obtain ⟨heap, meter, -, h | ⟨e, h | h⟩⟩ := step_cases m <;> rw [h]
  · exact hcarry _
  · rfl
  · rfl

/-- A machine that has not been given up. Where a finalizer has interrupted the program, the program has not
halted. -/
def IsKept (m : Machine) : Prop :=
  m.finalizing = .no ∨ (∃ p, m.finalizing = .amid p) ∧ ∀ r, m.control ≠ .halt r

theorem IsKept.told (h : m.IsKept) (stop : Bool) : (m.told stop).IsKept := h

theorem IsKept.beat (h : m.IsKept) : m.beat.IsKept := by
  unfold Machine.beat
  split
  · exact .inr ⟨⟨_, rfl⟩, nofun⟩
  · rename_i p _ hamid
    unfold goBack
    split
    · exact .inl rfl
    · rename_i hgoes
      exact .inr ⟨⟨p, (step_finalizing m).trans hamid⟩, fun r => hgoes r⟩
  · rename_i hother
    refine .inl ((step_finalizing m).trans (h.resolve_right fun hamid => ?_))
    obtain ⟨p, hp⟩ := hamid.1
    exact hother p hp

theorem IsKept.advance (h : m.IsKept) (stop : Bool) (r : Except String Val) : (m.advance stop r).IsKept := by
  unfold Machine.advance
  split
  · cases r <;> exact h.imp_right fun hamid => ⟨hamid.1, nofun⟩
  · exact h
  · exact (h.told stop).beat

theorem IsKept.course (h : m.IsKept) (host : Nat → Bool × Except String Val) (n : Nat) :
    (m.course host n).IsKept := by
  induction n with
  | zero => exact h
  | succ n ih => exact ih.advance _ _

/-- Where the program has halted, no finalizer is at work. -/
theorem IsKept.isFinalizing_of_halt {r : Except Thrown (List Val)} (h : m.IsKept) (hhalt : m.control = .halt r) :
    m.isFinalizing = false := by
  have hno : m.finalizing = .no := h.resolve_right fun hamid => hamid.2 r hhalt
  simp [isFinalizing, isProgram, due?, isInstruction, Control.isInstruction, hno, hhalt]

/-! ### Where a machine comes -/

/-- What a machine may become, whatever the host does. -/
inductive Along (m : Machine) : Machine → Prop
  | stays : Along m m
  | told {m' : Machine} (stop : Bool) : Along m m' → Along m (m'.told stop)
  | advance {m' : Machine} (stop : Bool) (r : Except String Val) : Along m m' → Along m (m'.advance stop r)

theorem told_false (m : Machine) : m.told false = m := by
  unfold told
  rw [Bool.or_false]

theorem told_told (m : Machine) (a b : Bool) : (m.told a).told b = m.told (a || b) := by
  unfold told
  rw [Bool.or_assoc]

theorem told_advance (hgoes : ∀ r, m.control ≠ .halt r) (a b : Bool) (r : Except String Val) :
    (m.told a).advance b r = m.advance (a || b) r := by
  have hcontrol : (m.told a).control = m.control := rfl
  unfold advance
  rw [hcontrol, told_told]
  split
  · rfl
  · exact absurd ‹_› (hgoes _)
  · rfl

theorem Along.trans {m'' : Machine} (h : Along m m') (h' : Along m' m'') : Along m m'' := by
  induction h' with
  | stays => exact h
  | told stop _ ih => exact ih.told stop
  | advance stop r _ ih => exact ih.advance stop r

theorem along_course (m : Machine) (host : Nat → Bool × Except String Val) (n : Nat) :
    Along m (m.course host n) := by
  induction n with
  | zero => exact .stays
  | succ n ih => exact ih.advance _ _

theorem along_run (m : Machine) (n : Nat) : Along m (m.run n) := by
  induction n generalizing m with
  | zero => exact .stays
  | succ n ih =>
    unfold run
    split
    · exact .stays
    · rename_i hstopped
      have hadvance := advance_of_not_isStopped (Bool.eq_false_iff.2 hstopped) false (.ok .nil)
      rw [told_false] at hadvance
      exact (hadvance ▸ Along.advance false (.ok .nil) .stays).trans (ih m.beat)

theorem Along.watched (h : Along m m') : m'.meter.watched = m.meter.watched := by
  induction h with
  | stays => rfl
  | told _ _ ih => exact ih
  | advance _ _ _ ih => exact (advance_watched _ _ _).trans ih

theorem course_congr {host host' : Nat → Bool × Except String Val} {n : Nat}
    (h : ∀ i < n, host i = host' i) : m.course host n = m.course host' n := by
  induction n with
  | zero => rfl
  | succ n ih =>
    rw [course, course, ih fun i hi => h i (Nat.lt_succ_of_lt hi), h n (Nat.lt_succ_self n)]

/-- Whatever a machine becomes, it does so in some course of it. -/
theorem Along.exists_course (h : Along m m') : ∃ host n stop, m' = (m.course host n).told stop := by
  induction h with
  | stays => exact ⟨fun _ => (false, .ok .nil), 0, false, (told_false m).symm⟩
  | told stop _ ih =>
    obtain ⟨host, n, a, rfl⟩ := ih
    exact ⟨host, n, a || stop, told_told _ a stop⟩
  | advance stop r _ ih =>
    obtain ⟨host, n, a, rfl⟩ := ih
    by_cases hhalt : ∃ r, (m.course host n).control = .halt r
    · obtain ⟨result, hresult⟩ := hhalt
      have hcontrol : ((m.course host n).told a).control = .halt result := hresult
      exact ⟨host, n, a, by simp only [Machine.advance, hcontrol]⟩
    · let host' := fun i => if i < n then host i else (a || stop, r)
      refine ⟨host', n + 1, false, ?_⟩
      have hsame : m.course host' n = m.course host n := course_congr fun i hi => if_pos hi
      have hlast : host' n = (a || stop, r) := if_neg (Nat.lt_irrefl n)
      rw [told_false, course, hsame, hlast, told_advance fun r hr => hhalt ⟨r, hr⟩]

/-! ### Machines that end -/

/-- Whatever the host does, the machine halts, unless it goes on with a coroutine or a finalizer comes. -/
inductive Ends : Machine → Prop
  | halts {m : Machine} {r : Except Thrown (List Val)} : m.control = .halt r → Ends m
  | resumes {m : Machine} : m.running ≠ [] → Ends m
  | finalizes {m : Machine} : m.isFinalizing = true → Ends m
  | goes {m : Machine} : (∀ stop r, Ends (m.advance stop r)) → Ends m

theorem Ends.exists_course (h : Ends m) (host : Nat → Bool × Except String Val) :
    ∃ n, (∃ r, (m.course host n).control = .halt r) ∨ (m.course host n).running ≠ [] ∨
      (m.course host n).isFinalizing = true := by
  induction h generalizing host with
  | halts hcontrol => exact ⟨0, .inl ⟨_, hcontrol⟩⟩
  | resumes hrunning => exact ⟨0, .inr (.inl hrunning)⟩
  | finalizes hfinalizing => exact ⟨0, .inr (.inr hfinalizing)⟩
  | goes _ ih =>
    obtain ⟨n, hn⟩ := ih (host 0).1 (host 0).2 fun n => host (n + 1)
    exact ⟨n + 1, by rwa [course_succ]⟩

/-- An invocation that has ended with an abort on record has failed. -/
theorem result?_of_halt {r : Except Thrown (List Val)} (haborted : m.meter.aborted = some message)
    (hhalt : m.control = .halt r) : ∃ e, m.result? = some (.error e) := by
  cases r with
  | ok vs => exact ⟨⟨.failure message, false⟩, by simp only [result?, hhalt, haborted]⟩
  | error e => exact ⟨e, by simp only [result?, hhalt]⟩

theorem course_aborted (haborted : m.meter.aborted = some message) (host : Nat → Bool × Except String Val)
    (n : Nat) : (m.course host n).meter.aborted = some message := by
  induction n with
  | zero => exact haborted
  | succ n ih => exact advance_aborted ih _ _

theorem course_of_halt {r : Except Thrown (List Val)} (hhalt : m.control = .halt r)
    (host : Nat → Bool × Except String Val) (n : Nat) : m.course host n = m := by
  induction n with
  | zero => rfl
  | succ n ih => simp only [course, ih, advance, hhalt]

/-- If its machine ends, an invocation on which an abort is recorded fails, and that is the end of it. -/
theorem Ends.fails (h : Ends m) (haborted : m.meter.aborted = some message)
    (host : Nat → Bool × Except String Val) (halone : ∀ n, (m.course host n).running = [])
    (hcalm : ∀ n, (m.course host n).isFinalizing = false) :
    ∃ e n, ∀ k, (m.course host (n + k)).result? = some (.error e) := by
  obtain ⟨n, ⟨r, hr⟩ | hrunning | hfinalizing⟩ := h.exists_course host
  · obtain ⟨e, he⟩ := result?_of_halt (course_aborted haborted host n) hr
    exact ⟨e, n, fun k => by rw [course_add, course_of_halt hr, he]⟩
  · exact absurd (halone n) hrunning
  · rw [hcalm n] at hfinalizing
    cases hfinalizing

/-! ### Where a machine stands -/

/-- The frames of a machine, how deep its calls are nested, and how many instructions are left at most
before its budget is looked at. An abort is recorded. -/
structure Stands (c d n : Nat) (frames : List Frame) (m : Machine) : Prop where
  frames : m.frames = frames
  depth : m.act.depth = d
  nesting : m.nesting = n
  aborted : m.meter.aborted ≠ none
  watched : m.meter.watched = true
  left : m.meter.interval ≤ m.meter.count + 1 + c

variable {c c' d n : Nat} {fs gs : List Frame} {f : Frame}

namespace Stands

theorem of_budget (h : Stands c d n fs m) (hbudget : m'.budget = m.budget) (hframes : m'.frames = gs)
    (hdepth : m'.act.depth = m.act.depth) (hnesting : m'.nesting = m.nesting) :
    Stands c d n gs m' := by
  have hfield {α : Type} (g : Meter → α) (hg : ∀ t : Meter, g { t with spent := 0 } = g t) :
      g m'.meter = g m.meter := by
    rw [← hg, ← hg m.meter]
    exact congrArg (fun b => g b.1) hbudget
  refine ⟨hframes, hdepth.trans h.depth, hnesting.trans h.nesting, ?_, ?_, ?_⟩
  · rw [hfield Meter.aborted fun _ => rfl]
    exact h.aborted
  · rw [hfield Meter.watched fun _ => rfl]
    exact h.watched
  · rw [hfield Meter.interval fun _ => rfl, hfield Meter.count fun _ => rfl]
    exact h.left

theorem mono (h : Stands c' d n fs m) (hle : c' ≤ c) : Stands c d n fs m :=
  { h with left := Nat.le_trans h.left (by omega) }

theorem exists_aborted (h : Stands c d n fs m) : ∃ message, m.meter.aborted = some message :=
  Option.ne_none_iff_exists'.1 h.aborted

theorem go (h : Stands c d n fs m) (control : Control) : Stands c d n fs (m.go control) :=
  h.of_budget rfl h.frames rfl rfl

theorem push (h : Stands c d n fs m) (f : Frame) : Stands c d n (f :: fs) (m.push f) :=
  h.of_budget rfl (congrArg (f :: ·) h.frames) rfl rfl

theorem pop (h : Stands c d n (f :: fs) m) (control : Control) :
    Stands c d n fs { m with frames := fs, control } :=
  h.of_budget rfl rfl rfl rfl

theorem atLine (h : Stands c d n fs m) (line : Nat) : Stands c d n fs (m.atLine line) :=
  h.of_budget rfl h.frames rfl rfl

theorem keep (h : Stands c d n fs m) (k : Nat) : Stands c d n fs (m.keep k) :=
  h.of_budget rfl h.frames rfl rfl

theorem withHeap (h : Stands c d n fs m) (heap : Heap) : Stands c d n fs { m with heap } :=
  h.of_budget rfl h.frames rfl rfl

theorem bind (h : Stands c d n fs m) (vs : List Val) (k : Nat) : Stands c d n fs (m.bind vs k) := by
  induction k generalizing m vs with
  | zero => exact h
  | succ k ih =>
    unfold Machine.bind
    apply ih
    exact h.of_budget rfl h.frames rfl rfl

theorem setSlot (h : Stands c d n fs m) (i : Nat) (v : Val) : Stands c d n fs (m.setSlot i v) := by
  unfold Machine.setSlot
  split <;> exact h.of_budget rfl h.frames rfl rfl

theorem setPlace (h : Stands c d n fs m) (p : Place) (v : Val) : Stands c d n fs (m.setPlace p v) := by
  cases p with
  | «local» i => exact h.setSlot i v
  | upvalue i => exact h.withHeap _

theorem capture (h : Stands c d n fs m) (x : Capture) : Stands c d n fs (m.capture x).2 := by
  unfold Machine.capture
  split
  · split
    · exact h
    · exact h.of_budget rfl h.frames rfl rfl
    · exact h
  · exact h

theorem close (h : Stands c d n fs m) (body : FunctionBody) : Stands c d n fs (m.close body).2 := by
  have hfold (xs : List Capture) (start : Array Nat × Machine) (hs : Stands c d n fs start.2) :
      Stands c d n fs (xs.foldl (fun (acc : Array Nat × Machine) x =>
        (acc.1.push (acc.2.capture x).1, (acc.2.capture x).2)) start).2 := by
    induction xs generalizing start with
    | nil => exact hs
    | cons x xs ih => exact ih _ (hs.capture x)
  cases body
  exact (hfold _ (#[], m) h).withHeap _

/-- Back in the function that called. -/
theorem returned (h : Stands c d n fs m) (saved : Activation) :
    Stands c saved.depth n fs { m with act := saved } :=
  ⟨h.frames, rfl, h.nesting, h.aborted, h.watched, h.left⟩

/-- Out of a nested call. -/
theorem out (h : Stands c d n fs m) : Stands c d (n - 1) fs { m with nesting := m.nesting - 1 } :=
  ⟨h.frames, h.depth, congrArg (· - 1) h.nesting, h.aborted, h.watched, h.left⟩

/-- Out of a nested call, back to the function that made it. -/
theorem back (h : Stands c d n fs m) (saved : Activation) :
    Stands c saved.depth (n - 1) fs { m with act := saved, nesting := m.nesting - 1 } :=
  ⟨h.frames, rfl, congrArg (· - 1) h.nesting, h.aborted, h.watched, h.left⟩

/-- Into a nested call. -/
theorem nest (h : Stands c d n fs m) (f : Frame) :
    Stands c d (n + 1) (f :: fs) { m with frames := f :: m.frames, nesting := m.nesting + 1 } :=
  ⟨congrArg (f :: ·) h.frames, h.depth, congrArg (· + 1) h.nesting, h.aborted, h.watched, h.left⟩

end Stands

/-! ### Steps -/

/-- An error that comes upon these frames ends the machine in the end. -/
def Falls (d n : Nat) (fs : List Frame) : Prop :=
  ∀ ⦃c : Nat⦄ ⦃m : Machine⦄, Stands c d n fs m → ∀ e, Ends (m.go (.unwind e))

/-- So does an error that is raised on them. -/
def Rises (d n : Nat) (fs : List Frame) : Prop :=
  ∀ ⦃c : Nat⦄ ⦃m : Machine⦄, Stands c d n fs m → ∀ e, Ends (m.go (.raise e))

theorem Stands.told (h : Stands c d n fs m) (stop : Bool) : Stands c d n fs (m.told stop) :=
  ⟨h.frames, h.depth, h.nesting, h.aborted, h.watched, h.left⟩

/-- Counting an instruction either leads to a look at the budget, at which the abort is raised, or leaves
one instruction less. -/
theorem Stands.tick (h : Stands c d n fs m) {t : Meter} {abort : Option String}
    (htick : m.meter.tick true true = (t, abort)) :
    (∃ message c', abort = some message ∧ Stands c' d n fs { m with meter := t }) ∨
      abort = none ∧ ∃ c' < c, Stands c' d n fs { m with meter := t } := by
  obtain ⟨message, haborted⟩ := h.exists_aborted
  have hleft := h.left
  have hwatched := h.watched
  unfold Meter.tick at htick
  simp only [hwatched, Bool.and_true, Bool.not_true, Bool.false_eq_true, if_false, if_true] at htick
  split at htick
  · -- A look, at which the abort that is recorded stands.
    rw [Meter.look_of_aborted (by exact haborted)] at htick
    cases htick
    refine .inl ⟨message, m.meter.interval, rfl, h.frames, h.depth, h.nesting, ?_, rfl, ?_⟩
    · exact Option.some_ne_none message
    · exact Nat.le_add_left _ _
  · cases htick
    refine .inr ⟨rfl, c - 1, by omega, h.frames, h.depth, h.nesting, h.aborted, rfl, ?_⟩
    show m.meter.interval ≤ m.meter.count + 1 + 1 + (c - 1)
    omega

variable {x : Control}

theorem Ends.of_go (hx : m.control = x) (h : Ends (m.go x)) : Ends m := by
  subst hx
  exact h

/-- What does not count as an instruction is just gone on with. -/
theorem Stands.ends_quiet (h : Stands c d n fs m) (hquiet : (m.go x).isInstruction = false)
    (hrest : ∀ {m : Machine}, Stands c d n fs m → m.running = [] → Ends (m.go x).carryOn) :
    Ends (m.go x) := by
  by_cases hmain : m.running = []
  · cases hcalm : (m.go x).isFinalizing with
    | true => exact .finalizes hcalm
    | false =>
      have hbeat (stop : Bool) : Ends ((m.told stop).go x).beat := by
        rw [beat_of_isFinalizing_eq_false (by exact hcalm)]
        unfold step
        rw [if_neg (by exact Bool.eq_false_iff.1 hquiet)]
        exact hrest (h.told stop) hmain
      cases x with
      | ask | halt => exact hrest h hmain
      | _ => exact .goes fun stop r => hbeat stop
  · exact .resumes hmain

/-- Before an instruction the abort may be raised, or memory be short. -/
theorem Stands.ends_counted (h : Stands c d n fs m) (hcounts : (m.go x).isInstruction = true)
    (hfalls : Falls d n fs) (hrises : Rises d n fs)
    (hrest : ∀ c' < c, ∀ {m : Machine}, Stands c' d n fs m → m.running = [] → Ends (m.go x).carryOn) :
    Ends (m.go x) := by
  by_cases hmain : m.running = []
  · cases hcalm : (m.go x).isFinalizing with
    | true => exact .finalizes hcalm
    | false =>
      have hbeat (stop : Bool) : Ends ((m.told stop).go x).beat := by
        obtain ⟨m', hmeasured, hm, hx, hrun, hprogram⟩ : ∃ m',
            (if ((m.told stop).go x).isTight then ((m.told stop).go x).measure else (m.told stop).go x) = m' ∧
              Stands c d n fs m' ∧ m'.control = x ∧ m'.running = [] ∧ m'.isProgram = true := by
          obtain ⟨used, hused⟩ := exists_measured ((m.told stop).go x)
          exact ⟨_, hused, ((h.told stop).go x).withHeap _, rfl, hmain, isProgram_of_isFinalizing_eq_false hcalm⟩
        rw [beat_of_isFinalizing_eq_false (by exact hcalm)]
        unfold step
        rw [if_pos (by exact hcounts)]
        dsimp only
        rw [hmeasured]
        split
        · exact hfalls hm _
        · have hempty : m'.running.isEmpty = true := by rw [hrun]; rfl
          rcases htick : m'.meter.tick true true with ⟨t, abort⟩
          simp only [hempty, hprogram, htick]
          rcases hm.tick htick with ⟨message, c', rfl, hm'⟩ | ⟨rfl, c', hlt, hm'⟩
          · exact hrises hm' _
          · have hgo : { m' with meter := t } = ({ m' with meter := t } : Machine).go x := by
              rw [← hx]
              rfl
            rw [hgo]
            exact hrest c' hlt hm' hrun
      cases x with
      | ask | halt => cases hcounts
      | _ => exact .goes fun stop r => hbeat stop
  · exact .resumes hmain

theorem Stands.ends (h : Stands c d n fs m) (hfalls : Falls d n fs) (hrises : Rises d n fs)
    (hrest : ∀ {m : Machine}, Stands c d n fs m → m.running = [] → Ends (m.go x).carryOn) :
    Ends (m.go x) := by
  cases hcounts : (m.go x).isInstruction with
  | true => exact h.ends_counted hcounts hfalls hrises fun _ hlt _ hm => hrest (hm.mono (Nat.le_of_lt hlt))
  | false => exact h.ends_quiet hcounts hrest

end ScriptHost.Lua.Machine
