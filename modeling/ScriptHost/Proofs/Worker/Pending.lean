import ScriptHost.Proofs.Worker.Delivery

/-! The counter of pending events. Posts count up before they offer an event and down after it has been
refused, a worker counts down what it is done with, and at its end it sets the counter to zero. A post
that comes to count down only after that takes the counter below zero. -/

namespace ScriptHost.Worker

variable {w w' : Worker}

/-- What the counter should say of a worker: the startup or the event at hand, and those in the queue. -/
def due (w : Worker) : Nat :=
  match w.stage with
  | .fresh | .running _ => w.queue.length + 1
  | _ => w.queue.length

/-- The counter as a number without bounds, and how many posts counted when the worker set it to zero. -/
structure Tally where
  level : Int
  late : Nat

/-- What a turn of the worker makes of the tally while a number of posts count. -/
def Tally.turned (t : Tally) (before after : Worker) (counting : Nat) : Tally :=
  if !before.isFinished && after.isFinished then ⟨0, counting⟩
  else { t with level := t.level - (ended before after).length }

/-- How the tally agrees with the stage of the worker while a number of posts count. -/
def Tally.Fits (t : Tally) (w : Worker) (counting : Nat) : Prop :=
  match w.stage with
  | .fresh | .running _ | .idle => t.level = w.due + counting ∧ t.late = 0
  -- An event that was at hand, and what was in the queue, still count after they have been given up.
  | .closing _ => w.due + counting ≤ t.level ∧ t.late = 0
  | .leaving _ | .reported => counting ≤ t.level ∧ t.late = 0
  | .finished => t.level = counting - t.late

/-! ### Turns -/

theorem ofInt_sub_one (n : Int) : UInt64.ofInt (n - 1) = .ofInt n - 1 := by
  rw [Int.sub_eq_add_neg, UInt64.ofInt_add, UInt64.ofInt_neg_one, UInt64.sub_eq_add_neg]

theorem toNat_ofInt {n : Nat} (h : n < UInt64.size) : (UInt64.ofInt n).toNat = n := by
  have hsize : UInt64.size = 18446744073709551616 := rfl
  simp only [UInt64.ofInt, UInt64.toNat_ofNat']
  omega

/-- A machine that is given up changes nothing about the counter. -/
theorem giveUp_pending (w : Worker) (outcome : ScriptStatus) : (w.giveUp outcome).pending = w.pending := by
  unfold giveUp
  split <;> rfl

theorem Tally.turned_of_stage (hstage : w'.stage = w.stage) (t : Tally) (n : Nat) : t.turned w w' n = t := by
  simp [turned, (nothing_of_stage hstage).2, isFinished, hstage]

theorem Tally.turned_giveUp (t : Tally) (w v : Worker) (outcome : ScriptStatus) (n : Nat) :
    t.turned w (v.giveUp outcome) n = t := by
  have hnothing : ended w (v.giveUp outcome) = [] := (nothing_of_over (giveUp_isOver v outcome)).2
  have hgoes : (v.giveUp outcome).isFinished = false := by
    unfold giveUp
    split <;> rfl
  simp [turned, hnothing, hgoes]

theorem Tally.fits_giveUp {t : Tally} {n : Nat} (hlevel : w.queue.length + n ≤ t.level) (hlate : t.late = 0)
    (outcome : ScriptStatus) : t.Fits (w.giveUp outcome) n := by
  unfold giveUp
  split
  · exact ⟨hlevel, hlate⟩
  · exact ⟨by omega, hlate⟩

/-- The counter goes the way of the tally. -/
theorem Turns.pending (h : Turns w w') {t : Tally} (hpending : w.pending = .ofInt t.level) (n : Nat) :
    w'.pending = .ofInt (t.turned w w' n).level := by
  have hdown : w.pending - 1 = .ofInt (t.level - 1) := by rw [hpending, ofInt_sub_one]
  cases h with
  | fails | leaves | wound =>
    rw [Tally.turned_giveUp, giveUp_pending]
    exact hpending
  | finishes hstage =>
    have hzero : (0 : UInt64) = .ofInt 0 := rfl
    simpa [Tally.turned, isFinished, hstage] using hzero
  | absent hstage | returned hstage =>
    simpa [Tally.turned, isFinished, hstage, ended, handled, countDown] using hdown
  | works | winds | waits | rests =>
    rw [Tally.turned_of_stage]
    · exact hpending
    · rfl
  | begins hstage | unfit hstage | ran hstage | found hstage | takes hstage | reports hstage =>
    simpa [Tally.turned, isFinished, hstage, ended, fault, leave, deliver] using hpending

theorem Turns.fits (h : Turns w w') {t : Tally} {n : Nat} (hfits : t.Fits w n) :
    (t.turned w w' n).Fits w' n := by
  have hkept (w' : Worker) (hstage : w'.stage = w.stage) (hqueue : w'.queue = w.queue) :
      (t.turned w w' n).Fits w' n := by
    rw [Tally.turned_of_stage hstage]
    unfold Tally.Fits at hfits ⊢
    simp only [due, hstage, hqueue] at hfits ⊢
    exact hfits
  unfold Tally.Fits at hfits
  cases h with
  | begins hstage | found hstage | ran hstage =>
    simp only [hstage] at hfits
    simpa [Tally.turned, Tally.Fits, isFinished, hstage, ended, deliver, due] using hfits
  | absent hstage | returned hstage =>
    simp only [hstage, due] at hfits
    have hlevel : t.level - 1 = w.queue.length + n := by omega
    simpa [Tally.turned, Tally.Fits, isFinished, hstage, ended, handled, countDown, due] using ⟨hlevel, hfits.2⟩
  | takes hstage _ hqueue =>
    simp only [hstage, due, hqueue] at hfits
    simpa [Tally.turned, Tally.Fits, isFinished, hstage, ended, deliver, due] using hfits
  | works | winds | waits | rests => exact hkept _ rfl rfl
  | fails hstage =>
    simp only [hstage, due] at hfits
    rw [Tally.turned_giveUp]
    exact Tally.fits_giveUp (by dsimp only; omega) hfits.2 _
  | leaves hstage =>
    simp only [hstage, due] at hfits
    rw [Tally.turned_giveUp]
    have htail : w.queue.tail.length ≤ w.queue.length := List.length_tail ▸ Nat.sub_le _ _
    exact Tally.fits_giveUp (by dsimp only; omega) hfits.2 _
  | wound hstage =>
    simp only [hstage, due] at hfits
    rw [Tally.turned_giveUp]
    exact Tally.fits_giveUp (by dsimp only; omega) hfits.2 _
  | unfit hstage =>
    simp only [hstage, due] at hfits
    have hlevel : (n : Int) ≤ t.level := by omega
    simpa [Tally.turned, Tally.Fits, isFinished, hstage, ended, fault, leave] using ⟨hlevel, hfits.2⟩
  | reports hstage =>
    simp only [hstage] at hfits
    simpa [Tally.turned, Tally.Fits, isFinished, hstage, ended] using hfits
  | finishes hstage => simp [Tally.turned, Tally.Fits, isFinished, hstage]

/-- While the worker is in the same stage, the tally has to follow what is due and what counts. -/
theorem Tally.Fits.of_same_stage {t t' : Tally} {n n' : Nat} (h : t.Fits w n) (hstage : w'.stage = w.stage)
    (hqueue : w.stage.HasLeft → w'.queue = w.queue) (hlate : t'.late = t.late)
    (hlevel : t'.level - (w'.due + n' : Int) = t.level - (w.due + n : Int)) : t'.Fits w' n' := by
  have hdue (hleft : w.stage.HasLeft) : w'.due = w.due := by
    have hlength := congrArg List.length (hqueue hleft)
    unfold due
    rw [hstage, hlength]
  unfold Tally.Fits at h ⊢
  rw [hstage, hlate]
  cases hw : w.stage with
  | fresh | running | idle | closing =>
    simp only [hw] at h
    refine ⟨?_, h.2⟩
    omega
  | leaving | reported =>
    simp only [hw] at h
    have hsame := hdue (hw ▸ by constructor)
    refine ⟨?_, h.2⟩
    omega
  | finished =>
    simp only [hw] at h
    have hsame := hdue (hw ▸ by constructor)
    show t'.level = _
    omega

/-! ### Posts -/

/-- Whether a post has counted up and not yet down. -/
def PostStage.counts : PostStage → Bool
  | .checked => false
  | .counted | .refused _ => true

/-- How many posts count. -/
def counting (posts : List (ScriptEvent × PostStage)) : Nat := posts.countP fun p => p.2.counts

section

variable {posts : List (ScriptEvent × PostStage)} {i : Nat} {p : ScriptEvent × PostStage}

theorem counting_set (h : posts[i]? = some p) (q : ScriptEvent × PostStage) :
    counting (posts.set i q) + p.2.counts.toNat = counting posts + q.2.counts.toNat := by
  obtain ⟨hi, hp⟩ := List.getElem?_eq_some_iff.1 h
  have hpos : p.2.counts = true → 0 < counting posts := by
    intro hcounts
    exact List.countP_pos_iff.2 ⟨p, hp ▸ List.getElem_mem hi, hcounts⟩
  unfold counting at hpos ⊢
  rw [List.countP_set hi, hp]
  cases hcounts : p.2.counts with
  | true =>
    have hsome := hpos hcounts
    cases q.2.counts <;> simp <;> omega
  | false => cases q.2.counts <;> simp

theorem counting_eraseIdx (h : posts[i]? = some p) :
    counting (posts.eraseIdx i) + p.2.counts.toNat = counting posts := by
  obtain ⟨hi, hp⟩ := List.getElem?_eq_some_iff.1 h
  have hsplit : posts = posts.take i ++ p :: posts.drop (i + 1) := by
    rw [← hp, List.getElem_cons_drop, List.take_append_drop]
  unfold counting
  rw [List.eraseIdx_eq_take_drop_succ]
  conv => rhs; rw [hsplit]
  rw [List.countP_append, List.countP_append, List.countP_cons]
  cases p.2.counts <;> simp <;> omega

end

/-! ### Moves -/

namespace Exchange

variable {x : Exchange} {t : Tally} {moves more : List Move}

/-- What a move makes of the tally. -/
def tallied (x : Exchange) (t : Tally) : Move → Tally
  | .proceed i =>
    match x.posts[i]? with
    | some (_, .checked) => { t with level := t.level + 1 }
    | some (_, .refused _) => { t with level := t.level - 1 }
    | _ => t
  | .work n s now => t.turned x.worker (x.worker.turn n s now) (counting x.posts)
  | _ => t

/-- The tally of a run. -/
def tally (x : Exchange) (t : Tally) : List Move → Tally
  | [] => t
  | move :: moves => (x.step move).tally (x.tallied t move) moves

/-- The counter is what the tally says, and the tally agrees with the stage of the worker. -/
structure Kept (x : Exchange) (t : Tally) : Prop where
  pending : x.worker.pending = .ofInt t.level
  fits : t.Fits x.worker (counting x.posts)

theorem Kept.proceed (h : Kept x t) (hclosed : x.worker.stage.HasLeft → x.worker.receiving = false)
    (i : Nat) : Kept (x.proceed i) (x.tallied t (.proceed i)) := by
  cases hpost : x.posts[i]? with
  | none =>
    simp only [Exchange.proceed, tallied, hpost]
    exact h
  | some p =>
    obtain ⟨e, stage⟩ := p
    have hset := counting_set hpost
    have herase := counting_eraseIdx hpost
    cases stage with
    | checked =>
      have hcounted := hset (e, .counted)
      simp only [PostStage.counts, Bool.toNat_true, Bool.toNat_false] at hcounted
      simp only [Exchange.proceed, tallied, hpost]
      constructor
      · simp [countUp, h.pending]
      · refine h.fits.of_same_stage rfl (fun _ => rfl) rfl ?_
        have hdue : x.worker.countUp.due = x.worker.due := rfl
        simp only [hdue]
        omega
    | counted =>
      simp only [PostStage.counts, Bool.toNat_true] at hset herase
      simp only [Exchange.proceed, tallied, hpost]
      split
      · rename_i hoffer
        obtain ⟨hreceiving, -, rfl⟩ := offer_eq_ok_iff.1 hoffer
        have hopen : ¬ x.worker.stage.HasLeft := by
          intro hleft
          rw [hclosed hleft] at hreceiving
          cases hreceiving
        have hdue : due { x.worker with queue := x.worker.queue ++ [e] } = x.worker.due + 1 := by
          unfold due
          dsimp only
          split <;> simp
        refine ⟨h.pending, h.fits.of_same_stage rfl (fun hleft => absurd hleft hopen) rfl ?_⟩
        simp only [answer, hdue]
        omega
      · rename_i r _
        have hrefused := hset (e, .refused r)
        simp only [Bool.toNat_true] at hrefused
        refine ⟨h.pending, h.fits.of_same_stage rfl (fun _ => rfl) rfl ?_⟩
        simp only
        omega
    | refused r =>
      simp only [PostStage.counts, Bool.toNat_true] at herase
      simp only [Exchange.proceed, tallied, hpost]
      constructor
      · simp [answer, countDown, h.pending, ofInt_sub_one]
      · refine h.fits.of_same_stage rfl (fun _ => rfl) rfl ?_
        have hdue : x.worker.countDown.due = x.worker.due := rfl
        simp only [answer, hdue]
        omega

theorem Kept.step (h : Kept x t) (hfit : x.worker.Fit)
    (hclosed : x.worker.stage.HasLeft → x.worker.receiving = false) (move : Move) :
    Kept (x.step move) (x.tallied t move) := by
  cases move with
  | post e =>
    simp only [Exchange.step]
    split
    · exact ⟨h.pending, h.fits⟩
    · refine ⟨h.pending, ?_⟩
      have hcounting : counting (x.posts ++ [(e, .checked)]) = counting x.posts := by
        simp [counting, PostStage.counts]
      rw [hcounting]
      exact h.fits
  | proceed i => exact h.proceed hclosed i
  | cancel | hangUp => exact ⟨h.pending, h.fits⟩
  | work n s now =>
    have hturn := turn_turns hfit n s now
    exact ⟨hturn.pending h.pending _, hturn.fits h.fits⟩

/-! ### Runs -/

variable {unit : CompiledUnit} {context : ScriptContext}

theorem tally_append (x : Exchange) (t : Tally) (moves more : List Move) :
    x.tally t (moves ++ more) = (x.run moves).tally (x.tally t moves) more := by
  induction moves generalizing x t with
  | nil => rfl
  | cons move moves ih => exact ih (x.step move) (x.tallied t move)

theorem Kept.run (h : Kept x t) (hsound : Sound unit context x) (moves : List Move) :
    Kept (x.run moves) (x.tally t moves) := by
  induction moves generalizing x t with
  | nil => exact h
  | cons move moves ih =>
    have hstep := h.step hsound.fit hsound.closed move
    exact ih hstep (hsound.moves (step_moves hsound.fit move))

theorem kept_start (unit : CompiledUnit) (context : ScriptContext) (functions : List String)
    (handle : Handle) (limits : WorkerLimits) :
    Kept (start (spawn unit context functions handle limits)) ⟨1, 0⟩ :=
  ⟨rfl, rfl, rfl⟩

/-- Posts are late only for a worker that has finished. -/
theorem Kept.finished_of_late (h : Kept x t) (hlate : t.late ≠ 0) : x.worker.stage = .finished := by
  have hfits := h.fits
  unfold Tally.Fits at hfits
  cases hstage : x.worker.stage with
  | finished => rfl
  | fresh | running | idle | closing | leaving | reported =>
    simp only [hstage] at hfits
    exact absurd hfits.2 hlate

/-- Which posts are late is settled once and for all. -/
theorem Kept.late_tallied (h : Kept x t) (hlate : t.late ≠ 0) (move : Move) :
    (x.tallied t move).late = t.late := by
  have hfinished := h.finished_of_late hlate
  cases move with
  | proceed i =>
    simp only [tallied]
    split <;> rfl
  | work n s now => simp [tallied, Tally.turned, isFinished, hfinished]
  | post | cancel | hangUp => rfl

theorem Kept.late_tally (h : Kept x t) (hsound : Sound unit context x) (hlate : t.late ≠ 0)
    (moves : List Move) : (x.tally t moves).late = t.late := by
  induction moves generalizing x t with
  | nil => rfl
  | cons move moves ih =>
    have hstep := h.step hsound.fit hsound.closed move
    have hsame := h.late_tallied hlate move
    have hrest := ih hstep (hsound.moves (step_moves hsound.fit move)) (hsame ▸ hlate)
    exact hrest.trans hsame

/-- Moves by which nothing but posts goes on. -/
def OnlyPosts (moves : List Move) : Prop := ∀ move ∈ moves, ∃ i, move = .proceed i

theorem onlyPosts_replicate (n i : Nat) : OnlyPosts (.replicate n (.proceed i)) :=
  fun _ hm => ⟨i, List.eq_of_mem_replicate hm⟩

theorem late_onlyPosts (x : Exchange) (t : Tally) (hmore : OnlyPosts more) :
    (x.tally t more).late = t.late := by
  induction more generalizing x t with
  | nil => rfl
  | cons move more ih =>
    obtain ⟨i, rfl⟩ := hmore move List.mem_cons_self
    have hrest := ih (x.step (.proceed i)) (x.tallied t (.proceed i)) fun m hm =>
      hmore m (List.mem_cons_of_mem _ hm)
    refine hrest.trans ?_
    simp only [tallied]
    split <;> rfl

/-- A post comes to its end, whatever the worker does. -/
theorem exists_ends {p : ScriptEvent × PostStage} {rest : List (ScriptEvent × PostStage)}
    (h : x.posts = p :: rest) : ∃ n, (x.run (.replicate n (.proceed 0))).posts = rest := by
  have hrefused (x : Exchange) (e : ScriptEvent) (r : PostError) (h : x.posts = (e, .refused r) :: rest) :
      (x.run [.proceed 0]).posts = rest := by
    simp [Exchange.run, Exchange.step, Exchange.proceed, h, answer]
  have hcounted (x : Exchange) (e : ScriptEvent) (h : x.posts = (e, .counted) :: rest) :
      ∃ n, (x.run (.replicate n (.proceed 0))).posts = rest := by
    cases hoffer : x.worker.offer e with
    | ok w =>
      refine ⟨1, ?_⟩
      simp [Exchange.run, Exchange.step, Exchange.proceed, h, hoffer, answer]
    | error r =>
      refine ⟨2, hrefused (x.step (.proceed 0)) e r ?_⟩
      simp [Exchange.step, Exchange.proceed, h, hoffer]
  obtain ⟨e, stage⟩ := p
  cases stage with
  | checked =>
    obtain ⟨n, hn⟩ := hcounted (x.step (.proceed 0)) e (by
      simp [Exchange.step, Exchange.proceed, h])
    exact ⟨n + 1, hn⟩
  | counted => exact hcounted x e h
  | refused r => exact ⟨1, hrefused x e r h⟩

theorem exists_all_end (x : Exchange) : ∃ n, (x.run (.replicate n (.proceed 0))).posts = [] := by
  generalize hposts : x.posts = posts
  induction posts generalizing x with
  | nil => exact ⟨0, hposts⟩
  | cons p rest ih =>
    obtain ⟨n, hn⟩ := exists_ends hposts
    obtain ⟨m, hm⟩ := ih _ hn
    refine ⟨n + m, ?_⟩
    rw [← List.replicate_append_replicate, run_append]
    exact hm

/-- The counter is right. -/
structure Counts (x : Exchange) (t : Tally) : Prop where
  /-- It has not gone below zero. -/
  level : x.worker.pending = .ofInt t.level ∧ 0 ≤ t.level
  running : ¬ x.worker.stage.IsOver → x.posts = [] → x.worker.pending.toNat = x.worker.due
  finished : x.worker.stage = .finished → x.posts = [] → x.worker.pending = 0

theorem Kept.counts (h : Kept x t) (hsound : Sound unit context x) (hlate : t.late = 0) :
    Counts x t := by
  have hfits := h.fits
  unfold Tally.Fits at hfits
  refine ⟨⟨h.pending, ?_⟩, ?_, ?_⟩
  · cases hstage : x.worker.stage <;> simp only [hstage] at hfits <;> omega
  · intro hopen hposts
    have hlevel : t.level = x.worker.due := by
      have hnone : counting x.posts = 0 := by rw [hposts]; rfl
      cases hstage : x.worker.stage with
      | fresh | running | idle =>
        simp only [hstage] at hfits
        omega
      | closing | leaving | reported | finished =>
        rw [hstage] at hopen
        exact absurd (by constructor) hopen
    have hroom : x.worker.queue.length ≤ 256 := hsound.room
    have hdue : x.worker.due ≤ x.worker.queue.length + 1 := by
      unfold due
      split <;> omega
    rw [h.pending, hlevel]
    have hsize : 257 < UInt64.size := by decide
    exact toNat_ofInt (by omega)
  · intro hstage hposts
    simp only [hstage, hposts, hlate] at hfits
    rw [h.pending, hfits]
    rfl

/-- A late post takes the counter below zero. -/
theorem Kept.below (h : Kept x t) (hlate : t.late ≠ 0) (hposts : x.posts = []) : t.level < 0 := by
  have hfits := h.fits
  unfold Tally.Fits at hfits
  have hnone : counting x.posts = 0 := by rw [hposts]; rfl
  simp only [h.finished_of_late hlate, hnone] at hfits
  omega

/-- The counter stays right, however the posts under way go on, just if none of them had counted when the
worker set it to zero. -/
theorem pending_exact_iff (unit : CompiledUnit) (context : ScriptContext) (functions : List String)
    (handle : Handle) (limits : WorkerLimits) (moves : List Move) :
    let x := start (spawn unit context functions handle limits)
    (∀ more, OnlyPosts more → ∀ seen, seen <+: moves ++ more → Counts (x.run seen) (x.tally ⟨1, 0⟩ seen)) ↔
      (x.tally ⟨1, 0⟩ moves).late = 0 := by
  intro x
  have hsound : Sound unit context x := sound_start unit context functions handle limits
  have hkept : Kept x ⟨1, 0⟩ := kept_start unit context functions handle limits
  have hsame {more : List Move} (hmore : OnlyPosts more) :
      (x.tally ⟨1, 0⟩ (moves ++ more)).late = (x.tally ⟨1, 0⟩ moves).late := by
    rw [tally_append]
    exact late_onlyPosts _ _ hmore
  constructor
  · intro hcounts
    refine Decidable.byContradiction fun hlate => ?_
    obtain ⟨n, hn⟩ := exists_all_end (x.run moves)
    have hmore := onlyPosts_replicate n 0
    have hnever := (hcounts _ hmore _ List.prefix_rfl).level.2
    have hbelow := (hkept.run hsound _).below (hsame hmore ▸ hlate) (by rw [run_append]; exact hn)
    omega
  · intro hlate more hmore seen hseen
    refine (hkept.run hsound seen).counts (hsound.run seen) ?_
    refine Decidable.byContradiction fun hne => ?_
    obtain ⟨rest, hrest⟩ := hseen
    have hlast := (hkept.run hsound seen).late_tally (hsound.run seen) hne rest
    rw [← tally_append, hrest, hsame hmore, hlate] at hlast
    exact hne hlast.symm

/-- A worker fails and sets its counter to zero between the moment when a post counts up and the moment
when it finds the queue given up and counts down. -/
theorem late_post_wraps_counter :
    let x := start (spawn default default [] ⟨0, 0⟩ ⟨1, 0, 1, default⟩)
    let s : Surface := ⟨.empty, .empty, .none, default, true, Surface.defaultTimeout⟩
    let moves : List Move := [.post ⟨"tick", []⟩, .proceed 0, .work 1 s 0, .work 1 s 0, .work 1 s 0,
      .proceed 0, .proceed 0]
    (x.run moves).worker.isFinished = true ∧ (x.run moves).posts.isEmpty = true ∧
      (x.run moves).worker.pending = 18446744073709551615 := by
  decide +kernel

end Exchange

end ScriptHost.Worker
