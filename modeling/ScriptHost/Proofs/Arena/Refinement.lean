import ScriptHost.Proofs.Arena.Tracking

/-! The arena answers as its ledger does. Each kind of write keeps `Tracks`: taking slots out of use
is closing their records, writing a live slot is reletting its record, and issuing adds a record as
long as the generation of the slot has room to grow. So does each call, and hence each run of fewer
than `2 ^ 32` issues from the empty arena, in which nobody can tell that slots are reused. -/

namespace ScriptHost

open Arena (Call)

namespace Tracks

variable {l : Ledger} {a : Arena} {r : Record}

/-! ### Writes -/

/-- Rewriting records under their own handles keeps what only depends on handles. -/
theorem ordered_map (t : Tracks l a) {f : Record → Record} (hf : ∀ r, (f r).handle = r.handle) :
    (l.map f).Pairwise fun r s => r.handle.index = s.handle.index →
      s.handle.generation.toNat < r.handle.generation.toNat := by
  rw [List.pairwise_map]
  simpa only [hf] using t.ordered

theorem bound_map (t : Tracks l a) {f : Record → Record} (hf : ∀ r, (f r).handle = r.handle) :
    ∀ r ∈ l.map f, r.handle.generation.toNat < (l.map f).length := by
  intro r hr
  obtain ⟨s, hs, rfl⟩ := List.mem_map.1 hr
  rw [hf, List.length_map]
  exact t.bound s hs

/-- Taking the slots of live records out of use closes the records. -/
theorem close (t : Tracks l a) (left : SlotState) (hleft : left.isLive = false)
    {p : Record → Bool} (is : List Nat) (his : ∀ i, i ∈ is ↔ ∃ r ∈ l.live p, r.handle.index = i) :
    Tracks (l.close p left.status) (is.foldl (fun a i => a.retire i left) a) := by
  have hf (r : Record) : (if r.isLive && p r then { r with status := left.status } else r).handle =
      r.handle := by split <;> rfl
  have hleftStatus : left.status ≠ .live := by simp [SlotState.status_eq_live_iff, hleft]
  refine ⟨t.valid.retireAll is hleft, fun i => ?_, fun r hr hst => ?_, t.ordered_map hf,
    t.bound_map hf⟩
  · rw [Ledger.close, Ledger.latest?_map hf, Arena.slots_retireAll is hleft]
    cases hs : a.slots[i]? with
    | none =>
      rw [t.latest_of_no_slot hs]
      simp
    | some s =>
      obtain ⟨r, hr, hfits⟩ := t.latest_of_slot hs
      obtain ⟨hmem, hi⟩ := Ledger.latest?_eq_some hr
      rw [hr]
      by_cases hclosed : r.isLive && p r
      · have hmemIs : i ∈ is := (his i).2 ⟨r, List.mem_filter.2 ⟨hmem, hclosed⟩, hi⟩
        have hlive : r.status = .live := by
          simp only [Bool.and_eq_true, Record.isLive, beq_iff_eq] at hclosed
          exact hclosed.1
        have hstate : s.state.isLive = true :=
          SlotState.status_eq_live_iff.1 (hfits.status ▸ hlive)
        simp only [hmemIs, hclosed, if_true, Option.map_some, Slot.retired, hstate]
        refine .some ⟨hfits.generation, rfl, fun x hx => ?_⟩
        rw [show left = .live x from hx] at hleft
        cases hleft
      · have hnotIn : i ∉ is := by
          intro hin
          obtain ⟨r', hr', hi'⟩ := (his i).1 hin
          obtain ⟨hmem', hlive', hp'⟩ := Ledger.mem_live.1 hr'
          have := t.live_latest r' hmem' hlive'
          rw [hi', hr] at this
          cases this
          exact hclosed (by simp [Record.isLive, hlive', hp'])
        simp only [hnotIn, hclosed, if_false, Option.map_some, Bool.false_eq_true]
        exact .some hfits
  · obtain ⟨s, hs, rfl⟩ := List.mem_map.1 hr
    rw [hf, Ledger.close, Ledger.latest?_map hf]
    by_cases hclosed : s.isLive && p s
    · rw [if_pos hclosed] at hst
      exact absurd hst hleftStatus
    · rw [if_neg hclosed] at hst
      rw [t.live_latest s hs hst]
      rfl

/-- Taking the slot of one live handle out of use. -/
theorem close_one (t : Tracks l a) (left : SlotState) (hleft : left.isLive = false) (hr : r ∈ l)
    (hlive : r.status = .live) :
    Tracks (l.close (·.handle == r.handle) left.status) (a.retire r.handle.index left) := by
  refine t.close left hleft [r.handle.index] fun i => ?_
  rw [List.mem_singleton]
  constructor
  · rintro rfl
    exact ⟨r, Ledger.mem_live.2 ⟨hr, hlive, by simp⟩, rfl⟩
  · rintro ⟨s, hs, rfl⟩
    have : s.handle = r.handle := by simpa using (Ledger.mem_live.1 hs).2.2
    rw [this]

/-- Writing the lease of a live slot relets its record. -/
theorem relet (t : Tracks l a) (hr : r ∈ l) (hlive : r.status = .live) {x : Holding}
    (hcontext : r.context = x.context) :
    Tracks (l.relet r.handle x.lease)
      (a.put r.handle.index ⟨r.handle.generation, .live x⟩) := by
  have hf (s : Record) : (if s.handle = r.handle then { s with lease := x.lease } else s).handle =
      s.handle := by split <;> rfl
  obtain ⟨y, hslot, _⟩ := t.live_slot hr hlive
  refine ⟨t.valid.put_live hslot, fun i => ?_, fun s hs hst => ?_, t.ordered_map hf,
    t.bound_map hf⟩
  · rw [Ledger.relet, Ledger.latest?_map hf, Arena.slots_put]
    by_cases hi : r.handle.index = i
    · subst hi
      rw [t.live_latest r hr hlive, hslot]
      simp only [if_true, Option.map_some]
      exact .some ⟨rfl, hlive, fun z hz => by cases hz; exact ⟨hcontext, rfl⟩⟩
    · rw [if_neg hi]
      cases hs : a.slots[i]? with
      | none =>
        rw [t.latest_of_no_slot hs]
        exact .none
      | some s =>
        obtain ⟨r', hr', hfits⟩ := t.latest_of_slot hs
        obtain ⟨_, hi'⟩ := Ledger.latest?_eq_some hr'
        have hne : r'.handle ≠ r.handle := fun he => hi (by rw [← he, hi'])
        simp only [hr', Option.map_some, if_neg hne]
        exact .some hfits
  · obtain ⟨s, hmem, rfl⟩ := List.mem_map.1 hs
    have hst' : s.status = .live := by split at hst <;> exact hst
    rw [hf, Ledger.relet, Ledger.latest?_map hf, t.live_latest s hmem hst']
    rfl

/-- Nothing live is in the slot of a new handle, and every generation in it is below the new one,
unless there are as many records as generations. -/
theorem newer (t : Tracks l a) (hroom : l.length < UInt32.size) (context : ScriptContext)
    (policy : LeasePolicy) (now : Nat) :
    (a.issue context policy now).1.generation.toNat < l.length + 1 ∧
      ∀ r ∈ l, r.handle.index = (a.issue context policy now).1.index → r.status ≠ .live ∧
        r.handle.generation.toNat < (a.issue context policy now).1.generation.toNat := by
  rcases t.valid.issue_cases context policy now with ⟨i, rest, s, _, hs, hdead, he⟩ | ⟨_, he⟩
  · obtain ⟨r, hr, hfits⟩ := t.latest_of_slot hs
    obtain ⟨hmem, hi⟩ := Ledger.latest?_eq_some hr
    have hbound := t.bound r hmem
    have hgen : (s.generation + 1).toNat = r.handle.generation.toNat + 1 := by
      have hsize : UInt32.size = 4294967296 := rfl
      rw [hfits.generation] at hbound ⊢
      rw [UInt32.toNat_add, show (1 : UInt32).toNat = 1 from rfl]
      omega
    rw [he]
    refine ⟨by show (s.generation + 1).toNat < _; omega, fun q hq hqi => ⟨fun hlive => ?_, ?_⟩⟩
    · have := t.live_latest q hq hlive
      rw [hqi, show Handle.index ⟨i, s.generation + 1⟩ = i from rfl, hr] at this
      cases this
      have hstate := SlotState.status_eq_live_iff.1 (hfits.status ▸ hlive)
      rw [hdead] at hstate
      cases hstate
    · have := t.generation_le hq (by rw [hqi]; exact hr)
      show q.handle.generation.toNat < (s.generation + 1).toNat
      omega
  · rw [he]
    refine ⟨Nat.succ_pos _, fun r hr hi => ?_⟩
    have hnone : l.latest? a.slots.size = none := t.latest_of_no_slot (by simp)
    exact absurd hi (Ledger.index_ne_of_latest?_eq_none hnone hr)

/-- A new handle has a record of its own. -/
theorem issue (t : Tracks l a) (hroom : l.length < UInt32.size) (context : ScriptContext)
    (policy : LeasePolicy) (now : Nat) :
    (∀ r ∈ l, r.handle ≠ (a.issue context policy now).1) ∧
      Tracks (⟨(a.issue context policy now).1, context, Lease.start policy now, .live⟩ :: l)
        (a.issue context policy now).2 := by
  have hslots (i : Nat) := t.valid.slots_issue context policy now i
  have hvalid := t.valid.issue context policy now
  have hnew := t.newer hroom context policy now
  generalize (a.issue context policy now).1 = h at hslots hnew
  refine ⟨fun r hr he => ?_, hvalid, fun i => ?_, fun r hr hst => ?_, ?_, fun r hr => ?_⟩
  · have := (hnew.2 r hr (by rw [he])).2
    rw [he] at this
    omega
  · rw [hslots, Ledger.latest?_cons]
    by_cases hi : h.index = i
    · rw [if_pos hi, if_pos hi]
      exact .some ⟨rfl, rfl, fun x hx => by cases hx; exact ⟨rfl, rfl⟩⟩
    · rw [if_neg hi, if_neg hi]
      exact t.slots i
  · rw [Ledger.latest?_cons]
    rcases List.mem_cons.1 hr with rfl | hr
    · simp
    · have hi : h.index ≠ r.handle.index := fun hi => (hnew.2 r hr hi.symm).1 hst
      rw [if_neg hi]
      exact t.live_latest r hr hst
  · exact List.pairwise_cons.2 ⟨fun r hr hi => (hnew.2 r hr hi.symm).2, t.ordered⟩
  · rw [List.length_cons]
    rcases List.mem_cons.1 hr with rfl | hr
    · exact hnew.1
    · exact Nat.lt_succ_of_lt (t.bound r hr)

/-! ### Calls -/

theorem access (t : Tracks l a) (h : Handle) (now : Nat) :
    (a.access h now).1 = (l.access h now).1 ∧ Tracks (l.access h now).2 (a.access h now).2 := by
  rcases t.view h with
      ⟨hl, hs | hs⟩ | ⟨hl, hs⟩ | ⟨r, x, hl, hs, hr, rfl, hlive, hcontext, hlease⟩ <;>
    simp only [Arena.access, Ledger.access, hl, hs]
  · exact ⟨trivial, t⟩
  · exact ⟨trivial, t⟩
  · exact ⟨trivial, t⟩
  · rw [hlease]
    split
    · exact ⟨rfl, t.close_one .expired rfl hr hlive⟩
    · exact ⟨by rw [hcontext], t.relet (x := ⟨x.context, x.lease.recordCall now, some now⟩) hr
        hlive hcontext⟩

theorem renew (t : Tracks l a) (h : Handle) (now : Nat) :
    (a.renew h now).1 = (l.renew h now).1 ∧ Tracks (l.renew h now).2 (a.renew h now).2 := by
  rcases t.view h with
      ⟨hl, hs | hs⟩ | ⟨hl, hs⟩ | ⟨r, x, hl, hs, hr, rfl, hlive, hcontext, hlease⟩ <;>
    simp only [Arena.renew, Ledger.renew, hl, hs]
  · exact ⟨trivial, t⟩
  · exact ⟨trivial, t⟩
  · exact ⟨trivial, t⟩
  · rw [hlease]
    cases x.lease.renew? now with
    | none => exact ⟨rfl, t.close_one .expired rfl hr hlive⟩
    | some lease => exact ⟨rfl, t.relet (x := { x with lease }) hr hlive hcontext⟩

theorem leaseState (t : Tracks l a) (h : Handle) (now : Nat) :
    a.leaseState? h now = l.leaseState? h now := by
  rcases t.view h with ⟨hl, hs | hs⟩ | ⟨hl, hs⟩ | ⟨r, x, hl, hs, _, _, _, _, hlease⟩ <;>
    simp only [Arena.leaseState?, Ledger.leaseState?, hl, hs]
  rw [hlease]

theorem dispose (t : Tracks l a) (h : Handle) :
    (a.dispose h).1 = (l.dispose h).1 ∧ Tracks (l.dispose h).2 (a.dispose h).2 := by
  rcases t.view h with ⟨hl, hs | hs⟩ | ⟨hl, hs⟩ | ⟨r, x, hl, hs, hr, rfl, hlive, _, _⟩ <;>
    simp only [Arena.dispose, Ledger.dispose, hl, hs]
  · exact ⟨trivial, t⟩
  · exact ⟨trivial, t⟩
  · exact ⟨trivial, t⟩
  · exact ⟨trivial, t.close_one .vacant rfl hr hlive⟩

theorem disposeOwner (t : Tracks l a) (script : ObjectId) :
    Tracks (l.close (·.context.script == script) .disposed) (a.disposeOwner script).2 :=
  t.close .vacant rfl _ fun _ =>
    t.mem_liveIndices_iff (p := fun context _ => context.script == script)

theorem sweep (t : Tracks l a) (now : Nat) : Tracks (l.close (Ledger.due now) .expired) (a.sweep now).2 :=
  t.close .expired rfl _ fun _ =>
    t.mem_liveIndices_iff (p := fun _ lease => lease.policy.mode == .timed && lease.isExpired now)

/-- The handles of the slots that a sweep reclaims, in order. -/
theorem sweep_ordered (a : Arena) (now : Nat) :
    (a.sweep now).1.Pairwise (·.index < ·.index) := by
  show (List.map a.handleAt _).Pairwise _
  rw [List.pairwise_map]
  exact a.sorted_liveIndices _

/-- A call other than the disposal of everything is a step of the ledger. -/
theorem step (t : Tracks l a) (hroom : l.length < UInt32.size) {c : Call}
    (hc : c ≠ .disposeAll) :
    ∃ m, Ledger.Step l c (a.call c).1 m ∧ Tracks m (a.call c).2 := by
  cases c with
  | issue context policy now =>
    obtain ⟨hfresh, ht⟩ := t.issue hroom context policy now
    exact ⟨_, .issue hfresh, ht⟩
  | access h now =>
    obtain ⟨ha, ht⟩ := t.access h now
    refine ⟨_, ?_, ht⟩
    show Ledger.Step l _ (.resolved (a.access h now).1) _
    rw [ha]
    exact .access
  | renew h now =>
    obtain ⟨ha, ht⟩ := t.renew h now
    refine ⟨_, ?_, ht⟩
    show Ledger.Step l _ (.renewed (a.renew h now).1) _
    rw [ha]
    exact .renew
  | leaseState h now =>
    refine ⟨l, ?_, t⟩
    show Ledger.Step l _ (.leaseState (a.leaseState? h now)) _
    rw [t.leaseState]
    exact .leaseState
  | dispose h =>
    obtain ⟨ha, ht⟩ := t.dispose h
    refine ⟨_, ?_, ht⟩
    show Ledger.Step l _ (.disposed (a.dispose h).1) _
    rw [ha]
    exact .dispose
  | disposeOwner script =>
    refine ⟨l.close (·.context.script == script) .disposed, ?_, ?_⟩
    · show Ledger.Step l _ (.count (a.liveIndices _).length) _
      rw [t.length_live (p := fun context _ => context.script == script)]
      exact .disposeOwner
    · exact t.disposeOwner script
  | disposeAll => exact absurd rfl hc
  | sweep now =>
    have hp := t.live_perm
      (p := fun _ lease => lease.policy.mode == .timed && lease.isExpired now)
    exact ⟨_, .sweep hp (sweep_ordered a now), t.sweep now⟩
  | size =>
    refine ⟨l, ?_, t⟩
    show Ledger.Step l _ (.count a.size) _
    rw [t.size_eq]
    exact .size

/-- Calls are a run of the ledger while generations have room to grow. -/
theorem run (t : Tracks l a) {cs : List Call}
    (hroom : l.length + cs.countP Call.isIssue < UInt32.size) (hcs : .disposeAll ∉ cs) :
    ∃ m, Ledger.Runs l cs (a.answers cs) m ∧ Tracks m (a.after cs) := by
  induction cs generalizing l a with
  | nil => exact ⟨l, .nil, t⟩
  | cons c cs ih =>
    rw [List.countP_cons] at hroom
    rw [List.mem_cons, not_or] at hcs
    obtain ⟨m, hstep, hm⟩ := t.step (by omega) (Ne.symm hcs.1)
    obtain ⟨n, hruns, hn⟩ := ih hm (by rw [hstep.length]; omega) hcs.2
    exact ⟨n, .cons hstep hruns, hn⟩

end Tracks

namespace Arena

/-- From the empty arena, with fewer than `2 ^ 32` issues and without disposing of everything, the
answers are those of the ledger: slots and generations do not show. -/
theorem answers_refine_ledger {cs : List Call} (hfew : cs.countP Call.isIssue < UInt32.size)
    (hcs : .disposeAll ∉ cs) : ∃ l, Ledger.Runs [] cs (empty.answers cs) l := by
  obtain ⟨l, hruns, _⟩ := tracks_empty.run (by simpa using hfew) hcs
  exact ⟨l, hruns⟩

/-- A lease found expired, its slot issued again, and both handles used afterwards. -/
theorem answers_refine_ledger_reuse :
    let cs : List Call := [.issue default (.timed 10 0) 0, .access ⟨0, 0⟩ 20,
      .leaseState ⟨0, 0⟩ 20, .issue default .manual 20, .access ⟨0, 0⟩ 20, .dispose ⟨0, 1⟩,
      .sweep 30, .size]
    cs.countP Call.isIssue < UInt32.size ∧ .disposeAll ∉ cs ∧
    ∃ l, Ledger.Runs [] cs [.issued ⟨0, 0⟩, .resolved (.error (.leaseExpired ⟨0, 0⟩)),
      .leaseState (some .expired), .issued ⟨0, 1⟩, .resolved (.error (.invalidHandle ⟨0, 0⟩)),
      .disposed true, .swept [], .count 0] l := by
  intro cs
  have hfew : cs.countP Call.isIssue < UInt32.size := by decide
  have hcs : .disposeAll ∉ cs := by simp [cs]
  exact ⟨hfew, hcs, answers_refine_ledger hfew hcs⟩

end Arena

end ScriptHost
