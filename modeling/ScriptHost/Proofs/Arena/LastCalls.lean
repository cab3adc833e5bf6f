import ScriptHost.Proofs.Arena.Refinement
import ScriptHost.Proofs.Arena.Upkeep

/-! The last call of a handle, told by the history of its arena: the last time at which the handle was
resolved, as long as it is live. The arena keeps that time in the slot of the handle, and whoever asks is
told what the slot holds. So a handle is told its own last call unless another handle is live in its slot
and has been used. -/

namespace ScriptHost

namespace Arena

variable {l : Ledger} {a : Arena} {g h : Handle} {u : Upkeep} {c : Call} {cs : List Call}

/-! ### The history of a handle -/

/-- The time at which a call resolves a handle. -/
def usedAt? (a : Arena) (h : Handle) : Call → Option Nat
  | .access g now => if g = h ∧ (a.access g now).1.isOk = true then some now else none
  | _ => none

/-- The last time at which calls resolve a handle. -/
def lastUse? (a : Arena) (h : Handle) : List Call → Option Nat
  | [] => none
  | c :: cs => ((a.call c).2.lastUse? h cs).or (a.usedAt? h c)

/-- The last call of a handle after calls on an empty arena: the last time at which it was resolved if it
is live, and none otherwise. -/
def ownLastCall? (h : Handle) (cs : List Call) : Option Nat :=
  if ((empty.after cs).dispose h).1 then empty.lastUse? h cs else none

/-! ### Live handles -/

theorem upkeep?_eq_some_iff : a.upkeep? h = some u ↔ ∃ x, a.state? h = some (.live x) ∧ x.upkeep = u := by
  unfold upkeep?
  split
  · rename_i x hx
    simp [hx]
  · rename_i hlive
    refine iff_of_false nofun ?_
    rintro ⟨x, hx, -⟩
    exact hlive x hx

/-- A handle can be disposed of just if something is noted of it. -/
theorem dispose_iff : (a.dispose h).1 = true ↔ ∃ u, a.upkeep? h = some u := by
  unfold dispose upkeep?
  split <;> simp_all

theorem isOk_access_iff {now : Nat} :
    (a.access h now).1.isOk = true ↔ ∃ x, a.state? h = some (.live x) ∧ x.lease.isExpired now = false := by
  cases hr : (a.access h now).1 with
  | error e =>
    refine iff_of_false (by simp [Except.isOk, Except.toBool]) ?_
    rintro ⟨x, hx, hruns⟩
    rw [access_eq_ok_iff.2 ⟨x, hx, hruns, rfl⟩] at hr
    cases hr
  | ok context =>
    obtain ⟨x, hx, hruns, -⟩ := access_eq_ok_iff.1 hr
    exact iff_of_true rfl ⟨x, hx, hruns⟩

/-- Only a live handle is resolved. -/
theorem usedAt?_of_dead (hdead : a.upkeep? h = none) (c : Call) : a.usedAt? h c = none := by
  unfold usedAt?
  split
  · rename_i g now
    rw [if_neg]
    rintro ⟨rfl, hok⟩
    obtain ⟨x, hx, -⟩ := isOk_access_iff.1 hok
    rw [upkeep?_live hx] at hdead
    cases hdead
  · rfl

/-- A handle that is live once slots are out of use was so before. -/
theorem upkeep?_of_retireAll (is : List Nat) {left : SlotState} (hleft : left.isLive = false)
    (hu : (is.foldl (fun a i => a.retire i left) a).upkeep? h = some u) : a.upkeep? h = some u := by
  obtain ⟨x, hx, rfl⟩ := upkeep?_eq_some_iff.1 hu
  refine upkeep?_live ?_
  rw [state?_eq_some_iff] at hx ⊢
  rw [slots_retireAll is hleft] at hx
  split at hx
  · obtain ⟨⟨generation, s⟩, hs, hretired⟩ := Option.map_eq_some_iff.1 hx
    cases s <;> simp_all [Slot.retired]
  · exact hx

theorem Undisturbed.of_live {now : Nat} {b : Arena} (hkept : Undisturbed now a b)
    (hu : b.upkeep? h = some u) : a.upkeep? h = some u := by
  obtain hsame | ⟨hnone, -⟩ := hkept h
  · exact hsame ▸ hu
  · rw [hnone] at hu
    cases hu

/-! ### One call -/

/-- The last call of a handle that is live after a call. -/
theorem lastCall_access {now : Nat} (hu : (a.access g now).2.upkeep? h = some u) :
    ∃ w, a.upkeep? h = some w ∧ u.lastCall = (a.usedAt? h (.access g now)).or w.lastCall := by
  cases hr : (a.access g now).1 with
  | error e =>
    refine ⟨u, (undisturbed_access hr).of_live hu, ?_⟩
    simp [usedAt?, hr, Except.isOk, Except.toBool]
  | ok context =>
    obtain ⟨x, hx, hruns, -⟩ := access_eq_ok_iff.1 hr
    rw [upkeep?_access hx hruns] at hu
    split at hu
    · rename_i hself
      subst hself
      cases hu
      refine ⟨x.upkeep, upkeep?_live hx, ?_⟩
      simp [usedAt?, hr, Except.isOk, Except.toBool, Holding.called]
    · rename_i hother
      refine ⟨u, hu, ?_⟩
      simp [usedAt?, Ne.symm hother]

theorem lastCall_renew {now : Nat} (hu : (a.renew g now).2.upkeep? h = some u) :
    ∃ w, a.upkeep? h = some w ∧ u.lastCall = w.lastCall := by
  cases hr : (a.renew g now).1 with
  | error e => exact ⟨u, (undisturbed_renew hr).of_live hu, rfl⟩
  | ok _ =>
    unfold renew at hr hu
    split at hu
    · rename_i x hx
      rw [hx] at hr
      dsimp only at hr
      split at hu
      · rename_i lease hrenew
        rw [upkeep?_put hx] at hu
        split at hu
        · rename_i hself
          cases hu
          exact ⟨x.upkeep, hself ▸ upkeep?_live hx, rfl⟩
        · exact ⟨u, hu, rfl⟩
      · rename_i hrenew
        rw [hrenew] at hr
        cases hr
    · exact ⟨u, hu, rfl⟩
    · exact ⟨u, hu, rfl⟩

/-- A handle that is live after a call is new and has no last call, or was live before: then the call is its
last if it resolves the handle, and what was noted stays if not. -/
theorem Valid.lastCall_call (v : a.Valid) (c : Call) (hu : (a.call c).2.upkeep? h = some u) :
    (a.call c).1.issued? = some h ∧ u.lastCall = none ∨
      ∃ w, a.upkeep? h = some w ∧ u.lastCall = (a.usedAt? h c).or w.lastCall := by
  cases c with
  | issue context policy now =>
    obtain ⟨x, hx, rfl⟩ := upkeep?_eq_some_iff.1 hu
    rcases (v.state?_live_issue context policy now).1 hx with ⟨rfl, rfl⟩ | hx
    · exact .inl ⟨rfl, rfl⟩
    · exact .inr ⟨x.upkeep, upkeep?_live hx, rfl⟩
  | access g now => exact .inr (lastCall_access hu)
  | renew g now => exact .inr (lastCall_renew hu)
  | leaseState g now => exact .inr ⟨u, hu, rfl⟩
  | dispose g =>
    refine .inr ⟨u, ?_, rfl⟩
    have hu : (a.dispose g).2.upkeep? h = some u := hu
    unfold dispose at hu
    split at hu
    · exact upkeep?_of_retireAll [g.index] SlotState.isLive_vacant hu
    · exact hu
  | disposeOwner script => exact .inr ⟨u, upkeep?_of_retireAll _ SlotState.isLive_vacant hu, rfl⟩
  | disposeAll =>
    have hu : empty.upkeep? h = some u := hu
    simp [upkeep?, state?, empty] at hu
  | sweep now => exact .inr ⟨u, upkeep?_of_retireAll _ SlotState.isLive_expired hu, rfl⟩
  | size => exact .inr ⟨u, hu, rfl⟩

/-! ### Runs -/

end Arena

/-- An issue adds a handle to those of the records, and no other call changes them. -/
theorem Ledger.Step.handles {l m : Ledger} {c : Arena.Call} {r : Arena.Answer} (hstep : Step l c r m) :
    m.map (·.handle) = r.issued?.toList ++ l.map (·.handle) := by
  have hclose (l : Ledger) (p : Record → Bool) (status : Status) :
      (l.close p status).map (·.handle) = l.map (·.handle) := by
    unfold Ledger.close
    rw [List.map_map]
    refine List.map_congr_left fun r _ => ?_
    show (if r.isLive && p r then { r with status } else r).handle = r.handle
    split <;> rfl
  have hrelet (l : Ledger) (h : Handle) (lease : Lease) :
      (l.relet h lease).map (·.handle) = l.map (·.handle) := by
    unfold Ledger.relet
    rw [List.map_map]
    refine List.map_congr_left fun r _ => ?_
    show (if r.handle = h then { r with lease } else r).handle = r.handle
    split <;> rfl
  cases hstep with
  | issue => rfl
  | access =>
    unfold Ledger.access
    split
    · split
      · exact hclose _ _ _
      · exact hrelet _ _ _
    · rfl
    · rfl
  | renew =>
    unfold Ledger.renew
    split
    · split
      · exact hrelet _ _ _
      · exact hclose _ _ _
    · rfl
    · rfl
  | dispose =>
    unfold Ledger.dispose
    split
    · exact hclose _ _ _
    · rfl
  | disposeOwner | sweep => exact hclose _ _ _
  | leaseState | size => rfl

/-- What is noted of the live handles agrees with what is known of last calls, which only handles have that
were issued. -/
structure Notes (l : Ledger) (a : Arena) (last : Handle → Option Nat) : Prop where
  tracks : Tracks l a
  issued : ∀ h now, last h = some now → h ∈ l.map (·.handle)
  noted : ∀ h u, a.upkeep? h = some u → u.lastCall = last h

namespace Notes

variable {l : Ledger} {a : Arena} {last : Handle → Option Nat} {c : Arena.Call} {cs : List Arena.Call}

theorem mem_of_live (n : Notes l a last) {h : Handle} {u : Upkeep} (hu : a.upkeep? h = some u) :
    h ∈ l.map (·.handle) := by
  obtain ⟨x, hx, -⟩ := Arena.upkeep?_eq_some_iff.1 hu
  obtain ⟨r, -, hr, hhandle, -⟩ := n.tracks.standing_live hx
  exact List.mem_map.2 ⟨r, hr, hhandle⟩

/-- A call is the last one of the handle that it resolves. -/
theorem step (n : Notes l a last) (hroom : l.length < UInt32.size) (hc : c ≠ .disposeAll) :
    ∃ m, m.length = l.length + (if c.isIssue then 1 else 0) ∧
      Notes m (a.call c).2 fun h => (a.usedAt? h c).or (last h) := by
  obtain ⟨m, hstep, tm⟩ := n.tracks.step hroom hc
  refine ⟨m, hstep.length, tm, fun h now hlast => ?_, fun h u hu => ?_⟩
  · rw [hstep.handles]
    refine List.mem_append_right _ ?_
    cases hkept : a.upkeep? h with
    | none =>
      rw [Arena.usedAt?_of_dead hkept] at hlast
      exact n.issued h now hlast
    | some u => exact n.mem_of_live hkept
  · rcases n.tracks.valid.lastCall_call c hu with ⟨hnew, hnone⟩ | ⟨w, hw, hlast⟩
    · have hfresh : h ∉ l.map (·.handle) := by
        intro hmem
        have hdistinct := tm.distinct
        rw [hstep.handles, hnew] at hdistinct
        exact (List.nodup_cons.1 hdistinct).1 hmem
      have hlast : last h = none := Option.eq_none_iff_forall_ne_some.2 fun now hlast =>
        hfresh (n.issued h now hlast)
      have hdead : a.upkeep? h = none := Option.eq_none_iff_forall_ne_some.2 fun w hw =>
        hfresh (n.mem_of_live hw)
      rw [hnone, Arena.usedAt?_of_dead hdead, hlast]
      rfl
    · rw [hlast, n.noted h w hw]

theorem run (n : Notes l a last) (hroom : l.length + cs.countP Arena.Call.isIssue < UInt32.size)
    (hcs : .disposeAll ∉ cs) : ∃ m, Notes m (a.after cs) fun h => (a.lastUse? h cs).or (last h) := by
  induction cs generalizing l a last with
  | nil => exact ⟨l, n⟩
  | cons c cs ih =>
    rw [List.countP_cons] at hroom
    rw [List.mem_cons, not_or] at hcs
    obtain ⟨m, hlength, hm⟩ := n.step (by omega) (Ne.symm hcs.1)
    obtain ⟨k, hk⟩ := ih hm (by omega) hcs.2
    refine ⟨k, ?_⟩
    simp only [Arena.lastUse?, Option.or_assoc]
    exact hk

end Notes

namespace Arena

variable {h : Handle} {cs : List Call}

/-- What is noted of a handle that is live after few calls is its last use. -/
theorem lastCall_after (hfew : cs.countP Call.isIssue < UInt32.size) (hcs : .disposeAll ∉ cs) {u : Upkeep}
    (hu : (empty.after cs).upkeep? h = some u) : u.lastCall = empty.lastUse? h cs := by
  have hempty : Notes [] empty fun _ => none :=
    ⟨tracks_empty, nofun, fun h u hu => by simp [upkeep?, state?, empty] at hu⟩
  obtain ⟨_, n⟩ := hempty.run (by simpa using hfew) hcs
  rw [n.noted h u hu, Option.or_none]

theorem ownLastCall?_eq_some_iff (hfew : cs.countP Call.isIssue < UInt32.size) (hcs : .disposeAll ∉ cs)
    {now : Nat} : ownLastCall? h cs = some now ↔
      ∃ u, (empty.after cs).upkeep? h = some u ∧ u.lastCall = some now := by
  unfold ownLastCall?
  split
  · rename_i hlive
    obtain ⟨u, hu⟩ := dispose_iff.1 hlive
    rw [hu, ← lastCall_after hfew hcs hu]
    simp
  · rename_i hdead
    refine iff_of_false nofun ?_
    rintro ⟨u, hu, -⟩
    exact hdead (dispose_iff.2 ⟨u, hu⟩)

/-- Whoever asks for a last call is told that of the live handle in the slot. -/
theorem lastCall?_eq_some_iff {a : Arena} {now : Nat} :
    a.lastCall? h = some now ↔
      ∃ g u, g.index = h.index ∧ a.upkeep? g = some u ∧ u.lastCall = some now := by
  unfold lastCall?
  constructor
  · intro hlast
    split at hlast
    · rename_i generation x hslot
      exact ⟨⟨h.index, generation⟩, x.upkeep, rfl, upkeep?_live (state?_eq_some_iff.2 hslot), hlast⟩
    · cases hlast
  · rintro ⟨g, u, hindex, hu, hlast⟩
    obtain ⟨x, hx, rfl⟩ := upkeep?_eq_some_iff.1 hu
    rw [← hindex, state?_eq_some_iff.1 hx]
    exact hlast

/-- One handle of a slot is live at most. -/
theorem live_unique {a : Arena} {g : Handle} {u w : Upkeep} (hu : a.upkeep? g = some u)
    (hw : a.upkeep? h = some w) (hindex : g.index = h.index) : g = h := by
  obtain ⟨x, hx, -⟩ := upkeep?_eq_some_iff.1 hu
  obtain ⟨y, hy, -⟩ := upkeep?_eq_some_iff.1 hw
  rw [state?_eq_some_iff] at hx hy
  rw [hindex, hy] at hx
  refine Handle.ext hindex ?_
  simpa using (congrArg (Option.map Slot.generation) hx).symm

/-- After fewer than `2 ^ 32` issues and without the disposal of everything, a handle is told its own last
call just if no other handle of its slot has one. In any case it is told the last call of the handle that is
live in its slot, whichever that is. -/
theorem lastCall?_own_iff (hfew : cs.countP Call.isIssue < UInt32.size) (hcs : .disposeAll ∉ cs)
    (h : Handle) :
    ((empty.after cs).lastCall? h = ownLastCall? h cs ↔
      ∀ g, g.index = h.index → g ≠ h → ownLastCall? g cs = none) ∧
    ∀ now, (empty.after cs).lastCall? h = some now ↔
      ∃ g, g.index = h.index ∧ ownLastCall? g cs = some now := by
  have htold (now : Nat) : (empty.after cs).lastCall? h = some now ↔
      ∃ g, g.index = h.index ∧ ownLastCall? g cs = some now := by
    simp only [lastCall?_eq_some_iff, ownLastCall?_eq_some_iff hfew hcs]
    exact ⟨fun ⟨g, u, hindex, hu⟩ => ⟨g, hindex, u, hu⟩, fun ⟨g, hindex, u, hu⟩ => ⟨g, u, hindex, hu⟩⟩
  refine ⟨⟨fun hown g hindex hne => ?_, fun hothers => ?_⟩, htold⟩
  · refine Option.eq_none_iff_forall_ne_some.2 fun now hlast => hne ?_
    have hmine : ownLastCall? h cs = some now := hown ▸ (htold now).2 ⟨g, hindex, hlast⟩
    obtain ⟨u, hu, -⟩ := (ownLastCall?_eq_some_iff hfew hcs).1 hlast
    obtain ⟨w, hw, -⟩ := (ownLastCall?_eq_some_iff hfew hcs).1 hmine
    exact live_unique hu hw hindex
  · refine Option.ext fun now => ?_
    rw [htold]
    constructor
    · rintro ⟨g, hindex, hlast⟩
      by_cases hself : g = h
      · exact hself ▸ hlast
      · rw [hothers g hindex hself] at hlast
        cases hlast
    · exact fun hlast => ⟨h, rfl, hlast⟩

/-- A handle whose slot was issued again: what it is told is the last call of some handle of the slot. -/
theorem lastCall?_own_iff_reuse :
    let cs : List Call := [.issue default .manual 0, .access ⟨0, 0⟩ 3, .dispose ⟨0, 0⟩,
      .issue default .manual 4, .access ⟨0, 1⟩ 5]
    cs.countP Call.isIssue < UInt32.size ∧ .disposeAll ∉ cs ∧
      (empty.after cs).lastCall? ⟨0, 0⟩ = some 5 ∧ ∃ g, g.index = 0 ∧ ownLastCall? g cs = some 5 := by
  intro cs
  have hfew : cs.countP Call.isIssue < UInt32.size := by decide
  have hcs : .disposeAll ∉ cs := by simp [cs]
  exact ⟨hfew, hcs, rfl, ((lastCall?_own_iff hfew hcs ⟨0, 0⟩).2 5).1 rfl⟩

/-- A handle that was disposed of without ever being used is told when the next holder of its slot made a
call. -/
theorem stale_handle_told_other_call :
    let cs : List Call := [.issue default .manual 0, .dispose ⟨0, 0⟩, .issue default .manual 0,
      .access ⟨0, 1⟩ 5]
    cs.countP Call.isIssue < UInt32.size ∧ .disposeAll ∉ cs ∧
      ownLastCall? ⟨0, 0⟩ cs = none ∧ (empty.after cs).lastCall? ⟨0, 0⟩ = some 5 :=
  ⟨by decide, by simp, rfl, rfl⟩

end Arena

end ScriptHost
