import ScriptHost.Proofs.Arena.Aging

/-! Handles under leases without an end. Such a handle stands for its context until it is disposed of,
whatever is done with it and with other handles in the meantime: no slot is reused while it is live, and
no sweep takes it. -/

namespace ScriptHost.Arena

variable {a b : Arena} {h k : Handle} {context : ScriptContext}

/-- A handle is live for a context, and its lease has no end. -/
def Lasts (a : Arena) (h : Handle) (context : ScriptContext) : Prop :=
  ∃ x, a.state? h = some (.live x) ∧ x.context = context ∧ x.lease.ends = none

/-- Slots out of use are other ones. -/
theorem Lasts.retireAll (hl : a.Lasts h context) (is : List Nat) {left : SlotState}
    (hleft : left.isLive = false) (hothers : h.index ∉ is) :
    (is.foldl (fun a i => a.retire i left) a).Lasts h context := by
  obtain ⟨x, hx, hcontext, hends⟩ := hl
  refine ⟨x, ?_, hcontext, hends⟩
  rw [state?_eq_some_iff] at hx ⊢
  rw [slots_retireAll is hleft, if_neg hothers]
  exact hx

/-- The lease of a handle may be changed as long as it gets no end. -/
theorem Lasts.relet (hl : a.Lasts h context) {x y : Holding} (hx : a.state? k = some (.live x))
    (hcontext : y.context = x.context) (hends : x.lease.ends = none → y.lease.ends = none) :
    (a.put k.index ⟨k.generation, .live y⟩).Lasts h context := by
  obtain ⟨z, hz, hz', hlasting⟩ := hl
  rw [state?_eq_some_iff] at hx hz
  by_cases hindex : k.index = h.index
  · rw [hindex, hz] at hx
    obtain ⟨hgeneration, rfl⟩ : h.generation = k.generation ∧ z = x := by simpa using hx
    refine ⟨y, ?_, hcontext.trans hz', hends hlasting⟩
    rw [state?_eq_some_iff, slots_put, if_pos hindex, hz, hgeneration]
    rfl
  · refine ⟨z, ?_, hz', hlasting⟩
    rw [state?_eq_some_iff, slots_put, if_neg hindex]
    exact hz

/-- Only a lease with an end runs out. -/
theorem Lasts.expire (hl : a.Lasts h context) {x : Holding} (hx : a.state? k = some (.live x))
    (hends : x.lease.ends ≠ none) : (a.expire k.index).Lasts h context := by
  refine hl.retireAll [k.index] rfl fun hindex => hends ?_
  obtain ⟨z, hz, -, hlasting⟩ := hl
  rw [state?_eq_some_iff] at hx hz
  rw [List.mem_singleton.1 hindex, hx] at hz
  obtain ⟨-, rfl⟩ : k.generation = h.generation ∧ x = z := by simpa using hz
  exact hlasting

theorem Lasts.access (hl : a.Lasts h context) (k : Handle) (now : Nat) :
    (a.access k now).2.Lasts h context := by
  unfold Arena.access
  split
  · rename_i x hx
    split
    · exact hl.expire hx (Lease.ends_ne_none ‹_›)
    · exact hl.relet hx rfl (Lease.recordCall_ends now)
  · exact hl
  · exact hl

theorem Lasts.renew (hl : a.Lasts h context) (k : Handle) (now : Nat) :
    (a.renew k now).2.Lasts h context := by
  unfold Arena.renew
  split
  · rename_i x hx
    split
    · rename_i hrenew
      exact hl.relet hx rfl (Lease.renew?_ends hrenew)
    · rename_i hrenew
      exact hl.expire hx (Lease.ends_ne_none (Lease.renew?_eq_none_iff.1 hrenew))
  · exact hl
  · exact hl

theorem Lasts.sweep (hl : a.Lasts h context) (now : Nat) : (a.sweep now).2.Lasts h context := by
  refine hl.retireAll _ rfl fun hdue => ?_
  obtain ⟨x, hx, -, hlasting⟩ := hl
  obtain ⟨g, y, hy, hexpired⟩ := mem_liveIndices.1 hdue
  rw [state?_eq_some_iff, hy] at hx
  obtain ⟨-, rfl⟩ : g = h.generation ∧ y = x := by simpa using hx
  exact Lease.ends_ne_none (Bool.and_eq_true_iff.1 hexpired).2 hlasting

theorem Lasts.uses (hl : a.Lasts h context) (huses : a.Uses b) : b.Lasts h context := by
  induction huses with
  | nothing => exact hl
  | access k now _ ih => exact ih.access k now
  | renew k now _ ih => exact ih.renew k now
  | sweep now _ ih => exact ih.sweep now

/-- The handles of another script are disposed of. -/
theorem Lasts.disposeOwner (hl : a.Lasts h context) {script : ObjectId} (hne : context.script ≠ script) :
    (a.disposeOwner script).2.Lasts h context := by
  refine hl.retireAll _ rfl fun hmine => hne ?_
  obtain ⟨x, hx, rfl, -⟩ := hl
  obtain ⟨g, y, hy, hscript⟩ := mem_liveIndices.1 hmine
  rw [state?_eq_some_iff, hy] at hx
  obtain ⟨-, rfl⟩ : g = h.generation ∧ y = x := by simpa using hx
  simpa using hscript

theorem Valid.uses (v : a.Valid) (huses : a.Uses b) : b.Valid := by
  induction huses with
  | nothing => exact v
  | access k now _ ih => exact ih.call (.access k now)
  | renew k now _ ih => exact ih.call (.renew k now)
  | sweep now _ ih => exact ih.call (.sweep now)

theorem Lasts.issue (hl : a.Lasts h context) (v : a.Valid) (other : ScriptContext) (policy : LeasePolicy)
    (now : Nat) : (a.issue other policy now).2.Lasts h context := by
  obtain ⟨x, hx, hcontext, hlasting⟩ := hl
  refine ⟨x, ?_, hcontext, hlasting⟩
  rw [state?_eq_some_iff] at hx ⊢
  have hfresh : (a.issue other policy now).1.index ≠ h.index := by
    intro hindex
    rw [← hindex] at hx
    exact v.not_live_issue other policy now _ _ hx
  rw [v.slots_issue, if_neg hfresh]
  exact hx

theorem Valid.lasts_issue (v : a.Valid) (context : ScriptContext) {policy : LeasePolicy}
    (hmanual : policy.mode = .manual) (now : Nat) :
    (a.issue context policy now).2.Lasts (a.issue context policy now).1 context := by
  refine ⟨⟨context, Lease.start policy now, none⟩, ?_, rfl, Lease.start_ends_eq_none_iff.2 hmanual⟩
  rw [state?_eq_some_iff, v.slots_issue, if_pos rfl]

/-- A handle that lasts is accepted at any time. -/
theorem Lasts.access_eq (hl : a.Lasts h context) (now : Nat) : (a.access h now).1 = .ok context := by
  obtain ⟨x, hx, rfl, hlasting⟩ := hl
  have hvalid : ¬x.lease.isExpired now = true := fun hexpired => Lease.ends_ne_none hexpired hlasting
  unfold Arena.access
  rw [hx]
  dsimp only
  rw [if_neg hvalid]

end ScriptHost.Arena
