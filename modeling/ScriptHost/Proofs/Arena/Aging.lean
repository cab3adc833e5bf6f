import ScriptHost.Proofs.Arena.Refinement

/-! What becomes of the records of a ledger when handles are used and time goes by. Records keep their
handles, and none that has ended comes back. A lease without an end does not run out, so its handle lives
until it is disposed of. -/

namespace ScriptHost

/-! ### Leases -/

namespace Lease

variable {l m : Lease} {now : Nat}

theorem ends_ne_none (h : l.isExpired now = true) : l.ends ≠ none := by
  obtain ⟨stop, hstop, -⟩ := isExpired_iff.1 h
  rw [hstop]
  simp

theorem renew?_ends (h : l.renew? now = some m) (hends : l.ends = none) : m.ends = none := by
  unfold renew? at h
  split at h
  · cases h
  · cases h
    rw [hends]
    rfl

theorem recordCall_ends (now : Nat) (hends : l.ends = none) : (l.recordCall now).ends = none := by
  unfold recordCall
  split
  · cases h : l.renew? now with
    | none => exact hends
    | some m => exact renew?_ends h hends
  · exact hends

end Lease

/-! ### Records -/

/-- What may become of a record. It keeps its handle, its context and the terms of its lease. -/
structure Record.Wanes (r s : Record) : Prop where
  handle : s.handle = r.handle
  context : s.context = r.context
  policy : s.lease.policy = r.lease.policy
  live : s.status = .live → r.status = .live
  ends : r.lease.ends = none → s.lease.ends = none

/-- What may become of a record that nobody disposes of. -/
structure Record.Ages (r s : Record) : Prop extends Wanes r s where
  kept : r.lease.ends = none → r.status = .live → s.status = .live

theorem Record.Ages.refl (r : Record) : r.Ages r :=
  ⟨⟨rfl, rfl, rfl, id, id⟩, fun _ => id⟩

theorem Record.Ages.trans {r s t : Record} (h : r.Ages s) (h' : s.Ages t) : r.Ages t :=
  ⟨⟨h'.handle.trans h.handle, h'.context.trans h.context, h'.policy.trans h.policy,
    fun hlive => h.live (h'.live hlive), fun hends => h'.ends (h.ends hends)⟩,
    fun hends hlive => h'.kept (h.ends hends) (h.kept hends hlive)⟩

theorem Record.ages_expired {r : Record} (h : r.lease.ends ≠ none) :
    r.Ages { r with status := .expired } :=
  ⟨⟨rfl, rfl, rfl, nofun, id⟩, fun hends => absurd hends h⟩

theorem Record.wanes_disposed (r : Record) : r.Wanes { r with status := .disposed } :=
  ⟨rfl, rfl, rfl, nofun, id⟩

/-! ### Ledgers -/

namespace Ledger

variable {l m : Ledger} {r : Record} {h : Handle} {now : Nat}

/-- What may become of a ledger by use and time. -/
def Ages (l m : Ledger) : Prop := ∃ f : Record → Record, m = l.map f ∧ ∀ r ∈ l, r.Ages (f r)

theorem Ages.refl (l : Ledger) : l.Ages l := ⟨id, (List.map_id l).symm, fun r _ => .refl r⟩

theorem Ages.trans {n : Ledger} (h : l.Ages m) (h' : m.Ages n) : l.Ages n := by
  obtain ⟨f, rfl, hf⟩ := h
  obtain ⟨g, rfl, hg⟩ := h'
  refine ⟨g ∘ f, List.map_map, fun r hr => ?_⟩
  exact (hf r hr).trans (hg (f r) (List.mem_map_of_mem hr))

theorem mem_of_standing (hs : l.standing h = .live r) : r ∈ l ∧ r.handle = h ∧ r.status = .live := by
  unfold standing at hs
  split at hs
  · cases hs
  · rename_i s hrecord
    split at hs
    · rename_i hlive
      cases hs
      exact ⟨List.mem_of_find?_eq_some hrecord, by simpa using List.find?_some hrecord, hlive⟩
    · cases hs
    · split at hs <;> cases hs

theorem ages_close {p : Record → Bool} (hp : ∀ r ∈ l, p r = true → r.lease.ends ≠ none) :
    l.Ages (l.close p .expired) := by
  refine ⟨_, rfl, fun r hr => ?_⟩
  split
  · rename_i hclosed
    exact r.ages_expired (hp r hr (Bool.and_eq_true_iff.1 hclosed).2)
  · exact .refl r

theorem ages_relet {lease : Lease} (distinct : (l.map (·.handle)).Nodup) (hr : r ∈ l)
    (hpolicy : lease.policy = r.lease.policy) (hends : r.lease.ends = none → lease.ends = none) :
    l.Ages (l.relet r.handle lease) := by
  refine ⟨_, rfl, fun s hs => ?_⟩
  split
  · rename_i hhandle
    obtain rfl : s = r := List.inj_on_of_nodup_map distinct hs hr hhandle
    exact ⟨⟨rfl, rfl, hpolicy, id, hends⟩, fun _ => id⟩
  · exact .refl s

theorem ages_expire (distinct : (l.map (·.handle)).Nodup) (hr : r ∈ l)
    (hends : r.lease.ends ≠ none) : l.Ages (l.close (·.handle == r.handle) .expired) := by
  refine ages_close fun s hs hhandle => ?_
  obtain rfl : s = r := List.inj_on_of_nodup_map distinct hs hr (by simpa using hhandle)
  exact hends

theorem ages_access (distinct : (l.map (·.handle)).Nodup) (h : Handle) (now : Nat) :
    l.Ages (l.access h now).2 := by
  unfold access
  split
  · rename_i r hs
    obtain ⟨hr, rfl, -⟩ := mem_of_standing hs
    split
    · exact ages_expire distinct hr (Lease.ends_ne_none ‹_›)
    · exact ages_relet distinct hr (Lease.recordCall_policy _ _) (Lease.recordCall_ends now)
  · exact .refl l
  · exact .refl l

theorem ages_renew (distinct : (l.map (·.handle)).Nodup) (h : Handle) (now : Nat) :
    l.Ages (l.renew h now).2 := by
  unfold renew
  split
  · rename_i r hs
    obtain ⟨hr, rfl, -⟩ := mem_of_standing hs
    split
    · rename_i hrenew
      exact ages_relet distinct hr (Lease.renew?_policy hrenew) (Lease.renew?_ends hrenew)
    · rename_i hrenew
      exact ages_expire distinct hr (Lease.ends_ne_none (Lease.renew?_eq_none_iff.1 hrenew))
  · exact .refl l
  · exact .refl l

theorem ages_sweep (l : Ledger) (now : Nat) : l.Ages (l.close (due now) .expired) := by
  refine ages_close fun r _ hdue => ?_
  exact Lease.ends_ne_none (Bool.and_eq_true_iff.1 hdue).2

end Ledger

/-! ### Arenas -/

/-- What may happen to an arena without the issue or the disposal of a handle. -/
inductive Arena.Uses (a : Arena) : Arena → Prop
  | nothing : Uses a a
  | access {b : Arena} (h : Handle) (now : Nat) : Uses a b → Uses a (b.access h now).2
  | renew {b : Arena} (h : Handle) (now : Nat) : Uses a b → Uses a (b.renew h now).2
  | sweep {b : Arena} (now : Nat) : Uses a b → Uses a (b.sweep now).2

theorem Arena.Uses.trans {a b c : Arena} (h : a.Uses b) (h' : b.Uses c) : a.Uses c := by
  induction h' with
  | nothing => exact h
  | access handle now _ ih => exact .access handle now ih
  | renew handle now _ ih => exact .renew handle now ih
  | sweep now _ ih => exact .sweep now ih

theorem Tracks.uses {l : Ledger} {a b : Arena} (t : Tracks l a) (h : a.Uses b) :
    ∃ m, l.Ages m ∧ Tracks m b := by
  induction h with
  | nothing => exact ⟨l, .refl l, t⟩
  | access handle now _ ih =>
    obtain ⟨m, hages, tm⟩ := ih
    exact ⟨_, hages.trans (Ledger.ages_access tm.distinct handle now), (tm.access handle now).2⟩
  | renew handle now _ ih =>
    obtain ⟨m, hages, tm⟩ := ih
    exact ⟨_, hages.trans (Ledger.ages_renew tm.distinct handle now), (tm.renew handle now).2⟩
  | sweep now _ ih =>
    obtain ⟨m, hages, tm⟩ := ih
    exact ⟨_, hages.trans (m.ages_sweep now), tm.sweep now⟩

/-- Nothing comes of the use of handles where there are none. -/
theorem Arena.Uses.of_empty {a : Arena} (h : empty.Uses a) : a = .empty := by
  induction h with
  | nothing => rfl
  | access _ _ _ ih | renew _ _ _ ih | sweep _ _ ih =>
    rw [ih]
    rfl

/-! ### Refusals -/

/-- What is said of a handle that is not accepted. -/
def CallError.Refuses (h : Handle) (e : CallError) : Prop := e = .leaseExpired h ∨ e = .invalidHandle h

/-- No use of a handle succeeds, at any time. -/
def Arena.Rejects (a : Arena) (h : Handle) : Prop :=
  ∀ now, (∃ e, (a.access h now).1 = .error e ∧ e.Refuses h) ∧
    (∃ e, (a.renew h now).1 = .error e ∧ e.Refuses h) ∧ (a.dispose h).1 = false

theorem Arena.rejects_of_state? {a : Arena} {h : Handle} (hs : ∀ x, a.state? h ≠ some (.live x)) :
    a.Rejects h := by
  intro now
  unfold access renew dispose
  cases hstate : a.state? h with
  | none => exact ⟨⟨_, rfl, .inr rfl⟩, ⟨_, rfl, .inr rfl⟩, rfl⟩
  | some s =>
    cases s with
    | live x => exact absurd hstate (hs x)
    | vacant => exact ⟨⟨_, rfl, .inr rfl⟩, ⟨_, rfl, .inr rfl⟩, rfl⟩
    | expired => exact ⟨⟨_, rfl, .inl rfl⟩, ⟨_, rfl, .inl rfl⟩, rfl⟩

theorem Arena.rejects_empty (h : Handle) : empty.Rejects h :=
  rejects_of_state? fun x hx => by simp [state?, empty] at hx

/-- A handle whose record has ended is accepted no more. -/
theorem Tracks.rejects {l : Ledger} {a : Arena} {r : Record} (t : Tracks l a) (hr : r ∈ l)
    (hdead : r.status ≠ .live) : a.Rejects r.handle := by
  refine Arena.rejects_of_state? fun x hx => ?_
  obtain ⟨s, -, hs, hhandle, hlive, -⟩ := t.standing_live hx
  obtain rfl : s = r := List.inj_on_of_nodup_map t.distinct hs hr hhandle
  exact hdead hlive

end ScriptHost
