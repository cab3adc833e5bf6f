import ScriptHost.Proofs.Arena.Valid

/-! How live handles are kept: when their leases end and when they were last used. A use that fails takes
a handle away if its lease has run out, and does nothing else. -/

namespace ScriptHost

/-! ### Leases -/

namespace Lease

variable {l m : Lease} {now : Nat}

/-- A renewal would put the end of the lease off. -/
def Extends (l : Lease) (now : Nat) : Prop := ∃ stop, l.ends = some stop ∧ stop < now + l.policy.initial

/-- The end that a renewal gives to the lease. -/
def renewedEnds (l : Lease) (now : Nat) : Option Nat := l.ends.map fun stop => max stop (now + l.policy.initial)

theorem renewedEnds_eq_iff : l.renewedEnds now = l.ends ↔ ¬ l.Extends now := by
  unfold renewedEnds Extends
  cases l.ends with
  | none => simp
  | some stop =>
    simp only [Option.map_some, Option.some.injEq, exists_eq_left', Nat.not_lt]
    omega

theorem renew?_eq_some_iff :
    l.renew? now = some m ↔ l.isExpired now = false ∧ m = { l with ends := l.renewedEnds now } := by
  unfold renew? renewedEnds
  cases l.isExpired now <;> simp [eq_comm]

theorem recordCall_ends_eq (h : l.isExpired now = false) :
    (l.recordCall now).ends = if l.policy.renewOnCall then l.renewedEnds now else l.ends := by
  unfold recordCall
  split
  · rw [renew?_eq_some_iff.2 ⟨h, rfl⟩]
    rfl
  · rfl

end Lease

/-! ### Handles -/

theorem Handle.ext {g h : Handle} (hindex : g.index = h.index) (hgeneration : g.generation = h.generation) :
    g = h := by
  cases g
  cases h
  cases hindex
  cases hgeneration
  rfl

/-- What is noted of a live handle. -/
structure Upkeep where
  ends : Option Nat
  lastCall : Option Nat
  deriving DecidableEq

def Holding.upkeep (x : Holding) : Upkeep := ⟨x.lease.ends, x.lastCall⟩

namespace Arena

variable {a b : Arena} {g h : Handle} {x y : Holding} {now : Nat}

def upkeep? (a : Arena) (h : Handle) : Option Upkeep :=
  match a.state? h with
  | some (.live x) => some x.upkeep
  | _ => none

theorem state?_live_unique (hx : a.state? h = some (.live x)) (hy : a.state? h = some (.live y)) :
    x = y := by
  rw [hx] at hy
  exact SlotState.live.inj (Option.some.inj hy)

theorem upkeep?_live (hx : a.state? h = some (.live x)) : a.upkeep? h = some x.upkeep := by
  simp only [upkeep?, hx]

/-- Handles are kept as before, except for those that are taken away since their leases have run out. -/
def Undisturbed (now : Nat) (a b : Arena) : Prop :=
  ∀ h, b.upkeep? h = a.upkeep? h ∨ b.upkeep? h = none ∧ a.leaseState? h now = some .expired

theorem Undisturbed.refl (now : Nat) (a : Arena) : Undisturbed now a a := fun _ => .inl rfl

/-- A live slot is written again in its own generation. -/
theorem upkeep?_put (hx : a.state? h = some (.live x)) (y : Holding) (g : Handle) :
    (a.put h.index ⟨h.generation, .live y⟩).upkeep? g = if g = h then some y.upkeep else a.upkeep? g := by
  have hslot := state?_eq_some_iff.1 hx
  split
  · rename_i heq
    subst heq
    apply upkeep?_live
    rw [state?_eq_some_iff, slots_put, if_pos rfl, hslot]
    rfl
  · rename_i hne
    have hstate : (a.put h.index ⟨h.generation, .live y⟩).state? g = a.state? g := by
      unfold state?
      rw [slots_put]
      by_cases hindex : h.index = g.index
      · have hgeneration : h.generation ≠ g.generation := by
          intro hgeneration
          exact hne (Handle.ext hindex.symm hgeneration.symm)
        rw [if_pos hindex, ← hindex, hslot]
        simp [hgeneration]
      · rw [if_neg hindex]
    unfold upkeep?
    rw [hstate]

theorem upkeep?_expire (hx : a.state? h = some (.live x)) (g : Handle) :
    (a.expire h.index).upkeep? g = if g = h then none else a.upkeep? g := by
  have hslot := state?_eq_some_iff.1 hx
  unfold upkeep? state? expire
  rw [slots_retire]
  by_cases hindex : h.index = g.index
  · rw [if_pos hindex, ← hindex, hslot]
    by_cases hgeneration : h.generation = g.generation
    · have heq : g = h := Handle.ext hindex.symm hgeneration.symm
      simp [heq]
    · have hne : g ≠ h := by
        intro heq
        exact hgeneration (heq ▸ rfl)
      simp [hgeneration, hne]
  · have hne : g ≠ h := by
      intro heq
      exact hindex (heq ▸ rfl)
    rw [if_neg hindex, if_neg hne]

theorem leaseState?_live (hx : a.state? h = some (.live x)) (now : Nat) :
    a.leaseState? h now = some (x.lease.state now) := by
  simp only [leaseState?, hx]

/-- To take a handle away whose lease has run out disturbs no other. -/
theorem undisturbed_expire (hx : a.state? h = some (.live x)) (hexpired : x.lease.isExpired now = true) :
    Undisturbed now a (a.expire h.index) := by
  intro g
  rw [upkeep?_expire hx]
  split
  · rename_i heq
    subst heq
    refine .inr ⟨rfl, ?_⟩
    rw [leaseState?_live hx]
    simpa [Lease.isExpired] using hexpired
  · exact .inl rfl

/-- A write to a live handle disturbs nothing just if it changes nothing of what is noted. -/
theorem undisturbed_put_iff (hx : a.state? h = some (.live x)) (y : Holding) :
    Undisturbed now a (a.put h.index ⟨h.generation, .live y⟩) ↔ y.upkeep = x.upkeep := by
  have hself := upkeep?_live hx
  constructor
  · intro hall
    have hh := hall h
    rw [upkeep?_put hx, if_pos rfl, hself] at hh
    obtain heq | ⟨hnone, -⟩ := hh
    · exact Option.some.inj heq
    · cases hnone
  · intro heq g
    left
    rw [upkeep?_put hx]
    split
    · rename_i hg
      rw [hg, hself, heq]
    · rfl

/-! ### Uses -/

/-- A handle resolves just if it is live and its lease has not run out. -/
theorem access_eq_ok_iff {context : ScriptContext} :
    (a.access h now).1 = .ok context ↔
      ∃ x, a.state? h = some (.live x) ∧ x.lease.isExpired now = false ∧ x.context = context := by
  unfold access
  split
  · rename_i x hx
    split
    · rename_i hexpired
      constructor
      · intro hok
        cases hok
      · rintro ⟨y, hy, hruns, -⟩
        rw [← state?_live_unique hx hy, hexpired] at hruns
        cases hruns
    · rename_i hruns
      constructor
      · intro hok
        cases hok
        exact ⟨x, hx, Bool.eq_false_iff.2 hruns, rfl⟩
      · rintro ⟨y, hy, -, rfl⟩
        rw [state?_live_unique hx hy]
  · rename_i hx
    rw [hx]
    simp
  · rename_i hlive _
    constructor
    · intro hok
      cases hok
    · rintro ⟨y, hy, -, -⟩
      exact absurd hy (hlive y)

theorem access_of_live (hx : a.state? h = some (.live x)) (hruns : x.lease.isExpired now = false) :
    (a.access h now).2 = a.put h.index ⟨h.generation,
      .live { x with lease := x.lease.recordCall now, lastCall := some now }⟩ := by
  simp only [access, hx, hruns]
  rfl

/-- The end of a lease after a call at `now`, and the time of the call. -/
def Holding.called (x : Holding) (now : Nat) : Upkeep :=
  ⟨if x.lease.policy.renewOnCall then x.lease.renewedEnds now else x.lease.ends, some now⟩

theorem upkeep?_access (hx : a.state? h = some (.live x)) (hruns : x.lease.isExpired now = false)
    (g : Handle) :
    (a.access h now).2.upkeep? g = if g = h then some (Holding.called x now) else a.upkeep? g := by
  have hcalled : Holding.upkeep { x with lease := x.lease.recordCall now, lastCall := some now } =
      Holding.called x now := by
    unfold Holding.upkeep Holding.called
    rw [← Lease.recordCall_ends_eq hruns]
  rw [access_of_live hx hruns, upkeep?_put hx, hcalled]

theorem undisturbed_access {e : CallError} (he : (a.access h now).1 = .error e) :
    Undisturbed now a (a.access h now).2 := by
  unfold access at he ⊢
  split
  · rename_i x hx
    rw [hx] at he
    split
    · exact undisturbed_expire hx ‹_›
    · rename_i hruns
      simp only [hruns] at he
      cases he
  · exact .refl now a
  · exact .refl now a

theorem undisturbed_access_iff (hx : a.state? h = some (.live x))
    (hruns : x.lease.isExpired now = false) :
    Undisturbed now a (a.access h now).2 ↔
      x.lastCall = some now ∧ (x.lease.policy.renewOnCall = true → ¬ x.lease.Extends now) := by
  rw [access_of_live hx hruns, undisturbed_put_iff hx]
  unfold Holding.upkeep
  rw [Lease.recordCall_ends_eq hruns, Upkeep.mk.injEq, and_comm, eq_comm]
  refine and_congr_right fun _ => ?_
  by_cases honcall : x.lease.policy.renewOnCall = true
  · simp only [honcall, if_true, true_implies]
    exact Lease.renewedEnds_eq_iff
  · simp [honcall]

theorem undisturbed_renew {e : CallError} (he : (a.renew h now).1 = .error e) :
    Undisturbed now a (a.renew h now).2 := by
  unfold renew at he ⊢
  split
  · rename_i x hx
    rw [hx] at he
    dsimp only at he
    split
    · rename_i hrenew
      rw [hrenew] at he
      cases he
    · rename_i hrenew
      exact undisturbed_expire hx (Lease.renew?_eq_none_iff.1 hrenew)
  · exact .refl now a
  · exact .refl now a

/-- To renew a handle changes something unless its lease is not extended. -/
theorem undisturbed_renew_iff :
    Undisturbed now a (a.renew h now).2 ↔
      ∀ x, a.state? h = some (.live x) → x.lease.isExpired now = false → ¬ x.lease.Extends now := by
  unfold renew
  split
  · rename_i x hx
    split
    · rename_i l hrenew
      obtain ⟨hruns, rfl⟩ := Lease.renew?_eq_some_iff.1 hrenew
      rw [undisturbed_put_iff hx]
      unfold Holding.upkeep
      rw [Upkeep.mk.injEq, Lease.renewedEnds_eq_iff]
      constructor
      · rintro ⟨hextends, -⟩ y hy -
        rw [← state?_live_unique hx hy]
        exact hextends
      · intro hall
        exact ⟨hall x hx hruns, rfl⟩
    · rename_i hrenew
      have hexpired := Lease.renew?_eq_none_iff.1 hrenew
      refine iff_of_true (undisturbed_expire hx hexpired) ?_
      intro y hy hruns
      rw [← state?_live_unique hx hy, hexpired] at hruns
      cases hruns
  · rename_i hx
    refine iff_of_true (.refl now a) ?_
    intro y hy
    rw [hx] at hy
    cases hy
  · rename_i hlive _
    refine iff_of_true (.refl now a) ?_
    intro y hy
    exact absurd hy (hlive y)

end Arena

end ScriptHost
