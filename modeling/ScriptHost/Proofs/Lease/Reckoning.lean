import ScriptHost.Proofs.Lease.Expiry

/-! Leases where points in time may be too late to be told. What is reckoned comes to what a lease without
such an end of time says, or it is stopped; so calls that go through keep the law of leases. -/

namespace ScriptHost

/-- What stops work. -/
inductive Fault
  /-- There is no slot of this index. -/
  | noSlot
  /-- A count would fall below zero or outgrow its type. -/
  | count
  /-- A point in time is too late to be told. -/
  | time
  deriving DecidableEq

/-! ### Reckoning with time -/

section Reckoning

variable {α β : Type} {horizon : Option Nat}

/-- The point in time a span after another. The horizon is the last one that can be told, if there is
one. -/
def timeAfter (horizon : Option Nat) (time span : Nat) : Except Fault Nat :=
  if horizon.all (time + span ≤ ·) then .ok (time + span) else .error .time

/-- What is reckoned comes to a value, unless it goes past the horizon. -/
def Reckons (horizon : Option Nat) (x : Except Fault α) (a : α) : Prop :=
  x = .ok a ∨ horizon ≠ none ∧ x = .error .time

theorem reckons_ok (a : α) : Reckons horizon (.ok a) a := .inl rfl

theorem Reckons.eq_of_ok {x : Except Fault α} {a b : α} (h : Reckons horizon x a) (hx : x = .ok b) :
    b = a := by
  rcases h with h | ⟨-, h⟩
  · exact Except.ok.inj (hx.symm.trans h)
  · cases hx.symm.trans h

theorem Reckons.bind {x : Except Fault α} {f : α → Except Fault β} {a : α} {b : β}
    (hx : Reckons horizon x a) (hf : Reckons horizon (f a) b) : Reckons horizon (x >>= f) b := by
  rcases hx with rfl | ⟨hend, rfl⟩
  · exact hf
  · exact .inr ⟨hend, rfl⟩

theorem reckons_timeAfter (horizon : Option Nat) (time span : Nat) :
    Reckons horizon (timeAfter horizon time span) (time + span) := by
  unfold timeAfter
  split
  · exact .inl rfl
  · rename_i hlate
    refine .inr ⟨?_, rfl⟩
    rintro rfl
    exact hlate rfl

namespace Lease

def startBy (horizon : Option Nat) (policy : LeasePolicy) (now : Nat) : Except Fault Lease :=
  match policy.mode with
  | .manual => .ok ⟨policy, none⟩
  | .timed => do
    let stop ← timeAfter horizon now policy.initial
    return ⟨policy, some stop⟩

/-- When the lease expires is only reckoned once it has lapsed. -/
def stateBy (horizon : Option Nat) (l : Lease) (now : Nat) : Except Fault LeaseState :=
  match l.ends with
  | none => .ok .active
  | some stop =>
    if now < stop then .ok .active
    else do
      let expiry ← timeAfter horizon stop l.policy.sponsorship
      return if now < expiry then .lapsed else .expired

def isExpiredBy (horizon : Option Nat) (l : Lease) (now : Nat) : Except Fault Bool := do
  let state ← l.stateBy horizon now
  return state == .expired

def renewBy (horizon : Option Nat) (l : Lease) (now : Nat) : Except Fault (Option Lease) := do
  let expired ← l.isExpiredBy horizon now
  if expired then return none
  else
    match l.ends with
    | none => return some l
    | some stop =>
      let renewed ← timeAfter horizon now l.policy.initial
      return some { l with ends := some (max stop renewed) }

def recordCallBy (horizon : Option Nat) (l : Lease) (now : Nat) : Except Fault Lease :=
  if l.policy.renewOnCall then do
    let renewed ← l.renewBy horizon now
    return renewed.getD l
  else .ok l

theorem reckons_start (horizon : Option Nat) (policy : LeasePolicy) (now : Nat) :
    Reckons horizon (startBy horizon policy now) (start policy now) := by
  unfold startBy start
  cases policy.mode with
  | manual => exact reckons_ok _
  | timed => exact (reckons_timeAfter horizon now _).bind (reckons_ok _)

theorem reckons_state (horizon : Option Nat) (l : Lease) (now : Nat) :
    Reckons horizon (l.stateBy horizon now) (l.state now) := by
  unfold stateBy state
  cases l.ends with
  | none => exact reckons_ok _
  | some stop =>
    dsimp only
    split
    · exact reckons_ok _
    · exact (reckons_timeAfter horizon stop _).bind (reckons_ok _)

theorem reckons_isExpired (horizon : Option Nat) (l : Lease) (now : Nat) :
    Reckons horizon (l.isExpiredBy horizon now) (l.isExpired now) :=
  (reckons_state horizon l now).bind (reckons_ok _)

theorem reckons_renew (horizon : Option Nat) (l : Lease) (now : Nat) :
    Reckons horizon (l.renewBy horizon now) (l.renew? now) := by
  refine (reckons_isExpired horizon l now).bind ?_
  unfold renew?
  split
  · exact reckons_ok _
  · cases hends : l.ends with
    | none =>
      have hsame : l = { l with ends := none } := by rw [← hends]
      exact hsame ▸ reckons_ok _
    | some stop => exact (reckons_timeAfter horizon now _).bind (reckons_ok _)

theorem reckons_recordCall (horizon : Option Nat) (l : Lease) (now : Nat) :
    Reckons horizon (l.recordCallBy horizon now) (l.recordCall now) := by
  unfold recordCallBy recordCall
  split
  · exact (reckons_renew horizon l now).bind (reckons_ok _)
  · exact reckons_ok _

/-! ### The law for calls that go through -/

def useBy (horizon : Option Nat) (l : Lease) : Use → Except Fault Lease
  | .renewal now => do
    let renewed ← l.renewBy horizon now
    return renewed.getD l
  | .call now => l.recordCallBy horizon now

/-- The lease after uses, one after the other, none of which is stopped. -/
def afterBy (horizon : Option Nat) (l : Lease) : List Use → Except Fault Lease
  | [] => .ok l
  | u :: us => do
    let l ← l.useBy horizon u
    l.afterBy horizon us

theorem reckons_use (horizon : Option Nat) (l : Lease) (u : Use) :
    Reckons horizon (l.useBy horizon u) (l.use u) := by
  cases u with
  | renewal now => exact (reckons_renew horizon l now).bind (reckons_ok _)
  | call now => exact reckons_recordCall horizon l now

theorem reckons_after (horizon : Option Nat) (l : Lease) (us : List Use) :
    Reckons horizon (l.afterBy horizon us) (l.after us) := by
  induction us generalizing l with
  | nil => exact reckons_ok l
  | cons u us ih => exact (reckons_use horizon l u).bind (ih _)

/-- What the law says of a lease holds of what calls come to that are not stopped, wherever time ends. -/
theorem law_of_reckoned {policy : LeasePolicy} {first : Nat} {us : List Use} {m l : Lease}
    (hstart : startBy horizon policy first = .ok m) (hafter : m.afterBy horizon us = .ok l) :
    (policy.mode = .manual → ∀ now, l.stateBy horizon now = .ok .active) ∧
    (policy.mode = .timed →
      l.ends = ((first :: m.renewals us).map (· + policy.initial)).max? ∧
      ∀ vs later, l.afterBy horizon vs = .ok later →
        ∃ stop stop', l.ends = some stop ∧ later.ends = some stop' ∧ stop ≤ stop') ∧
    (∀ now renewed, l.renewBy horizon now = .ok renewed →
      (renewed = none ↔ ∃ stop, l.ends = some stop ∧ stop + policy.sponsorship ≤ now) ∧
      (renewed = none → l.useBy horizon (.renewal now) = .ok l)) ∧
    (∀ now later s t, now ≤ later → l.stateBy horizon now = .ok s → l.stateBy horizon later = .ok t →
      s.rank ≤ t.rank) ∧
    ∀ u vs v later, (u :: vs ++ [v]).Pairwise (·.time ≤ ·.time) →
      l.isExpiredBy horizon u.time = .ok true → l.afterBy horizon (u :: vs ++ [v]) = .ok later →
        later = l ∧ ∀ expired, later.isExpiredBy horizon v.time = .ok expired → expired = true := by
  obtain rfl := (reckons_start horizon policy first).eq_of_ok hstart
  obtain rfl := (reckons_after horizon _ us).eq_of_ok hafter
  have hpolicy : ((start policy first).after us).policy = policy := by rw [after_policy, start_policy]
  refine ⟨fun hmanual now => ?_, fun htimed => ⟨start_after_ends htimed first us, fun vs later hlater => ?_⟩,
    fun now renewed hrenewed => ⟨?_, fun hrefused => ?_⟩, fun now later s t hle hs ht => ?_,
    fun u vs v later hsorted hexpired hlater => ?_⟩
  · have hends := after_ends_of_none (l := start policy first) (start_ends_eq_none_iff.2 hmanual) us
    simp [stateBy, hends]
  · have hends := start_after_ends htimed first us
    rw [List.map_cons, List.max?_cons'] at hends
    obtain rfl := (reckons_after horizon _ vs).eq_of_ok hlater
    obtain ⟨stop', hstop, hle⟩ := after_ends_le hends vs
    exact ⟨_, stop', hends, hstop, hle⟩
  · obtain rfl := (reckons_renew horizon _ now).eq_of_ok hrenewed
    rw [renew?_eq_none_iff, isExpired_iff, hpolicy]
  · rw [useBy, hrenewed, hrefused]
    rfl
  · obtain rfl := (reckons_state horizon _ now).eq_of_ok hs
    obtain rfl := (reckons_state horizon _ later).eq_of_ok ht
    exact rank_le_of_le _ hle
  · have hover := (reckons_isExpired horizon _ u.time).eq_of_ok hexpired
    obtain rfl := (reckons_after horizon _ _).eq_of_ok hlater
    obtain ⟨-, hkept⟩ := expired_of_sorted hsorted hover.symm
    refine ⟨hkept, fun expired hend => ?_⟩
    rw [hkept] at hend
    obtain rfl := (reckons_isExpired horizon _ v.time).eq_of_ok hend
    exact isExpired_of_le hover.symm ((List.pairwise_cons.1 hsorted).1 v (by simp))

end Lease

end Reckoning

end ScriptHost
