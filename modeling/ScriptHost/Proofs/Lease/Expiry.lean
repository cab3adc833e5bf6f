import ScriptHost.Proofs.Arena.Upkeep

/-! The life of a lease under renewals and calls, at times in any order. A timed lease ends at the
latest of the ends that its start and its renewals have given it, where a renewal counts if the lease
had not expired by then. An expired lease is left as it is, so with a clock that does not go back it
stays expired. -/

namespace ScriptHost

/-- How far a lease has run down. -/
def LeaseState.rank : LeaseState → Nat
  | active => 0
  | lapsed => 1
  | expired => 2

namespace Lease

/-! ### Uses -/

/-- What is done with a lease. -/
inductive Use
  /-- A sponsor asks for a renewal. -/
  | renewal (now : Nat)
  /-- A call through the handle succeeds. -/
  | call (now : Nat)

def Use.time : Use → Nat
  | renewal now | call now => now

/-- Whether a use renews a lease that has not expired. -/
def Use.renews (policy : LeasePolicy) : Use → Bool
  | renewal _ => true
  | call _ => policy.renewOnCall

def use (l : Lease) : Use → Lease
  | .renewal now => (l.renew? now).getD l
  | .call now => l.recordCall now

/-- The lease after uses, one after the other. -/
def after (l : Lease) : List Use → Lease
  | [] => l
  | u :: us => (l.use u).after us

/-- The times at which uses renew the lease: it has not expired by then. -/
def renewals (l : Lease) : List Use → List Nat
  | [] => []
  | u :: us =>
    if u.renews l.policy ∧ l.state u.time ≠ .expired then u.time :: (l.use u).renewals us
    else (l.use u).renewals us

variable {l : Lease} {now later stop : Nat} {u : Use} {us : List Use}

theorem isExpired_eq_false_iff : l.isExpired now = false ↔ l.state now ≠ .expired := by
  simp [isExpired]

theorem use_of_expired (h : l.isExpired u.time = true) : l.use u = l := by
  have hrefused : l.renew? u.time = none := renew?_eq_none_iff.2 h
  cases u with
  | renewal now => exact congrArg (·.getD l) hrefused
  | call now =>
    show l.recordCall now = l
    unfold recordCall
    rw [show l.renew? now = none from hrefused]
    simp

@[simp] theorem use_policy (l : Lease) (u : Use) : (l.use u).policy = l.policy := by
  cases u with
  | renewal now =>
    show ((l.renew? now).getD l).policy = l.policy
    cases h : l.renew? now with
    | none => rfl
    | some m => exact renew?_policy h
  | call now => exact recordCall_policy l now

/-- A use changes the end of the lease just if it renews a lease that has not expired. -/
theorem use_ends (l : Lease) (u : Use) :
    (l.use u).ends =
      if u.renews l.policy ∧ l.state u.time ≠ .expired then l.renewedEnds u.time else l.ends := by
  by_cases h : l.isExpired u.time = true
  · rw [use_of_expired h, if_neg]
    rintro ⟨-, hruns⟩
    rw [← isExpired_eq_false_iff, h] at hruns
    cases hruns
  · have hruns : l.isExpired u.time = false := Bool.not_eq_true _ ▸ h
    have hrunning := isExpired_eq_false_iff.1 hruns
    simp only [hrunning, ne_eq, not_false_eq_true, and_true]
    cases u with
    | renewal now =>
      have hrenewed : l.renew? now = some { l with ends := l.renewedEnds now } :=
        renew?_eq_some_iff.2 ⟨hruns, rfl⟩
      show ((l.renew? now).getD l).ends = _
      rw [hrenewed]
      rfl
    | call now => exact recordCall_ends_eq hruns

@[simp] theorem after_policy (l : Lease) (us : List Use) : (l.after us).policy = l.policy := by
  induction us generalizing l with
  | nil => rfl
  | cons u us ih => exact (ih _).trans (use_policy l u)

/-! ### Leases without an end -/

theorem after_ends_of_none (h : l.ends = none) (us : List Use) : (l.after us).ends = none := by
  induction us generalizing l with
  | nil => exact h
  | cons u us ih =>
    refine ih ?_
    rw [use_ends, renewedEnds, h]
    simp

theorem state_of_ends_none (h : l.ends = none) (now : Nat) : l.state now = .active := by
  simp [state, h]

/-! ### The end of a lease -/

theorem use_ends_of_some (h : l.ends = some stop) (u : Use) :
    (l.use u).ends = some (if u.renews l.policy ∧ l.state u.time ≠ .expired then
      max stop (u.time + l.policy.initial) else stop) := by
  rw [use_ends, renewedEnds, h]
  split <;> rfl

/-- The end is put off by each renewal, and never brought forward. -/
theorem after_ends_of_some (h : l.ends = some stop) (us : List Use) :
    (l.after us).ends =
      some (((l.renewals us).map (· + l.policy.initial)).foldl max stop) := by
  induction us generalizing l stop with
  | nil => exact h
  | cons u us ih =>
    have hstep := use_ends_of_some h u
    rw [after, ih hstep, use_policy, renewals]
    split <;> rfl

/-- A timed lease ends at the latest of the ends that its start and its renewals have given it. -/
theorem start_after_ends {policy : LeasePolicy} (htimed : policy.mode = .timed) (first : Nat)
    (us : List Use) : ((start policy first).after us).ends =
      ((first :: (start policy first).renewals us).map (· + policy.initial)).max? := by
  have hfirst : (start policy first).ends = some (first + policy.initial) := by simp [start, htimed]
  rw [after_ends_of_some hfirst, List.map_cons, List.max?_cons', start_policy]

theorem after_ends_le (h : l.ends = some stop) (us : List Use) :
    ∃ stop', (l.after us).ends = some stop' ∧ stop ≤ stop' := by
  refine ⟨_, after_ends_of_some h us, ?_⟩
  rw [List.foldl_max]
  exact Nat.le_max_left _ _

/-! ### States in time -/

theorem rank_le_of_le (l : Lease) (h : now ≤ later) : (l.state now).rank ≤ (l.state later).rank := by
  unfold state
  cases l.ends with
  | none => exact Nat.le_refl _
  | some stop =>
    dsimp only
    repeat' split
    all_goals (simp only [LeaseState.rank]; omega)

theorem isExpired_of_le (h : l.isExpired now = true) (hle : now ≤ later) :
    l.isExpired later = true := by
  obtain ⟨stop, hstop, hover⟩ := isExpired_iff.1 h
  exact isExpired_iff.2 ⟨stop, hstop, Nat.le_trans hover hle⟩

/-- No use at a later time revives an expired lease. -/
theorem after_of_expired (h : l.isExpired now = true) (hus : ∀ u ∈ us, now ≤ u.time) :
    l.after us = l := by
  induction us with
  | nil => rfl
  | cons u us ih =>
    rw [List.forall_mem_cons] at hus
    rw [after, use_of_expired (isExpired_of_le h hus.1)]
    exact ih hus.2

/-- Uses in the order of time, the first of which finds the lease expired, leave it as it is. -/
theorem expired_of_sorted {v : Use} {vs : List Use} (hsorted : (u :: vs ++ [v]).Pairwise (·.time ≤ ·.time))
    (hexpired : l.isExpired u.time = true) :
    (l.after (u :: vs)).isExpired v.time = true ∧ l.after (u :: vs ++ [v]) = l := by
  obtain ⟨hfrom, -⟩ := List.pairwise_cons.1 hsorted
  have hall : ∀ w ∈ u :: vs ++ [v], u.time ≤ w.time :=
    List.forall_mem_cons.2 ⟨Nat.le_refl _, hfrom⟩
  have hkept : l.after (u :: vs) = l :=
    after_of_expired hexpired fun w hw => hall w (List.mem_append_left _ hw)
  refine ⟨?_, after_of_expired hexpired hall⟩
  rw [hkept]
  exact isExpired_of_le hexpired (hfrom v (by simp))

/-! ### The law -/

/-- A lease after any uses. Without an end it is active at all times; otherwise it ends at the latest of
the ends that its start and the renewals gave it, and no use brings that forward. A renewal is refused
just if the lease has expired, and then changes nothing. As time goes by, the lease is active, then lapsed,
then expired. If from a use on the clock does not go back and the lease has expired at that use, it has
expired at every later one, and no use changes it any more. -/
theorem expiry_law (policy : LeasePolicy) (first : Nat) (us : List Use) :
    let l := (start policy first).after us
    (policy.mode = .manual → ∀ now, l.state now = .active) ∧
    (policy.mode = .timed →
      l.ends = ((first :: (start policy first).renewals us).map (· + policy.initial)).max? ∧
      ∀ vs, ∃ stop stop', l.ends = some stop ∧ (l.after vs).ends = some stop' ∧ stop ≤ stop') ∧
    (∀ now, (l.renew? now = none ↔ ∃ stop, l.ends = some stop ∧ stop + policy.sponsorship ≤ now) ∧
      (l.renew? now = none → l.use (.renewal now) = l)) ∧
    (∀ now later, now ≤ later → (l.state now).rank ≤ (l.state later).rank) ∧
    ∀ u vs v, (u :: vs ++ [v]).Pairwise (·.time ≤ ·.time) → l.isExpired u.time = true →
      (l.after (u :: vs)).isExpired v.time = true ∧ l.after (u :: vs ++ [v]) = l := by
  intro l
  have hpolicy : l.policy = policy := by rw [after_policy, start_policy]
  refine ⟨fun hmanual now => ?_, fun htimed => ⟨start_after_ends htimed first us, fun vs => ?_⟩,
    fun now => ⟨?_, fun hrefused => ?_⟩, fun now later => rank_le_of_le l,
    fun u vs v hsorted hexpired => expired_of_sorted hsorted hexpired⟩
  · exact state_of_ends_none (after_ends_of_none (start_ends_eq_none_iff.2 hmanual) us) now
  · have hends : l.ends = _ := start_after_ends htimed first us
    rw [List.map_cons, List.max?_cons'] at hends
    obtain ⟨stop', hlater, hle⟩ := after_ends_le hends vs
    exact ⟨_, stop', hends, hlater, hle⟩
  · rw [renew?_eq_none_iff, isExpired_iff, hpolicy]
  · exact use_of_expired (u := .renewal now) (renew?_eq_none_iff.1 hrefused)

/-- A lease of 10 with 5 more to rescue it in, renewed by calls: the call at 12 rescues it, the renewal at
14 puts its end off to 24, and those at 40 and 41 come too late. -/
theorem expiry_law_rescued :
    let l := start ⟨10, 5, true⟩ 0
    let us : List Use := [.call 12, .renewal 14]
    (⟨10, 5, true⟩ : LeasePolicy).mode = .timed ∧
    (l.after us).ends = [10, 22, 24].max? ∧
    (12 ≤ 24 ∧ ((l.after us).state 12).rank ≤ ((l.after us).state 24).rank) ∧
    ([.call 40, .renewal 41] : List Use).Pairwise (·.time ≤ ·.time) ∧
    (l.after us).isExpired 40 = true ∧ (l.after us).after [.call 40, .renewal 41] = l.after us ∧
    (start .manual 0).state 1000000 = .active := by
  intro l us
  have htimed : (⟨10, 5, true⟩ : LeasePolicy).mode = .timed := rfl
  have hsorted : ([.call 40, .renewal 41] : List Use).Pairwise (·.time ≤ ·.time) := by
    simp [Use.time]
  have hexpired : (l.after us).isExpired 40 = true := rfl
  obtain ⟨-, hends, -, hstates, hover⟩ := expiry_law ⟨10, 5, true⟩ 0 us
  refine ⟨htimed, (hends htimed).1, ⟨by decide, hstates 12 24 (by decide)⟩, hsorted, hexpired,
    (hover (.call 40) [] (.renewal 41) hsorted hexpired).2, ?_⟩
  exact (expiry_law .manual 0 []).1 rfl 1000000

end Lease

end ScriptHost
