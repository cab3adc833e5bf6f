/-! Leases on handles. A handle with no initial lease time lives until it is disposed of; any other
starts a lease that lapses at a point in time and expires when the sponsorship time after it has
passed without a renewal. Times are milliseconds
after a fixed origin, and spans of time are milliseconds too. -/

namespace ScriptHost

/-- The terms of a lease. -/
structure LeasePolicy where
  initial : Nat
  sponsorship : Nat
  /-- Whether a successful call renews the lease. -/
  renewOnCall : Bool
  deriving DecidableEq, Inhabited

inductive LeaseMode
  /-- Lives until it is disposed of. -/
  | manual
  /-- Expires by time. -/
  | timed
  deriving DecidableEq

namespace LeasePolicy

/-- No expiry by time. -/
def manual : LeasePolicy := ⟨0, 0, false⟩

def timed (initial sponsorship : Nat) : LeasePolicy := ⟨initial, sponsorship, false⟩

def mode (p : LeasePolicy) : LeaseMode := if p.initial = 0 then .manual else .timed

end LeasePolicy

inductive LeaseState
  | active
  /-- Past its time but still to be rescued by a renewal. -/
  | lapsed
  | expired
  deriving DecidableEq

/-- A running lease. One without an end never expires. -/
structure Lease where
  policy : LeasePolicy
  ends : Option Nat
  deriving DecidableEq, Inhabited

namespace Lease

/-- The lease that starts at `now`. -/
def start (policy : LeasePolicy) (now : Nat) : Lease :=
  ⟨policy, match policy.mode with
    | .manual => none
    | .timed => some (now + policy.initial)⟩

def state (l : Lease) (now : Nat) : LeaseState :=
  match l.ends with
  | none => .active
  | some stop =>
    if now < stop then .active
    else if now < stop + l.policy.sponsorship then .lapsed
    else .expired

def isExpired (l : Lease) (now : Nat) : Bool := l.state now == .expired

/-- A renewal never shortens a lease; an expired one cannot be revived. -/
def renew? (l : Lease) (now : Nat) : Option Lease :=
  if l.isExpired now then none
  else some { l with ends := l.ends.map fun stop => max stop (now + l.policy.initial) }

/-- What a successful call does to the lease. -/
def recordCall (l : Lease) (now : Nat) : Lease :=
  if l.policy.renewOnCall then (l.renew? now).getD l else l

@[simp] theorem start_policy (p : LeasePolicy) (now : Nat) : (start p now).policy = p := rfl

theorem start_ends_eq_none_iff {p : LeasePolicy} {now : Nat} :
    (start p now).ends = none ↔ p.mode = .manual := by
  unfold start; cases p.mode <;> simp

theorem isExpired_iff {l : Lease} {now : Nat} :
    l.isExpired now = true ↔ ∃ stop, l.ends = some stop ∧ stop + l.policy.sponsorship ≤ now := by
  unfold isExpired state
  cases l.ends with
  | none => simp
  | some stop =>
    by_cases h1 : now < stop
    · have : ¬stop + l.policy.sponsorship ≤ now := by omega
      simp [h1, this]
    · by_cases h2 : now < stop + l.policy.sponsorship
      · simp [h1, h2]
      · simp [h1, h2, Nat.not_lt.1 h2]

theorem renew?_eq_none_iff {l : Lease} {now : Nat} :
    l.renew? now = none ↔ l.isExpired now = true := by
  unfold renew?; split <;> simp_all

theorem renew?_policy {l m : Lease} {now : Nat} (h : l.renew? now = some m) :
    m.policy = l.policy := by
  unfold renew? at h
  split at h
  · cases h
  · cases h; rfl

@[simp] theorem recordCall_policy (l : Lease) (now : Nat) :
    (l.recordCall now).policy = l.policy := by
  unfold recordCall
  split
  · cases h : l.renew? now with
    | none => rfl
    | some m => exact renew?_policy h
  · rfl

end Lease

end ScriptHost
