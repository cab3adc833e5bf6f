import Mathlib.Data.List.Nodup
import ScriptHost.Proofs.Arena.Call

/-! The ledger: what an arena should seem to be to those who hold its handles. Each handle ever
issued has a record of its own, with the context and the lease it was issued for and how it stands.
Records are neither shared nor reused, and nothing is counted; `Ledger.Step` says which answer each
call gets and what it writes. The only trace of the arena's slots is that an expired handle is told
so until the slot it names is issued again, and that handles are swept in the order of their
slots. -/

namespace ScriptHost

inductive Status
  | live
  | disposed
  | expired
  deriving DecidableEq

/-- A handle that was issued: for which context, under which lease, and how it stands. -/
structure Record where
  handle : Handle
  context : ScriptContext
  lease : Lease
  status : Status

def Record.isLive (r : Record) : Bool := r.status == .live

/-- The records of all handles ever issued, the latest first. -/
abbrev Ledger := List Record

namespace Ledger

open Arena (Call Answer)

def record? (l : Ledger) (h : Handle) : Option Record := l.find? (·.handle == h)

/-- The latest record of a slot. -/
def latest? (l : Ledger) (index : Nat) : Option Record := l.find? (·.handle.index == index)

/-- Whether the slot that a handle names was last issued under another handle. -/
def reissued (l : Ledger) (h : Handle) : Bool := (l.latest? h.index).any (·.handle != h)

/-- How a handle stands with those who use it. -/
inductive Standing
  | live (record : Record)
  /-- Its lease ran out, and its slot was not issued again since. -/
  | expired
  /-- Disposed of, expired before its slot was issued again, or never issued. -/
  | invalid

def standing (l : Ledger) (h : Handle) : Standing :=
  match l.record? h with
  | none => .invalid
  | some r =>
    match r.status with
    | .live => .live r
    | .disposed => .invalid
    | .expired => if l.reissued h then .invalid else .expired

/-- The live records of a kind. -/
def live (l : Ledger) (p : Record → Bool) : List Record := l.filter fun r => r.isLive && p r

/-- The live records of a kind get another status. -/
def close (l : Ledger) (p : Record → Bool) (status : Status) : Ledger :=
  l.map fun r => if r.isLive && p r then { r with status } else r

/-- The record of a handle gets another lease. -/
def relet (l : Ledger) (h : Handle) (lease : Lease) : Ledger :=
  l.map fun r => if r.handle = h then { r with lease } else r

/-- A live record resolves to the context it was issued for unless its lease has expired, and then
it expires. -/
def access (l : Ledger) (h : Handle) (now : Nat) : Except CallError ScriptContext × Ledger :=
  match l.standing h with
  | .live r =>
    if r.lease.isExpired now then (.error (.leaseExpired h), l.close (·.handle == h) .expired)
    else (.ok r.context, l.relet h (r.lease.recordCall now))
  | .expired => (.error (.leaseExpired h), l)
  | .invalid => (.error (.invalidHandle h), l)

def renew (l : Ledger) (h : Handle) (now : Nat) : Except CallError Unit × Ledger :=
  match l.standing h with
  | .live r =>
    match r.lease.renew? now with
    | some lease => (.ok (), l.relet h lease)
    | none => (.error (.leaseExpired h), l.close (·.handle == h) .expired)
  | .expired => (.error (.leaseExpired h), l)
  | .invalid => (.error (.invalidHandle h), l)

def leaseState? (l : Ledger) (h : Handle) (now : Nat) : Option LeaseState :=
  match l.standing h with
  | .live r => some (r.lease.state now)
  | .expired => some .expired
  | .invalid => none

def dispose (l : Ledger) (h : Handle) : Bool × Ledger :=
  match l.standing h with
  | .live _ => (true, l.close (·.handle == h) .disposed)
  | _ => (false, l)

/-- A timed record whose lease has expired. -/
def due (now : Nat) (r : Record) : Bool := r.lease.policy.mode == .timed && r.lease.isExpired now

/-- What a call answers and writes. A new handle may be any that was never issued. -/
inductive Step : Ledger → Call → Answer → Ledger → Prop
  | issue {l : Ledger} {context : ScriptContext} {policy : LeasePolicy} {now : Nat} {h : Handle}
      (fresh : ∀ r ∈ l, r.handle ≠ h) :
      Step l (.issue context policy now) (.issued h)
        (⟨h, context, Lease.start policy now, .live⟩ :: l)
  | access {l : Ledger} {h : Handle} {now : Nat} :
      Step l (.access h now) (.resolved (l.access h now).1) (l.access h now).2
  | renew {l : Ledger} {h : Handle} {now : Nat} :
      Step l (.renew h now) (.renewed (l.renew h now).1) (l.renew h now).2
  | leaseState {l : Ledger} {h : Handle} {now : Nat} :
      Step l (.leaseState h now) (.leaseState (l.leaseState? h now)) l
  | dispose {l : Ledger} {h : Handle} :
      Step l (.dispose h) (.disposed (l.dispose h).1) (l.dispose h).2
  | disposeOwner {l : Ledger} {script : ObjectId} :
      Step l (.disposeOwner script) (.count (l.live (·.context.script == script)).length)
        (l.close (·.context.script == script) .disposed)
  | sweep {l : Ledger} {now : Nat} {handles : List Handle}
      (named : handles.Perm ((l.live (due now)).map (·.handle)))
      (ordered : handles.Pairwise (·.index < ·.index)) :
      Step l (.sweep now) (.swept handles) (l.close (due now) .expired)
  | size {l : Ledger} : Step l .size (.count (l.live fun _ => true).length) l

/-- Calls in a row, with what they answer. -/
inductive Runs : Ledger → List Call → List Answer → Ledger → Prop
  | nil {l : Ledger} : Runs l [] [] l
  | cons {l m n : Ledger} {c : Call} {r : Answer} {cs : List Call} {rs : List Answer}
      (step : Step l c r m) (rest : Runs m cs rs n) : Runs l (c :: cs) (r :: rs) n

/-! ### Look-ups -/

variable {l : Ledger} {r : Record} {h : Handle} {i : Nat}

theorem mem_live {p : Record → Bool} : r ∈ l.live p ↔ r ∈ l ∧ r.status = .live ∧ p r = true := by
  simp [live, Record.isLive]

theorem latest?_cons (r : Record) (l : Ledger) (i : Nat) :
    latest? (r :: l) i = if r.handle.index = i then some r else l.latest? i := by
  unfold latest?
  rw [List.find?_cons]
  by_cases hi : r.handle.index = i
  · simp [hi]
  · simp [hi, beq_false_of_ne hi]

theorem latest?_eq_some (hr : l.latest? i = some r) : r ∈ l ∧ r.handle.index = i :=
  ⟨List.mem_of_find?_eq_some hr, by simpa using List.find?_some hr⟩

theorem index_ne_of_latest?_eq_none (hn : l.latest? i = none) (hr : r ∈ l) :
    r.handle.index ≠ i := by
  simpa using List.find?_eq_none.1 hn r hr

/-- Rewriting records under their own handles changes no slot's history. -/
theorem latest?_map {f : Record → Record} (hf : ∀ r, (f r).handle = r.handle) (l : Ledger)
    (i : Nat) : latest? (l.map f) i = (l.latest? i).map f := by
  unfold latest?
  rw [List.find?_map]
  simp only [Function.comp_def, hf]

/-! ### The number of records -/

@[simp] theorem length_close (l : Ledger) (p : Record → Bool) (status : Status) :
    (l.close p status).length = l.length := List.length_map _

@[simp] theorem length_relet (l : Ledger) (h : Handle) (lease : Lease) :
    (l.relet h lease).length = l.length := List.length_map _

/-- An issue adds a record, and no other call does. -/
theorem Step.length {m : Ledger} {c : Call} {r : Answer} (h : Step l c r m) :
    m.length = l.length + if c.isIssue then 1 else 0 := by
  cases h with
  | issue => rfl
  | access =>
    unfold Ledger.access
    split
    · split <;> simp [Call.isIssue]
    · rfl
    · rfl
  | renew =>
    unfold Ledger.renew
    split
    · split <;> simp [Call.isIssue]
    · rfl
    · rfl
  | dispose =>
    unfold Ledger.dispose
    split
    · simp [Call.isIssue]
    · rfl
  | disposeOwner | sweep => simp [Call.isIssue]
  | leaseState | size => rfl

/-! ### Records by their handles -/

theorem record?_eq_some_iff (distinct : (l.map (·.handle)).Nodup) :
    l.record? h = some r ↔ r ∈ l ∧ r.handle = h := by
  constructor
  · intro hr
    exact ⟨List.mem_of_find?_eq_some hr, by simpa using List.find?_some hr⟩
  · rintro ⟨hr, rfl⟩
    cases hs : l.record? r.handle with
    | none => simpa using List.find?_eq_none.1 hs r hr
    | some s =>
      have hsl : s ∈ l := List.mem_of_find?_eq_some hs
      have hsh : s.handle = r.handle := by simpa using List.find?_some hs
      rw [List.inj_on_of_nodup_map distinct hsl hr hsh]

end Ledger

end ScriptHost
