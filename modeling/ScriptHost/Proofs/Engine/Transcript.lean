import Mathlib.Data.List.Infix
import ScriptHost.Engine.Loader

/-! Transcripts of what passes between a loader, its factories and its engines. Engines are numbered in the
order in which they are made. A transcript follows the protocol if each engine is set up, completed any
number of times and closed, closed at once where something fails, and the next one is made after that. -/

namespace ScriptHost

/-- What a loader asks of an engine. -/
inductive EngineCall
  | setUp
  | complete
  | close
  deriving DecidableEq

inductive EngineEvent
  /-- A factory ran, and made an engine unless it failed. -/
  | produced (engine : Option Nat)
  | called (engine : Nat) (call : EngineCall) (ok : Bool)
  deriving DecidableEq

/-! ### The protocol -/

/-- How the engine that was made last stands. -/
inductive Phase
  /-- There is none, or it is closed. -/
  | idle
  | made (engine : Nat)
  | up (engine : Nat)
  /-- A call has failed. -/
  | failed (engine : Nat)
  deriving DecidableEq

namespace Phase

def engine? : Phase → Option Nat
  | idle => none
  | made n | up n | failed n => some n

/-- After a call that may fail. -/
def ofCall (n : Nat) (ok : Bool) : Phase := if ok then up n else failed n

/-- What may happen when `m` engines have been made. -/
inductive Step : Phase → Nat → EngineEvent → Phase → Nat → Prop
  | unproduced {m : Nat} : Step idle m (.produced none) idle m
  | produced {m : Nat} : Step idle m (.produced (some m)) (made m) (m + 1)
  | setUp {n m : Nat} {ok : Bool} : Step (made n) m (.called n .setUp ok) (ofCall n ok) m
  | complete {n m : Nat} {ok : Bool} : Step (up n) m (.called n .complete ok) (ofCall n ok) m
  | close {n m : Nat} {ok : Bool} : Step (up n) m (.called n .close ok) idle m
  | closeFailed {n m : Nat} {ok : Bool} : Step (failed n) m (.called n .close ok) idle m

end Phase

/-- Transcripts that follow the protocol, with the phase that they lead to and the number of engines
made. -/
inductive Follows : List EngineEvent → Phase → Nat → Prop
  | nothing : Follows [] .idle 0
  | snoc {es : List EngineEvent} {p q : Phase} {m k : Nat} {x : EngineEvent} (h : Follows es p m)
      (hstep : p.Step m x q k) : Follows (es ++ [x]) q k

/-! ### Calls -/

/-- The call of one engine. -/
def EngineEvent.callOf? (n : Nat) : EngineEvent → Option EngineCall
  | called m call _ => if m = n then some call else none
  | produced _ => none

/-- The calls that one engine receives. -/
def callsOf (n : Nat) (es : List EngineEvent) : List EngineCall := es.filterMap (·.callOf? n)

theorem callsOf_snoc (n : Nat) (es : List EngineEvent) (x : EngineEvent) :
    callsOf n (es ++ [x]) = callsOf n es ++ (x.callOf? n).toList := by
  unfold callsOf
  rw [List.filterMap_append]
  cases h : x.callOf? n <;> simp [h]

/-- Set up, and completed any number of times. -/
def IsUp (calls : List EngineCall) : Prop := ∃ k, calls = .setUp :: List.replicate k .complete

/-- Closed after that. -/
def IsClosed (calls : List EngineCall) : Prop := ∃ up, IsUp up ∧ calls = up ++ [.close]

theorem IsUp.complete {calls : List EngineCall} (h : IsUp calls) : IsUp (calls ++ [.complete]) := by
  obtain ⟨k, rfl⟩ := h
  exact ⟨k + 1, by rw [List.cons_append, ← List.replicate_succ']⟩

/-- What an engine has been asked, by where the newest of `m` engines stands. -/
def Phase.Asked (p : Phase) (m n : Nat) (calls : List EngineCall) : Prop :=
  if m ≤ n ∨ p = .made n then calls = []
  else if p = .up n ∨ p = .failed n then IsUp calls
  else IsClosed calls

theorem Phase.Step.asked {p q : Phase} {m k n : Nat} {x : EngineEvent} {calls : List EngineCall}
    (hstep : p.Step m x q k) (hlt : ∀ i, p.engine? = some i → i < m) (h : p.Asked m n calls) :
    q.Asked k n (calls ++ (x.callOf? n).toList) := by
  cases hstep with
  | unproduced => simpa [EngineEvent.callOf?] using h
  | produced =>
    rcases Nat.lt_trichotomy m n with hn | rfl | hn
    · have hle : m + 1 ≤ n := hn
      simpa [Asked, EngineEvent.callOf?, hle, Nat.le_of_lt hn] using h
    · simpa [Asked, EngineEvent.callOf?] using h
    · have hle : ¬ m + 1 ≤ n := by omega
      simpa [Asked, EngineEvent.callOf?, hle, Nat.not_le.2 hn, Nat.ne_of_gt hn] using h
  | @setUp i _ ok =>
    have hi : i < m := hlt i rfl
    by_cases hn : i = n
    · subst hn
      obtain rfl : calls = [] := by simpa [Asked] using h
      have hup : IsUp [.setUp] := ⟨0, rfl⟩
      cases ok <;> simpa [Asked, ofCall, EngineEvent.callOf?, Nat.not_le.2 hi] using hup
    · cases ok <;> simpa [Asked, ofCall, EngineEvent.callOf?, hn] using h
  | @complete i _ ok =>
    have hi : i < m := hlt i rfl
    by_cases hn : i = n
    · subst hn
      have hup : IsUp calls := by simpa [Asked, Nat.not_le.2 hi] using h
      cases ok <;> simpa [Asked, ofCall, EngineEvent.callOf?, Nat.not_le.2 hi] using hup.complete
    · cases ok <;> simpa [Asked, ofCall, EngineEvent.callOf?, hn] using h
  | @close i _ ok | @closeFailed i _ ok =>
    have hi : i < m := hlt i rfl
    by_cases hn : i = n
    · subst hn
      have hup : IsUp calls := by simpa [Asked, Nat.not_le.2 hi] using h
      have hclosed : IsClosed (calls ++ [.close]) := ⟨calls, hup, rfl⟩
      simpa [Asked, EngineEvent.callOf?, Nat.not_le.2 hi] using hclosed
    · simpa [Asked, EngineEvent.callOf?, hn] using h

namespace Follows

variable {es fs : List EngineEvent} {p q : Phase} {m k n : Nat} {x : EngineEvent}

theorem engine_lt (h : Follows es p m) (hn : p.engine? = some n) : n < m := by
  induction h generalizing n with
  | nothing => cases hn
  | snoc h hstep ih =>
    cases hstep with
    | unproduced | close | closeFailed => cases hn
    | produced =>
      cases hn
      exact Nat.lt_succ_self _
    | @setUp _ _ ok | @complete _ _ ok =>
      cases ok <;>
      · cases hn
        exact ih rfl

theorem calls (h : Follows es p m) (n : Nat) : p.Asked m n (callsOf n es) := by
  induction h with
  | nothing => simp [Phase.Asked, callsOf]
  | snoc h hstep ih =>
    rw [callsOf_snoc]
    exact hstep.asked (fun _ hi => h.engine_lt hi) ih

end Follows

/-- The phase of a loader between its hooks. -/
def Phase.between : Option Nat → Phase
  | none => idle
  | some n => up n

end ScriptHost
