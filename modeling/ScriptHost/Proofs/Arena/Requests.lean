import ScriptHost.Proofs.Arena.Aging

/-! Requests to an arena by those who hold its handles, with sweeps between them. A holder knows its
handle by the number of the issue, whichever slot it was given. -/

namespace ScriptHost

namespace Arena

/-! ### Requests -/

/-- What is asked on behalf of holders. Handles are named by the number of their issue, from 0 on. -/
inductive Request
  | issue (context : ScriptContext) (policy : LeasePolicy) (now : Nat)
  | access (k now : Nat)
  | renew (k now : Nat)
  | dispose (k : Nat)
  | disposeOwner (script : ObjectId)

/-- A request, or a sweep, for which nobody asks. -/
inductive Act
  | request (r : Request)
  | sweep (now : Nat)

def Request.isIssue : Request → Bool
  | issue _ _ _ => true
  | _ => false

/-- The call of a request, where a number that was not issued yet calls nothing. -/
def Request.call? (issued : List Handle) : Request → Option Call
  | issue context policy now => some (.issue context policy now)
  | access k now => issued[k]?.map (.access · now)
  | renew k now => issued[k]?.map (.renew · now)
  | dispose k => issued[k]?.map .dispose
  | disposeOwner script => some (.disposeOwner script)

def Request.time? : Request → Option Nat
  | issue _ _ now | access _ now | renew _ now => some now
  | dispose _ | disposeOwner _ => none

def Act.time? : Act → Option Nat
  | request r => r.time?
  | sweep now => some now

def Act.request? : Act → Option Request
  | request r => some r
  | sweep _ => none

/-- The requests among acts. -/
def requests (xs : List Act) : List Request := xs.filterMap Act.request?

/-- The same requests without the sweeps. -/
def plain (xs : List Act) : List Act := (requests xs).map .request

def times (xs : List Act) : List Nat := xs.filterMap Act.time?

theorem requests_cons (x : Act) (xs : List Act) : requests (x :: xs) = requests [x] ++ requests xs :=
  List.filterMap_append (l := [x])

theorem plain_cons (x : Act) (xs : List Act) : plain (x :: xs) = plain [x] ++ plain xs := by
  rw [plain, requests_cons, List.map_append]
  rfl

theorem times_cons (x : Act) (xs : List Act) : times (x :: xs) = x.time?.toList ++ times xs := by
  rw [times, List.filterMap_cons]
  cases x.time? <;> rfl

/-- The lease of a handle that resolves. -/
def lease? (a : Arena) (h : Handle) (now : Nat) : Option Lease :=
  match a.state? h with
  | some (.live x) => if x.lease.isExpired now then none else some x.lease
  | _ => none

/-- An arena and the handles that it has issued, in order. -/
structure Desk where
  arena : Arena
  issued : List Handle

namespace Desk

def fresh : Desk := ⟨.empty, []⟩

def call (d : Desk) (c : Call) : Desk :=
  ⟨(d.arena.call c).2, d.issued ++ (d.arena.call c).1.issued?.toList⟩

def ask (d : Desk) (r : Request) : Desk := ((r.call? d.issued).map d.call).getD d

def answer? (d : Desk) (r : Request) : Option Answer :=
  (r.call? d.issued).map fun c => (d.arena.call c).1

def act (d : Desk) : Act → Desk
  | .request r => d.ask r
  | .sweep now => d.call (.sweep now)

def after (d : Desk) (xs : List Act) : Desk := xs.foldl act d

/-- What the requests among acts are answered. -/
def answers (d : Desk) : List Act → List (Option Answer)
  | [] => []
  | .request r :: xs => d.answer? r :: (d.ask r).answers xs
  | .sweep now :: xs => (d.call (.sweep now)).answers xs

/-- The lease of the handle that was issued as the `k`-th, if the handle resolves. -/
def lease? (d : Desk) (k now : Nat) : Option Lease := d.issued[k]?.bind (d.arena.lease? · now)

theorem after_append (d : Desk) (xs ys : List Act) : d.after (xs ++ ys) = (d.after xs).after ys :=
  List.foldl_append

theorem answers_append (d : Desk) (xs ys : List Act) :
    d.answers (xs ++ ys) = d.answers xs ++ (d.after xs).answers ys := by
  induction xs generalizing d with
  | nil => rfl
  | cons x xs ih =>
    cases x with
    | request r => exact congrArg (d.answer? r :: ·) (ih (d.ask r))
    | sweep now => exact ih (d.call (.sweep now))

theorem length_issued_act (d : Desk) (x : Act) :
    (d.act x).issued.length = d.issued.length + (requests [x]).countP Request.isIssue := by
  cases x with
  | sweep now => exact congrArg List.length (List.append_nil _)
  | request r =>
    cases r with
    | issue context policy now => exact List.length_append
    | disposeOwner script => exact congrArg List.length (List.append_nil _)
    | access k | renew k | dispose k =>
      show (d.ask _).issued.length = d.issued.length
      simp only [ask, Request.call?]
      cases d.issued[k]? with
      | none => rfl
      | some h => exact congrArg List.length (List.append_nil _)

end Desk

/-- What a holder learns from the use of a handle. -/
inductive Verdict
  | resolved (context : ScriptContext)
  | renewed
  | failed
  deriving DecidableEq

def Answer.verdict? : Answer → Option Verdict
  | resolved (.ok context) => some (.resolved context)
  | renewed (.ok ()) => some .renewed
  | resolved (.error _) | renewed (.error _) => some .failed
  | _ => none

/-- The error of a use that failed. -/
def Answer.error? : Answer → Option CallError
  | resolved (.error e) | renewed (.error e) => some e
  | _ => none

def verdicts (answers : List (Option Answer)) : List (Option Verdict) :=
  answers.map (·.bind Answer.verdict?)

/-! ### Errors -/

/-- A use fails because the lease ran out or the handle is not valid, and for no other reason. -/
theorem refuses_of_error {a : Arena} {c : Call} {e : CallError} (h : (a.call c).1.error? = some e) :
    ∃ handle, e.Refuses handle := by
  cases c with
  | access handle now =>
    refine ⟨handle, ?_⟩
    simp only [call, access] at h
    split at h
    · split at h <;> cases h
      exact .inl rfl
    · cases h
      exact .inl rfl
    · cases h
      exact .inr rfl
  | renew handle now =>
    refine ⟨handle, ?_⟩
    simp only [call, renew] at h
    split at h
    · split at h <;> cases h
      exact .inl rfl
    · cases h
      exact .inl rfl
    · cases h
      exact .inr rfl
  | _ => cases h

theorem Desk.call_of_mem_answers {d : Desk} {xs : List Act} {answer : Answer}
    (h : some answer ∈ d.answers xs) : ∃ (a : Arena) (c : Call), (a.call c).1 = answer := by
  induction xs generalizing d with
  | nil => cases h
  | cons x xs ih =>
    cases x with
    | sweep now => exact ih h
    | request r =>
      rcases List.mem_cons.1 h with h | h
      · obtain ⟨c, -, hc⟩ := Option.map_eq_some_iff.1 h.symm
        exact ⟨d.arena, c, hc⟩
      · exact ih h

end Arena

end ScriptHost
