import ScriptHost.Proofs.Arena.Together

/-! Sweeps between the requests of those who hold handles. Beside each run of requests and sweeps goes
the run of the requests alone, which keeps together with it however the sweeps are made. -/

namespace ScriptHost

open Arena (Desk Request Act)

namespace Together

variable {now : Nat} {ps : List (Record × Record)} {d e : Desk}

/-- An act on one side goes with its request, if it has one, on the other. -/
theorem act (t : Together now ps d e) (x : Act) (hlate : ∀ time ∈ x.time?, now ≤ time)
    (hroom : d.issued.length + (Arena.requests [x]).countP Request.isIssue ≤ UInt32.size) :
    (∃ ps, Together (x.time?.getD now) ps (d.act x) (e.after (Arena.plain [x]))) ∧
      Arena.verdicts (d.answers [x]) = Arena.verdicts (e.answers (Arena.plain [x])) := by
  have hle : now ≤ x.time?.getD now := by
    cases htime : x.time? with
    | none => exact Nat.le_refl now
    | some time => exact hlate time htime
  have tx := t.mono hle
  cases x with
  | sweep time => exact ⟨tx.sweep_left, rfl⟩
  | request r =>
    have htime : ∀ time ∈ r.time?, time = r.time?.getD now := by
      intro time htime
      rw [Option.mem_def.1 htime, Option.getD_some]
    have hissue : r.isIssue → d.issued.length < UInt32.size := by
      intro hr
      have hone : (Arena.requests [.request r]).countP Request.isIssue = 1 := by
        simp [Arena.requests, Act.request?, hr]
      omega
    obtain ⟨hps, hverdict⟩ := tx.ask r htime hissue
    exact ⟨hps, congrArg (· :: []) hverdict⟩

/-- Acts, and their requests alone, are told the same. -/
theorem run (t : Together now ps d e) {xs : List Act} (hsorted : (Arena.times xs).Pairwise (· ≤ ·))
    (hlate : ∀ time ∈ Arena.times xs, now ≤ time)
    (hroom : d.issued.length + (Arena.requests xs).countP Request.isIssue ≤ UInt32.size) :
    (∃ later ps, (later = now ∨ later ∈ Arena.times xs) ∧
        Together later ps (d.after xs) (e.after (Arena.plain xs))) ∧
      Arena.verdicts (d.answers xs) = Arena.verdicts (e.answers (Arena.plain xs)) := by
  -- The pairs are alike at the time of the last act: what a sweep has taken on one side is over by then
  -- on the other.
  induction xs generalizing now ps d e with
  | nil => exact ⟨⟨now, ps, .inl rfl, t⟩, rfl⟩
  | cons x xs ih =>
    rw [Arena.times_cons] at hsorted hlate ⊢
    rw [Arena.requests_cons, List.countP_append, ← Nat.add_assoc] at hroom
    obtain ⟨htimes, hsorted, hbefore⟩ := List.pairwise_append.1 hsorted
    have hnow : ∀ time ∈ x.time?, now ≤ time := fun time h =>
      hlate time (List.mem_append_left _ (Option.mem_toList.2 h))
    have hnext : ∀ time ∈ Arena.times xs, x.time?.getD now ≤ time := by
      intro time h
      cases hx : x.time? with
      | none => exact hlate time (List.mem_append_right _ h)
      | some first => exact hbefore first (by simp [hx]) time h
    obtain ⟨⟨ps, tx⟩, hx⟩ := t.act x hnow (by omega)
    obtain ⟨⟨later, ps, hlater, tend⟩, hxs⟩ := ih tx hsorted hnext (by rwa [d.length_issued_act])
    rw [Arena.plain_cons]
    constructor
    · refine ⟨later, ps, ?_, by rw [Desk.after_append]; exact tend⟩
      rcases hlater with rfl | hlater
      · cases hx : x.time? <;> simp
      · exact .inr (List.mem_append_right _ hlater)
    · show Arena.verdicts (d.answers ([x] ++ xs)) = _
      rw [Desk.answers_append, Desk.answers_append, Arena.verdicts, Arena.verdicts, List.map_append,
        List.map_append]
      exact congrArg₂ (· ++ ·) hx hxs

end Together

namespace Arena

/-! ### Two ways to sweep -/

/-- Holders cannot tell when sweeps are made. Between the same requests, sweeps may be made or left
out: each use of a handle comes to the same, a use that fails is refused, and a handle that still
resolves does so under the same lease. -/
theorem sweeps_unobservable {xs ys : List Act} (hsame : requests xs = requests ys)
    (hxs : (times xs).Pairwise (· ≤ ·)) (hys : (times ys).Pairwise (· ≤ ·))
    (hfew : (requests xs).countP Request.isIssue < UInt32.size) :
    verdicts (Desk.fresh.answers xs) = verdicts (Desk.fresh.answers ys) ∧
    (∀ k now, (∀ time ∈ times xs ++ times ys, time ≤ now) →
      (Desk.fresh.after xs).lease? k now = (Desk.fresh.after ys).lease? k now) ∧
    ∀ answer, some answer ∈ Desk.fresh.answers xs ++ Desk.fresh.answers ys →
      ∀ e, answer.error? = some e → ∃ h, e.Refuses h := by
  have hroom : Desk.fresh.issued.length + (requests xs).countP Request.isIssue ≤ UInt32.size := by
    simpa [Desk.fresh] using Nat.le_of_lt hfew
  have hplain : plain ys = plain xs := by rw [plain, plain, hsame]
  obtain ⟨⟨last, ps, hlast, tx⟩, hx⟩ := Together.fresh.run hxs (fun _ _ => Nat.zero_le _) hroom
  obtain ⟨⟨last', qs, hlast', ty⟩, hy⟩ :=
    Together.fresh.run hys (fun _ _ => Nat.zero_le _) (hsame ▸ hroom)
  rw [hplain] at ty hy
  refine ⟨hx.trans hy.symm, fun k now hnow => ?_, fun answer h e he => ?_⟩
  · have hle : last ≤ now := by
      rcases hlast with rfl | hlast
      · exact Nat.zero_le now
      · exact hnow last (List.mem_append_left _ hlast)
    have hle' : last' ≤ now := by
      rcases hlast' with rfl | hlast'
      · exact Nat.zero_le now
      · exact hnow last' (List.mem_append_right _ hlast')
    rw [(tx.mono hle).lease?_eq, (ty.mono hle').lease?_eq]
  · obtain ⟨a, c, rfl⟩ : ∃ (a : Arena) (c : Call), (a.call c).1 = answer := by
      rcases List.mem_append.1 h with h | h
      · exact Desk.call_of_mem_answers h
      · exact Desk.call_of_mem_answers h
    exact refuses_of_error he

/-- A sweep that frees the first slot for the second issue, and one that is made too late for that. The
handles differ, and so does the error of the first one. -/
theorem sweeps_unobservable_reuse :
    let issue (policy : LeasePolicy) (now : Nat) : Act := .request (.issue default policy now)
    let uses : List Act := [.request (.access 0 24), .request (.renew 1 24), .request (.access 1 24)]
    let xs : List Act := [issue (.timed 10 0) 0, .sweep 20, issue (.timed 10 5) 20] ++ uses
    let ys : List Act := [issue (.timed 10 0) 0, issue (.timed 10 5) 20, .sweep 24] ++ uses
    requests xs = requests ys ∧ (times xs).Pairwise (· ≤ ·) ∧ (times ys).Pairwise (· ≤ ·) ∧
    (requests xs).countP Request.isIssue < UInt32.size ∧
    (Desk.fresh.after xs).issued = [⟨0, 0⟩, ⟨0, 1⟩] ∧
    (Desk.fresh.after ys).issued = [⟨0, 0⟩, ⟨1, 0⟩] ∧
    verdicts (Desk.fresh.answers xs) =
      [none, none, some .failed, some .renewed, some (.resolved default)] ∧
    (Desk.fresh.after xs).lease? 1 24 = some ⟨.timed 10 5, some 34⟩ := by
  intro issue uses xs ys
  have hsame : requests xs = requests ys := rfl
  have hxs : (times xs).Pairwise (· ≤ ·) := by decide
  have hys : (times ys).Pairwise (· ≤ ·) := by decide
  have hfew : (requests xs).countP Request.isIssue < UInt32.size := by decide
  obtain ⟨hverdicts, hlease, -⟩ := sweeps_unobservable hsame hxs hys hfew
  refine ⟨hsame, hxs, hys, hfew, rfl, rfl, ?_, ?_⟩
  · rw [hverdicts]
    rfl
  · have hnow : ∀ time ∈ times xs ++ times ys, time ≤ 24 := by decide
    rw [hlease 1 24 hnow]
    decide

end Arena

end ScriptHost
