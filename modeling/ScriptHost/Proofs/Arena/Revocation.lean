import ScriptHost.Proofs.Arena.Valid

/-! Handles and the disposal of everything. A handle that an arena accepts was issued since the
arena was last empty, so one that was never issued again stays refused. But an emptied arena counts
its generations from the start: its first handle is always `0v0`, and a handle of old is accepted
again as soon as it is issued anew. -/

namespace ScriptHost.Arena

variable {a : Arena} {h : Handle} {i : Nat} {left : SlotState}

/-- No use of a handle succeeds, at any time. -/
def Refuses (a : Arena) (h : Handle) : Prop :=
  ∀ now, (∃ e, (a.access h now).1 = .error e) ∧ (∃ e, (a.renew h now).1 = .error e) ∧
    a.leaseState? h now = none ∧ (a.dispose h).1 = false

theorem refuses_of_state?_eq_none (hs : a.state? h = none) : a.Refuses h := fun _ => by
  simp [access, renew, leaseState?, dispose, hs]

theorem state?_ne_live_of_refuses (hr : a.Refuses h) (x : Holding) :
    a.state? h ≠ some (.live x) := by
  intro hs
  have := (hr 0).2.2.1
  simp [leaseState?, hs] at this

/-! ### Generations -/

/-- The generation that the slot of an index is in. -/
def generation? (a : Arena) (i : Nat) : Option UInt32 := (a.slots[i]?).map (·.generation)

theorem generation?_retire (a : Arena) (i j : Nat) (left : SlotState) :
    (a.retire i left).generation? j = a.generation? j := by
  have hsame (s : Slot) : (s.retired left).generation = s.generation := by
    unfold Slot.retired
    split <;> rfl
  unfold generation?
  rw [slots_retire]
  split
  · simp [Function.comp_def, hsame]
  · rfl

theorem generation?_retireAll (a : Arena) (is : List Nat) (j : Nat) (left : SlotState) :
    (is.foldl (fun a i => a.retire i left) a).generation? j = a.generation? j := by
  induction is generalizing a with
  | nil => rfl
  | cons i is ih => rw [List.foldl_cons, ih, generation?_retire]

/-- Writing a slot that is in a handle's generation leaves it there. -/
theorem generation?_put {s t : SlotState} (hs : a.state? h = some s) (j : Nat) :
    (a.put h.index ⟨h.generation, t⟩).generation? j = a.generation? j := by
  have hslot := state?_eq_some_iff.1 hs
  unfold generation?
  rw [slots_put]
  split
  · subst_vars; simp [hslot]
  · rfl

theorem mem_generation?_of_state? {s : SlotState} (hs : a.state? h = some s) :
    a.generation? h.index = some h.generation := by
  simp [generation?, state?_eq_some_iff.1 hs]

/-- A slot only comes into another generation when a handle of that generation is issued. -/
theorem Valid.generation?_call (v : a.Valid) (c : Call) {g : UInt32}
    (hg : (a.call c).2.generation? i = some g) :
    a.generation? i = some g ∨ (a.call c).1.issued? = some ⟨i, g⟩ := by
  cases c with
  | issue context policy now =>
    simp only [Arena.call, generation?, v.slots_issue] at hg
    split at hg
    · rename_i hi
      cases hg
      exact .inr (by rw [← hi]; rfl)
    · exact .inl hg
  | access h now =>
    refine .inl (hg ▸ ?_)
    show _ = (a.access h now).2.generation? i
    unfold access
    split
    · rename_i x hs
      split
      · exact (generation?_retire a h.index i .expired).symm
      · exact (generation?_put hs i).symm
    · rfl
    · rfl
  | renew h now =>
    refine .inl (hg ▸ ?_)
    show _ = (a.renew h now).2.generation? i
    unfold renew
    split
    · rename_i x hs
      split
      · exact (generation?_put hs i).symm
      · exact (generation?_retire a h.index i .expired).symm
    · rfl
    · rfl
  | leaseState h now => exact .inl hg
  | dispose h =>
    refine .inl (hg ▸ ?_)
    show _ = (a.dispose h).2.generation? i
    unfold dispose
    split
    · exact (generation?_retire a h.index i .vacant).symm
    · rfl
  | disposeOwner script => exact .inl ((generation?_retireAll a _ i .vacant).symm.trans hg)
  | disposeAll => simp [Arena.call, Arena.disposeAll, empty, generation?] at hg
  | sweep now => exact .inl ((generation?_retireAll a _ i .expired).symm.trans hg)
  | size => exact .inl hg

/-- The slots of an arena are in generations they were in before or of handles issued since. -/
theorem Valid.generation?_after (v : a.Valid) (cs : List Call) {g : UInt32}
    (hg : (a.after cs).generation? i = some g) :
    a.generation? i = some g ∨ ⟨i, g⟩ ∈ a.issues cs := by
  induction cs generalizing a with
  | nil => exact .inl hg
  | cons c cs ih =>
    rw [issues_cons, List.mem_append]
    rcases ih (v.call c) hg with hg | hg
    · rcases v.generation?_call c hg with hg | hg
      · exact .inl hg
      · exact .inr (.inl (by simp [hg]))
    · exact .inr (.inr hg)

/-! ### After the empty arena -/

/-- A handle that was not issued since the arena was empty is refused. -/
theorem refuses_of_not_issued {cs : List Call} (hh : h ∉ empty.issues cs) :
    (empty.after cs).Refuses h := by
  cases hs : (empty.after cs).state? h with
  | none => exact refuses_of_state?_eq_none hs
  | some s =>
    rcases valid_empty.generation?_after cs (mem_generation?_of_state? hs) with hg | hg
    · simp [generation?, empty] at hg
    · exact absurd hg hh

theorem issues_append (a : Arena) (cs ds : List Call) :
    a.issues (cs ++ ds) = a.issues cs ++ (a.after cs).issues ds := by
  induction cs generalizing a with
  | nil => rfl
  | cons c cs ih => rw [List.cons_append, issues_cons, issues_cons, ih, List.append_assoc]; rfl

/-- Right after it is issued, a handle is not refused. -/
theorem Valid.not_refuses_of_issued (v : a.Valid) {c : Call}
    (hc : (a.call c).1.issued? = some h) : ¬(a.call c).2.Refuses h := by
  cases c with
  | issue context policy now =>
    have he : (a.issue context policy now).1 = h := Option.some.inj hc
    intro hr
    refine state?_ne_live_of_refuses hr ⟨context, Lease.start policy now, none⟩ ?_
    rw [state?_eq_some_iff]
    show (a.issue context policy now).2.slots[h.index]? = _
    rw [v.slots_issue, he, if_pos rfl]
  | _ => cases hc

/-- A handle that calls issue is accepted after the first of them that does. -/
theorem Valid.exists_not_refuses (v : a.Valid) {cs : List Call} (hh : h ∈ a.issues cs) :
    ∃ ds, ds <+: cs ∧ ¬(a.after ds).Refuses h := by
  induction cs generalizing a with
  | nil => cases hh
  | cons c cs ih =>
    rw [issues_cons, List.mem_append] at hh
    rcases hh with hh | hh
    · have hc : (a.call c).1.issued? = some h := by simpa using hh
      exact ⟨[c], by simp, v.not_refuses_of_issued hc⟩
    · obtain ⟨ds, hds, hr⟩ := ih (v.call c) hh
      exact ⟨c :: ds, by simpa using hds, hr⟩

theorem call_empty_of_not_issue {c : Call} (hc : c.isIssue = false) : (empty.call c).2 = empty := by
  cases c with
  | issue => cases hc
  | access h now => simp [call, access, state?, empty]
  | renew h now => simp [call, renew, state?, empty]
  | dispose h => simp [call, dispose, state?, empty]
  | _ => rfl

/-- The first handle of an empty arena is always the same. -/
theorem first_mem_issues {cs : List Call} {c : Call} (hc : c ∈ cs) (hi : c.isIssue = true) :
    ⟨0, 0⟩ ∈ empty.issues cs := by
  induction cs with
  | nil => cases hc
  | cons d cs ih =>
    rw [issues_cons]
    cases hd : d.isIssue with
    | true =>
      cases d with
      | issue => simp [call, issue, empty, Answer.issued?]
      | _ => cases hd
    | false =>
      have hmem : c ∈ cs := by
        rcases List.mem_cons.1 hc with rfl | hc
        · rw [hd] at hi; cases hi
        · exact hc
      rw [call_empty_of_not_issue hd]
      exact List.mem_append_right _ (ih hmem)

theorem issues_eq_nil {cs : List Call} (hcs : ∀ c ∈ cs, c.isIssue = false) (a : Arena) :
    a.issues cs = [] := by
  induction cs generalizing a with
  | nil => rfl
  | cons c cs ih =>
    rw [issues_cons, issued?_call_eq_none (hcs c (by simp)), ih fun d hd => hcs d (by simp [hd])]
    rfl

/-! ### The disposal of everything -/

theorem after_disposeAll (before ds : List Call) :
    empty.after (before ++ .disposeAll :: ds) = empty.after ds := by
  rw [after_append]
  rfl

/-- What the disposal of everything revokes: a handle stays refused for as long as it is not issued
anew. All handles of old do so just if there are none or nothing is issued any more. -/
theorem disposeAll_revokes_iff (before later : List Call) :
    ((∀ h ∈ empty.issues before, ∀ ds, ds <+: later →
        (empty.after (before ++ .disposeAll :: ds)).Refuses h) ↔
      (∀ c ∈ before, c.isIssue = false) ∨ ∀ c ∈ later, c.isIssue = false) ∧
    ∀ h, (∀ ds, ds <+: later → (empty.after (before ++ .disposeAll :: ds)).Refuses h) ↔
      h ∉ (empty.after (before ++ [.disposeAll])).issues later := by
  have hrevoked (h : Handle) :
      (∀ ds, ds <+: later → (empty.after (before ++ .disposeAll :: ds)).Refuses h) ↔
        h ∉ (empty.after (before ++ [.disposeAll])).issues later := by
    simp only [after_disposeAll]
    constructor
    · intro hall hh
      obtain ⟨ds, hds, hr⟩ := valid_empty.exists_not_refuses hh
      exact hr (hall ds hds)
    · rintro hh ds ⟨es, rfl⟩
      rw [show empty.after [] = empty from rfl, issues_append, List.mem_append, not_or] at hh
      exact refuses_of_not_issued hh.1
  refine ⟨?_, hrevoked⟩
  simp only [hrevoked]
  rw [after_disposeAll]
  constructor
  · intro hall
    by_cases hbefore : ∃ c ∈ before, c.isIssue = true
    · obtain ⟨c, hc, hci⟩ := hbefore
      refine .inr fun d hd => Bool.not_eq_true _ ▸ fun hdi => ?_
      exact hall _ (first_mem_issues hc hci) (first_mem_issues hd hdi)
    · exact .inl fun c hc => Bool.not_eq_true _ ▸ fun hci => hbefore ⟨c, hc, hci⟩
  · rintro (hbefore | hlater) h hh
    · rw [issues_eq_nil hbefore] at hh
      cases hh
    · rw [issues_eq_nil hlater]
      simp

/-- A handle from before the disposal of everything that resolves to a context issued after it. -/
theorem old_handle_resolves_to_new_context :
    ⟨0, 0⟩ ∈ empty.issues [.issue { (default : ScriptContext) with name := "old" } .manual 0] ∧
    ((empty.after [.issue { (default : ScriptContext) with name := "old" } .manual 0, .disposeAll,
        .issue { (default : ScriptContext) with name := "new" } .manual 0]).access ⟨0, 0⟩ 0).1 =
      .ok { (default : ScriptContext) with name := "new" } := by
  exact ⟨by simp [issues, answers, call, issue, empty, Answer.issued?], rfl⟩

end ScriptHost.Arena
