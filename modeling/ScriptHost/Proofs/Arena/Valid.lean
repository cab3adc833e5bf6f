import ScriptHost.Proofs.Arena.Call

/-! The arena's representation: the free indices are those of the slots that are not live, each of
them once, and the live slots are counted. Every call keeps this, so it holds after every run from
the empty arena, and no call writes past the slots or over a live one. -/

namespace ScriptHost.Arena

variable {a : Arena} {i : Nat} {h : Handle} {left : SlotState}

/-- The slots, the free indices and the count agree. -/
structure Valid (a : Arena) : Prop where
  free_nodup : a.free.Nodup
  mem_free_iff : ∀ i, i ∈ a.free ↔ ∃ s, a.slots[i]? = some s ∧ s.state.isLive = false
  live_eq : a.live = (a.liveIndices fun _ => true).length

theorem valid_empty : empty.Valid where
  free_nodup := List.nodup_nil
  mem_free_iff i := by simp [empty]
  live_eq := rfl

theorem mem_liveIndices_true :
    i ∈ a.liveIndices (fun _ => true) ↔ ∃ s, a.slots[i]? = some s ∧ s.state.isLive = true := by
  rw [mem_liveIndices]
  constructor
  · rintro ⟨g, x, hs, _⟩
    exact ⟨_, hs, rfl⟩
  · rintro ⟨⟨g, s⟩, hs, hl⟩
    cases s with
    | live x => exact ⟨g, x, hs, rfl⟩
    | _ => cases hl

theorem retire_of_live {g : UInt32} {x : Holding} (hs : a.slots[i]? = some ⟨g, .live x⟩) :
    a.retire i left =
      { a.put i ⟨g, left⟩ with free := i :: a.free, live := a.live - 1 } := by
  simp only [retire, hs]

theorem retire_of_not_live (hs : i ∉ a.liveIndices fun _ => true) : a.retire i left = a := by
  unfold retire
  split
  · rename_i g x h
    exact absurd (mem_liveIndices.2 ⟨g, x, h, rfl⟩) hs
  · rfl

theorem Valid.not_free_of_live (v : a.Valid) {g : UInt32} {x : Holding}
    (hs : a.slots[i]? = some ⟨g, .live x⟩) : i ∉ a.free := by
  intro hi
  obtain ⟨s, hs', hl⟩ := (v.mem_free_iff i).1 hi
  rw [hs] at hs'
  cases hs'
  cases hl

/-- The representation only depends on which slots are live, for the same free indices. -/
theorem Valid.congr {b : Arena} (v : a.Valid) (hfree : b.free = a.free) (hlive : b.live = a.live)
    (hslots : ∀ i : Nat, b.slots[i]?.map (·.state.isLive) = a.slots[i]?.map (·.state.isLive)) :
    b.Valid := by
  have key (i : Nat) (l : Bool) : (∃ s, b.slots[i]? = some s ∧ s.state.isLive = l) ↔
      ∃ s, a.slots[i]? = some s ∧ s.state.isLive = l := by
    simp only [← Option.map_eq_some_iff, hslots i]
  refine ⟨hfree ▸ v.free_nodup, fun i => ?_, ?_⟩
  · rw [hfree, v.mem_free_iff, key]
  · rw [hlive, v.live_eq]
    exact length_liveIndices_congr fun i => by
      rw [mem_liveIndices_true, mem_liveIndices_true, key]

theorem Valid.put_live (v : a.Valid) {g g' : UInt32} {x y : Holding}
    (hs : a.slots[i]? = some ⟨g, .live x⟩) : (a.put i ⟨g', .live y⟩).Valid := by
  refine v.congr rfl rfl fun j => ?_
  rw [slots_put]
  split
  · subst_vars; simp [hs]
  · rfl

theorem Valid.retire (v : a.Valid) (i : Nat) (hleft : left.isLive = false) :
    (a.retire i left).Valid := by
  by_cases hi : i ∈ a.liveIndices fun _ => true
  · obtain ⟨g, x, hs, _⟩ := mem_liveIndices.1 hi
    have hslots (j : Nat) := slots_retire a i j left
    have hcount : (a.liveIndices fun _ => true).length =
        ((a.retire i left).liveIndices fun _ => true).length + 1 := by
      refine length_liveIndices_cons (i := i) ?_ fun j => ?_
      · rw [mem_liveIndices_true, hslots]
        simp [hs, hleft]
      · rw [mem_liveIndices_true, mem_liveIndices_true, hslots]
        by_cases hij : i = j
        · subst hij; simp [hs]
        · simp [hij, Ne.symm hij]
    refine ⟨?_, fun j => ?_, ?_⟩
    · rw [retire_of_live hs]
      exact List.nodup_cons.2 ⟨v.not_free_of_live hs, v.free_nodup⟩
    · rw [hslots, retire_of_live hs, List.mem_cons, v.mem_free_iff]
      by_cases hij : i = j
      · subst hij; simp [hs, hleft]
      · simp [hij, Ne.symm hij]
    · rw [show (a.retire i left).live = a.live - 1 by rw [retire_of_live hs], v.live_eq, hcount]
      rfl
  · rw [retire_of_not_live hi]
    exact v

theorem Valid.retireAll (v : a.Valid) (is : List Nat) (hleft : left.isLive = false) :
    (is.foldl (fun a i => a.retire i left) a).Valid := by
  induction is generalizing a with
  | nil => exact v
  | cons i is ih => exact ih (v.retire i hleft)

/-- The slots after a number of them are taken out of use. -/
theorem slots_retireAll (is : List Nat) (hleft : left.isLive = false) (j : Nat) :
    (is.foldl (fun a i => a.retire i left) a).slots[j]? =
      if j ∈ is then (a.slots[j]?).map (·.retired left) else a.slots[j]? := by
  induction is generalizing a with
  | nil => simp
  | cons i is ih =>
    rw [List.foldl_cons, ih, slots_retire]
    by_cases hij : i = j
    · subst hij
      have hidem (s : Slot) : (s.retired left).retired left = s.retired left := by
        unfold Slot.retired
        split <;> simp_all
      cases a.slots[i]? <;> simp [hidem]
    · simp [hij, Ne.symm hij]

/-- The handles of one script are disposed of. -/
theorem state?_live_disposeOwner {script : ObjectId} {x : Holding} :
    (a.disposeOwner script).2.state? h = some (.live x) ↔
      a.state? h = some (.live x) ∧ x.context.script ≠ script := by
  rw [state?_eq_some_iff, state?_eq_some_iff]
  unfold disposeOwner
  dsimp only
  rw [slots_retireAll _ SlotState.isLive_vacant]
  split
  · rename_i hmine
    obtain ⟨g, y, hy, hscript⟩ := mem_liveIndices.1 hmine
    rw [hy]
    refine iff_of_false (by simp) ?_
    rintro ⟨hx, hother⟩
    cases hx
    exact hother (by simpa using hscript)
  · rename_i hothers
    refine ⟨fun hx => ⟨hx, fun hscript => hothers ?_⟩, And.left⟩
    exact mem_liveIndices.2 ⟨_, x, hx, by simpa using hscript⟩

/-! ### Issuing -/

/-- What issuing does to a valid arena: it takes a free slot into its next generation, or else adds
one. -/
theorem Valid.issue_cases (v : a.Valid) (context : ScriptContext) (policy : LeasePolicy)
    (now : Nat) :
    (∃ i rest s, a.free = i :: rest ∧ a.slots[i]? = some s ∧ s.state.isLive = false ∧
      a.issue context policy now = (⟨i, s.generation + 1⟩,
        { a.put i ⟨s.generation + 1, .live ⟨context, Lease.start policy now, none⟩⟩ with
          free := rest, live := a.live + 1 })) ∨
    (a.free = [] ∧ a.issue context policy now = (⟨a.slots.size, 0⟩,
      { a with slots := a.slots.push ⟨0, .live ⟨context, Lease.start policy now, none⟩⟩,
               live := a.live + 1 })) := by
  cases hf : a.free with
  | nil => exact .inr ⟨rfl, by simp only [issue, hf]⟩
  | cons i rest =>
    obtain ⟨s, hs, hl⟩ := (v.mem_free_iff i).1 (by simp [hf])
    exact .inl ⟨i, rest, s, rfl, hs, hl, by simp only [issue, hf, hs]⟩

/-- The slot of a new handle holds what was issued, and no other slot changes. -/
theorem Valid.slots_issue (v : a.Valid) (context : ScriptContext) (policy : LeasePolicy)
    (now j : Nat) :
    (a.issue context policy now).2.slots[j]? =
      if (a.issue context policy now).1.index = j then
        some ⟨(a.issue context policy now).1.generation,
          .live ⟨context, Lease.start policy now, none⟩⟩
      else a.slots[j]? := by
  rcases v.issue_cases context policy now with ⟨i, rest, s, hf, hs, hl, he⟩ | ⟨hf, he⟩
  · rw [he]
    show (a.put i _).slots[j]? = if i = j then _ else _
    rw [slots_put]
    split
    · subst_vars; simp [hs]
    · rfl
  · rw [he]
    show (a.slots.push _)[j]? = if a.slots.size = j then _ else _
    rw [Array.getElem?_push]
    simp only [eq_comm]

/-- The slot of a new handle was not live. -/
theorem Valid.not_live_issue (v : a.Valid) (context : ScriptContext) (policy : LeasePolicy) (now : Nat)
    (g : UInt32) (x : Holding) : a.slots[(a.issue context policy now).1.index]? ≠ some ⟨g, .live x⟩ := by
  intro hx
  rcases v.issue_cases context policy now with ⟨i, rest, s, -, hs, hvacant, hissue⟩ | ⟨-, hissue⟩
  · rw [hissue] at hx
    obtain rfl : s = ⟨g, .live x⟩ := Option.some.inj (hs.symm.trans hx)
    cases hvacant
  · rw [hissue] at hx
    simp at hx

/-- The new handle is live, and so are those that were. -/
theorem Valid.state?_live_issue (v : a.Valid) (context : ScriptContext) (policy : LeasePolicy) (now : Nat)
    {x : Holding} :
    (a.issue context policy now).2.state? h = some (.live x) ↔
      h = (a.issue context policy now).1 ∧ x = ⟨context, Lease.start policy now, none⟩ ∨
        a.state? h = some (.live x) := by
  have hnew := v.not_live_issue context policy now
  rw [state?_eq_some_iff, state?_eq_some_iff, v.slots_issue]
  generalize (a.issue context policy now).1 = new at hnew ⊢
  obtain ⟨i, g⟩ := h
  obtain ⟨j, k⟩ := new
  by_cases hindex : j = i
  · subst hindex
    simp [hnew, eq_comm (a := g), eq_comm (a := x)]
  · simp [hindex, Ne.symm hindex]

theorem Valid.issue (v : a.Valid) (context : ScriptContext) (policy : LeasePolicy) (now : Nat) :
    (a.issue context policy now).2.Valid := by
  have hslots (j : Nat) := v.slots_issue context policy now j
  rcases v.issue_cases context policy now with ⟨i, rest, s, hf, hs, hl, he⟩ | ⟨hf, he⟩
  · have hn := hf ▸ v.free_nodup
    rw [he] at hslots ⊢
    refine ⟨(List.nodup_cons.1 hn).2, fun j => ?_, ?_⟩
    · rw [hslots]
      have := v.mem_free_iff j
      rw [hf, List.mem_cons] at this
      by_cases hij : i = j
      · subst hij
        simp [(List.nodup_cons.1 hn).1]
      · simp [hij, ← this, Ne.symm hij]
    · rw [show a.live + 1 = (a.liveIndices fun _ => true).length + 1 by rw [v.live_eq]]
      refine (length_liveIndices_cons (i := i) ?_ fun j => ?_).symm
      · rw [mem_liveIndices_true]; simp [hs, hl]
      · rw [mem_liveIndices_true, mem_liveIndices_true, hslots]
        by_cases hij : i = j
        · subst hij; simp
        · simp [hij, Ne.symm hij]
  · rw [he] at hslots ⊢
    have hend : a.slots[a.slots.size]? = none := by simp
    refine ⟨v.free_nodup, fun j => ?_, ?_⟩
    · rw [hslots, v.mem_free_iff]
      by_cases hij : a.slots.size = j
      · subst hij; simp
      · simp [hij]
    · rw [show a.live + 1 = (a.liveIndices fun _ => true).length + 1 by rw [v.live_eq]]
      refine (length_liveIndices_cons (i := a.slots.size) ?_ fun j => ?_).symm
      · rw [mem_liveIndices_true]; simp
      · rw [mem_liveIndices_true, mem_liveIndices_true, hslots]
        by_cases hij : a.slots.size = j
        · subst hij; simp
        · simp [hij, Ne.symm hij]

/-! ### Runs -/

theorem Valid.call (v : a.Valid) (c : Call) : (a.call c).2.Valid := by
  cases c with
  | issue context policy now => exact v.issue context policy now
  | access h now =>
    show (a.access h now).2.Valid
    unfold Arena.access
    split
    · rename_i x hs
      split
      · exact v.retire h.index rfl
      · exact v.put_live (state?_eq_some_iff.1 hs)
    · exact v
    · exact v
  | renew h now =>
    show (a.renew h now).2.Valid
    unfold Arena.renew
    split
    · rename_i x hs
      split
      · exact v.put_live (state?_eq_some_iff.1 hs)
      · exact v.retire h.index rfl
    · exact v
    · exact v
  | leaseState h now => exact v
  | dispose h =>
    show (a.dispose h).2.Valid
    unfold Arena.dispose
    split
    · exact v.retire h.index rfl
    · exact v
  | disposeOwner script => exact v.retireAll _ rfl
  | disposeAll => exact valid_empty
  | sweep now => exact v.retireAll _ rfl
  | size => exact v

theorem Valid.after (v : a.Valid) (cs : List Call) : (a.after cs).Valid := by
  induction cs generalizing a with
  | nil => exact v
  | cons c cs ih => exact ih (v.call c)

end ScriptHost.Arena
