import ScriptHost.Proofs.Arena.Ledger
import ScriptHost.Proofs.Arena.Valid

/-! An arena beside the ledger of its history. `Tracks l a` says that each slot holds what the
latest record of the slot says, that older records are not live, and that generations grow within a
slot. A handle then stands in the ledger as its slot says, and the live slots of a kind carry the
handles of the live records of that kind. -/

namespace ScriptHost

/-- The status of a handle whose slot is in a state. -/
def SlotState.status : SlotState → Status
  | vacant => .disposed
  | live _ => .live
  | expired => .expired

theorem SlotState.status_eq_live_iff {s : SlotState} : s.status = .live ↔ s.isLive = true := by
  cases s <;> simp [SlotState.status]

/-- A slot holds what a record says. -/
structure Record.Fits (r : Record) (s : Slot) : Prop where
  generation : r.handle.generation = s.generation
  status : r.status = s.state.status
  holding : ∀ x, s.state = .live x → r.context = x.context ∧ r.lease = x.lease

/-- The ledger is the arena's history. -/
structure Tracks (l : Ledger) (a : Arena) : Prop where
  valid : a.Valid
  slots : ∀ i : Nat, Option.Rel Record.Fits (l.latest? i) a.slots[i]?
  live_latest : ∀ r ∈ l, r.status = .live → l.latest? r.handle.index = some r
  ordered : l.Pairwise fun r s => r.handle.index = s.handle.index →
    s.handle.generation.toNat < r.handle.generation.toNat
  bound : ∀ r ∈ l, r.handle.generation.toNat < l.length

theorem tracks_empty : Tracks [] Arena.empty where
  valid := Arena.valid_empty
  slots _ := Option.Rel.none
  live_latest := by simp
  ordered := List.Pairwise.nil
  bound := by simp

namespace Tracks

variable {l : Ledger} {a : Arena} {r : Record} {h : Handle} {i : Nat} {left : SlotState}

/-! ### What the two sides see of a handle -/

theorem distinct (t : Tracks l a) : (l.map (·.handle)).Nodup := by
  rw [List.nodup_iff_pairwise_ne, List.pairwise_map]
  refine t.ordered.imp fun {r s} hrs he => ?_
  have := hrs (by rw [he])
  rw [he] at this
  omega

/-- The latest record of a slot has its highest generation. -/
theorem generation_le (t : Tracks l a) {s : Record} (hr : r ∈ l)
    (hs : l.latest? r.handle.index = some s) :
    r.handle.generation.toNat ≤ s.handle.generation.toNat := by
  have ho := t.ordered
  clear t
  induction l with
  | nil => cases hr
  | cons x l ih =>
    obtain ⟨hx, ho⟩ := List.pairwise_cons.1 ho
    rw [Ledger.latest?_cons] at hs
    by_cases hi : x.handle.index = r.handle.index
    · rw [if_pos hi] at hs
      cases hs
      rcases List.mem_cons.1 hr with rfl | hr
      · exact Nat.le_refl _
      · exact Nat.le_of_lt (hx r hr hi)
    · rw [if_neg hi] at hs
      rcases List.mem_cons.1 hr with rfl | hr
      · exact absurd rfl hi
      · exact ih hr hs ho

theorem latest_of_slot (t : Tracks l a) {s : Slot} (hs : a.slots[i]? = some s) :
    ∃ r, l.latest? i = some r ∧ r.Fits s := by
  have hrel := t.slots i
  rw [hs] at hrel
  cases hl : l.latest? i with
  | none => rw [hl] at hrel; cases hrel
  | some r =>
    rw [hl] at hrel
    cases hrel with
    | some hfits => exact ⟨r, rfl, hfits⟩

theorem slot_of_latest (t : Tracks l a) (hr : l.latest? i = some r) :
    ∃ s, a.slots[i]? = some s ∧ r.Fits s := by
  have hrel := t.slots i
  rw [hr] at hrel
  cases hs : a.slots[i]? with
  | none => rw [hs] at hrel; cases hrel
  | some s =>
    rw [hs] at hrel
    cases hrel with
    | some hfits => exact ⟨s, rfl, hfits⟩

theorem latest_of_no_slot (t : Tracks l a) (hs : a.slots[i]? = none) : l.latest? i = none := by
  cases hl : l.latest? i with
  | none => rfl
  | some r =>
    obtain ⟨s, hs', _⟩ := t.slot_of_latest hl
    rw [hs] at hs'
    cases hs'

/-- A slot in a handle's generation holds what the handle's record says. -/
theorem record_of_state (t : Tracks l a) {s : SlotState} (hs : a.state? h = some s) :
    ∃ r, l.record? h = some r ∧ l.latest? h.index = some r ∧ r.Fits ⟨h.generation, s⟩ := by
  obtain ⟨r, hr, hfits⟩ := t.latest_of_slot (Arena.state?_eq_some_iff.1 hs)
  obtain ⟨hmem, hi⟩ := Ledger.latest?_eq_some hr
  have hh : r.handle = h := by
    obtain ⟨⟨ri, rg⟩, _, _, _⟩ := r
    obtain ⟨hi', hg'⟩ := h
    simp only at hi
    have := hfits.generation
    simp_all
  exact ⟨r, (Ledger.record?_eq_some_iff t.distinct).2 ⟨hmem, hh⟩, hr, hfits⟩

theorem standing_live (t : Tracks l a) {x : Holding} (hs : a.state? h = some (.live x)) :
    ∃ r, l.standing h = .live r ∧ r ∈ l ∧ r.handle = h ∧ r.status = .live ∧
      r.context = x.context ∧ r.lease = x.lease := by
  obtain ⟨r, hr, _, hfits⟩ := t.record_of_state hs
  obtain ⟨hmem, hh⟩ := (Ledger.record?_eq_some_iff t.distinct).1 hr
  have hst : r.status = .live := hfits.status
  exact ⟨r, by simp only [Ledger.standing, hr, hst], hmem, hh, hst, hfits.holding x rfl⟩

theorem standing_expired (t : Tracks l a) (hs : a.state? h = some .expired) :
    l.standing h = .expired := by
  obtain ⟨r, hr, hlatest, hfits⟩ := t.record_of_state hs
  obtain ⟨_, hh⟩ := (Ledger.record?_eq_some_iff t.distinct).1 hr
  have hst : r.status = .expired := hfits.status
  have hre : l.reissued h = false := by simp [Ledger.reissued, hlatest, hh]
  simp [Ledger.standing, hr, hst, hre]

/-- A handle that no slot is in the generation of, or whose slot was vacated, is invalid. -/
theorem standing_invalid (t : Tracks l a) (hs : a.state? h = none ∨ a.state? h = some .vacant) :
    l.standing h = .invalid := by
  cases hr : l.record? h with
  | none => simp [Ledger.standing, hr]
  | some r =>
    obtain ⟨hmem, rfl⟩ := (Ledger.record?_eq_some_iff t.distinct).1 hr
    rcases hs with hs | hs
    · have hne : l.latest? r.handle.index ≠ some r := by
        intro hlatest
        obtain ⟨s, hslot, hfits⟩ := t.slot_of_latest hlatest
        have := (Arena.state?_eq_some_iff (s := s.state)).2 (by rw [hslot, hfits.generation])
        rw [hs] at this
        cases this
      cases hst : r.status with
      | live => exact absurd (t.live_latest r hmem hst) hne
      | disposed => simp [Ledger.standing, hr, hst]
      | expired =>
        have hre : l.reissued r.handle = true := by
          cases hl : l.latest? r.handle.index with
          | none => exact absurd rfl (Ledger.index_ne_of_latest?_eq_none hl hmem)
          | some s =>
            rw [hl] at hne
            have hsl := Ledger.latest?_eq_some hl
            have : s.handle ≠ r.handle := fun he =>
              hne (by rw [List.inj_on_of_nodup_map t.distinct hsl.1 hmem he])
            simp [Ledger.reissued, hl, this]
        simp [Ledger.standing, hr, hst, hre]
    · obtain ⟨r', hr', _, hfits⟩ := t.record_of_state hs
      rw [hr] at hr'
      cases hr'
      have hst : r.status = .disposed := hfits.status
      simp [Ledger.standing, hr, hst]

/-- A handle stands in the ledger as its slot says. -/
theorem view (t : Tracks l a) (h : Handle) :
    (l.standing h = .invalid ∧ (a.state? h = none ∨ a.state? h = some .vacant)) ∨
    (l.standing h = .expired ∧ a.state? h = some .expired) ∨
    ∃ r x, l.standing h = .live r ∧ a.state? h = some (.live x) ∧ r ∈ l ∧ r.handle = h ∧
      r.status = .live ∧ r.context = x.context ∧ r.lease = x.lease := by
  cases hs : a.state? h with
  | none => exact .inl ⟨t.standing_invalid (.inl hs), .inl rfl⟩
  | some s =>
    cases s with
    | vacant => exact .inl ⟨t.standing_invalid (.inr hs), .inr rfl⟩
    | expired => exact .inr (.inl ⟨t.standing_expired hs, rfl⟩)
    | live x =>
      obtain ⟨r, hstanding, hr⟩ := t.standing_live hs
      exact .inr (.inr ⟨r, x, hstanding, rfl, hr⟩)

/-! ### Live slots and live records -/

theorem live_record (t : Tracks l a) {g : UInt32} {x : Holding}
    (hs : a.slots[i]? = some ⟨g, .live x⟩) :
    ∃ r ∈ l, r.status = .live ∧ r.handle = a.handleAt i ∧ r.context = x.context ∧
      r.lease = x.lease := by
  obtain ⟨r, hr, hfits⟩ := t.latest_of_slot hs
  obtain ⟨hmem, hi⟩ := Ledger.latest?_eq_some hr
  have hg : r.handle.generation = g := hfits.generation
  refine ⟨r, hmem, hfits.status, ?_, hfits.holding x rfl⟩
  obtain ⟨⟨ri, rg⟩, _, _, _⟩ := r
  simp_all [Arena.handleAt]

theorem live_slot (t : Tracks l a) (hr : r ∈ l) (hst : r.status = .live) :
    ∃ x, a.slots[r.handle.index]? = some ⟨r.handle.generation, .live x⟩ ∧
      r.context = x.context ∧ r.lease = x.lease := by
  obtain ⟨⟨g, s⟩, hs, hfits⟩ := t.slot_of_latest (t.live_latest r hr hst)
  have hg : r.handle.generation = g := hfits.generation
  have hstatus : r.status = s.status := hfits.status
  rw [hst] at hstatus
  cases s with
  | live x => exact ⟨x, by rw [hs, hg], hfits.holding x rfl⟩
  | vacant => cases hstatus
  | expired => cases hstatus

variable {p : ScriptContext → Lease → Bool}

theorem mem_liveIndices_iff (t : Tracks l a) :
    i ∈ a.liveIndices (fun x => p x.context x.lease) ↔
      ∃ r ∈ l.live (fun r => p r.context r.lease), r.handle.index = i := by
  rw [Arena.mem_liveIndices]
  constructor
  · rintro ⟨g, x, hs, hp⟩
    obtain ⟨r, hr, hst, hh, hc, hl⟩ := t.live_record hs
    exact ⟨r, Ledger.mem_live.2 ⟨hr, hst, by rw [hc, hl]; exact hp⟩, by rw [hh]; rfl⟩
  · rintro ⟨r, hr, rfl⟩
    obtain ⟨hr, hst, hp⟩ := Ledger.mem_live.1 hr
    obtain ⟨x, hs, hc, hl⟩ := t.live_slot hr hst
    exact ⟨_, x, hs, by rw [← hc, ← hl]; exact hp⟩

/-- The live slots of a kind carry the handles of the live records of that kind. -/
theorem live_perm (t : Tracks l a) :
    ((a.liveIndices fun x => p x.context x.lease).map a.handleAt).Perm
      ((l.live fun r => p r.context r.lease).map (·.handle)) := by
  have hleft : ((a.liveIndices fun x => p x.context x.lease).map a.handleAt).Nodup :=
    (a.nodup_liveIndices _).map fun i j hij => congrArg Handle.index hij
  have hright : ((l.live fun r => p r.context r.lease).map (·.handle)).Nodup :=
    t.distinct.sublist (List.filter_sublist.map _)
  refine (List.perm_ext_iff_of_nodup hleft hright).2 fun h => ?_
  simp only [List.mem_map]
  have handleAt_eq {r : Record} (hr : r ∈ l.live fun r => p r.context r.lease) :
      a.handleAt r.handle.index = r.handle := by
    obtain ⟨hr, hst, _⟩ := Ledger.mem_live.1 hr
    obtain ⟨x, hs, _⟩ := t.live_slot hr hst
    simp [Arena.handleAt, hs]
  constructor
  · rintro ⟨i, hi, rfl⟩
    obtain ⟨r, hr, rfl⟩ := t.mem_liveIndices_iff.1 hi
    exact ⟨r, hr, (handleAt_eq hr).symm⟩
  · rintro ⟨r, hr, rfl⟩
    exact ⟨r.handle.index, t.mem_liveIndices_iff.2 ⟨r, hr, rfl⟩, handleAt_eq hr⟩

theorem length_live (t : Tracks l a) :
    (a.liveIndices fun x => p x.context x.lease).length =
      (l.live fun r => p r.context r.lease).length := by
  simpa using (t.live_perm (p := p)).length_eq

theorem size_eq (t : Tracks l a) : a.size = (l.live fun _ => true).length := by
  rw [Arena.size, t.valid.live_eq]
  exact t.length_live (p := fun _ _ => true)

end Tracks

end ScriptHost
