import ScriptHost.Host.Arena

/-! Calls on an arena, and runs of calls in any order and at any times. What a call does to the
slots is told by what each index holds afterwards. -/

namespace ScriptHost

namespace Arena

/-! ### Calls -/

/-- What may be asked of an arena. -/
inductive Call
  | issue (context : ScriptContext) (policy : LeasePolicy) (now : Nat)
  | access (h : Handle) (now : Nat)
  | renew (h : Handle) (now : Nat)
  | leaseState (h : Handle) (now : Nat)
  | dispose (h : Handle)
  | disposeOwner (script : ObjectId)
  | disposeAll
  | sweep (now : Nat)
  | size

/-- What a call answers. -/
inductive Answer
  | issued (h : Handle)
  | resolved (result : Except CallError ScriptContext)
  | renewed (result : Except CallError Unit)
  | leaseState (state : Option LeaseState)
  | disposed (wasLive : Bool)
  | count (n : Nat)
  | swept (handles : List Handle)

def call (a : Arena) : Call → Answer × Arena
  | .issue context policy now =>
    (.issued (a.issue context policy now).1, (a.issue context policy now).2)
  | .access h now => (.resolved (a.access h now).1, (a.access h now).2)
  | .renew h now => (.renewed (a.renew h now).1, (a.renew h now).2)
  | .leaseState h now => (.leaseState (a.leaseState? h now), a)
  | .dispose h => (.disposed (a.dispose h).1, (a.dispose h).2)
  | .disposeOwner script => (.count (a.disposeOwner script).1, (a.disposeOwner script).2)
  | .disposeAll => (.count a.disposeAll.1, a.disposeAll.2)
  | .sweep now => (.swept (a.sweep now).1, (a.sweep now).2)
  | .size => (.count a.size, a)

/-- The arena after calls. -/
def after (a : Arena) : List Call → Arena
  | [] => a
  | c :: cs => (a.call c).2.after cs

/-- What calls answer, one after the other. -/
def answers (a : Arena) : List Call → List Answer
  | [] => []
  | c :: cs => (a.call c).1 :: (a.call c).2.answers cs

def Call.isIssue : Call → Bool
  | issue _ _ _ => true
  | _ => false

/-- The handle that an answer hands out. -/
def Answer.issued? : Answer → Option Handle
  | issued h => some h
  | _ => none

/-- The handles that calls hand out, in order. -/
def issues (a : Arena) (cs : List Call) : List Handle := (a.answers cs).filterMap Answer.issued?

theorem after_append (a : Arena) (cs ds : List Call) :
    a.after (cs ++ ds) = (a.after cs).after ds := by
  induction cs generalizing a with
  | nil => rfl
  | cons c cs ih => exact ih _

theorem issues_cons (a : Arena) (c : Call) (cs : List Call) :
    a.issues (c :: cs) = (a.call c).1.issued?.toList ++ (a.call c).2.issues cs := by
  rw [issues, answers, List.filterMap_cons]
  cases (a.call c).1.issued? <;> rfl

theorem issued?_call_eq_none {c : Call} (h : c.isIssue = false) (a : Arena) :
    (a.call c).1.issued? = none := by
  cases c with
  | issue => cases h
  | _ => rfl

end Arena

/-! ### Slots -/

def SlotState.isLive : SlotState → Bool
  | live _ => true
  | _ => false

@[simp] theorem SlotState.isLive_live (x : Holding) : (live x).isLive = true := rfl

@[simp] theorem SlotState.isLive_vacant : vacant.isLive = false := rfl

@[simp] theorem SlotState.isLive_expired : expired.isLive = false := rfl

/-- What becomes of a slot that is taken out of use: only a live one changes. -/
def Slot.retired (s : Slot) (left : SlotState) : Slot :=
  if s.state.isLive then ⟨s.generation, left⟩ else s

@[simp] theorem Slot.retired_live (g : UInt32) (x : Holding) (left : SlotState) :
    (⟨g, .live x⟩ : Slot).retired left = ⟨g, left⟩ := rfl

namespace Arena

variable {a : Arena} {i j : Nat} {h : Handle} {left : SlotState}

theorem state?_eq_some_iff {s : SlotState} :
    a.state? h = some s ↔ a.slots[h.index]? = some ⟨h.generation, s⟩ := by
  unfold state?
  split
  · rename_i slot hs
    obtain ⟨g, t⟩ := slot
    rw [hs]
    by_cases hg : g = h.generation
    · subst hg; simp
    · simp [hg]
  · rename_i hs
    simp [hs]

@[simp] theorem slots_put (a : Arena) (i j : Nat) (slot : Slot) :
    (a.put i slot).slots[j]? = if i = j then (a.slots[j]?).map fun _ => slot else a.slots[j]? := by
  unfold put
  rw [Array.getElem?_setIfInBounds]
  by_cases hij : i = j
  · subst hij
    by_cases hi : i < a.slots.size
    · simp [hi]
    · simp [hi]
  · simp [hij]

theorem mem_liveIndices {p : Holding → Bool} :
    i ∈ a.liveIndices p ↔ ∃ g x, a.slots[i]? = some ⟨g, .live x⟩ ∧ p x = true := by
  unfold liveIndices
  rw [List.mem_filter, List.mem_range]
  constructor
  · rintro ⟨_, h⟩
    split at h
    · rename_i g x hs
      exact ⟨g, x, hs, h⟩
    · cases h
  · rintro ⟨g, x, hs, hp⟩
    obtain ⟨hi, _⟩ := Array.getElem?_eq_some_iff.1 hs
    exact ⟨hi, by rw [hs]; exact hp⟩

theorem nodup_liveIndices (a : Arena) (p : Holding → Bool) : (a.liveIndices p).Nodup :=
  List.nodup_range.filter _

theorem sorted_liveIndices (a : Arena) (p : Holding → Bool) :
    (a.liveIndices p).Pairwise (· < ·) :=
  List.pairwise_lt_range.filter _

/-- Two arenas with as many live slots of a kind, since they have them at the same indices. -/
theorem length_liveIndices_congr {b : Arena} {p : Holding → Bool}
    (h : ∀ i, i ∈ a.liveIndices p ↔ i ∈ b.liveIndices p) :
    (a.liveIndices p).length = (b.liveIndices p).length :=
  ((List.perm_ext_iff_of_nodup (a.nodup_liveIndices p) (b.nodup_liveIndices p)).2 h).length_eq

/-- The number of live slots when one more is live. -/
theorem length_liveIndices_cons {b : Arena} {p : Holding → Bool} (hi : i ∉ a.liveIndices p)
    (h : ∀ j, j ∈ b.liveIndices p ↔ j = i ∨ j ∈ a.liveIndices p) :
    (b.liveIndices p).length = (a.liveIndices p).length + 1 := by
  have hn : (i :: a.liveIndices p).Nodup := List.nodup_cons.2 ⟨hi, a.nodup_liveIndices p⟩
  have hp : (b.liveIndices p).Perm (i :: a.liveIndices p) :=
    (List.perm_ext_iff_of_nodup (b.nodup_liveIndices p) hn).2 fun j => by rw [h, List.mem_cons]
  exact hp.length_eq

theorem slots_retire (a : Arena) (i j : Nat) (left : SlotState) :
    (a.retire i left).slots[j]? =
      if i = j then (a.slots[j]?).map (·.retired left) else a.slots[j]? := by
  unfold retire
  split
  · rename_i g x hs
    show (a.put i ⟨g, left⟩).slots[j]? = _
    rw [slots_put]
    split
    · subst_vars; simp [hs]
    · rfl
  · rename_i hs
    split
    · rename_i hij
      subst hij
      cases h : a.slots[i]? with
      | none => rfl
      | some slot =>
        obtain ⟨g, s⟩ := slot
        cases s with
        | live x => exact absurd h (hs g x)
        | _ => rfl
    · rfl

end Arena

end ScriptHost
