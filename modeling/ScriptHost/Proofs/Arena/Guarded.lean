import ScriptHost.Panicking
import ScriptHost.Proofs.Arena.Valid
import ScriptHost.Proofs.Lease.Reckoning

/-! The work on an arena write by write, with everything that could stop it on the way: a slot that is
not there, a count that does not fit, and a point in time past the last one that can be told. Work that
is stopped leaves the arena as far as it has come. On a valid arena with room only the time can stop it,
and then nothing has been written yet; otherwise the work comes to what the call comes to. -/

namespace ScriptHost

/-! ### Work -/

/-- Work on an arena, which may be stopped. -/
abbrev Work := ExceptT Fault (StateM Arena)

namespace Arena.Work

variable {α β : Type} {horizon : Option Nat} {a : Arena} {r : α × Arena} {s : Slot} {i n : Nat}

/-- An index in the 32 bits of its type. -/
def narrow (i : Nat) : Nat := i % UInt32.size

def stop (fault : Fault) : Work α := fun a => (.error fault, a)

def arena : Work Arena := fun a => (.ok a, a)

def store (b : Arena) : Work Unit := fun _ => (.ok (), b)

/-- What is reckoned without a look at the arena. -/
def reckon (x : Except Fault α) : Work α := fun a => (x, a)

def slot (i : Nat) : Work Slot := do
  match (← arena).slots[i]? with
  | some s => return s
  | none => stop .noSlot

def write (i : Nat) (s : Slot) : Work Unit := do store ((← arena).put i s)

/-- A new slot behind the others, and its index. -/
def append (s : Slot) : Work Nat := do
  let a ← arena
  store { a with slots := a.slots.push s }
  return narrow a.slots.size

def takeFree : Work (Option Nat) := do
  let a ← arena
  match a.free with
  | [] => return none
  | i :: rest =>
    store { a with free := rest }
    return some i

def putFree (i : Nat) : Work Unit := do
  let a ← arena
  store { a with free := i :: a.free }

def countUp : Work Unit := do
  let a ← arena
  if a.live + 1 < USize.size then store { a with live := a.live + 1 } else stop .count

def countDown (n : Nat) : Work Unit := do
  let a ← arena
  if n ≤ a.live then store { a with live := a.live - n } else stop .count

/-! ### Calls as work -/

def issue (horizon : Option Nat) (context : ScriptContext) (policy : LeasePolicy) (now : Nat) :
    Work Handle := do
  let lease ← reckon (Lease.startBy horizon policy now)
  countUp
  match ← takeFree with
  | some i =>
    let s ← slot i
    write i ⟨s.generation + 1, .live ⟨context, lease, none⟩⟩
    return ⟨i, s.generation + 1⟩
  | none =>
    let i ← append ⟨0, .live ⟨context, lease, none⟩⟩
    return ⟨i, 0⟩

/-- Takes a live slot out of use. -/
def vacate (i : Nat) (generation : UInt32) (left : SlotState) : Work Unit := do
  write i ⟨generation, left⟩
  putFree i
  countDown 1

def expire (i : Nat) : Work Unit := do
  let s ← slot i
  if s.state.isLive then vacate i s.generation .expired else return ()

def access (horizon : Option Nat) (h : Handle) (now : Nat) : Work (Except CallError ScriptContext) := do
  match (← arena).state? h with
  | some (.live x) =>
    let expired ← reckon (x.lease.isExpiredBy horizon now)
    if expired then
      expire h.index
      return .error (.leaseExpired h)
    else
      let lease ← reckon (x.lease.recordCallBy horizon now)
      write h.index ⟨h.generation, .live { x with lease, lastCall := some now }⟩
      return .ok x.context
  | some .expired => return .error (.leaseExpired h)
  | _ => return .error (.invalidHandle h)

def renew (horizon : Option Nat) (h : Handle) (now : Nat) : Work (Except CallError Unit) := do
  match (← arena).state? h with
  | some (.live x) =>
    match ← reckon (x.lease.renewBy horizon now) with
    | some lease =>
      write h.index ⟨h.generation, .live { x with lease }⟩
      return .ok ()
    | none =>
      expire h.index
      return .error (.leaseExpired h)
  | some .expired =>
    expire h.index
    return .error (.leaseExpired h)
  | _ => return .error (.invalidHandle h)

def leaseState? (horizon : Option Nat) (h : Handle) (now : Nat) : Work (Option LeaseState) := do
  match (← arena).state? h with
  | some (.live x) =>
    let state ← reckon (x.lease.stateBy horizon now)
    return some state
  | some .expired => return some .expired
  | _ => return none

def dispose (h : Handle) : Work Bool := do
  match (← arena).state? h with
  | some (.live _) =>
    vacate h.index h.generation .vacant
    return true
  | _ => return false

/-- Takes the live slots of one script out of use, of those at some indices, and says how many there
were. They are still counted. -/
def vacateOwned (script : ObjectId) : List Nat → Work Nat
  | [] => return 0
  | i :: is => do
    let s ← slot i
    match s.state with
    | .live x =>
      if x.context.script == script then
        write i ⟨s.generation, .vacant⟩
        putFree (narrow i)
        let n ← vacateOwned script is
        return n + 1
      else vacateOwned script is
    | _ => vacateOwned script is

def disposeOwner (script : ObjectId) : Work Nat := do
  let n ← vacateOwned script (List.range (← arena).slots.size)
  countDown n
  return n

def disposeAll : Work Nat := do
  let a ← arena
  store empty
  return a.live

/-- The handles of the slots, at some indices, whose timed leases have expired. -/
def due (horizon : Option Nat) (a : Arena) (now : Nat) : List Nat → Except Fault (List Handle)
  | [] => return []
  | i :: is => do
    match a.slots[i]? with
    | some ⟨g, .live x⟩ =>
      if x.lease.policy.mode == .timed then
        let expired ← x.lease.isExpiredBy horizon now
        let hs ← due horizon a now is
        return if expired then ⟨narrow i, g⟩ :: hs else hs
      else due horizon a now is
    | _ => due horizon a now is

def expireAll : List Handle → Work Unit
  | [] => return ()
  | h :: hs => do
    expire h.index
    expireAll hs

def sweep (horizon : Option Nat) (now : Nat) : Work (List Handle) := do
  let a ← arena
  let hs ← reckon (due horizon a now (List.range a.slots.size))
  expireAll hs
  return hs

def size : Work Nat := do return (← arena).live

/-- A call as work. -/
def perform (horizon : Option Nat) : Call → Work Answer
  | .issue context policy now => do return .issued (← issue horizon context policy now)
  | .access h now => do return .resolved (← access horizon h now)
  | .renew h now => do return .renewed (← renew horizon h now)
  | .leaseState h now => do return .leaseState (← leaseState? horizon h now)
  | .dispose h => do return .disposed (← dispose h)
  | .disposeOwner script => do return .count (← disposeOwner script)
  | .disposeAll => do return .count (← disposeAll)
  | .sweep now => do return .swept (← sweep horizon now)
  | .size => do return .count (← size)

/-- The arena after calls, some of which may have been stopped. -/
def after (horizon : Option Nat) (a : Arena) : List Call → Arena
  | [] => a
  | c :: cs => after horizon (perform horizon c a).2 cs

/-! ### Rules -/

/-- Work comes to an answer and an arena, unless time stops it before anything is written. -/
def Comes (horizon : Option Nat) (w : Work α) (a : Arena) (x : α) (b : Arena) : Prop :=
  w a = (.ok x, b) ∨ horizon ≠ none ∧ w a = (.error .time, a)

theorem bind_of_ok {w : Work α} {x : α} {b : Arena} (hw : w a = (.ok x, b)) (f : α → Work β) :
    (w >>= f) a = f x b := by
  rw [bind_apply, hw]

theorem Comes.arena {f : Arena → Work α} {x : α} {b : Arena} (hf : Comes horizon (f a) a x b) :
    Comes horizon (Work.arena >>= f) a x b := hf

theorem Comes.reckon {x : Except Fault α} {y : α} {f : α → Work β} {z : β} {b : Arena}
    (hx : Reckons horizon x y) (hf : Comes horizon (f y) a z b) :
    Comes horizon (Work.reckon x >>= f) a z b := by
  rcases hx with rfl | ⟨hend, rfl⟩
  · exact hf
  · exact .inr ⟨hend, rfl⟩

theorem Comes.answer {w : Work α} {x : α} {b : Arena} (hw : Comes horizon w a x b) (f : α → β) :
    Comes horizon (do return f (← w)) a (f x) b := by
  rcases hw with hw | ⟨hend, hw⟩
  · exact .inl (bind_of_ok hw _)
  · refine .inr ⟨hend, ?_⟩
    rw [bind_apply, hw]

theorem slot_eq (hs : a.slots[i]? = some s) : slot i a = (.ok s, a) := by
  unfold slot
  rw [bind_of_ok (w := arena) rfl, hs]
  rfl

theorem countUp_eq (h : a.live + 1 < USize.size) :
    countUp a = (.ok (), { a with live := a.live + 1 }) := by
  unfold countUp
  rw [bind_of_ok (w := arena) rfl, if_pos h]
  rfl

theorem countDown_eq (h : n ≤ a.live) :
    countDown n a = (.ok (), { a with live := a.live - n }) := by
  unfold countDown
  rw [bind_of_ok (w := arena) rfl, if_pos h]
  rfl

/-! ### Work on a valid arena -/

theorem live_le_size (v : a.Valid) : a.live ≤ a.slots.size := by
  rw [v.live_eq, liveIndices]
  exact Nat.le_trans (List.length_filter_le _ _) (Nat.le_of_eq List.length_range)

theorem live_pos (v : a.Valid) {g : UInt32} {x : Holding} (hs : a.slots[i]? = some ⟨g, .live x⟩) :
    0 < a.live := by
  rw [v.live_eq]
  exact List.length_pos_of_mem (mem_liveIndices.2 ⟨g, x, hs, rfl⟩)

theorem narrow_of_lt (h : i < UInt32.size) : narrow i = i := Nat.mod_eq_of_lt h

theorem comes_issue (v : a.Valid) (hroom : a.slots.size + 1 < UInt32.size) (horizon : Option Nat)
    (context : ScriptContext) (policy : LeasePolicy) (now : Nat) :
    Comes horizon (issue horizon context policy now) a (a.issue context policy now).1
      (a.issue context policy now).2 := by
  have hlive := live_le_size v
  have hword : UInt32.size ≤ USize.size := USize.le_size
  refine Comes.reckon (Lease.reckons_start horizon policy now) (.inl ?_)
  rw [bind_of_ok (countUp_eq (by omega))]
  rcases v.issue_cases context policy now with ⟨i, rest, s, hfree, hs, -, he⟩ | ⟨hfree, he⟩
  · have htake : takeFree { a with live := a.live + 1 } =
        (.ok (some i), { a with free := rest, live := a.live + 1 }) := by
      simp only [takeFree, hfree]
      rfl
    rw [he, bind_of_ok htake]
    dsimp only
    rw [bind_of_ok (slot_eq (a := { a with free := rest, live := a.live + 1 }) hs)]
    rfl
  · have htake : takeFree { a with live := a.live + 1 } =
        (.ok none, { a with live := a.live + 1 }) := by
      simp only [takeFree, hfree]
      rfl
    rw [he, bind_of_ok htake]
    show (Except.ok (⟨narrow a.slots.size, 0⟩ : Handle), _) = _
    rw [narrow_of_lt (by omega)]

theorem vacate_eq {g : UInt32} {x : Holding} (hs : a.slots[i]? = some ⟨g, .live x⟩)
    (hlive : 0 < a.live) (left : SlotState) : vacate i g left a = (.ok (), a.retire i left) := by
  rw [retire_of_live hs]
  exact countDown_eq (a := { a.put i ⟨g, left⟩ with free := i :: a.free }) hlive

theorem expire_of_live (v : a.Valid) {g : UInt32} {x : Holding}
    (hs : a.slots[i]? = some ⟨g, .live x⟩) : expire i a = (.ok (), a.expire i) := by
  unfold expire
  rw [bind_of_ok (slot_eq hs)]
  exact vacate_eq hs (live_pos v hs) .expired

theorem expire_of_not_live (hs : a.slots[i]? = some s) (hdead : s.state.isLive = false) :
    expire i a = (.ok (), a) := by
  unfold expire
  rw [bind_of_ok (slot_eq hs), hdead]
  rfl

theorem expire_eq (v : a.Valid) (hi : i < a.slots.size) : expire i a = (.ok (), a.expire i) := by
  obtain ⟨⟨g, state⟩, hs⟩ : ∃ s, a.slots[i]? = some s := ⟨_, Array.getElem?_eq_getElem hi⟩
  cases state with
  | live x => exact expire_of_live v hs
  | vacant | expired =>
    have hkept : a.expire i = a := by
      unfold Arena.expire retire
      rw [hs]
    rw [hkept]
    exact expire_of_not_live hs rfl

theorem comes_access (v : a.Valid) (horizon : Option Nat) (h : Handle) (now : Nat) :
    Comes horizon (access horizon h now) a (a.access h now).1 (a.access h now).2 := by
  refine Comes.arena ?_
  unfold Arena.access
  cases hs : a.state? h with
  | none => exact .inl rfl
  | some t =>
    cases t with
    | vacant | expired => exact .inl rfl
    | live x =>
      refine Comes.reckon (Lease.reckons_isExpired horizon x.lease now) ?_
      dsimp only
      split
      · exact .inl (bind_of_ok (expire_of_live v (state?_eq_some_iff.1 hs)) _)
      · exact Comes.reckon (Lease.reckons_recordCall horizon x.lease now) (.inl rfl)

theorem comes_renew (v : a.Valid) (horizon : Option Nat) (h : Handle) (now : Nat) :
    Comes horizon (renew horizon h now) a (a.renew h now).1 (a.renew h now).2 := by
  refine Comes.arena ?_
  unfold Arena.renew
  cases hs : a.state? h with
  | none => exact .inl rfl
  | some t =>
    have hslot := state?_eq_some_iff.1 hs
    cases t with
    | vacant => exact .inl rfl
    | expired => exact .inl (bind_of_ok (expire_of_not_live hslot rfl) _)
    | live x =>
      refine Comes.reckon (Lease.reckons_renew horizon x.lease now) ?_
      dsimp only
      cases x.lease.renew? now with
      | some lease => exact .inl rfl
      | none => exact .inl (bind_of_ok (expire_of_live v hslot) _)

theorem comes_leaseState (horizon : Option Nat) (a : Arena) (h : Handle) (now : Nat) :
    Comes horizon (leaseState? horizon h now) a (a.leaseState? h now) a := by
  refine Comes.arena ?_
  unfold Arena.leaseState?
  cases a.state? h with
  | none => exact .inl rfl
  | some t =>
    cases t with
    | vacant | expired => exact .inl rfl
    | live x => exact Comes.reckon (Lease.reckons_state horizon x.lease now) (.inl rfl)

theorem dispose_eq (v : a.Valid) (h : Handle) :
    dispose h a = (.ok (a.dispose h).1, (a.dispose h).2) := by
  unfold dispose Arena.dispose
  rw [bind_of_ok (w := arena) rfl]
  cases hs : a.state? h with
  | none => rfl
  | some t =>
    have hslot := state?_eq_some_iff.1 hs
    cases t with
    | vacant | expired => rfl
    | live x => exact bind_of_ok (vacate_eq hslot (live_pos v hslot) .vacant) _

/-! ### Many slots -/

/-- Whether a slot is live and holds something of a kind. -/
def holds (a : Arena) (p : Holding → Bool) (i : Nat) : Bool :=
  match a.slots[i]? with
  | some ⟨_, .live x⟩ => p x
  | _ => false

theorem liveIndices_eq (a : Arena) (p : Holding → Bool) :
    a.liveIndices p = (List.range a.slots.size).filter (holds a p) := rfl

theorem holds_iff {p : Holding → Bool} :
    holds a p i = true ↔ ∃ g x, a.slots[i]? = some ⟨g, .live x⟩ ∧ p x = true := by
  unfold holds
  constructor
  · intro h
    split at h
    · rename_i g x hs
      exact ⟨g, x, hs, h⟩
    · cases h
  · rintro ⟨g, x, hs, hp⟩
    rw [hs]
    exact hp

theorem size_retire (a : Arena) (i : Nat) (left : SlotState) :
    (a.retire i left).slots.size = a.slots.size := by
  unfold retire put
  split <;> simp

theorem size_retireAll (a : Arena) (is : List Nat) (left : SlotState) :
    (is.foldl (fun a i => a.retire i left) a).slots.size = a.slots.size := by
  induction is generalizing a with
  | nil => rfl
  | cons i is ih => rw [List.foldl_cons, ih, size_retire]

theorem filter_holds_retire {is : List Nat} (hi : i ∉ is) (left : SlotState) (p : Holding → Bool) :
    is.filter (holds (a.retire i left) p) = is.filter (holds a p) := by
  refine List.filter_congr fun j hj => ?_
  have hij : i ≠ j := fun hij => hi (hij ▸ hj)
  unfold holds
  rw [slots_retire, if_neg hij]

/-- Taking live slots out of use counts them down by as many as they are. -/
theorem live_retireAll (v : a.Valid) {p : Holding → Bool} {is : List Nat} (hnodup : is.Nodup)
    (left : SlotState) (hleft : left.isLive = false) :
    ((is.filter (holds a p)).foldl (fun a i => a.retire i left) a).live +
      (is.filter (holds a p)).length = a.live := by
  induction is generalizing a with
  | nil => rfl
  | cons i is ih =>
    obtain ⟨hi, hnodup⟩ := List.nodup_cons.1 hnodup
    by_cases hp : holds a p i = true
    · obtain ⟨g, x, hs, -⟩ := holds_iff.1 hp
      have hrest := ih (v.retire i hleft) hnodup
      have hlive : (a.retire i left).live = a.live - 1 := by rw [retire_of_live hs]
      have hpos := live_pos v hs
      rw [filter_holds_retire hi] at hrest
      rw [List.filter_cons_of_pos hp, List.foldl_cons, List.length_cons]
      omega
    · rw [List.filter_cons_of_neg hp]
      exact ih v hnodup

/-- The slots of one script are taken out of use while the count stays what it was. -/
theorem vacateOwned_eq (script : ObjectId) (hroom : a.slots.size < UInt32.size) {is : List Nat}
    (hnodup : is.Nodup) (hin : ∀ i ∈ is, i < a.slots.size) (n : Nat) :
    let mine := is.filter (holds a (·.context.script == script))
    vacateOwned script is { a with live := n } =
      (.ok mine.length, { mine.foldl (fun a i => a.retire i .vacant) a with live := n }) := by
  induction is generalizing a with
  | nil => rfl
  | cons i is ih =>
    obtain ⟨hi, hnodup⟩ := List.nodup_cons.1 hnodup
    rw [List.forall_mem_cons] at hin
    have hrest := ih hroom hnodup hin.2
    obtain ⟨⟨g, state⟩, hs⟩ : ∃ s, a.slots[i]? = some s := ⟨_, Array.getElem?_eq_getElem hin.1⟩
    intro mine
    rw [vacateOwned, bind_of_ok (slot_eq (a := { a with live := n }) hs)]
    cases state with
    | vacant | expired =>
      have hother : ¬ holds a (·.context.script == script) i = true := by simp [holds, hs]
      rw [show mine = _ from List.filter_cons_of_neg hother]
      exact hrest
    | live x =>
      dsimp only
      split
      · rename_i hscript
        have hmine : holds a (·.context.script == script) i = true := holds_iff.2 ⟨g, x, hs, hscript⟩
        have hnext := ih (a := a.retire i .vacant) (by rwa [size_retire]) hnodup
          (by rw [size_retire]; exact hin.2)
        rw [filter_holds_retire hi] at hnext
        rw [show mine = _ from List.filter_cons_of_pos hmine, List.foldl_cons, List.length_cons,
          narrow_of_lt (Nat.lt_trans hin.1 hroom)]
        rw [retire_of_live hs] at hnext ⊢
        exact bind_of_ok hnext _
      · rename_i hscript
        have hother : ¬ holds a (·.context.script == script) i = true := by simpa [holds, hs] using hscript
        rw [show mine = _ from List.filter_cons_of_neg hother]
        exact hrest

theorem disposeOwner_eq (v : a.Valid) (hroom : a.slots.size < UInt32.size) (script : ObjectId) :
    disposeOwner script a = (.ok (a.disposeOwner script).1, (a.disposeOwner script).2) := by
  have hvacate := vacateOwned_eq script hroom List.nodup_range
    (fun i hi => List.mem_range.1 hi) a.live
  have hlive := live_retireAll v (p := (·.context.script == script))
    (List.nodup_range (n := a.slots.size)) .vacant rfl
  rw [← liveIndices_eq] at hvacate hlive
  unfold disposeOwner
  rw [bind_of_ok (w := arena) rfl, bind_of_ok hvacate,
    bind_of_ok (countDown_eq (by dsimp only; omega))]
  have hcount : a.live - (a.liveIndices (·.context.script == script)).length =
      (a.disposeOwner script).2.live := by
    show _ = ((a.liveIndices (·.context.script == script)).foldl _ a).live
    omega
  exact congrArg (fun n => (Except.ok _, { (a.disposeOwner script).2 with live := n })) hcount

/-- The slots whose timed leases have expired. -/
theorem reckons_due (horizon : Option Nat) (a : Arena) (hroom : a.slots.size < UInt32.size) (now : Nat)
    {is : List Nat} (hin : ∀ i ∈ is, i < a.slots.size) :
    Reckons horizon (due horizon a now is) ((is.filter (holds a fun x =>
      x.lease.policy.mode == .timed && x.lease.isExpired now)).map a.handleAt) := by
  induction is with
  | nil => exact reckons_ok _
  | cons i is ih =>
    rw [List.forall_mem_cons] at hin
    have hrest := ih hin.2
    obtain ⟨⟨g, state⟩, hs⟩ : ∃ s, a.slots[i]? = some s := ⟨_, Array.getElem?_eq_getElem hin.1⟩
    have hhandle : a.handleAt i = ⟨narrow i, g⟩ := by
      rw [narrow_of_lt (Nat.lt_trans hin.1 hroom), handleAt, hs]
    rw [due, hs, List.filter_cons]
    simp only [holds, hs] at hrest ⊢
    cases state with
    | vacant | expired => exact hrest
    | live x =>
      dsimp only
      by_cases htimed : (x.lease.policy.mode == .timed) = true
      · simp only [htimed, Bool.true_and, if_true]
        refine (Lease.reckons_isExpired horizon x.lease now).bind (hrest.bind ?_)
        split
        · rw [List.map_cons, hhandle]
          exact reckons_ok _
        · exact reckons_ok _
      · rw [if_neg htimed]
        simpa [htimed] using hrest

theorem expireAll_eq (v : a.Valid) {hs : List Handle} (hin : ∀ h ∈ hs, h.index < a.slots.size) :
    expireAll hs a = (.ok (), (hs.map (·.index)).foldl Arena.expire a) := by
  induction hs generalizing a with
  | nil => rfl
  | cons h hs ih =>
    rw [List.forall_mem_cons] at hin
    rw [expireAll, bind_of_ok (expire_eq v hin.1), List.map_cons, List.foldl_cons]
    exact ih (v.retire h.index rfl) (by rw [Arena.expire, size_retire]; exact hin.2)

theorem comes_sweep (v : a.Valid) (hroom : a.slots.size < UInt32.size) (horizon : Option Nat)
    (now : Nat) : Comes horizon (sweep horizon now) a (a.sweep now).1 (a.sweep now).2 := by
  refine Comes.arena (.reckon (reckons_due horizon a hroom now fun i hi => List.mem_range.1 hi) ?_)
  rw [← liveIndices_eq]
  have hin : ∀ h ∈ (a.sweep now).1, h.index < a.slots.size := by
    intro h hh
    obtain ⟨i, hi, rfl⟩ := List.mem_map.1 hh
    obtain ⟨g, x, hs, -⟩ := mem_liveIndices.1 hi
    exact (Array.getElem?_eq_some_iff.1 hs).1
  have hexpire := expireAll_eq v hin
  have hindices : (a.sweep now).1.map (·.index) = a.liveIndices fun x =>
      x.lease.policy.mode == .timed && x.lease.isExpired now := by
    simp [Arena.sweep, handleAt, Function.comp_def]
  rw [hindices] at hexpire
  exact .inl (bind_of_ok hexpire _)

/-! ### Calls -/

theorem comes_perform (v : a.Valid) {c : Call}
    (hroom : a.slots.size + (if c.isIssue then 1 else 0) < UInt32.size) (horizon : Option Nat) :
    Comes horizon (perform horizon c) a (a.call c).1 (a.call c).2 := by
  cases c with
  | issue context policy now => exact (comes_issue v hroom horizon context policy now).answer _
  | access h now => exact (comes_access v horizon h now).answer _
  | renew h now => exact (comes_renew v horizon h now).answer _
  | leaseState h now => exact (comes_leaseState horizon a h now).answer _
  | dispose h => exact Comes.answer (.inl (dispose_eq v h)) _
  | disposeOwner script => exact Comes.answer (.inl (disposeOwner_eq v hroom script)) _
  | disposeAll => exact .inl rfl
  | sweep now => exact (comes_sweep v hroom horizon now).answer _
  | size => exact .inl rfl

/-- Only an issue may need another slot. -/
theorem size_call_le (v : a.Valid) (c : Call) :
    (a.call c).2.slots.size ≤ a.slots.size + if c.isIssue then 1 else 0 := by
  cases c with
  | issue context policy now =>
    show (a.issue context policy now).2.slots.size ≤ _
    rcases v.issue_cases context policy now with ⟨i, rest, s, -, -, -, he⟩ | ⟨-, he⟩
    · rw [he]
      simp [put]
    · rw [he]
      simp [Call.isIssue]
  | access h now =>
    show (a.access h now).2.slots.size ≤ _
    unfold Arena.access
    split
    · split
      · exact Nat.le_of_eq (size_retire a h.index .expired)
      · simp [put]
    · exact Nat.le_refl _
    · exact Nat.le_refl _
  | renew h now =>
    show (a.renew h now).2.slots.size ≤ _
    unfold Arena.renew
    split
    · split
      · simp [put]
      · exact Nat.le_of_eq (size_retire a h.index .expired)
    · exact Nat.le_refl _
    · exact Nat.le_refl _
  | dispose h =>
    show (a.dispose h).2.slots.size ≤ _
    unfold Arena.dispose
    split
    · exact Nat.le_of_eq (size_retire a h.index .vacant)
    · exact Nat.le_refl _
  | disposeOwner script => exact Nat.le_of_eq (size_retireAll a _ .vacant)
  | disposeAll => exact Nat.zero_le _
  | sweep now => exact Nat.le_of_eq (size_retireAll a _ .expired)
  | leaseState | size => exact Nat.le_refl _

/-! ### Runs -/

/-- After calls the arena is valid, whether or not time has stopped some of them, and has no more slots
than issues were asked for. -/
theorem after_spec (v : a.Valid) (horizon : Option Nat) {cs : List Call}
    (hfew : a.slots.size + cs.countP Call.isIssue < UInt32.size) :
    (after horizon a cs).Valid ∧
      (after horizon a cs).slots.size ≤ a.slots.size + cs.countP Call.isIssue := by
  induction cs generalizing a with
  | nil => exact ⟨v, Nat.le_refl _⟩
  | cons c cs ih =>
    rw [List.countP_cons] at hfew ⊢
    have hsize := size_call_le v c
    rw [after]
    rcases comes_perform v (c := c) (by omega) horizon with hcall | ⟨-, hstopped⟩
    · rw [hcall]
      obtain ⟨hvalid, hslots⟩ := ih (v.call c) (by omega)
      exact ⟨hvalid, Nat.le_trans hslots (by omega)⟩
    · rw [hstopped]
      obtain ⟨hvalid, hslots⟩ := ih v (by omega)
      exact ⟨hvalid, Nat.le_trans hslots (by omega)⟩

/-- The arena after any calls with fewer than `2 ^ 32` issues, wherever time ends. Its free indices are
those of the slots that are not live, each of them once; they are in range and fit their type; and the live
slots are counted. So the work of one more call finds all slots that it looks for and its counts fit: it
comes to the call's answer and arena, unless time stops it before it has written anything. An issue writes
no live slot. -/
theorem stopped_only_by_time (horizon : Option Nat) {cs : List Call}
    (hfew : cs.countP Call.isIssue < UInt32.size) :
    let a := after horizon empty cs
    a.Valid ∧ (∀ i ∈ a.free, i < a.slots.size) ∧ a.slots.size < UInt32.size ∧
    ∀ c, (c :: cs).countP Call.isIssue < UInt32.size →
      (perform horizon c a = (.ok (a.call c).1, (a.call c).2) ∨
        horizon ≠ none ∧ perform horizon c a = (.error .time, a)) ∧
      ∀ h, (a.call c).1.issued? = some h → ∀ g x, a.slots[h.index]? ≠ some ⟨g, .live x⟩ := by
  intro a
  have hempty : empty.slots.size + cs.countP Call.isIssue < UInt32.size := by simpa [empty] using hfew
  obtain ⟨v, hsize⟩ : a.Valid ∧ a.slots.size ≤ empty.slots.size + cs.countP Call.isIssue :=
    after_spec valid_empty horizon hempty
  refine ⟨v, fun i hi => ?_, by omega, fun c hmore => ⟨?_, fun h hissued g x => ?_⟩⟩
  · obtain ⟨s, hs, -⟩ := (v.mem_free_iff i).1 hi
    exact (Array.getElem?_eq_some_iff.1 hs).1
  · rw [List.countP_cons] at hmore
    have hzero : empty.slots.size = 0 := rfl
    exact comes_perform v (by omega) horizon
  · cases c with
    | issue context policy now =>
      obtain rfl : (a.issue context policy now).1 = h := Option.some.inj hissued
      exact v.not_live_issue context policy now g x
    | _ => cases hissued

/-- Two handles, one disposed of, its slot issued again, the other found expired, everything disposed of and
a first issue again, on a clock that ends at 100: one more issue is done, or stopped before it writes. -/
theorem stopped_only_by_time_reuse :
    let cs : List Call := [.issue default (.timed 10 5) 0, .issue default .manual 0, .dispose ⟨1, 0⟩,
      .issue default .manual 3, .access ⟨0, 0⟩ 20, .disposeAll, .issue default (.timed 200 0) 50,
      .issue default (.timed 10 0) 50]
    let a := after (some 100) empty cs
    let c : Call := .issue default (.timed 40 0) 70
    cs.countP Call.isIssue < UInt32.size ∧ (c :: cs).countP Call.isIssue < UInt32.size ∧ a.Valid ∧
      (perform (some 100) c a = (.ok (a.call c).1, (a.call c).2) ∨
        perform (some 100) c a = (.error .time, a)) := by
  intro cs a c
  have hfew : cs.countP Call.isIssue < UInt32.size := by decide
  have hmore : (c :: cs).countP Call.isIssue < UInt32.size := by decide
  obtain ⟨v, -, -, hnext⟩ := stopped_only_by_time (some 100) hfew
  exact ⟨hfew, hmore, v, (hnext c hmore).1.imp_right And.right⟩

end Arena.Work

end ScriptHost
