import ScriptHost.Lease
import ScriptHost.Script

/-! The arena of handles. A handle names a slot and the generation in which the slot was handed out;
a slot is reused under a new generation, so a handle that outlived its slot resolves to nothing. A
slot reclaimed because its lease ran out stays marked until it is reused, so that the holder is told
why the handle stopped working. -/

namespace ScriptHost

/-- A script's reference to its own context. -/
structure Handle where
  index : Nat
  generation : UInt32
  deriving DecidableEq, Inhabited

def Handle.text (h : Handle) : String := s!"{h.index}v{h.generation}"

/-- Why a call through a handle is not a valid call. -/
inductive CallError
  | leaseExpired (handle : Handle)
  | invalidHandle (handle : Handle)
  | unknownFunction (name : String)
  deriving DecidableEq

def CallError.message : CallError → String
  | leaseExpired h => s!"lease expired for handle {h.text}"
  | invalidHandle h => s!"invalid handle {h.text}"
  | unknownFunction name => s!"unknown host function '{name}'"

/-- What a live slot holds. -/
structure Holding where
  context : ScriptContext
  lease : Lease
  lastCall : Option Nat
  deriving Inhabited

inductive SlotState
  | vacant
  | live (holding : Holding)
  | expired
  deriving Inhabited

structure Slot where
  generation : UInt32
  state : SlotState
  deriving Inhabited

/-- Slots, the indices free for reuse with the latest first, and the number of live slots. -/
structure Arena where
  slots : Array Slot
  free : List Nat
  live : Nat
  deriving Inhabited

namespace Arena

def empty : Arena := ⟨#[], [], 0⟩

/-- The state of the slot that a handle names, if the slot is still in the handle's generation. -/
def state? (a : Arena) (h : Handle) : Option SlotState :=
  match a.slots[h.index]? with
  | some slot => if slot.generation = h.generation then some slot.state else none
  | none => none

/-- Changes what a slot holds and nothing else. -/
def put (a : Arena) (index : Nat) (slot : Slot) : Arena :=
  { a with slots := a.slots.setIfInBounds index slot }

/-- Takes a live slot out of use and leaves it in a state that is not live. -/
def retire (a : Arena) (index : Nat) (left : SlotState) : Arena :=
  match a.slots[index]? with
  | some ⟨generation, .live _⟩ =>
    { a.put index ⟨generation, left⟩ with free := index :: a.free, live := a.live - 1 }
  | _ => a

/-- Reclaims a slot whose lease ran out. -/
def expire (a : Arena) (index : Nat) : Arena := a.retire index .expired

/-- A new handle for a context. The slot that became free last is reused first, in its next
generation. -/
def issue (a : Arena) (context : ScriptContext) (policy : LeasePolicy) (now : Nat) :
    Handle × Arena :=
  let holding : Holding := ⟨context, Lease.start policy now, none⟩
  match a.free with
  | index :: rest =>
    let generation := match a.slots[index]? with
      | some slot => slot.generation + 1
      | none => 0
    (⟨index, generation⟩,
      { a.put index ⟨generation, .live holding⟩ with free := rest, live := a.live + 1 })
  | [] =>
    (⟨a.slots.size, 0⟩, { a with slots := a.slots.push ⟨0, .live holding⟩, live := a.live + 1 })

/-- Resolves a handle for a call. The call counts as use of the handle, and a lease found expired is
reclaimed on the spot. -/
def access (a : Arena) (h : Handle) (now : Nat) : Except CallError ScriptContext × Arena :=
  match a.state? h with
  | some (.live holding) =>
    if holding.lease.isExpired now then (.error (.leaseExpired h), a.expire h.index)
    else
      let used := { holding with lease := holding.lease.recordCall now, lastCall := some now }
      (.ok holding.context, a.put h.index ⟨h.generation, .live used⟩)
  | some .expired => (.error (.leaseExpired h), a)
  | _ => (.error (.invalidHandle h), a)

/-- Renews the lease of a handle in the name of its sponsor. -/
def renew (a : Arena) (h : Handle) (now : Nat) : Except CallError Unit × Arena :=
  match a.state? h with
  | some (.live holding) =>
    match holding.lease.renew? now with
    | some lease => (.ok (), a.put h.index ⟨h.generation, .live { holding with lease }⟩)
    | none => (.error (.leaseExpired h), a.expire h.index)
  | some .expired => (.error (.leaseExpired h), a)
  | _ => (.error (.invalidHandle h), a)

/-- How a handle's lease stands, for a handle that is live or has expired. -/
def leaseState? (a : Arena) (h : Handle) (now : Nat) : Option LeaseState :=
  match a.state? h with
  | some (.live holding) => some (holding.lease.state now)
  | some .expired => some .expired
  | _ => none

/-- The time of the last call through the slot that a handle names, whatever its generation. -/
def lastCall? (a : Arena) (h : Handle) : Option Nat :=
  match a.slots[h.index]? with
  | some ⟨_, .live holding⟩ => holding.lastCall
  | _ => none

/-- Disposes of a handle, and says whether it was live. -/
def dispose (a : Arena) (h : Handle) : Bool × Arena :=
  match a.state? h with
  | some (.live _) => (true, a.retire h.index .vacant)
  | _ => (false, a)

/-- The indices of the live slots that satisfy a condition, in order. -/
def liveIndices (a : Arena) (p : Holding → Bool) : List Nat :=
  (List.range a.slots.size).filter fun i =>
    match a.slots[i]? with
    | some ⟨_, .live holding⟩ => p holding
    | _ => false

/-- Disposes of every handle of one script, and says how many there were. -/
def disposeOwner (a : Arena) (script : ObjectId) : Nat × Arena :=
  let mine := a.liveIndices fun holding => holding.context.script == script
  (mine.length, mine.foldl (fun a i => a.retire i .vacant) a)

/-- Drops every slot, and says how many were live. -/
def disposeAll (a : Arena) : Nat × Arena := (a.live, empty)

def handleAt (a : Arena) (index : Nat) : Handle :=
  ⟨index, match a.slots[index]? with
    | some slot => slot.generation
    | none => 0⟩

/-- Reclaims the timed leases that have expired, and names their handles in order of their slots. -/
def sweep (a : Arena) (now : Nat) : List Handle × Arena :=
  let expired := a.liveIndices fun holding =>
    holding.lease.policy.mode == .timed && holding.lease.isExpired now
  (expired.map a.handleAt, expired.foldl expire a)

/-- The number of live handles. -/
def size (a : Arena) : Nat := a.live

def isEmpty (a : Arena) : Bool := a.live == 0

end Arena

end ScriptHost
