import Std.Data.HashMap
import ScriptHost.Lua.Value

/-! Tables. A table has an array for keys from 1 up and nodes for the other keys, in the order in
which the keys came. When the nodes are full the keys are distributed anew: the array gets the
greatest power of two as its size such that more than half of it is in use, which decides where a
table with gaps ends. -/

namespace ScriptHost.Lua

structure Table where
  /-- The values of the keys from 1 up; `nil` where there is none. -/
  array : Array Val
  /-- The other keys with their values; `nil` where the key was removed. -/
  nodes : Array (Val × Val)
  /-- Where each of the other keys stands among the nodes. -/
  places : Std.HashMap Val Nat
  /-- How many nodes there is room for. -/
  capacity : Nat
  metatable : Option Nat
  deriving Inhabited

namespace Table

/-- The least power of two that is not below a number, and 0 for 0. -/
def roomFor (n : Nat) : Nat := if n = 0 then 0 else if n = 1 then 1 else Nat.pow 2 (Nat.log2 (n - 1) + 1)

/-- A table with room for keys from 1 up and for other keys. -/
def sized (array nodes : Nat) : Table :=
  ⟨Array.replicate array .nil, #[], ∅, roomFor nodes, none⟩

def empty : Table := sized 0 0

/-- A key as tables keep it: a floating-point number that equals an integer is that integer. -/
def normalKey : Val → Val
  | .num (.float x) =>
    match x.toInt? with
    | some n => .int n
    | none => .num (.float x)
  | k => k

/-- The index of a key in an array of some size. -/
def arrayIndex? (size : Nat) : Val → Option Nat
  | .num (.int n) =>
    let i := n.toInt
    if 1 ≤ i ∧ i ≤ size then some (i.toNat - 1) else none
  | _ => none

def getNormal (t : Table) (k : Val) : Val :=
  match arrayIndex? t.array.size k with
  | some i => t.array.getD i .nil
  | none =>
    match t.places[k]? with
    | some i => (t.nodes.getD i (.nil, .nil)).2
    | none => .nil

/-- The value of a key; `nil` if there is none. -/
def get (t : Table) (k : Val) : Val := t.getNormal (normalKey k)

def getText (t : Table) (k : String) : Val := t.getNormal (.text k)

/-! ### Distributing keys -/

/-- The exponent of the least power of two that is not below a positive number. -/
def ceilLog2 (n : Nat) : Nat := if n ≤ 1 then 0 else Nat.log2 (n - 1) + 1

/-- Counts a key among those that an array could hold: how many lie in each interval between powers
of two. -/
def countKey (counts : Array Nat) : Val → Array Nat
  | .num (.int n) => if n ≥ 1 then counts.modify (ceilLog2 n.toInt.toNat) (· + 1) else counts
  | _ => counts

/-- The keys that have a value. -/
def liveKeys (t : Table) : Array Val :=
  let fromArray := (Array.range t.array.size).filterMap fun i =>
    if (t.array.getD i .nil).isNil then none else some (Val.nat (i + 1))
  fromArray ++ t.nodes.filterMap fun (k, v) => if v.isNil then none else some k

/-- The best array size for counted keys. `below` of them lie below the candidate `2 ^ i`. -/
def bestSize (counts : Array Nat) (total : Nat) (i below best : Nat) : Nat → Nat
  | 0 => best
  | fuel + 1 =>
    if total > Nat.pow 2 i / 2 then
      let below := below + counts.getD i 0
      bestSize counts total (i + 1) below (if below > Nat.pow 2 i / 2 then Nat.pow 2 i else best) fuel
    else best

/-- Puts a value under a key that has a place or finds room for one. -/
def place (t : Table) (k v : Val) : Table :=
  match arrayIndex? t.array.size k with
  | some i => { t with array := t.array.setIfInBounds i v }
  | none =>
    match t.places[k]? with
    | some i => { t with nodes := t.nodes.setIfInBounds i (k, v) }
    | none => { t with places := t.places.insert k t.nodes.size, nodes := t.nodes.push (k, v) }

/-- Distributes the keys anew, with room for one more. -/
def rehash (t : Table) (extra : Val) : Table :=
  let keys := t.liveKeys.push extra
  let counts := keys.foldl countKey (Array.replicate 65 0)
  let size := bestSize counts (counts.foldl (· + ·) 0) 0 0 0 64
  let inArray := (keys.filter fun k => (arrayIndex? size k).isSome).size
  let fresh : Table := { sized size (keys.size - inArray) with metatable := t.metatable }
  let fresh := (Array.range t.array.size).foldl (fun (u : Table) i =>
    let v := t.array.getD i .nil
    if v.isNil then u else u.place (Val.nat (i + 1)) v) fresh
  t.nodes.foldl (fun (u : Table) (k, v) => if v.isNil then u else u.place k v) fresh

/-- Makes the array longer. -/
def growArray (t : Table) (size : Nat) : Table :=
  { t with array := t.array ++ Array.replicate (size - t.array.size) .nil }

/-- Whether a key has a place or there is room for it. -/
def hasPlace (t : Table) (k : Val) : Bool :=
  (arrayIndex? t.array.size k).isSome || t.places.contains k || t.nodes.size < t.capacity

/-- Puts a value under a key that is not `nil` and is a number if it is one of the type. -/
def set (t : Table) (k v : Val) : Table :=
  let k := normalKey k
  if v.isNil && (arrayIndex? t.array.size k).isNone && !t.places.contains k then t
  else if t.hasPlace k then t.place k v
  else (t.rehash k).place k v

/-! ### Ends and order -/

/-- A border between `i`, which has a value or is 0, and `j`, which has none. -/
def searchBorder (hasValue : Nat → Bool) (i j : Nat) : Nat :=
  if h : j - i ≤ 1 then i
  else
    let m := (i + j) / 2
    if hasValue m then searchBorder hasValue m j else searchBorder hasValue i m
termination_by j - i
decreasing_by all_goals omega

/-- Doubles `j` until the key has no value. -/
def searchBeyond (hasValue : Nat → Bool) (i j : Nat) : Nat → Nat
  | 0 => i
  | fuel + 1 => if hasValue j then searchBeyond hasValue j (2 * j) fuel else searchBorder hasValue i j

/-- A border of the table: a key with a value and no value after it, or 0. -/
def border (t : Table) : Nat :=
  let size := t.array.size
  let inArray := fun i => !(t.array.getD (i - 1) .nil).isNil
  if size > 0 && !inArray size then
    if size ≥ 2 && inArray (size - 1) then size - 1 else searchBorder inArray 0 size
  else if t.nodes.isEmpty then size
  else
    let hasValue := fun i => !(t.getNormal (Val.nat i)).isNil
    if hasValue (size + 1) then searchBeyond hasValue (size + 1) (2 * (size + 1)) 62 else size

/-- The first index from `i` on whose element satisfies a condition. -/
def indexFrom? {α : Type} (p : α → Bool) (xs : Array α) (i : Nat) : Option Nat :=
  if h : i < xs.size then if p xs[i] then some i else indexFrom? p xs (i + 1) else none
termination_by xs.size - i

/-- The first entry with a value at a position or after it; positions count the array first. -/
def entryFrom (t : Table) (position : Nat) : Option (Val × Val) :=
  match indexFrom? (fun v => !v.isNil) t.array position with
  | some i => some (Val.nat (i + 1), t.array.getD i .nil)
  | none =>
    (indexFrom? (fun e => !e.2.isNil) t.nodes (position - t.array.size)).map fun i =>
      t.nodes.getD i (.nil, .nil)

/-- The position after a key; none if the table does not know the key. -/
def positionAfter? (t : Table) (k : Val) : Option Nat :=
  if k.isNil then some 0
  else
    let k := normalKey k
    match arrayIndex? t.array.size k with
    | some i => some (i + 1)
    | none => t.places[k]?.map fun i => t.array.size + i + 1

/-- The entry after a key in the order of the table, or none after the last one. -/
def next? (t : Table) (k : Val) : Option (Option (Val × Val)) :=
  (t.positionAfter? k).map t.entryFrom

/-- Bytes that a table takes. -/
def size (t : Table) : Nat := 56 + 16 * t.array.size + 40 * t.capacity

end Table

end ScriptHost.Lua
