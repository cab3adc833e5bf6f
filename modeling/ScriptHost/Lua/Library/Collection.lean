import ScriptHost.Lua.Operation

/-! The table functions of Lua. They read and write through metamethods. -/

namespace ScriptHost.Lua

open Routine

namespace TableFunction

def name : TableFunction → String
  | concat => "concat" | insert => "insert" | move => "move" | pack => "pack" | remove => "remove"
  | sort => "sort" | unpack => "unpack"

def all : List TableFunction := [concat, insert, move, pack, remove, sort, unpack]

end TableFunction

namespace Library

/-- The length of a value as an integer. -/
def lengthInt (v : Val) : Routine Int64 := do
  match (← length v).asInt? with
  | some n => return n
  | none => failText "object length is not an integer"

/-- A first argument that is a table or stands in for one, with its length. -/
def listArg (args : List Val) : Routine (Val × Int64) := do
  match arg args 0 with
  | .table t => return (.table t, ← lengthInt (.table t))
  | _ => wrongType args 0 "table"

def getAt (t : Val) (i : Int64) : Routine Val := index t (.int i)

def setAt (t : Val) (i : Int64) (v : Val) : Routine Unit := setIndex t (.int i) v

def concatFrom (t : Val) (separator : Bytes) (i : Int64) (out : Bytes) : Nat → Routine Bytes
  | 0 => pure out
  | left + 1 => do
    match (← getAt t i).asBytes? with
    | none => failText s!"invalid value (at index {i.toInt}) in table for 'concat'"
    | some b =>
      reserve b.size
      let out := out ++ b
      concatFrom t separator (i + 1) (if left == 0 then out else out ++ separator) left

def concatList (args : List Val) : Routine Val := do
  let (t, n) ← listArg args
  let separator ← bytesArgD args 1 ByteArray.empty
  let first ← intArgD args 2 1
  let last ← intArgD args 3 n
  newString (← concatFrom t separator first ByteArray.empty (last.toInt - first.toInt + 1).toNat)

/-- Moves the elements from `i - 1` down one place up each. -/
def shiftUp (t : Val) (i : Int64) : Nat → Routine Unit
  | 0 => pure ()
  | left + 1 => do
    setAt t i (← getAt t (i - 1))
    shiftUp t (i - 1) left

/-- Moves the elements from `i + 1` up one place down each. -/
def shiftDown (t : Val) (i : Int64) : Nat → Routine Unit
  | 0 => pure ()
  | left + 1 => do
    setAt t i (← getAt t (i + 1))
    shiftDown t (i + 1) left

def insert (args : List Val) : Routine (List Val) := do
  let (t, n) ← listArg args
  let free := n + 1
  match args with
  | [_, v] => setAt t free v
  | [_, _, v] => do
    let position ← intArg args 1
    if (position - 1).toUInt64 ≥ free.toUInt64 then fail (.argument 2 "position out of bounds")
    shiftUp t free (free.toInt - position.toInt).toNat
    setAt t position v
  | _ => failText "wrong number of arguments to 'insert'"
  return []

def remove (args : List Val) : Routine (List Val) := do
  let (t, n) ← listArg args
  let position ← intArgD args 1 n
  if position != n && (position - 1).toUInt64 > n.toUInt64 then
    fail (.argument 2 "position out of bounds")
  let v ← getAt t position
  let moved := (n.toInt - position.toInt).toNat
  shiftDown t position moved
  setAt t (position + Int64.ofNat moved) .nil
  return [v]

/-- Copies elements one by one, upward or downward. -/
def copyElements (a b : Val) (i j : Int64) (step : Int64) : Nat → Routine Unit
  | 0 => pure ()
  | left + 1 => do
    setAt b j (← getAt a i)
    copyElements a b (i + step) (j + step) step left

def move (args : List Val) : Routine (List Val) := do
  let a ← tableArg args 0
  let first ← intArg args 1
  let last ← intArg args 2
  let target ← intArg args 3
  let b ← if (arg args 4).isNil then pure a else tableArg args 4
  if last ≥ first then
    if !(first > 0 || last < Int64.maxValue + first) then fail (.argument 3 "too many elements to move")
    let count := last - first + 1
    if target > Int64.maxValue - count + 1 then fail (.argument 4 "destination wrap around")
    let n := count.toInt.toNat
    if target > last || target ≤ first || a != b then
      copyElements (.table a) (.table b) first target 1 n
    else copyElements (.table a) (.table b) last (target + count - 1) (-1) n
  return [.table b]

def packList (args : List Val) : Routine Val :=
  newTable <| Table.set
    { Table.sized args.length 1 with array := args.toArray } (.text "n") (.nat args.length)

def elements (t : Val) (i : Int64) : Nat → Routine (List Val)
  | 0 => pure []
  | left + 1 => do
    let v ← getAt t i
    return v :: (← elements t (i + 1) left)

/-- How many results a function may have. -/
def maxResults : Nat := 1000000

def unpackList (args : List Val) : Routine (List Val) := do
  let t := arg args 0
  let first ← intArgD args 1 1
  let last ← if (arg args 2).isNil then lengthInt t else intArg args 2
  if first > last then return []
  let count := last.toInt - first.toInt + 1
  if count ≥ maxResults then failText "too many results to unpack"
  elements t first count.toNat

/-! ### Sorting -/

/-- Whether a value belongs before another, by a function or by their own order. -/
def before (order : Val) (a b : Val) : Routine Bool :=
  match order with
  | .nil => lessThan a b
  | f => do return (← call1 f [a, b]).isTrue

def set2 (t : Val) (i j : Nat) (atI atJ : Val) : Routine Unit := do
  setAt t (Int64.ofNat i) atI
  setAt t (Int64.ofNat j) atJ

def getNat (t : Val) (i : Nat) : Routine Val := getAt t (Int64.ofNat i)

def badOrder {α : Type} : Routine α := failText "invalid order function for sorting"

/-- The first place from `i` on whose element does not belong before the pivot. -/
def scanUp (t order pivot : Val) (stop i : Nat) : Nat → Routine (Nat × Val)
  | 0 => badOrder
  | fuel + 1 => do
    let v ← getNat t i
    if ← before order v pivot then
      if i == stop then badOrder
      scanUp t order pivot stop (i + 1) fuel
    else return (i, v)

/-- The first place from `j` down whose element the pivot does not belong before. -/
def scanDown (t order pivot : Val) (stop j : Nat) : Nat → Routine (Nat × Val)
  | 0 => badOrder
  | fuel + 1 => do
    let v ← getNat t j
    if ← before order pivot v then
      if j < stop then badOrder
      scanDown t order pivot stop (j - 1) fuel
    else return (j, v)

/-- Splits the places from `lo` to `up` around the pivot, which stands at `up - 1`. -/
def partition (t order pivot : Val) (up i j : Nat) : Nat → Routine Nat
  | 0 => badOrder
  | fuel + 1 => do
    let (i, a) ← scanUp t order pivot (up - 1) (i + 1) (up + 1)
    let (j, b) ← scanDown t order pivot i (j - 1) (up + 1)
    if j < i then
      set2 t (up - 1) i a (← getNat t (up - 1))
      return i
    else
      set2 t i j b a
      partition t order pivot up i j fuel

/-- Sorts the places from `lo` to `up` by splitting them around the median of three. -/
def sortRange (t order : Val) (lo up : Nat) : Nat → Routine Unit
  | 0 => pure ()
  | fuel + 1 => do
    if up ≤ lo then return
    let a ← getNat t lo
    let b ← getNat t up
    if ← before order b a then set2 t lo up b a
    if up - lo == 1 then return
    let p := (lo + up) / 2
    let m ← getNat t p
    let a ← getNat t lo
    if ← before order m a then set2 t p lo a m
    else
      let b ← getNat t up
      if ← before order b m then set2 t p up b m
    if up - lo == 2 then return
    let pivot ← getNat t p
    let last ← getNat t (up - 1)
    set2 t p (up - 1) last pivot
    let p ← partition t order pivot up lo (up - 1) (up + 1)
    if p - lo < up - p then
      sortRange t order lo (p - 1) fuel
      sortRange t order (p + 1) up fuel
    else
      sortRange t order (p + 1) up fuel
      sortRange t order lo (p - 1) fuel

def sort (args : List Val) : Routine (List Val) := do
  let (t, n) ← listArg args
  if n > 1 then
    if n ≥ Int64.ofNat (Nat.pow 2 31 - 1) then fail (.argument 1 "array too big")
    match arg args 1 with
    | .nil | .function _ | .builtin _ => pure ()
    | _ => wrongType args 1 "function"
    sortRange t (arg args 1) 1 n.toInt.toNat n.toInt.toNat
  return []

/-! ### The functions -/

def collection (f : TableFunction) (args : List Val) : Routine (List Val) :=
  match f with
  | .concat => return [← concatList args]
  | .insert => insert args
  | .move => move args
  | .pack => return [← packList args]
  | .remove => remove args
  | .sort => sort args
  | .unpack => unpackList args

end Library

end ScriptHost.Lua
