import ScriptHost.Lua.Operation

/-! The basic functions of Lua: types, raw access, metatables, traversal and conversion. -/

namespace ScriptHost.Lua

open Routine

namespace BasicFunction

def name : BasicFunction → String
  | assert => "assert" | getmetatable => "getmetatable" | ipairs => "ipairs" | ipairsStep => "?"
  | next => "next" | pairs => "pairs" | rawequal => "rawequal" | rawget => "rawget"
  | rawlen => "rawlen" | rawset => "rawset" | select => "select" | setmetatable => "setmetatable"
  | tonumber => "tonumber" | tostring => "tostring" | type => "type" | warn => "warn"

/-- The functions that programs find under their names. -/
def all : List BasicFunction :=
  [assert, getmetatable, ipairs, next, pairs, rawequal, rawget, rawlen, rawset, select, setmetatable,
    tonumber, tostring, type, warn]

end BasicFunction

namespace Library

/-- The value of a digit in bases up to 36. -/
def letterDigit? (c : Char) : Option Nat :=
  if c.isDigit then some (c.toNat - '0'.toNat)
  else if 'a' ≤ c && c ≤ 'z' then some (c.toNat - 'a'.toNat + 10)
  else if 'A' ≤ c && c ≤ 'Z' then some (c.toNat - 'A'.toNat + 10)
  else none

/-- The integer that a text spells in a base, with spaces around it. It wraps around. -/
def integerInBase? (base : Nat) (cs : List Char) : Option Int64 :=
  let cs := ((cs.dropWhile isSpace).reverse.dropWhile isSpace).reverse
  let (negative, digits) := numeralSign cs
  let digit := fun c => (letterDigit? c).filter (· < base)
  (Text.natOf? digit base digits).map fun n =>
    let v := (UInt64.ofNat n).toInt64
    if negative then 0 - v else v

def tonumber (args : List Val) : Routine Val := do
  if (arg args 1).isNil then
    match arg args 0 with
    | .num n => return .num n
    | .str s => return ((Number.parse? s.toChars).map Val.num).getD .nil
    | _ =>
      discard (anyArg args 0)
      return .nil
  else
    let base ← intArg args 1
    match arg args 0 with
    | .str s =>
      if base < 2 || base > 36 then fail (.argument 2 "base out of range")
      return ((integerInBase? base.toInt.toNat s.toChars).map Val.int).getD .nil
    | _ => wrongType args 0 "string"

def assert (args : List Val) : Routine (List Val) := do
  if (arg args 0).isTrue then return args
  discard (anyArg args 0)
  match (args[1]? : Option Val) with
  | none => failText "assertion failed!"
  | some (.str s) => fail (.native s)
  | some v => fail (.raised v)

def select (args : List Val) : Routine (List Val) := do
  if arg args 0 == .text "#" then return [.nat (args.length - 1)]
  let i ← intArg args 0
  let count := args.length
  let i : Int := if i < 0 then count + i.toInt else min i.toInt count
  if i < 1 then fail (.argument 1 "index out of range")
  return args.drop i.toNat

def setmetatable (args : List Val) : Routine Val := do
  let t ← tableArg args 0
  let m ← match (args[1]? : Option Val) with
    | some .nil => pure none
    | some (.table m) => pure (some m)
    | _ => wrongType args 1 "nil or table"
  let locked ← reads fun heap => !(heap.metamethod (.table t) "__metatable").isNil
  if locked then failText "cannot change a protected metatable"
  modifies fun heap => (heap.modifyTable t fun table => { table with metatable := m }).mark t
  return .table t

def getmetatable (args : List Val) : Routine Val := do
  let v ← anyArg args 0
  reads fun heap =>
    match heap.metatable? v with
    | none => .nil
    | some m =>
      match (heap.table m).getText "__metatable" with
      | .nil => .table m
      | shown => shown

def next (args : List Val) : Routine (List Val) := do
  let t ← tableArg args 0
  match ← reads fun heap => (heap.table t).next? (arg args 1) with
  | none => fail (.operation "invalid key to 'next'")
  | some none => return [.nil]
  | some (some (k, v)) => return [k, v]

def pairs (args : List Val) : Routine (List Val) := do
  let t ← anyArg args 0
  match ← reads fun heap => heap.metamethod t "__pairs" with
  | .nil => return [.builtin (.basic .next), t, .nil]
  | f =>
    let vs ← call f [t]
    return [vs.getD 0 .nil, vs.getD 1 .nil, vs.getD 2 .nil]

def ipairsStep (args : List Val) : Routine (List Val) := do
  let i := (← intArg args 1) + 1
  match ← index (arg args 0) (.int i) with
  | .nil => return [.nil]
  | v => return [.int i, v]

def rawlen (args : List Val) : Routine Val :=
  match arg args 0 with
  | .table t => reads fun heap => .nat (heap.table t).border
  | .str s => pure (.nat s.size)
  | _ => fail (.argument 1 "table or string expected")

def basic (f : BasicFunction) (args : List Val) : Routine (List Val) :=
  match f with
  | .assert => assert args
  | .getmetatable => return [← getmetatable args]
  | .ipairs => do
    let t ← anyArg args 0
    return [.builtin (.basic .ipairsStep), t, .int 0]
  | .ipairsStep => ipairsStep args
  | .next => next args
  | .pairs => pairs args
  | .rawequal => do
    let a ← anyArg args 0
    let b ← anyArg args 1
    return [.bool (a.rawEq b)]
  | .rawget => do
    let t ← tableArg args 0
    let k ← anyArg args 1
    return [← reads fun heap => heap.rawGet t k]
  | .rawlen => return [← rawlen args]
  | .rawset => do
    let t ← tableArg args 0
    let k ← anyArg args 1
    let v ← anyArg args 2
    rawSet t k v
    return [.table t]
  | .select => select args
  | .setmetatable => return [← setmetatable args]
  | .tonumber => return [← tonumber args]
  | .tostring => do
    let v ← anyArg args 0
    return [← newString (← text v)]
  | .type => return [.text (← anyArg args 0).typeName]
  | .warn => do
    for i in [0:max 1 args.length] do discard (bytesArg args i)
    return []

end Library

end ScriptHost.Lua
