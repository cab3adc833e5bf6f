import ScriptHost.Lua.Operation
import ScriptHost.Lua.Pattern

/-! Binary layouts: formats that lay integers, numbers and strings out as bytes, with their sizes, byte
order and alignment. -/

namespace ScriptHost.Lua

open Routine

namespace Library

/-! ### Formats -/

inductive PackKind
  | int | unsigned | float | double | char | string | zeroEnded | padding | align | nothing
  deriving DecidableEq

/-- What an option of a format asks for, and the state that the options before it have set. -/
structure PackState where
  little : Bool
  maxAlign : Nat

def PackState.start : PackState := ⟨true, 1⟩

/-- A number of a format, if there is one, and what follows it. -/
def packNumber (cs : List Char) : Option Nat × List Char :=
  (Text.natOf? Text.digit? 10 (cs.takeWhile Char.isDigit), cs.dropWhile Char.isDigit)

/-- The size of an integer of a format. -/
def packSize (default : Nat) (cs : List Char) : Except String (Nat × List Char) :=
  let (n, rest) := packNumber cs
  let n := n.getD default
  if n = 0 ∨ n > 16 then .error s!"integral size ({n}) out of limits [1,16]" else .ok (n, rest)

/-- The next option: its kind, its size, the new state and the rest of the format. -/
def packOption (st : PackState) (c : Char) (rest : List Char) :
    Except String (PackKind × Nat × PackState × List Char) :=
  match c with
  | 'b' => .ok (.int, 1, st, rest)
  | 'B' => .ok (.unsigned, 1, st, rest)
  | 'h' => .ok (.int, 2, st, rest)
  | 'H' => .ok (.unsigned, 2, st, rest)
  | 'l' | 'j' => .ok (.int, 8, st, rest)
  | 'L' | 'J' | 'T' => .ok (.unsigned, 8, st, rest)
  | 'f' => .ok (.float, 4, st, rest)
  | 'n' | 'd' => .ok (.double, 8, st, rest)
  | 's' => do
    let (n, rest) ← packSize 8 rest
    return (.string, n, st, rest)
  | 'i' => do
    let (n, rest) ← packSize 4 rest
    return (.int, n, st, rest)
  | 'I' => do
    let (n, rest) ← packSize 4 rest
    return (.unsigned, n, st, rest)
  | 'c' =>
    match packNumber rest with
    | (some n, rest) => .ok (.char, n, st, rest)
    | (none, _) => .error "missing size for format option 'c'"
  | 'z' => .ok (.zeroEnded, 0, st, rest)
  | 'x' => .ok (.padding, 1, st, rest)
  | 'X' => .ok (.align, 0, st, rest)
  | ' ' => .ok (.nothing, 0, st, rest)
  | '<' | '=' => .ok (.nothing, 0, { st with little := true }, rest)
  | '>' => .ok (.nothing, 0, { st with little := false }, rest)
  | '!' => do
    let (n, rest) ← packSize 8 rest
    return (.nothing, 0, { st with maxAlign := n }, rest)
  | c => .error s!"invalid format option '{c}'"

/-- An option of a format together with the bytes that align it. -/
structure PackItem where
  kind : PackKind
  size : Nat
  fill : Nat
  little : Bool

def packFailure {α : Type} : Except String α → Routine α
  | .ok a => pure a
  | .error message => failText message

/-- The items of a format from an offset on are given one by one to `step`, which tells the next offset
and a new value. -/
def packFold {α : Type} (step : PackItem → Nat → α → Routine (Nat × α)) (st : PackState)
    (cs : List Char) (offset : Nat) (a : α) : Nat → Routine (Nat × α)
  | 0 => pure (offset, a)
  | fuel + 1 =>
    match cs with
    | [] => pure (offset, a)
    | c :: rest => do
      let (kind, size, st, rest) ← packFailure (packOption st c rest)
      let (alignment, st, rest) ←
        if kind = .align then
          match rest with
          | [] => fail (.argument 1 "invalid next option for option 'X'")
          | d :: rest => do
            let (next, size, st, rest) ← packFailure (packOption st d rest)
            if next = .char ∨ size = 0 then
              fail (.argument 1 "invalid next option for option 'X'")
            pure (size, st, rest)
        else pure (size, st, rest)
      let fill ←
        if alignment ≤ 1 ∨ kind = .char then pure 0
        else do
          let alignment := min alignment st.maxAlign
          if alignment &&& (alignment - 1) ≠ 0 then
            fail (.argument 1 "format asks for alignment not power of 2")
          pure ((alignment - offset % alignment) % alignment)
      let (offset, a) ← step ⟨kind, size, fill, st.little⟩ offset a
      packFold step st rest offset a fuel

/-! ### Bytes -/

/-- The lowest bytes of a whole number, the lowest first. -/
def lowBytes : Nat → Nat → List UInt8
  | 0, _ => []
  | size + 1, n => (n % 256).toUInt8 :: lowBytes size (n / 256)

def orderBytes (little : Bool) (bs : List UInt8) : Bytes := .ofList (if little then bs else bs.reverse)

/-- An integer in two's complement. -/
def intBytes (little : Bool) (size : Nat) (n : Int) : Bytes :=
  orderBytes little (lowBytes size (n % Int.pow 256 size).toNat)

/-- The whole number that bytes spell. -/
def natOfBytes (little : Bool) (b : Bytes) : Nat :=
  (if little then b.toList.reverse else b.toList).foldl (fun n x => n * 256 + x.toNat) 0

/-! ### Packing -/

def packItem (args : List Val) (item : PackItem) (offset : Nat) (acc : Nat × Bytes) :
    Routine (Nat × Nat × Bytes) := do
  let (i, out) := acc
  let out := out ++ Bytes.replicate item.fill 0
  let start := offset + item.fill
  let size := item.size
  match item.kind with
  | .int => do
    let n := (← intArg args i).toInt
    if size < 8 && !(-(Int.pow 2 (8 * size - 1)) ≤ n && n < Int.pow 2 (8 * size - 1)) then
      fail (.argument (i + 1) "integer overflow")
    return (start + size, i + 1, out ++ intBytes item.little size n)
  | .unsigned => do
    let n := ← intArg args i
    if size < 8 && n.toUInt64.toNat ≥ Nat.pow 2 (8 * size) then fail (.argument (i + 1) "unsigned overflow")
    return (start + size, i + 1, out ++ intBytes item.little size n.toUInt64.toNat)
  | .float => do
    let x := (← numberArg args i).toDouble.toFloat
    return (start + 4, i + 1, out ++ intBytes item.little 4 x.toFloat32.toBits.toNat)
  | .double => do
    let x := (← numberArg args i).toDouble
    return (start + 8, i + 1, out ++ intBytes item.little 8 x.bits.toNat)
  | .char => do
    let s ← bytesArg args i
    if s.size > size then fail (.argument (i + 1) "string longer than given size")
    return (start + size, i + 1, out ++ s ++ Bytes.replicate (size - s.size) 0)
  | .string => do
    let s ← bytesArg args i
    if size < 8 && s.size ≥ Nat.pow 2 (8 * size) then
      fail (.argument (i + 1) "string length does not fit in given size")
    return (start + size + s.size, i + 1, out ++ intBytes item.little size s.size ++ s)
  | .zeroEnded => do
    let s ← bytesArg args i
    if s.toList.contains 0 then fail (.argument (i + 1) "string contains zeros")
    return (start + s.size + 1, i + 1, (out ++ s).push 0)
  | .padding => return (start + 1, i, out.push 0)
  | .align | .nothing => return (start, i, out)

def formatChars (args : List Val) : Routine (List Char) := do return (← bytesArg args 0).toChars

def pack (args : List Val) : Routine Val := do
  let cs ← formatChars args
  let (_, _, out) ← packFold (packItem args) .start cs 0 (1, ByteArray.empty) (cs.length + 1)
  newString out

def packsize (args : List Val) : Routine Val := do
  let cs ← formatChars args
  let (total, _) ← packFold (fun item offset (_ : Unit) => do
    if item.kind = .string ∨ item.kind = .zeroEnded then fail (.argument 1 "variable-length format")
    let next := offset + item.fill + item.size
    if next ≥ Nat.pow 2 31 then fail (.argument 1 "format result too large")
    return (next, ())) .start cs 0 () (cs.length + 1)
  return .nat total

/-- The integer that bytes spell; more than eight must only repeat its sign. -/
def unpackInt (item : PackItem) (b : Bytes) (signed : Bool) : Routine Int64 := do
  let n := natOfBytes item.little b
  let low := (UInt64.ofNat n).toInt64
  if b.size ≤ 8 then
    let half := Nat.pow 2 (8 * b.size - 1)
    return if signed && n ≥ half then Int64.ofInt ((n : Int) - 2 * half) else low
  let high := n / UInt64.size
  let ones := Nat.pow 2 (8 * (b.size - 8)) - 1
  if high == 0 || (signed && low < 0 && high == ones) then return low
  failText s!"{b.size}-byte integer does not fit into Lua Integer"

def unpackItem (data : Bytes) (item : PackItem) (offset : Nat) (acc : List Val) :
    Routine (Nat × List Val) := do
  let size := item.size
  if item.fill + size > data.size - offset then fail (.argument 2 "data string too short")
  let start := offset + item.fill
  let next := start + size
  let bytes := data.extract start next
  match item.kind with
  | .int => return (next, .int (← unpackInt item bytes true) :: acc)
  | .unsigned => return (next, .int (← unpackInt item bytes false) :: acc)
  | .float =>
    let x := Float32.ofBits (natOfBytes item.little bytes).toUInt32
    return (next, .float (.ofFloat x.toFloat) :: acc)
  | .double => return (next, .float ⟨(natOfBytes item.little bytes).toUInt64⟩ :: acc)
  | .char => return (next, (← newString bytes) :: acc)
  | .string => do
    let length := (← unpackInt item bytes false).toUInt64.toNat
    if length > data.size - next then fail (.argument 2 "data string too short")
    return (next + length, (← newString (data.extract next (next + length))) :: acc)
  | .zeroEnded => do
    let s := (data.extract start data.size).toList.takeWhile (· != 0)
    if start + s.length ≥ data.size then fail (.argument 2 "unfinished string for format 'z'")
    return (start + s.length + 1, (← newString (.ofList s)) :: acc)
  | .padding | .align | .nothing => return (next, acc)

def unpack (args : List Val) : Routine (List Val) := do
  let cs ← formatChars args
  let data ← bytesArg args 1
  let i ← intArgD args 2 1
  let start : Nat :=
    if i > 0 then i.toInt.toNat - 1
    else if i == 0 || i.toInt < -(data.size : Int) then 0
    else (data.size + i.toInt).toNat
  if start > data.size then fail (.argument 3 "initial position out of string")
  let (stop, vs) ← packFold (unpackItem data) .start cs start [] (cs.length + 1)
  return vs.reverse ++ [.nat (stop + 1)]

end Library

end ScriptHost.Lua
