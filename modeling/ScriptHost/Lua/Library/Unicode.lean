import ScriptHost.Lua.Library.Text

/-! The functions of Lua on strings that encode characters in UTF-8. Codes may have up to 31 bits; a
strict reading takes only characters. -/

namespace ScriptHost.Lua

open Routine

namespace Utf8Function

def name : Utf8Function → String
  | char => "char" | codepoint => "codepoint" | codes => "codes" | codesStep _ => "?" | len => "len"
  | offset => "offset"

def all : List Utf8Function := [char, codepoint, codes, len, offset]

end Utf8Function

namespace Library

/-! ### Encoding and decoding -/

/-- The bytes after the first one of a code with so many of them. -/
def tailBytes : Nat → Nat → List UInt8
  | 0, _ => []
  | count + 1, code => (0x80 + code / Nat.pow 64 count % 64).toUInt8 :: tailBytes count code

/-- How many bytes follow the first one of a code. -/
def tailCount (code : Nat) : Nat :=
  if code < 0x80 then 0
  else if code < 0x800 then 1
  else if code < 0x10000 then 2
  else if code < 0x200000 then 3
  else if code < 0x4000000 then 4
  else 5

/-- The encoding of a code of up to 31 bits. -/
def encodeCode (code : Nat) : List UInt8 :=
  let count := tailCount code
  if count == 0 then [code.toUInt8]
  else
    -- As many ones as there are bytes, then a zero and the highest bits of the code.
    let mark := 256 - Nat.pow 2 (7 - count)
    (mark + code / Nat.pow 64 count).toUInt8 :: tailBytes count code

def isContinuation (s : Bytes) (i : Nat) : Bool :=
  match s[i]? with
  | some b => 0x80 ≤ b && b ≤ 0xBF
  | none => false

/-- How many bytes a first byte announces. -/
def announced (b : UInt8) : Nat :=
  if b < 0xC0 then 0 else if b < 0xE0 then 1 else if b < 0xF0 then 2 else if b < 0xF8 then 3
  else if b < 0xFC then 4 else 5

/-- The code at a position and the position after it; none if the bytes there are no shortest encoding. -/
def decodeCode (s : Bytes) (i : Nat) (strict : Bool) : Option (Nat × Nat) :=
  match s[i]? with
  | none => none
  | some b =>
    let count := announced b
    if b < 0x80 then some (b.toNat, i + 1)
    else if count == 0 || b ≥ 0xFE then none
    else if !(List.range count).all fun j => isContinuation s (i + 1 + j) then none
    else
      let high := b.toNat % Nat.pow 2 (6 - count)
      let code := (List.range count).foldl
        (fun n j => n * 64 + ((s[i + 1 + j]?).getD 0).toNat % 64) high
      if tailCount code != count then none
      else if strict && (code > 0x10FFFF || (0xD800 ≤ code && code ≤ 0xDFFF)) then none
      else some (code, i + 1 + count)

/-! ### Functions -/

def invalidCode {α : Type} : Routine α := failText "invalid UTF-8 code"

/-- A position that may be given from the right; 0 if it is before the string. -/
def relative (i : Int64) (size : Nat) : Int :=
  if i ≥ 0 then i.toInt else if -i.toInt > size then 0 else size + i.toInt + 1

def utf8Char (args : List Val) : Routine Val := do
  let mut bytes : List UInt8 := []
  for i in [0:args.length] do
    let n ← intArg args i
    if n < 0 || n > 0x7FFFFFFF then fail (.argument (i + 1) "value out of range")
    bytes := bytes ++ encodeCode n.toInt.toNat
  newString (.ofList bytes)

def codesBetween (s : Bytes) (strict : Bool) (i stop : Nat) : Nat → Routine (List Val)
  | 0 => pure []
  | fuel + 1 =>
    if i ≥ stop then pure []
    else
      match decodeCode s i strict with
      | none => invalidCode
      | some (code, next) => do return .nat code :: (← codesBetween s strict next stop fuel)

def codepoint (args : List Val) : Routine (List Val) := do
  let s ← bytesArg args 0
  let i := relative (← intArgD args 1 1) s.size
  let j := relative (← intArgD args 2 (Int64.ofInt i)) s.size
  if i < 1 then fail (.argument 2 "out of bounds")
  if j > s.size then fail (.argument 3 "out of bounds")
  if i > j then return []
  codesBetween s (!(arg args 3).isTrue) (i.toNat - 1) j.toNat (s.size + 1)

/-- Counts the characters that begin before `stop`; the position of a wrong one if there is one. -/
def countCodes (s : Bytes) (strict : Bool) (i stop count : Nat) : Nat → Except Nat Nat
  | 0 => .ok count
  | fuel + 1 =>
    if i ≥ stop then .ok count
    else
      match decodeCode s i strict with
      | none => .error i
      | some (_, next) => countCodes s strict next stop (count + 1) fuel

def utf8Len (args : List Val) : Routine (List Val) := do
  let s ← bytesArg args 0
  let i := relative (← intArgD args 1 1) s.size
  let j := relative (← intArgD args 2 (-1)) s.size
  if !(1 ≤ i && i - 1 ≤ s.size) then fail (.argument 2 "initial position out of bounds")
  if !(j - 1 < s.size) then fail (.argument 3 "final position out of bounds")
  match countCodes s (!(arg args 3).isTrue) (i.toNat - 1) j.toNat 0 (s.size + 1) with
  | .ok n => return [.nat n]
  | .error i => return [.nil, .nat (i + 1)]

/-- The beginning of the character around a position. -/
def backToStart (s : Bytes) : Nat → Nat
  | 0 => 0
  | i + 1 => if isContinuation s (i + 1) then backToStart s i else i + 1

/-- The first position from `i` on that begins a character. -/
def forwardToStart (s : Bytes) (i : Nat) : Nat → Nat
  | 0 => i
  | fuel + 1 => if isContinuation s i then forwardToStart s (i + 1) fuel else i

/-- Goes back over `n` characters. -/
def goBack (s : Bytes) (i : Nat) : Nat → Option Nat
  | 0 => some i
  | n + 1 => if i == 0 then none else goBack s (backToStart s (i - 1)) n

/-- Goes forward over `n` characters. -/
def goForward (s : Bytes) (i : Nat) : Nat → Option Nat
  | 0 => some i
  | n + 1 => if i ≥ s.size then none else goForward s (forwardToStart s (i + 1) s.size) n

def utf8Offset (args : List Val) : Routine Val := do
  let s ← bytesArg args 0
  let n ← intArg args 1
  let i := relative (← intArgD args 2 (if n > 0 then 1 else Int64.ofNat (s.size + 1))) s.size
  if !(1 ≤ i && i - 1 ≤ s.size) then fail (.argument 3 "position out of bounds")
  let i := i.toNat - 1
  if n == 0 then return .nat (backToStart s i + 1)
  if isContinuation s i then failText "initial position is a continuation byte"
  let found := if n < 0 then goBack s i n.toInt.natAbs else goForward s i (n.toInt.toNat - 1)
  return (found.map fun i => Val.nat (i + 1)).getD .nil

def codesStep (strict : Bool) (args : List Val) : Routine (List Val) := do
  let s ← bytesArg args 0
  let n := ((arg args 1).asInt?.getD 0).toUInt64.toNat
  let i := forwardToStart s n s.size
  if i ≥ s.size then return []
  match decodeCode s i strict with
  | none => invalidCode
  | some (code, next) =>
    if isContinuation s next then invalidCode
    return [.nat (i + 1), .nat code]

def utf8 (f : Utf8Function) (args : List Val) : Routine (List Val) :=
  match f with
  | .char => return [← utf8Char args]
  | .codepoint => codepoint args
  | .codes => do
    let s ← bytesArg args 0
    if isContinuation s 0 then fail (.argument 1 "invalid UTF-8 code")
    return [.builtin (.utf8 (.codesStep (!(arg args 1).isTrue))), .str s, .int 0]
  | .codesStep strict => codesStep strict args
  | .len => utf8Len args
  | .offset => return [← utf8Offset args]

/-- A pattern that matches one character. -/
def charPattern : Bytes :=
  .ofList ("[".toUTF8.toList ++ [0, 0x2D, 0x7F, 0xC2, 0x2D, 0xFD] ++ "][".toUTF8.toList ++
    [0x80, 0x2D, 0xBF] ++ "]*".toUTF8.toList)

end Library

end ScriptHost.Lua
