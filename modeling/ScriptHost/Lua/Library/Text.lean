import ScriptHost.Lua.Format
import ScriptHost.Lua.Library.Packing
import ScriptHost.Lua.Operation
import ScriptHost.Lua.Pattern

/-! The string functions of Lua. -/

namespace ScriptHost.Lua

open Routine

namespace StringFunction

def name : StringFunction → String
  | byte => "byte" | char => "char" | find => "find" | format => "format" | gmatch => "gmatch"
  | gsub => "gsub" | len => "len" | lower => "lower" | «match» => "match" | pack => "pack"
  | packsize => "packsize" | rep => "rep" | reverse => "reverse" | sub => "sub" | unpack => "unpack"
  | upper => "upper"

def all : List StringFunction :=
  [byte, char, find, format, gmatch, gsub, len, lower, «match», pack, packsize, rep, reverse, sub,
    unpack, upper]

end StringFunction

namespace Library

/-! ### Positions -/

/-- A position from the left that may be given from the right, at least 1. -/
def startPosition (i : Int64) (size : Nat) : Nat :=
  if i > 0 then i.toInt.toNat
  else if i == 0 || i.toInt < -(size : Int) then 1
  else (size + i.toInt + 1).toNat

/-- The end of a range that may be given from the right, at most the size. -/
def endPosition (i : Int64) (size : Nat) : Nat :=
  if i.toInt > size then size
  else if i ≥ 0 then i.toInt.toNat
  else if i.toInt < -(size : Int) then 0
  else (size + i.toInt + 1).toNat

def sub (args : List Val) : Routine Val := do
  let s ← bytesArg args 0
  let start := startPosition (← intArg args 1) s.size
  let stop := endPosition (← intArgD args 2 (-1)) s.size
  newString (s.extract (start - 1) stop)

def byte (args : List Val) : Routine (List Val) := do
  let s ← bytesArg args 0
  let i ← intArgD args 1 1
  let start := startPosition i s.size
  let stop := endPosition (← intArgD args 2 i) s.size
  return (s.extract (start - 1) stop).toList.map fun b => .nat b.toNat

def char (args : List Val) : Routine Val := do
  let mut bytes := ByteArray.empty
  for i in [0:args.length] do
    let n ← intArg args i
    if n < 0 || n > 255 then fail (.argument (i + 1) "value out of range")
    bytes := bytes.push n.toInt.toNat.toUInt8
  newString bytes

/-- `n` copies of a string with another between them. -/
def copies (s between : Bytes) : Nat → Bytes → Bytes
  | 0, out => out
  | 1, out => out ++ s
  | n + 2, out => copies s between (n + 1) (out ++ s ++ between)

def rep (args : List Val) : Routine Val := do
  let s ← bytesArg args 0
  let n ← intArg args 1
  let between ← bytesArgD args 2 ByteArray.empty
  if n ≤ 0 then return .str ByteArray.empty
  let n := n.toInt.toNat
  if (s.size + between.size) * n ≥ Nat.pow 2 63 then failText "resulting string too large"
  reserve (25 + s.size * n + between.size * (n - 1))
  if s.isEmpty && between.isEmpty then return .str ByteArray.empty
  if s.size == 1 && between.isEmpty then return .str (Bytes.replicate n (s[0]?.getD 0))
  return .str (copies s between n ByteArray.empty)

def mapBytes (f : UInt8 → UInt8) (args : List Val) : Routine Val := do
  let s ← bytesArg args 0
  newString (.ofList (s.toList.map f))

/-! ### Patterns -/

/-- The value of a capture; without captures the whole match counts as one. -/
def captureValue (source : Bytes) (caps : Array Pattern.CaptureState) (start stop i : Nat) :
    Routine Val :=
  match caps[i]? with
  | some (.closed a b) => newString (source.extract a b)
  | some (.position a) => pure (.nat (a + 1))
  | some (.opened _) => failText "unfinished capture"
  | none =>
    if i == 0 then newString (source.extract start stop)
    else failText s!"invalid capture index %{i + 1}"

/-- The values of all captures. -/
def captureValues (source : Bytes) (caps : Array Pattern.CaptureState) (start stop : Nat)
    (whole : Bool) : Routine (List Val) :=
  (List.range (if caps.isEmpty && whole then 1 else caps.size)).mapM
    (captureValue source caps start stop)

def ofPattern {α : Type} : Except String α → Routine α
  | .ok a => pure a
  | .error message => failText message

/-- A search for a pattern: its position and extent, or only what it captures. -/
def search (positions : Bool) (args : List Val) : Routine (List Val) := do
  let s ← bytesArg args 0
  let p ← bytesArg args 1
  let start := startPosition (← intArgD args 2 1) s.size - 1
  if start > s.size then return [.nil]
  if positions && ((arg args 3).isTrue || !p.toList.any Pattern.isSpecial) then
    match Pattern.findPlain s p start (s.size + 1 - start) with
    | some i => return [.nat (i + 1), .nat (i + p.size)]
    | none => return [.nil]
  else
    let x : Pattern.Subject := ⟨s, p⟩
    let anchored := x.patIs 0 '^'
    match ← ofPattern (x.search (if anchored then 1 else 0) start anchored (s.size + 1 - start)) with
    | none => return [.nil]
    | some (a, b, caps) =>
      if positions then
        return .nat (a + 1) :: .nat b :: (← captureValues s caps a b false)
      else captureValues s caps a b true

/-- The keys under which the table of a search for all matches holds its state. -/
def matcherKeys : List Val := [.int 1, .int 2, .int 3, .int 4]

def gmatch (args : List Val) : Routine Val := do
  let s ← bytesArg args 0
  let p ← bytesArg args 1
  let start := startPosition (← intArgD args 2 1) s.size - 1
  let start := min start (s.size + 1)
  let state := (matcherKeys.zip [.str s, .str p, .nat start, .int (-1)]).foldl
    (fun (t : Table) (k, v) => t.set k v) .empty
  match ← newTable state with
  | .table a => return .builtin (.matcher a)
  | v => return v

/-- The first match from `s` on that does not end where the one before it ended. -/
def nextMatch (x : Pattern.Subject) (s : Nat) (last : Int) :
    Nat → Except String (Option (Nat × Nat × Array Pattern.CaptureState))
  | 0 => .ok none
  | fuel + 1 => do
    match ← x.matchAt s 0 with
    | some (e, caps) => if (e : Int) ≠ last then return some (s, e, caps) else nextMatch x (s + 1) last fuel
    | none => nextMatch x (s + 1) last fuel

def matcherStep (state : Nat) : Routine (List Val) := do
  match ← reads fun heap => matcherKeys.map (heap.rawGet state) with
  | [.str s, .str p, .num (.int start), .num (.int last)] =>
    let start := start.toInt.toNat
    match ← ofPattern (nextMatch ⟨s, p⟩ start last.toInt (s.size + 1 - start)) with
    | none =>
      modifies fun heap => heap.rawSet state (.int 3) (.nat (s.size + 1))
      return [.nil]
    | some (a, b, caps) =>
      modifies fun heap => (heap.rawSet state (.int 3) (.nat b)).rawSet state (.int 4) (.nat b)
      captureValues s caps a b true
  | _ => return [.nil]

/-- What a replacement string stands for: a percent sign and a digit name a capture. -/
def expand (source : Bytes) (caps : Array Pattern.CaptureState) (start stop : Nat) :
    List UInt8 → Bytes → Routine Bytes
  | [], out => pure out
  | b :: rest, out =>
    if b == Pattern.byteOf '%' then
      match rest with
      | c :: rest =>
        if c == Pattern.byteOf '%' then expand source caps start stop rest (out.push c)
        else if c == Pattern.byteOf '0' then
          expand source caps start stop rest (out ++ source.extract start stop)
        else if Pattern.isDigitByte c then do
          let v ← captureValue source caps start stop (c.toNat - (Pattern.byteOf '1').toNat)
          expand source caps start stop rest (out ++ (v.asBytes?.getD ByteArray.empty))
        else failText "invalid use of '%' in replacement string"
      | [] => failText "invalid use of '%' in replacement string"
    else expand source caps start stop rest (out.push b)

/-- What a match is replaced by. -/
def replacementOf (source : Bytes) (repl : Val) (caps : Array Pattern.CaptureState)
    (start stop : Nat) : Routine Bytes := do
  match repl.asBytes? with
  | some r => expand source caps start stop r.toList ByteArray.empty
  | none =>
    let v ← match repl with
      | .table _ => do index repl (← captureValue source caps start stop 0)
      | f => do call1 f (← captureValues source caps start stop true)
    if !v.isTrue then return source.extract start stop
    match v.asBytes? with
    | some b => return b
    | none =>
      let name ← reads fun heap => heap.typeName v
      failText s!"invalid replacement value (a {name})"

/-- Replaces matches from `s` on, `left` at most, and counts them. -/
def replaceFrom (x : Pattern.Subject) (p : Nat) (anchored : Bool) (repl : Val) (s : Nat) (last : Int)
    (left count : Nat) (out : Bytes) : Nat → Routine (Bytes × Nat)
  | 0 => pure (out, count)
  | fuel + 1 => do
    if left == 0 then return (out ++ x.source.extract s x.source.size, count)
    let found ← ofPattern (x.matchAt s p)
    match found.filter fun r => (r.1 : Int) ≠ last with
    | some (e, caps) =>
      let b ← replacementOf x.source repl caps s e
      if anchored then return (out ++ b ++ x.source.extract e x.source.size, count + 1)
      replaceFrom x p anchored repl e e (left - 1) (count + 1) (out ++ b) fuel
    | none =>
      match x.at? s with
      | some b =>
        if anchored then return (out ++ x.source.extract s x.source.size, count)
        replaceFrom x p anchored repl (s + 1) last left count (out.push b) fuel
      | none => return (out, count)

def gsub (args : List Val) : Routine (List Val) := do
  let s ← bytesArg args 0
  let p ← bytesArg args 1
  let repl ← match arg args 2 with
    | .num n => pure (Val.num n)
    | .str r => pure (.str r)
    | .table t => pure (.table t)
    | .function f => pure (.function f)
    | .builtin f => pure (.builtin f)
    | _ => wrongType args 2 "string/function/table"
  let limit ← intArgD args 3 (Int64.ofNat (s.size + 1))
  let x : Pattern.Subject := ⟨s, p⟩
  let anchored := x.patIs 0 '^'
  let (out, count) ← replaceFrom x (if anchored then 1 else 0) anchored repl 0 (-1)
    (if limit < 0 then 0 else limit.toInt.toNat) 0 ByteArray.empty (2 * s.size + 2)
  return [← newString out, .nat count]

/-! ### Formats -/

/-- A string as a program would write it. -/
def quoteBytes : List UInt8 → List UInt8
  | [] => []
  | b :: rest =>
    if b == 0x22 || b == 0x5C || b == 0x0A then 0x5C :: b :: quoteBytes rest
    else if b < 0x20 || b == 0x7F then
      let digits := Nat.toDigits 10 b.toNat
      let followed := (rest.head?.map Pattern.isDigitByte).getD false
      let digits := if followed then List.replicate (3 - digits.length) '0' ++ digits else digits
      0x5C :: digits.map Pattern.byteOf ++ quoteBytes rest
    else b :: quoteBytes rest

/-- A value as a program would write it. -/
def quoted (v : Val) (i : Nat) : Routine Bytes :=
  match v with
  | .str s => pure (.ofList (0x22 :: quoteBytes s.toList ++ [0x22]))
  | .num (.int n) =>
    pure (.ofString (if n == Int64.minValue then "0x8000000000000000" else toString n.toInt))
  | .num (.float x) =>
    pure (.ofString (match Decimal.Parts.ofBits x.bits with
      | .nan => "(0/0)"
      | .infinite negative => if negative then "-1e9999" else "1e9999"
      | _ => String.ofList (Directive.float { (default : Directive) with conversion := 'a' } x)))
  | .nil | .bool _ => text v
  | _ => fail (.argument (i + 1) "value has no literal form")

/-- The text of one directive, for argument `i`. -/
def directiveBytes (args : List Val) (i : Nat) (modifiers : List Char) (c : Char) : Routine Bytes := do
  let spelled := String.ofList ('%' :: modifiers ++ [c])
  let directive (flags : String) (withPrecision : Bool) : Routine Directive :=
    match Directive.parse? flags.toList withPrecision modifiers c with
    | some d => pure d
    | none => failText s!"invalid conversion specification: '{spelled}'"
  let ofChars (cs : List Char) : Bytes := .ofString (String.ofList cs)
  let integer (flags : String) : Routine Bytes := do
    let n ← intArg args i
    return ofChars ((← directive flags true).integer n)
  match c with
  | 'c' => do
    let n ← intArg args i
    let d ← directive "-" false
    let fill := Bytes.replicate (d.width - 1) 0x20
    let b : Bytes := .ofList [n.toUInt64.toUInt8]
    return if d.left then b ++ fill else fill ++ b
  | 'd' | 'i' => integer "-+0 "
  | 'u' => integer "-0"
  | 'o' | 'x' | 'X' => integer "-#0"
  | 'a' | 'A' | 'e' | 'E' | 'f' | 'g' | 'G' => do
    let n ← numberArg args i
    return ofChars ((← directive "-+ #0" true).float n.toDouble)
  | 'p' => do
    let d ← directive "-" false
    let v := arg args i
    let address ← reads fun heap => match v with
      | .nil | .bool _ | .num _ => "(null)"
      | v => ((identityText heap v).splitOn ": ").getLastD ""
    return ofChars (d.pad address.toList)
  | 'q' =>
    if modifiers.isEmpty then quoted (arg args i) i
    else failText "specifier '%q' cannot have modifiers"
  | 's' => do
    let s ← text (arg args i)
    if modifiers.isEmpty then return s
    if s.toList.contains 0 then fail (.argument (i + 1) "string contains zeros")
    let d ← directive "-" true
    if d.precision.isNone && s.size ≥ 100 then return s
    let s := s.extract 0 (d.precision.getD s.size)
    let fill := Bytes.replicate (d.width - s.size) 0x20
    return if d.left then s ++ fill else fill ++ s
  | _ => failText s!"invalid conversion '{spelled}' to 'format'"

/-- Fills a format from arguments, of which `i` is the last one used. -/
def formatFrom (args : List Val) (i : Nat) (out : Bytes) (cs : List UInt8) : Nat → Routine Bytes
  | 0 => pure out
  | fuel + 1 =>
    match cs with
    | [] => pure out
    | b :: rest =>
      if b != Pattern.byteOf '%' then formatFrom args i (out.push b) rest fuel
      else if rest.head? == some (Pattern.byteOf '%') then formatFrom args i (out.push b) (rest.drop 1) fuel
      else do
        if i + 1 ≥ args.length then fail (.argument (i + 2) "no value")
        let isModifier := fun b => Directive.modifierChars.any fun c => Pattern.byteOf c == b
        let modifiers := (rest.takeWhile isModifier).map fun b => Char.ofNat b.toNat
        if modifiers.length ≥ 21 then failText "invalid format string to 'format'"
        let rest := rest.dropWhile isModifier
        let c := match rest with
          | [] => '\x00'
          | c :: _ => Char.ofNat c.toNat
        if rest.isEmpty then
          let conversion := String.ofList ('%' :: modifiers)
          failText s!"invalid conversion '{conversion}' to 'format'"
        let piece ← directiveBytes args (i + 1) modifiers c
        formatFrom args (i + 1) (out ++ piece) (rest.drop 1) fuel

def format (args : List Val) : Routine Val := do
  let f ← bytesArg args 0
  newString (← formatFrom args 0 ByteArray.empty f.toList (f.size + 1))

/-! ### The functions -/

def string (f : StringFunction) (args : List Val) : Routine (List Val) :=
  match f with
  | .byte => byte args
  | .char => return [← char args]
  | .find => search true args
  | .format => return [← format args]
  | .gmatch => return [← gmatch args]
  | .gsub => gsub args
  | .len => return [.nat (← bytesArg args 0).size]
  | .lower => return [← mapBytes Pattern.lowerByte args]
  | .match => search false args
  | .pack => return [← pack args]
  | .packsize => return [← packsize args]
  | .rep => return [← rep args]
  | .reverse => do
    let s ← bytesArg args 0
    return [← newString (.ofList s.toList.reverse)]
  | .sub => return [← sub args]
  | .unpack => unpack args
  | .upper => return [← mapBytes Pattern.upperByte args]

end Library

end ScriptHost.Lua
