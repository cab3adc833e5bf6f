import ScriptHost.Lua.Bytes

/-! Patterns: classes of bytes, repetitions, captures, balanced pairs and frontiers, matched against a
string from a position on. Every step of a match goes on in the string or in the pattern, which bounds
how deep it nests. -/

namespace ScriptHost.Lua

namespace Pattern

/-! ### Classes of bytes -/

def byteOf (c : Char) : UInt8 := c.toNat.toUInt8

def isDigitByte (b : UInt8) : Bool := byteOf '0' ≤ b && b ≤ byteOf '9'

def isLowerByte (b : UInt8) : Bool := byteOf 'a' ≤ b && b ≤ byteOf 'z'

def isUpperByte (b : UInt8) : Bool := byteOf 'A' ≤ b && b ≤ byteOf 'Z'

def isAlphaByte (b : UInt8) : Bool := isLowerByte b || isUpperByte b

def lowerByte (b : UInt8) : UInt8 := if isUpperByte b then b + 32 else b

def upperByte (b : UInt8) : UInt8 := if isLowerByte b then b - 32 else b

def isPrintByte (b : UInt8) : Bool := 0x20 < b && b < 0x7F

/-- Whether a byte is in the class of a letter; a letter that names no class stands for itself. -/
def inClass (b letter : UInt8) : Bool :=
  let member? : Option Bool := match Char.ofNat (lowerByte letter).toNat with
    | 'a' => some (isAlphaByte b)
    | 'c' => some (b < 0x20 || b == 0x7F)
    | 'd' => some (isDigitByte b)
    | 'g' => some (isPrintByte b)
    | 'l' => some (isLowerByte b)
    | 'p' => some (isPrintByte b && !isAlphaByte b && !isDigitByte b)
    | 's' => some (b == 0x20 || (9 ≤ b && b ≤ 13))
    | 'u' => some (isUpperByte b)
    | 'w' => some (isAlphaByte b || isDigitByte b)
    | 'x' => some (isDigitByte b || (byteOf 'a' ≤ lowerByte b && lowerByte b ≤ byteOf 'f'))
    | _ => none
  match member? with
  | some member => member != isUpperByte letter
  | none => letter == b

/-! ### Captures -/

inductive CaptureState
  /-- The capture has begun at a position. -/
  | opened (start : Nat)
  | closed (start stop : Nat)
  /-- The capture is a position. -/
  | position (place : Nat)
  deriving Inhabited

/-- A string, a pattern, and nothing else that changes during a match. -/
structure Subject where
  source : Bytes
  pattern : Bytes

/-- Where a match ends, with its captures; or an error in the pattern. -/
abbrev Outcome := Except String (Option (Nat × Array CaptureState))

/-- The greatest number of captures. -/
def maxCaptures : Nat := 32

namespace Subject

def at? (x : Subject) (i : Nat) : Option UInt8 := x.source[i]?

def pat? (x : Subject) (i : Nat) : Option UInt8 := x.pattern[i]?

def patIs (x : Subject) (i : Nat) (c : Char) : Bool := x.pat? i == some (byteOf c)

/-! ### Single items -/

/-- The position after the set that opens before `i`; its first item may be a closing bracket. -/
def setEnd (x : Subject) (i : Nat) (first : Bool) : Nat → Except String Nat
  | 0 => .error "malformed pattern (missing ']')"
  | fuel + 1 =>
    match x.pat? i with
    | none => .error "malformed pattern (missing ']')"
    | some b =>
      if b == byteOf ']' && !first then .ok (i + 1)
      else if b == byteOf '%' then x.setEnd (i + 2) false fuel
      else x.setEnd (i + 1) false fuel

/-- The position after the item at `i`. -/
def itemEnd (x : Subject) (i : Nat) : Except String Nat :=
  if x.patIs i '%' then
    if i + 1 < x.pattern.size then .ok (i + 2) else .error "malformed pattern (ends with '%')"
  else if x.patIs i '[' then
    x.setEnd (if x.patIs (i + 1) '^' then i + 2 else i + 1) true (x.pattern.size + 1)
  else .ok (i + 1)

/-- Whether a byte is in the set whose items go from `i` to its closing bracket at `stop`. -/
def inItems (x : Subject) (b : UInt8) (i stop : Nat) : Nat → Bool
  | 0 => false
  | fuel + 1 =>
    if i ≥ stop then false
    else
      let p := (x.pat? i).getD 0
      if p == byteOf '%' then
        inClass b ((x.pat? (i + 1)).getD 0) || x.inItems b (i + 2) stop fuel
      else if x.patIs (i + 1) '-' && i + 2 < stop then
        (p ≤ b && b ≤ (x.pat? (i + 2)).getD 0) || x.inItems b (i + 3) stop fuel
      else p == b || x.inItems b (i + 1) stop fuel

/-- Whether a byte is in the set from `i` to its closing bracket at `stop`. -/
def inSet (x : Subject) (b : UInt8) (i stop : Nat) : Bool :=
  if x.patIs (i + 1) '^' then !x.inItems b (i + 2) stop x.pattern.size
  else x.inItems b (i + 1) stop x.pattern.size

/-- Whether the byte at `s` matches the item from `p` to `stop`. -/
def single (x : Subject) (s p stop : Nat) : Bool :=
  match x.at? s with
  | none => false
  | some b =>
    match x.pat? p with
    | none => false
    | some q =>
      if q == byteOf '.' then true
      else if q == byteOf '%' then inClass b ((x.pat? (p + 1)).getD 0)
      else if q == byteOf '[' then x.inSet b p (stop - 1)
      else q == b

/-- How many bytes from `s` on match the item from `p` to `stop`. -/
def countSingle (x : Subject) (p stop : Nat) (s : Nat) : Nat → Nat
  | 0 => 0
  | fuel + 1 => if x.single s p stop then x.countSingle p stop (s + 1) fuel + 1 else 0

/-- The position after the byte that balances the pair opened before `s`. -/
def balanced (x : Subject) (opening closing : UInt8) (s depth : Nat) : Nat → Option Nat
  | 0 => none
  | fuel + 1 =>
    match x.at? s with
    | none => none
    | some b =>
      if b == closing then
        if depth ≤ 1 then some (s + 1) else x.balanced opening closing (s + 1) (depth - 1) fuel
      else if b == opening then x.balanced opening closing (s + 1) (depth + 1) fuel
      else x.balanced opening closing (s + 1) depth fuel

/-! ### Matching -/

/-- The first hit among `n`, `n - 1`, … repetitions. -/
def longest (go : Nat → Outcome) : Nat → Outcome
  | 0 => go 0
  | n + 1 => do
    match ← go (n + 1) with
    | some r => return some r
    | none => longest go n

/-- The first hit among `i`, `i + 1`, … repetitions, `left` more at most. -/
def fewest (go : Nat → Outcome) (i : Nat) : Nat → Outcome
  | 0 => go i
  | left + 1 => do
    match ← go i with
    | some r => return some r
    | none => fewest go (i + 1) left

/-- Closes the capture that was opened last. -/
def closeCapture (caps : Array CaptureState) (s : Nat) : Except String (Array CaptureState) :=
  let open? := (List.range caps.size).reverse.find? fun i =>
    match caps[i]? with
    | some (.opened _) => true
    | _ => false
  match open?.bind fun i => caps[i]?.map fun c => (i, c) with
  | some (i, .opened start) => .ok (caps.setIfInBounds i (.closed start s))
  | _ => .error "invalid pattern capture"

/-- The bytes of a capture that a pattern refers to by a digit. -/
def backReference (x : Subject) (caps : Array CaptureState) (digit : UInt8) : Except String Bytes :=
  let i : Int := (digit.toNat : Int) - (byteOf '1').toNat
  match if i < 0 then none else caps[i.toNat]? with
  | some (.closed start stop) => .ok (x.source.extract start stop)
  | some (.position _) => .ok ByteArray.empty
  | _ => .error s!"invalid capture index %{i + 1}"

/-- Whether the source goes on with some bytes at a position. -/
def continuesWith (x : Subject) (s : Nat) (b : Bytes) : Bool := x.source.extract s (s + b.size) == b

/-- Matches the pattern from `p` on against the source from `s` on. -/
def go (x : Subject) (s p : Nat) (caps : Array CaptureState) : Nat → Outcome
  | 0 => .error "pattern too complex"
  | fuel + 1 =>
    if p ≥ x.pattern.size then .ok (some (s, caps))
    else if x.patIs p '(' then
      if caps.size ≥ maxCaptures then .error "too many captures"
      else if x.patIs (p + 1) ')' then x.go s (p + 2) (caps.push (.position s)) fuel
      else x.go s (p + 1) (caps.push (.opened s)) fuel
    else if x.patIs p ')' then do
      x.go s (p + 1) (← closeCapture caps s) fuel
    else if x.patIs p '$' && p + 1 == x.pattern.size then
      .ok (if s == x.source.size then some (s, caps) else none)
    else if x.patIs p '%' && x.patIs (p + 1) 'b' then
      match x.pat? (p + 2), x.pat? (p + 3) with
      | some opening, some closing =>
        if x.at? s == some opening then
          match x.balanced opening closing (s + 1) 1 x.source.size with
          | some e => x.go e (p + 4) caps fuel
          | none => .ok none
        else .ok none
      | _, _ => .error "malformed pattern (missing arguments to '%b')"
    else if x.patIs p '%' && x.patIs (p + 1) 'f' then do
      if !x.patIs (p + 2) '[' then throw "missing '[' after '%f' in pattern"
      let stop ← x.itemEnd (p + 2)
      let before := if s == 0 then 0 else (x.at? (s - 1)).getD 0
      if !x.inSet before (p + 2) (stop - 1) && x.inSet ((x.at? s).getD 0) (p + 2) (stop - 1) then
        x.go s stop caps fuel
      else return none
    else if x.patIs p '%' && ((x.pat? (p + 1)).map isDigitByte).getD false then do
      let b ← x.backReference caps ((x.pat? (p + 1)).getD 0)
      if x.continuesWith s b then x.go (s + b.size) (p + 2) caps fuel else return none
    else do
      let stop ← x.itemEnd p
      if x.patIs stop '?' then
        if x.single s p stop then
          match ← x.go (s + 1) (stop + 1) caps fuel with
          | some r => return some r
          | none => x.go s (stop + 1) caps fuel
        else x.go s (stop + 1) caps fuel
      else if x.patIs stop '+' || x.patIs stop '*' then
        let count := x.countSingle p stop s (x.source.size - s)
        if x.patIs stop '+' then
          if count == 0 then return none
          longest (fun i => x.go (s + 1 + i) (stop + 1) caps fuel) (count - 1)
        else longest (fun i => x.go (s + i) (stop + 1) caps fuel) count
      else if x.patIs stop '-' then
        let count := x.countSingle p stop s (x.source.size - s)
        fewest (fun i => x.go (s + i) (stop + 1) caps fuel) 0 count
      else if x.single s p stop then x.go (s + 1) stop caps fuel
      else return none

/-- Matches the pattern from `p` on against the source from `s` on. -/
def matchAt (x : Subject) (s p : Nat) : Outcome :=
  x.go s p #[] (x.source.size + x.pattern.size + 2)

end Subject

/-- Bytes that mean more than themselves in a pattern. -/
def isSpecial (b : UInt8) : Bool := "^$*+?.([%-".toList.any fun c => byteOf c == b

/-- The first position from `i` on at which some bytes occur. -/
def findPlain (source wanted : Bytes) (i : Nat) : Nat → Option Nat
  | 0 => none
  | fuel + 1 =>
    if source.extract i (i + wanted.size) == wanted then some i
    else findPlain source wanted (i + 1) fuel

/-- The first match from position `s` on: where it begins, where it ends, and its captures. -/
def Subject.search (x : Subject) (p s : Nat) (anchored : Bool) :
    Nat → Except String (Option (Nat × Nat × Array CaptureState))
  | 0 => .ok none
  | fuel + 1 => do
    match ← x.matchAt s p with
    | some (e, caps) => return some (s, e, caps)
    | none => if anchored then return none else x.search p (s + 1) anchored fuel

end Pattern

end ScriptHost.Lua
