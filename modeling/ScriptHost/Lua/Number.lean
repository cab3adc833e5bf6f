import ScriptHost.Decimal.Reading
import ScriptHost.Decimal.Rounded

/-! Numbers of Lua: integers of 64 bits, which wrap around, and binary floating-point numbers. A
floating-point number is kept as its bits, which also tell the two signs of a result that is no
number apart. -/

namespace ScriptHost.Lua

/-! ### Floating-point numbers -/

/-- A floating-point number of 64 bits. -/
structure Double where
  bits : UInt64
  deriving DecidableEq, Hashable, Inhabited

namespace Double

def toFloat (x : Double) : Float := Float.ofBits x.bits

/-- The number that the host hands over. -/
def ofFloat (x : Float) : Double := ⟨x.toBits⟩

/-- The result of an operation. What is no number comes out of one with its sign set. -/
def result (x : Float) : Double := if x.isNaN then ⟨0xFFF8000000000000⟩ else ⟨x.toBits⟩

def neg (x : Double) : Double := ⟨x.bits ^^^ 0x8000000000000000⟩

def zero : Double := ⟨0⟩

def isNaN (x : Double) : Bool := x.toFloat.isNaN

/-- The exact value of a finite number as a whole number times a power of two. -/
def finite? (x : Double) : Option (Int × Int) :=
  match Decimal.Parts.ofBits x.bits with
  | .nan | .infinite _ => none
  | .zero _ => some (0, 0)
  | .finite negative m e _ _ => some (if negative then -(m : Int) else m, e)

/-- The integer that a number equals. -/
def toInt? (x : Double) : Option Int64 :=
  match x.finite? with
  | none => none
  | some (m, e) =>
    -- Beyond `2 ^ 64` no power of two is formed.
    let value? : Option Int :=
      if 0 ≤ e then (if e ≤ 64 then some (m * Int.pow 2 e.toNat) else none)
      else if e < -1074 then none
      else if m % Int.pow 2 (-e).toNat == 0 then some (m / Int.pow 2 (-e).toNat)
      else none
    value?.bind fun n => if -(Int.pow 2 63) ≤ n && n < Int.pow 2 63 then some (Int64.ofInt n) else none

/-- The greatest integer not above a number, if it has 64 bits. -/
def floor? (x : Double) : Option Int64 := (result x.toFloat.floor).toInt?

/-- The least integer not below a number, if it has 64 bits. -/
def ceil? (x : Double) : Option Int64 := (result x.toFloat.ceil).toInt?

def ofInt (n : Int64) : Double := ⟨n.toFloat.toBits⟩

/-- What is left of `a` after taking the whole multiples of `b` away, toward zero. -/
def remainder (a b : Double) : Double :=
  match a.finite?, b.finite? with
  | some (m, e), some (n, f) =>
    if n == 0 then result (0.0 / 0.0)
    else
      let low := min e f
      let scaledA := m.natAbs <<< (e - low).toNat
      let scaledB := n.natAbs <<< (f - low).toNat
      if scaledA < scaledB then a
      else
        let r := (Float.ofNat (scaledA % scaledB)).scaleB low
        ⟨(if a.bits ≥ 0x8000000000000000 then -r else r).toBits⟩
  | some _, none => if b.isNaN then result (0.0 / 0.0) else a
  | none, _ => result (0.0 / 0.0)

/-- The remainder that takes the sign of the divisor. -/
def mod (a b : Double) : Double :=
  let r := a.remainder b
  let x := r.toFloat
  let y := b.toFloat
  if (if x > 0 then y < 0 else x < 0 && !(y == x) && !(y < 0)) then result (x + y) else r

def pow (a b : Double) : Double :=
  let x := a.toFloat
  let y := b.toFloat
  if y == 2 then result (x * x) else result (x.pow y)

/-- A magnitude as a fraction, and whether the sign is set. -/
def magnitude (x : Double) : Option (Bool × Decimal.Fraction) :=
  match Decimal.Parts.ofBits x.bits with
  | .finite negative m e _ _ => some (negative, Decimal.Fraction.scale2 m e)
  | _ => none

/-- A number written by a form for positive fractions and the text of zero in that form. -/
def write (form : Decimal.Fraction → String) (zero : String) (x : Double) : String :=
  let sign := if x.bits ≥ 0x8000000000000000 then "-" else ""
  match Decimal.Parts.ofBits x.bits with
  | .nan => sign ++ "nan"
  | .infinite _ => sign ++ "inf"
  | .zero _ => sign ++ zero
  | .finite _ m e _ _ => sign ++ form (Decimal.Fraction.scale2 m e)

/-- Fourteen digits in all, and a sign that the number is not an integer. -/
def text (x : Double) : String :=
  let s := x.write (Decimal.general · 14 false) "0"
  if s.toList.all fun c => c.isDigit || c == '-' then s ++ ".0" else s

end Double

/-! ### Integers -/

/-- An integer, or the text of the error that dividing by zero gives. -/
def floorDiv? (a b : Int64) : Option Int64 :=
  if b == 0 then none
  else
    let q := a / b
    if a % b != 0 && (a ^^^ b) < 0 then some (q - 1) else some q

/-- The remainder that takes the sign of the divisor. -/
def floorMod? (a b : Int64) : Option Int64 :=
  if b == 0 then none
  else
    let r := a % b
    if r != 0 && (r ^^^ b) < 0 then some (r + b) else some r

/-- The bits of `a` moved left by `n`, or right by `-n`, with zeros coming in. -/
def shiftLeft (a n : Int64) : Int64 :=
  let bits := a.toUInt64
  if n ≤ -64 || n ≥ 64 then 0
  else if n ≥ 0 then (bits <<< n.toUInt64).toInt64
  else (bits >>> (-n).toUInt64).toInt64

/-! ### Numbers -/

/-- A number of either kind. -/
inductive Number
  | int (n : Int64)
  | float (x : Double)
  deriving DecidableEq, Inhabited

namespace Number

def toDouble : Number → Double
  | int n => .ofInt n
  | float x => x

/-- The integer that a number equals. -/
def toInt? : Number → Option Int64
  | int n => some n
  | float x => x.toInt?

/-- How two exact values `m * 2 ^ e` compare. -/
def compareExact (a b : Int × Int) : Ordering :=
  let low := min a.2 b.2
  compare (a.1 * Int.pow 2 (a.2 - low).toNat) (b.1 * Int.pow 2 (b.2 - low).toNat)

/-- How an integer and a floating-point number compare, without rounding either. -/
def compareMixed (n : Int64) (x : Double) : Option Ordering :=
  match x.finite? with
  | some v => some (compareExact (n.toInt, 0) v)
  | none =>
    if x.isNaN then none
    else some (if x.bits ≥ 0x8000000000000000 then .gt else .lt)

/-- How two numbers compare; what is no number compares with nothing. -/
def compare? : Number → Number → Option Ordering
  | int a, int b => some (compare a b)
  | float a, float b =>
    let x := a.toFloat
    let y := b.toFloat
    if x < y then some .lt else if y < x then some .gt else if x == y then some .eq else none
  | int a, float b => compareMixed a b
  | float a, int b => (compareMixed b a).map Ordering.swap

def lt (a b : Number) : Bool := compare? a b == some .lt

def le (a b : Number) : Bool := compare? a b == some .lt || compare? a b == some .eq

def eq (a b : Number) : Bool := compare? a b == some .eq

def text : Number → String
  | int n => toString n.toInt
  | float x => x.text

end Number

/-! ### Numerals -/

/-- The characters that count as space in a numeral and in Lua's classes. -/
def isSpace (c : Char) : Bool :=
  c == ' ' || c == '\t' || c == '\n' || c == '\r' || c == '\x0b' || c == '\x0c'

/-- A sign of a numeral and what follows it. -/
def numeralSign : List Char → Bool × List Char
  | '-' :: rest => (true, rest)
  | '+' :: rest => (false, rest)
  | cs => (false, cs)

/-- The integer that a numeral spells: hexadecimal digits wrap around, decimal digits must fit. -/
def integerNumeral? (negative : Bool) (cs : List Char) : Option Int64 :=
  match cs with
  | '0' :: 'x' :: digits | '0' :: 'X' :: digits =>
    (Text.natOf? Text.hexDigit? 16 digits).map fun n =>
      let bits := UInt64.ofNat n
      (if negative then 0 - bits else bits).toInt64
  | digits =>
    (Text.natOf? Text.digit? 10 digits).bind fun n =>
      if negative then (if n ≤ Nat.pow 2 63 then some (Int64.ofInt (-n)) else none)
      else if n < Nat.pow 2 63 then some (Int64.ofInt n) else none

/-- The exponent of two after hexadecimal digits. -/
def binaryExponent? : List Char → Option Int
  | [] => some 0
  | c :: rest =>
    if c == 'p' || c == 'P' then
      let (negative, digits) := numeralSign rest
      (Text.natOf? Text.digit? 10 digits).map fun n => if negative then -(n : Int) else n
    else none

/-- The number nearest to `mantissa * 2 ^ exponent`. -/
def nearestBinary (mantissa : Nat) (exponent : Int) : Float :=
  if mantissa == 0 then 0
  else
    let length : Int := Nat.log2 mantissa
    if length + exponent > 1100 then 1.0 / 0.0
    else if length + exponent < -1200 then 0
    else
      let f := Decimal.Fraction.scale2 mantissa exponent
      -- A binary fraction is a decimal one, which the decimal reader rounds.
      if f.den == 1 then Float.ofNat f.num
      else
        let places := Nat.log2 f.den
        Float.ofScientific (f.num * Nat.pow 5 places) true places

/-- The floating-point number that a hexadecimal numeral spells, after its `0x`. -/
def hexFloat? (cs : List Char) : Option Float :=
  let isHex := fun c => (Text.hexDigit? c).isSome
  let whole := cs.takeWhile isHex
  let rest := cs.dropWhile isHex
  let (fraction, rest) := match rest with
    | '.' :: rest => (rest.takeWhile isHex, rest.dropWhile isHex)
    | _ => ([], rest)
  if whole.isEmpty && fraction.isEmpty then none
  else
    (binaryExponent? rest).map fun e =>
      nearestBinary ((Text.natOf? Text.hexDigit? 16 (whole ++ fraction)).getD 0)
        (e - 4 * fraction.length)

/-- The floating-point number that a numeral spells, without its sign. -/
def floatNumeral? (cs : List Char) : Option Float :=
  match cs with
  | '0' :: 'x' :: rest | '0' :: 'X' :: rest => hexFloat? rest
  | c :: _ =>
    if c.isDigit || c == '.' then (Decimal.Spelling.ofChars? cs).map Decimal.Spelling.value else none
  | [] => none

/-- The number that a text spells, with spaces around it. -/
def Number.parse? (cs : List Char) : Option Number :=
  let cs := ((cs.dropWhile isSpace).reverse.dropWhile isSpace).reverse
  let (negative, digits) := numeralSign cs
  match integerNumeral? negative digits with
  | some n => some (.int n)
  | none =>
    (floatNumeral? digits).map fun x => .float (.ofFloat (if negative then -x else x))

end ScriptHost.Lua
