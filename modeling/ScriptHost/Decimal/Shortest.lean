/-! Shortest decimals of binary floating-point numbers: for a finite number, the fewest digits
that read back as that number, and among decimals of that length the nearest one. -/

namespace ScriptHost.Decimal

/-- A positive decimal: `digits * 10 ^ exponent`. -/
structure Decimal where
  digits : Nat
  exponent : Int
  deriving DecidableEq, Repr

/-- A number of 64 bits taken apart: a sign, and what the rest stands for. -/
inductive Parts
  | nan
  | infinite (negative : Bool)
  | zero (negative : Bool)
  /-- `mantissa * 2 ^ exponent`; `even` asks whether the ends of its rounding interval belong to
  it, and `narrow` whether the gap below is half as wide as the gap above. -/
  | finite (negative : Bool) (mantissa : Nat) (exponent : Int) (even : Bool) (narrow : Bool)

/-- The parts of a number from its 64 bits. -/
def Parts.ofBits (bits : UInt64) : Parts :=
  let n := bits.toNat
  let negative := n / Nat.pow 2 63 == 1
  let biased : Nat := n / Nat.pow 2 52 % Nat.pow 2 11
  let fraction : Nat := n % Nat.pow 2 52
  if biased == 2047 then
    if fraction == 0 then .infinite negative else .nan
  else if biased == 0 then
    if fraction == 0 then .zero negative
    else .finite negative fraction (-1074) (fraction % 2 == 0) false
  else
    .finite negative (Nat.pow 2 52 + fraction) ((biased : Int) - 1075) (fraction % 2 == 0)
      (fraction == 0 && biased != 1)

/-- A positive fraction, whose denominator is not zero. -/
structure Fraction where
  num : Nat
  den : Nat

/-- `n * 2 ^ e` as a fraction. -/
def Fraction.scale2 (n : Nat) (e : Int) : Fraction :=
  if 0 ≤ e then ⟨n * Nat.pow 2 e.toNat, 1⟩ else ⟨n, Nat.pow 2 (-e).toNat⟩

/-- `n * 10 ^ e` as a fraction. -/
def Fraction.scale10 (n : Nat) (e : Int) : Fraction :=
  if 0 ≤ e then ⟨n * Nat.pow 10 e.toNat, 1⟩ else ⟨n, Nat.pow 10 (-e).toNat⟩

def Fraction.le (a b : Fraction) : Bool := a.num * b.den ≤ b.num * a.den

def Fraction.lt (a b : Fraction) : Bool := a.num * b.den < b.num * a.den

/-- Steps up from `e` while the fraction is at least `10 ^ (e + 1)`. -/
def Fraction.climb (f : Fraction) : Nat → Int → Int
  | 0, e => e
  | fuel + 1, e => if (Fraction.scale10 1 (e + 1)).le f then f.climb fuel (e + 1) else e

/-- The exponent `e` with `10 ^ e ≤ f < 10 ^ (e + 1)`: a guess from the binary lengths, which is
too small by at most two, and steps up from there. -/
def Fraction.decimalExponent (f : Fraction) : Int :=
  let bits : Int := (Nat.log2 f.num : Int) - Nat.log2 f.den - 1
  f.climb 4 (Int.fdiv (bits * 30103) 100000 - 1)

/-- The part of `f / 10 ^ e` before the point. -/
def Fraction.floorAt (f : Fraction) (e : Int) : Nat :=
  if 0 ≤ e then f.num / (f.den * Nat.pow 10 e.toNat) else f.num * Nat.pow 10 (-e).toNat / f.den

/-- A decimal without the zeros its digits end with. -/
def Decimal.normalize : Nat → Decimal → Decimal
  | 0, d => d
  | fuel + 1, d =>
    if d.digits != 0 && d.digits % 10 == 0 then normalize fuel ⟨d.digits / 10, d.exponent + 1⟩
    else d

/-- The decimals that round to a number: those between two fractions, with or without the ends. -/
structure Interval where
  low : Fraction
  high : Fraction
  closed : Bool

def Interval.contains (i : Interval) (f : Fraction) : Bool :=
  if i.closed then i.low.le f && f.le i.high else i.low.lt f && f.lt i.high

/-- Of the two neighbours of `value` on the grid of multiples of `10 ^ e`, those in the interval,
the nearer one if both are. -/
def Interval.neighbour? (i : Interval) (value : Fraction) (e : Int) : Option Decimal :=
  let below := value.floorAt e
  let lower := Fraction.scale10 below e
  let upper := Fraction.scale10 (below + 1) e
  match i.contains lower && below != 0, i.contains upper with
  | true, false => some ⟨below, e⟩
  | false, true => some ⟨below + 1, e⟩
  | false, false => none
  | true, true =>
    -- `lower` is nearer iff `2 * value < lower + upper`, both over the denominator `lower.den`.
    let twice := 2 * value.num * lower.den
    let sum := (lower.num + upper.num) * value.den
    if twice < sum || (twice == sum && below % 2 == 0) then some ⟨below, e⟩
    else some ⟨below + 1, e⟩

/-- The shortest decimal in the interval around `value`, looking at `n` digits, then `n + 1`, and
so on. -/
def Interval.shortest (i : Interval) (value : Fraction) (top : Int) : Nat → Nat → Decimal
  | 0, _ => ⟨value.floorAt (top - 16), top - 16⟩
  | fuel + 1, n =>
    match i.neighbour? value (top - n + 1) with
    | some d => d
    | none => i.shortest value top fuel (n + 1)

/-- The fewest digits that read back as `mantissa * 2 ^ exponent`. -/
def shortest (mantissa : Nat) (exponent : Int) (even narrow : Bool) : Decimal :=
  let value := Fraction.scale2 (4 * mantissa) (exponent - 2)
  let low := Fraction.scale2 (4 * mantissa - if narrow then 1 else 2) (exponent - 2)
  let high := Fraction.scale2 (4 * mantissa + 2) (exponent - 2)
  ((Interval.mk low high even).shortest value value.decimalExponent 17 1).normalize 20

/-- `digits * 10 ^ exponent` written with a point where it needs one and never with an exponent. -/
def Decimal.positional (d : Decimal) : String :=
  let ds := toString d.digits
  if 0 ≤ d.exponent then ds ++ String.ofList (List.replicate d.exponent.toNat '0')
  else
    let places := (-d.exponent).toNat
    if places < ds.length then
      String.ofList (ds.toList.take (ds.length - places)) ++ "." ++
        String.ofList (ds.toList.drop (ds.length - places))
    else "0." ++ String.ofList (List.replicate (places - ds.length) '0') ++ ds

/-- The text of a number: the fewest digits that read back, never with an exponent, and no point in
a whole number. -/
def text (x : Float) : String :=
  match Parts.ofBits x.toBits with
  | .nan => "NaN"
  | .infinite negative => if negative then "-inf" else "inf"
  | .zero negative => if negative then "-0" else "0"
  | .finite negative m e even narrow =>
    (if negative then "-" else "") ++ (shortest m e even narrow).positional

end ScriptHost.Decimal
