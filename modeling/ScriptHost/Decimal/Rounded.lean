import ScriptHost.Decimal.Shortest

/-! Rounded decimals of binary floating-point numbers: a given number of places after the point, or
a given number of digits in all. A tie goes to the even neighbour. -/

namespace ScriptHost.Decimal

/-- The whole number nearest to `num / den`. -/
def roundDiv (num den : Nat) : Nat :=
  let q := num / den
  let twice := 2 * (num % den)
  if twice < den then q else if twice > den then q + 1 else q + q % 2

/-- The multiple of `10 ^ e` nearest to a fraction, counted in multiples. -/
def Fraction.roundAt (f : Fraction) (e : Int) : Nat :=
  if 0 ≤ e then roundDiv f.num (f.den * Nat.pow 10 e.toNat) else roundDiv (f.num * Nat.pow 10 (-e).toNat) f.den

/-- `n > 0` digits of a positive fraction: a number of exactly `n` digits, and the exponent of its
first digit. -/
def Fraction.significant (f : Fraction) (n : Nat) : Nat × Int :=
  let top := f.decimalExponent
  let d := f.roundAt (top - n + 1)
  if d < Nat.pow 10 n then (d, top) else (d / 10, top + 1)

/-- Digits with a point before the last `places` of them. -/
def pointAt (places digits : Nat) : String :=
  let ds := toString digits
  let ds := String.ofList (List.replicate (places + 1 - ds.length) '0') ++ ds
  if places == 0 then ds
  else
    String.ofList (ds.toList.take (ds.length - places)) ++ "." ++
      String.ofList (ds.toList.drop (ds.length - places))

/-- A text with a point, without the zeros at its end and without a point at its end. -/
def dropZeros (s : String) : String :=
  if s.toList.contains '.' then
    let cs := s.toList.reverse.dropWhile (· == '0')
    String.ofList ((if cs.head? == some '.' then cs.drop 1 else cs).reverse)
  else s

/-- An exponent with its sign and at least two digits. -/
def exponentText (e : Int) : String :=
  (if e < 0 then "e-" else "e+") ++ (if e.natAbs < 10 then "0" else "") ++ toString e.natAbs

/-- `places` digits after the point. -/
def fixed (f : Fraction) (places : Nat) : String := pointAt places (f.roundAt (-(places : Int)))

/-- One digit before the point, `places` after it, and an exponent. -/
def scientific (f : Fraction) (places : Nat) : String :=
  let (d, e) := f.significant (places + 1)
  pointAt places d ++ exponentText e

/-- `n` digits in all, with an exponent where the point would stand far from them, and, unless
`keep`, without zeros at the end. -/
def general (f : Fraction) (n : Nat) (keep : Bool) : String :=
  let n := max n 1
  let trim := if keep then id else dropZeros
  let (d, e) := f.significant n
  if -4 ≤ e && e < n then trim (fixed f ((n : Int) - 1 - e).toNat)
  else trim (pointAt (n - 1) d) ++ exponentText e

/-- The text of zero in the three forms. -/
def zeroGeneral (n : Nat) (keep : Bool) : String := if keep then pointAt (max n 1 - 1) 0 else "0"

end ScriptHost.Decimal
