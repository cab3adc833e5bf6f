import ScriptHost.Lua.Number

/-! Directives of format strings: flags, width, precision and conversion, and how they lay numbers and
texts out. -/

namespace ScriptHost.Lua

/-- A directive, as it stands between its percent sign and the letter of its conversion. -/
structure Directive where
  left : Bool
  plus : Bool
  space : Bool
  alternate : Bool
  zero : Bool
  width : Nat
  precision : Option Nat
  conversion : Char
  deriving Inhabited

namespace Directive

/-- The characters that may stand before the letter of a conversion. -/
def modifierChars : List Char := "-+ #0123456789.".toList

/-- At most two digits of a number, and what follows them. -/
def twoDigits (cs : List Char) : List Char × List Char :=
  let ds := (cs.take 2).takeWhile Char.isDigit
  (ds, cs.drop ds.length)

def digitsValue (ds : List Char) : Nat := (Text.natOf? Text.digit? 10 ds).getD 0

/-- Reads modifiers with the flags that a conversion allows; none if they are not in order. -/
def parse? (flags : List Char) (withPrecision : Bool) (modifiers : List Char) (conversion : Char) :
    Option Directive :=
  let set := modifiers.takeWhile flags.contains
  let rest := modifiers.dropWhile flags.contains
  let base : Directive := ⟨set.contains '-', set.contains '+', set.contains ' ', set.contains '#',
    set.contains '0', 0, none, conversion⟩
  if rest.head? == some '0' then none
  else
    let (width, rest) := twoDigits rest
    let base := { base with width := digitsValue width }
    match rest with
    | [] => some base
    | '.' :: rest =>
      let (precision, rest) := twoDigits rest
      if withPrecision && rest.isEmpty then some { base with precision := some (digitsValue precision) }
      else none
    | _ => none

/-- Fills a text up to the width with spaces. -/
def pad (d : Directive) (s : List Char) : List Char :=
  let fill := List.replicate (d.width - s.length) ' '
  if d.left then s ++ fill else fill ++ s

/-- The sign of a number and its digits, filled up to the width; zeros stand between the two. -/
def padNumber (d : Directive) (zeros : Bool) (sign digits : List Char) : List Char :=
  if zeros && !d.left then
    sign ++ List.replicate (d.width - sign.length - digits.length) '0' ++ digits
  else d.pad (sign ++ digits)

def signOf (d : Directive) (negative : Bool) : List Char :=
  if negative then ['-'] else if d.plus then ['+'] else if d.space then [' '] else []

/-- An integer in decimal or, without its sign, as the bits of an octal or hexadecimal number. -/
def integer (d : Directive) (n : Int64) : List Char :=
  let bits := n.toUInt64.toNat
  let upper := fun cs : List Char => if d.conversion == 'X' then cs.map Char.toUpper else cs
  let (sign, mark, digits) : List Char × List Char × List Char :=
    if d.conversion == 'x' || d.conversion == 'X' then
      ([], if d.alternate && bits != 0 then upper ['0', 'x'] else [], upper (Nat.toDigits 16 bits))
    else if d.conversion == 'o' then
      ([], if d.alternate && bits != 0 then ['0'] else [], Nat.toDigits 8 bits)
    else if d.conversion == 'u' then ([], [], Nat.toDigits 10 bits)
    else (d.signOf (n < 0), [], Nat.toDigits 10 n.toInt.natAbs)
  let digits := match d.precision with
    | some 0 => if bits == 0 then [] else digits
    | some p => List.replicate (p - digits.length) '0' ++ digits
    | none => digits
  d.padNumber (d.zero && d.precision.isNone) (sign ++ mark) digits

/-- A hexadecimal fraction: one digit, the digits after the point, and an exponent of two. -/
def hexDigitsOf (mantissa : Nat) (exponent : Int) (precision : Option Nat) : List Char :=
  -- Shift so that the first digit is the bit before the point and thirteen digits follow it.
  let shift := 52 - Nat.log2 mantissa
  let m := mantissa <<< shift
  let e := exponent - shift + 52
  let (m, places) := match precision with
    | some p => if p < 13 then (Decimal.roundDiv m (Nat.pow 16 (13 - p)), p) else (m * Nat.pow 16 (p - 13), p)
    | none => (m, 13)
  let digits := Text.hexDigits (places + 1) m
  let after := digits.drop 1
  let after := if precision.isNone then (after.reverse.dropWhile (· == '0')).reverse else after
  digits.take 1 ++ (if after.isEmpty then [] else '.' :: after) ++
    'p' :: (if e < 0 then '-' else '+') :: Nat.toDigits 10 e.natAbs

/-- A floating-point number in hexadecimal. -/
def hexFloat (d : Directive) (x : Double) : List Char :=
  match Decimal.Parts.ofBits x.bits with
  | .finite _ m e _ _ => '0' :: 'x' :: hexDigitsOf m e d.precision
  | _ =>
    let zeros := List.replicate (d.precision.getD 0) '0'
    "0x0".toList ++ (if zeros.isEmpty then [] else '.' :: zeros) ++ "p+0".toList

/-- The magnitude of a finite number in the form of a conversion. -/
def magnitude (d : Directive) (x : Double) : List Char :=
  let p := d.precision.getD 6
  let kind := d.conversion.toLower
  if kind == 'a' then d.hexFloat x
  else
    match Decimal.Parts.ofBits x.bits with
    | .finite _ m e _ _ =>
      let f := Decimal.Fraction.scale2 m e
      (if kind == 'f' then Decimal.fixed f p
        else if kind == 'e' then Decimal.scientific f p
        else Decimal.general f p d.alternate).toList
    | _ =>
      if kind == 'f' then (Decimal.pointAt p 0).toList
      else if kind == 'e' then (Decimal.pointAt p 0).toList ++ "e+00".toList
      else (Decimal.zeroGeneral p d.alternate).toList

def float (d : Directive) (x : Double) : List Char :=
  let negative := x.bits ≥ 0x8000000000000000
  let (zeros, body) := match Decimal.Parts.ofBits x.bits with
    | .nan => (false, "nan".toList)
    | .infinite _ => (false, "inf".toList)
    | _ => (d.zero, d.magnitude x)
  let body := if d.conversion.isUpper then body.map Char.toUpper else body
  let mark := if d.conversion.toLower == 'a' && zeros then body.take 2 else []
  d.padNumber zeros (d.signOf negative ++ mark) (body.drop mark.length)

end Directive

end ScriptHost.Lua
