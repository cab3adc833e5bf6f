import ScriptHost.Text.Number

/-! Reading decimals: the number of 64 bits nearest to the decimal that a text spells. -/

namespace ScriptHost.Decimal

/-- A decimal as it is spelled: the digits before and after the point, and the exponent. -/
structure Spelling where
  negative : Bool
  whole : List Char
  fraction : List Char
  exponent : Int

/-- The number nearest to `mantissa * 10 ^ exponent`. Beyond the range of the format the exact power
of ten does not matter, so it is not formed. -/
def nearest (mantissa : Nat) (exponent : Int) : Float :=
  let size : Int := (toString mantissa).length
  if mantissa == 0 then 0
  else if size + exponent > 400 then 1.0 / 0.0
  else if size + exponent < -400 then 0
  else Float.ofScientific mantissa (exponent < 0) exponent.natAbs

def Spelling.value (s : Spelling) : Float :=
  let mantissa := (Text.natOf? Text.digit? 10 (s.whole ++ s.fraction)).getD 0
  let x := nearest mantissa (s.exponent - s.fraction.length)
  if s.negative then -x else x

/-- An optional sign and what follows it. -/
def sign : List Char → Bool × List Char
  | '-' :: rest => (true, rest)
  | '+' :: rest => (false, rest)
  | cs => (false, cs)

/-- An exponent: a letter e of either case, an optional sign and digits. No letter means exponent
zero, and anything left over is no exponent. -/
def exponent? : List Char → Option Int
  | [] => some 0
  | c :: rest =>
    if c == 'e' || c == 'E' then
      let (negative, digits) := sign rest
      (Text.natOf? Text.digit? 10 digits).map fun n => if negative then -(n : Int) else n
    else none

/-- A decimal with digits before the point, after it, or both. -/
def Spelling.ofChars? (cs : List Char) : Option Spelling :=
  let (negative, cs) := sign cs
  let whole := cs.takeWhile Char.isDigit
  let rest := cs.dropWhile Char.isDigit
  let (fraction, rest) := match rest with
    | '.' :: rest => (rest.takeWhile Char.isDigit, rest.dropWhile Char.isDigit)
    | _ => ([], rest)
  if whole.isEmpty && fraction.isEmpty then none
  else (exponent? rest).map fun e => ⟨negative, whole, fraction, e⟩

/-- The names of the values that have no decimal, in lower case. -/
def special? (name : String) : Option Float :=
  if name == "inf" || name == "infinity" then some (1.0 / 0.0)
  else if name == "nan" then some (0.0 / 0.0)
  else none

/-- The number that a text spells: a decimal with an optional sign and exponent, or the name of an
infinity or of no number, in either case. -/
def parse? (s : String) : Option Float :=
  match Spelling.ofChars? s.toList with
  | some spelling => some spelling.value
  | none =>
    let (negative, rest) := sign s.toList
    (special? (String.ofList rest).toLower).map fun x => if negative then -x else x

end ScriptHost.Decimal
