/-! Numbers written in a text: the digits they are made of, and the whole numbers of a given range
that a text of decimal digits spells. -/

namespace ScriptHost.Text

/-- The value of a decimal digit. -/
def digit? (c : Char) : Option Nat :=
  if c.isDigit then some (c.toNat - '0'.toNat) else none

/-- The value of a hexadecimal digit of either case. -/
def hexDigit? (c : Char) : Option Nat :=
  if c.isDigit then some (c.toNat - '0'.toNat)
  else if 'a' ≤ c && c ≤ 'f' then some (c.toNat - 'a'.toNat + 10)
  else if 'A' ≤ c && c ≤ 'F' then some (c.toNat - 'A'.toNat + 10)
  else none

/-- The number that digits of base `base` spell, most significant first; `none` if there is none
or a character is no digit. -/
def natOf? (digit : Char → Option Nat) (base : Nat) : List Char → Option Nat
  | [] => none
  | cs => cs.foldl (fun acc c => do return (← acc) * base + (← digit c)) (some 0)

/-- The number at most `bound` that the text spells: decimal digits after an optional plus sign. -/
def natUpTo? (bound : Nat) (s : String) : Option Nat :=
  let digits := match s.toList with
    | '+' :: rest => rest
    | cs => cs
  (natOf? digit? 10 digits).filter (· ≤ bound)

/-- A number of 64 bits without sign. -/
def word64? (s : String) : Option UInt64 := (natUpTo? (UInt64.size - 1) s).map UInt64.ofNat

/-- A number of 64 bits with sign: decimal digits after an optional sign. -/
def int64? (s : String) : Option Int64 :=
  match s.toList with
  | '-' :: rest => ((natOf? digit? 10 rest).filter (· ≤ Nat.pow 2 63)).map fun n => Int64.ofInt (-n)
  | _ => (natUpTo? (Nat.pow 2 63 - 1) s).map fun n => Int64.ofInt n

/-- The lower-case hexadecimal digit of a number below 16. -/
def hexChar (n : Nat) : Char := if n < 10 then Char.ofNat (48 + n) else Char.ofNat (87 + n)

/-- The last `width` lower-case hexadecimal digits of `n`. -/
def hexDigits : (width : Nat) → (n : Nat) → List Char
  | 0, _ => []
  | width + 1, n => hexDigits width (n / 16) ++ [hexChar (n % 16)]

end ScriptHost.Text
