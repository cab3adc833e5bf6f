import ScriptHost.Config.Tree
import ScriptHost.Decimal.Reading
import ScriptHost.Text.Reader

/-! Values of TOML that are one word: truth values, whole numbers of 64 bits, decimals, dates and times. -/

namespace ScriptHost.Toml

open Text (Reader)

/-- The digits of a number without the underscores, each of which has to stand between two digits. -/
def digits? (digit : Char → Option Nat) : List Char → Option (List Char)
  | [] => none
  | [c] => (digit c).map fun _ => [c]
  | c :: '_' :: rest => (digit c).bind fun _ => (digits? digit rest).map (c :: ·)
  | c :: rest => (digit c).bind fun _ => (digits? digit rest).map (c :: ·)

/-- The digits of a whole number in base ten, which has no zeros in front. -/
def decimalDigits? (cs : List Char) : Option (List Char) := do
  let ds ← digits? Text.digit? cs
  if ds.length > 1 && ds.head? == some '0' then none else some ds

/-- The sign of a number and the rest of it. -/
def signed : List Char → List Char × List Char
  | '+' :: rest => ([], rest)
  | '-' :: rest => (['-'], rest)
  | cs => ([], cs)

/-- A whole number without a sign in another base. -/
def based? (digit : Char → Option Nat) (base : Nat) (cs : List Char) : Option Int64 := do
  let n ← Text.natOf? digit base (← digits? digit cs)
  if n < Nat.pow 2 63 then some (Int64.ofNat n) else none

def digitBelow? (base : Nat) (c : Char) : Option Nat := (Text.digit? c).filter (· < base)

def integer? : List Char → Option Int64
  | '0' :: 'x' :: rest => based? Text.hexDigit? 16 rest
  | '0' :: 'o' :: rest => based? (digitBelow? 8) 8 rest
  | '0' :: 'b' :: rest => based? (digitBelow? 2) 2 rest
  | cs => do
    let (sign, rest) := signed cs
    Text.int64? (String.ofList (sign ++ (← decimalDigits? rest)))

def isMantissa (c : Char) : Bool := c != 'e' && c != 'E'

/-- The exponent of a decimal with its letter, or nothing. -/
def exponent? : List Char → Option (List Char)
  | [] => some []
  | _ :: cs => do
    let (sign, rest) := signed cs
    return 'e' :: (sign ++ (← digits? Text.digit? rest))

/-- The fraction of a decimal with its point, or nothing. -/
def fraction? : List Char → Option (List Char)
  | [] => some []
  | _ :: cs => do return '.' :: (← digits? Text.digit? cs)

/-- A decimal has a fraction or an exponent, or is not finite. One that is written in digits must not be
too large. -/
def float? (cs : List Char) : Option Float := do
  let (sign, rest) := signed cs
  if rest = ['i', 'n', 'f'] || rest = ['n', 'a', 'n'] then
    Decimal.parse? (String.ofList (sign ++ rest))
  else
    let mantissa := rest.takeWhile isMantissa
    let whole ← decimalDigits? (mantissa.takeWhile (· != '.'))
    let fraction ← fraction? (mantissa.dropWhile (· != '.'))
    let exponent ← exponent? (rest.dropWhile isMantissa)
    if fraction.isEmpty && exponent.isEmpty then none
    else
      let x ← Decimal.parse? (String.ofList (sign ++ whole ++ fraction ++ exponent))
      if x == 1.0 / 0.0 then none else some x

/-! ### Dates and times -/

/-- A number of `width` digits between two bounds. -/
def number (width low high : Nat) : Reader (List Char) := do
  let ds := (← get).take width
  match Text.natOf? Text.digit? 10 ds with
  | some n =>
    if ds.length < width || n < low || high < n then failure
    modify (·.drop width)
    return ds
  | none => failure

/-- How many days a month has. -/
def daysIn (year month : Nat) : Nat :=
  if month = 2 then if year % 4 = 0 && (year % 100 != 0 || year % 400 = 0) then 29 else 28
  else if [4, 6, 9, 11].contains month then 30
  else 31

def amount (digits : List Char) : Nat := (Text.natOf? Text.digit? 10 digits).getD 0

def date : Reader (List Char) := do
  let year ← number 4 0 9999
  Reader.eat '-'
  let month ← number 2 1 12
  Reader.eat '-'
  let day ← number 2 1 (daysIn (amount year) (amount month))
  return year ++ '-' :: month ++ '-' :: day

/-- The fraction of a second: nanoseconds at most, and no zeros at the end. -/
def secondFraction : Reader (List Char) := do
  if ← Reader.tryEat "." then
    let ds ← Reader.takeWhile Char.isDigit
    if ds.isEmpty then failure
    let ds := ((ds.take 9).reverse.dropWhile (· == '0')).reverse
    return if ds.isEmpty then [] else '.' :: ds
  else return []

def time : Reader (List Char) := do
  let hour ← number 2 0 23
  Reader.eat ':'
  let minute ← number 2 0 59
  Reader.eat ':'
  let second ← number 2 0 60
  return hour ++ ':' :: minute ++ ':' :: second ++ (← secondFraction)

/-- How far a time is from that of the prime meridian, if this is told. -/
def offset : Reader (List Char) := do
  match ← get with
  | [] => return []
  | ['Z'] | ['z'] => set ([] : List Char); return ['Z']
  | sign :: rest =>
    if sign != '+' && sign != '-' then failure
    set rest
    let hour ← number 2 0 23
    Reader.eat ':'
    let minute ← number 2 0 59
    let sign := if amount hour = 0 && amount minute = 0 then '+' else sign
    return sign :: hour ++ ':' :: minute

/-- A date, or a date and a time. -/
def dateTime : Reader (List Char) := do
  let day ← date
  if (← get).isEmpty then return day
  if !(← Reader.tryEat "T") && !(← Reader.tryEat "t") then Reader.eat ' '
  let hour ← time
  return day ++ 'T' :: hour ++ (← offset)

/-- The text of a date, a time or both in its plain form. -/
def dateTime? (cs : List Char) : Option (List Char) :=
  (Reader.readAll? dateTime cs).or (Reader.readAll? time cs)

/-- The key under which a date stands in a table of its own. -/
def dateTimeKey : String := "$__toml_private_datetime"

/-- What a word stands for. -/
def ofWord? (cs : List Char) : Option RawTree :=
  match cs with
  | ['t', 'r', 'u', 'e'] => some (.leaf (some (.boolean true)))
  | ['f', 'a', 'l', 's', 'e'] => some (.leaf (some (.boolean false)))
  | _ =>
    match integer? cs, float? cs, dateTime? cs with
    | some n, _, _ => some (.leaf (some (.integer n)))
    | _, some x, _ => some (.leaf (some (.float x)))
    | _, _, some t => some (.table [(dateTimeKey, .leaf (some (.string (String.ofList t))))])
    | _, _, _ => none

end ScriptHost.Toml
