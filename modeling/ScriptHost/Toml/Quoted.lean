import ScriptHost.Text.Number
import ScriptHost.Text.Reader

/-! Quoted texts of TOML: in quotes with escapes or in apostrophes without, each on one line or, with the
mark three times, on several. -/

namespace ScriptHost.Toml

open Text (Reader)

def isBlank (c : Char) : Bool := c == ' ' || c == '\t'

/-- Characters that a quoted text may hold as they are, its own marks aside. -/
def isPlain (c : Char) : Bool := c == '\t' || (' ' ≤ c && c != '\x7f')

/-- The character that hexadecimal digits number. -/
def scalarOf? (digits : List Char) : Option Char := do
  let n ← Text.natOf? Text.hexDigit? 16 digits
  if n < 0xD800 || (0xDFFF < n && n < 0x110000) then some (Char.ofNat n) else none

/-- The characters that stand for others after a backslash. -/
def escapes : List (Char × Char) :=
  [('"', '"'), ('\\', '\\'), ('b', '\x08'), ('f', '\x0c'), ('n', '\n'), ('r', '\r'), ('t', '\t')]

/-- The character that an escape stands for, and what follows. -/
def escaped? : List Char → Option (Char × List Char)
  | 'u' :: rest => (scalarOf? (rest.take 4)).map (·, rest.drop 4)
  | 'U' :: rest => (scalarOf? (rest.take 8)).map (·, rest.drop 8)
  | c :: rest => (escapes.lookup c).map (·, rest)
  | [] => none

/-- One character of a text in quotes, or its end. -/
def quotedStep (text : List Char) : Reader (List Char ⊕ List Char) := do
  match ← get with
  | '"' :: rest => set rest; return .inr text.reverse
  | '\\' :: rest =>
    let c ← Reader.ofFunction fun _ => escaped? rest
    return .inl (c :: text)
  | c :: rest =>
    if isPlain c then
      set rest
      return .inl (c :: text)
    else failure
  | [] => failure

/-- A text in quotes. -/
def quoted : Reader String := do
  Reader.eat '"'
  return String.ofList (← Reader.loop quotedStep [])

/-- A text in apostrophes. -/
def literal : Reader String := do
  Reader.eat '\''
  let text ← Reader.takeWhile fun c => isPlain c && c != '\''
  Reader.eat '\''
  return String.ofList text

/-! ### Texts of several lines -/

/-- A line break at the front, which counts as one character. -/
def break? : List Char → Option (List Char)
  | '\n' :: rest => some rest
  | '\r' :: '\n' :: rest => some rest
  | _ => none

/-- The end of a text whose mark is there three times. Up to two marks right before the closing ones
belong to the text. -/
def closing? (mark : Char) (cs : List Char) : Option (List Char × List Char) :=
  let marks := (cs.takeWhile (· == mark)).length
  if marks < 3 then none
  else
    let inner := min (marks - 3) 2
    some (List.replicate inner mark, cs.drop (inner + 3))

/-- Skips blanks and line breaks. -/
def skipSpace : Reader Unit := Reader.loop (fun _ => do
  Reader.skipWhile isBlank
  match break? (← get) with
  | some rest => set rest; return .inl ()
  | none => return .inr ()) ()

/-- One character of a text of several lines, or its end. A backslash at the end of a line joins the line
to the next text. -/
def blockStep (mark : Char) (escapes : Bool) (text : List Char) : Reader (List Char ⊕ List Char) := do
  let cs ← get
  match closing? mark cs, break? cs, cs with
  | some (inner, rest), _, _ => set rest; return .inr (text.reverse ++ inner)
  | _, some rest, _ => set rest; return .inl ('\n' :: text)
  | _, _, c :: rest =>
    if c = '\\' && escapes then
      if (break? (rest.dropWhile isBlank)).isSome then
        set rest
        skipSpace
        return .inl text
      else
        let e ← Reader.ofFunction fun _ => escaped? rest
        return .inl (e :: text)
    else if isPlain c then
      set rest
      return .inl (c :: text)
    else failure
  | _, _, [] => failure

/-- A text after three marks. A line break right after them does not count. -/
def block (mark : Char) (escapes : Bool) : Reader String := do
  modify fun cs => (break? cs).getD cs
  return String.ofList (← Reader.loop (blockStep mark escapes) [])

/-- A quoted text of any kind. -/
def text : Reader String := do
  if ← Reader.tryEat "\"\"\"" then block '"' true
  else if ← Reader.tryEat "'''" then block '\'' false
  else if (← Reader.peek) == some '"' then quoted
  else literal

end ScriptHost.Toml
