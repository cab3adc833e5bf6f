import ScriptHost.Artifact
import ScriptHost.Text.Blank
import ScriptHost.Text.Digit
import ScriptHost.Text.Number

/-! Diagnostics of the back end: its messages begin with the name of the chunk and a line, from which
the error that the author sees gets its line and its text. -/

namespace ScriptHost.Compile.Diagnostic

/-- Digits between two colons at the start of a text, and what follows. -/
def lineMark? : List Char → Option (List Char × List Char)
  | ':' :: cs =>
    match cs.takeWhile Text.isAnyDigit, cs.dropWhile Text.isAnyDigit with
    | d :: ds, ':' :: rest => some (d :: ds, rest)
    | _, _ => none
  | _ => none

/-- The first place in a text where digits stand between two colons. -/
def findMark? : List Char → Option (List Char × List Char)
  | [] => none
  | c :: cs =>
    match lineMark? (c :: cs) with
    | some m => some m
    | none => findMark? cs

/-- Line numbers have 32 bits. -/
def maxLine : Nat := UInt32.size - 1

/-- The line that the first mark gives, and the message after it. -/
def split? (line : String) : Option (Nat × String) := do
  let (digits, rest) ← findMark? line.toList
  let n ← Text.natUpTo? maxLine (String.ofList digits)
  return (n, String.ofList (rest.dropWhile Text.isBlank))

/-- The error that a message of the back end reports. Only its first line counts. -/
def compileError (language : Language) (message : String) : CompileError :=
  let line := Text.firstLine message
  match split? line with
  | some (n, text) => ⟨language, .backend, some n, text⟩
  | none => ⟨language, .backend, none, line⟩

end ScriptHost.Compile.Diagnostic
