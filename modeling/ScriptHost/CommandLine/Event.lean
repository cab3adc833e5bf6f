import ScriptHost.Decimal.Reading
import ScriptHost.Text.Blank
import ScriptHost.Text.Lines
import ScriptHost.Value

/-! Events as they are written on the command line: a name, or a name and arguments after a colon,
with commas between the arguments. -/

namespace ScriptHost.CommandLine

/-- The value that an argument spells: a whole number, a decimal, a truth value, or the text itself. -/
def argumentValue (s : String) : Value :=
  match Text.int64? s with
  | some n => .integer n
  | none =>
    match Decimal.parse? s with
    | some x => .float x
    | none => if s == "true" then .boolean true else if s == "false" then .boolean false else .string s

/-- The name of an event and its arguments. Empty arguments are left out. -/
def parseEvent (s : String) : String × List Value :=
  let (name, rest) := Text.splitFirst ':' s
  let args := (Text.split ',' (rest.getD "")).filter (!·.isEmpty)
  (Text.trim name, args.map argumentValue)

end ScriptHost.CommandLine
