import ScriptHost.Decimal.Shortest

/-! The values that pass between the host and its scripts: event arguments, arguments of host
functions and their results. -/

namespace ScriptHost

/-- A value that a script and its host can hand to each other. -/
inductive Value
  | nil
  | boolean (b : Bool)
  | integer (n : Int64)
  | float (x : Float)
  | string (s : String)
  deriving Inhabited

namespace Value

/-- The text of a string value. -/
def asString? : Value → Option String
  | string s => some s
  | _ => none

/-- The value as people read it: strings without quotes, numbers with the fewest digits that read
back. -/
def text : Value → String
  | nil => "nil"
  | boolean b => if b then "true" else "false"
  | integer n => toString n.toInt
  | float x => Decimal.text x
  | string s => s

instance : ToString Value := ⟨text⟩

end Value

end ScriptHost
