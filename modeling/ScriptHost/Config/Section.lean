import ScriptHost.Dict
import ScriptHost.Text.Blank
import ScriptHost.Text.Leading
import ScriptHost.Text.Number

/-! Sections of a configuration: texts under keys, with readers that fall back to a default where an
entry is missing or malformed. -/

namespace ScriptHost

/-- The switch that a text spells, whatever the case of its letters and the blanks around it. -/
def switch? (s : String) : Option Bool :=
  let word := Text.lower (Text.trim s)
  if ["true", "1", "yes", "on"].contains word then some true
  else if ["false", "0", "no", "off"].contains word then some false
  else none

/-- A section: texts under keys. -/
abbrev Section := Dict String

namespace Section

def bool (s : Section) (key : String) (default : Bool) : Bool :=
  ((s.get? key).bind switch?).getD default

def string (s : Section) (key default : String) : String := (s.get? key).getD default

/-- A whole number of 64 bits without sign. -/
def nat (s : Section) (key : String) (default : Nat) : Nat :=
  ((s.get? key).bind fun v => Text.natUpTo? (UInt64.size - 1) (Text.trim v)).getD default

/-- Whether the entry is there but spells no switch. -/
def isMalformedBool (s : Section) (key : String) : Bool :=
  (s.get? key).any fun v => (switch? v).isNone

/-- The entries whose key starts with a label, without it. -/
def withLabel (s : Section) (label : String) : List (String × String) :=
  s.entries.filterMap fun e => (Text.restAfter? label e.1).map (·, e.2)

end Section

end ScriptHost
