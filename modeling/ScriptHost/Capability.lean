import ScriptHost.Dict

/-! Capabilities: the switches that open privileged host functions to scripts. A switch that was
never set is off. -/

namespace ScriptHost

/-- Switches by name. -/
structure Capabilities where
  flags : Dict Bool
  deriving DecidableEq, Inhabited

namespace Capabilities

/-- Opens the look-up of another account's country. -/
def extendedCountryLookup : String := "extended-country-lookup"

/-- Opens the look-up of another account's name. -/
def accountLookup : String := "account-lookup"

/-- The capabilities that some host function asks for. -/
def known : List String := [extendedCountryLookup, accountLookup]

def isKnown (name : String) : Bool := known.contains name

/-- All switches off. -/
def none : Capabilities := ⟨Dict.empty⟩

def set (c : Capabilities) (name : String) (on : Bool) : Capabilities := ⟨c.flags.insert name on⟩

/-- The switches of a list, of which a later one replaces an earlier one of its name. -/
def ofList (switches : List (String × Bool)) : Capabilities := ⟨Dict.ofList switches⟩

def isEnabled (c : Capabilities) (name : String) : Bool := (c.flags.get? name).getD false

/-- The names of the switches that are on, in order. -/
def enabled (c : Capabilities) : List String :=
  (c.flags.entries.filter (·.2)).map (·.1)

def size (c : Capabilities) : Nat := c.flags.size

@[simp] theorem isEnabled_none (name : String) : none.isEnabled name = false := rfl

theorem isEnabled_set (c : Capabilities) (name other : String) (on : Bool) :
    (c.set name on).isEnabled other = if other = name then on else c.isEnabled other := by
  unfold isEnabled set
  rw [Dict.get?_insert]
  split <;> rfl

end Capabilities

end ScriptHost
