import ScriptHost.Config.Source

/-! Whether a region has scripting, and with which engine. -/

namespace ScriptHost

/-- What a configuration says about the startup of a region. -/
structure Startup where
  enabled : Bool
  engine : String
  deriving DecidableEq

namespace Startup

/-- The section that holds both. -/
def sectionName : String := "Startup"

def enabledKey : String := "scripting_enabled"

def engineKey : String := "script_engine"

def defaultEngine : String := "lua"

def ofSection (s : Section) : Startup := ⟨s.bool enabledKey true, s.string engineKey defaultEngine⟩

def read {κ : Type} [ConfigSource κ] (c : κ) : Startup :=
  ofSection ((ConfigSource.read? c sectionName).getD Dict.empty)

end Startup

end ScriptHost
