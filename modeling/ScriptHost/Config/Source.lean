import ScriptHost.Config.Section

/-! Where engines and regions read their settings: named sections, which an engine may also write, as
it does with its defaults. -/

namespace ScriptHost

/-- Types that hold sections by name. -/
class ConfigSource (κ : Type) where
  read? : κ → String → Option Section
  /-- Creates a section or replaces it. -/
  write : κ → String → Section → κ
  /-- The names of the sections, in order. -/
  sectionNames : κ → List String

/-- Sections in memory, each under exactly its name. -/
abbrev Sections := Dict Section

instance : ConfigSource Sections where
  read? := Dict.get?
  write := Dict.insert
  sectionNames := Dict.keys

end ScriptHost
