import ScriptHost.Config.FileConfig
import ScriptHost.Config.Settings

/-! Problems of a configuration. None of them keeps a host from starting; they are reported together, in
the order engine, switches, capabilities. -/

namespace ScriptHost

inductive Severity
  /-- The setting cannot work. -/
  | error
  /-- The setting works, though perhaps not as expected. -/
  | warning
  deriving DecidableEq

inductive IssueCode
  | unknownEngine (name : String)
  | invalidValue (section_ key expected : String)
  | unknownCapability (name : String)
  deriving DecidableEq

structure ConfigIssue where
  severity : Severity
  code : IssueCode
  message : String
  deriving DecidableEq

namespace ConfigIssue

def badSwitch (section_ key : String) : ConfigIssue :=
  ⟨.error, .invalidValue section_ key "boolean",
    s!"[{section_}] {key}: expected a boolean (true/false)"⟩

def noEngine (name : String) (engines : List String) : ConfigIssue :=
  let known := ", ".intercalate engines
  ⟨.error, .unknownEngine name,
    s!"[{Startup.sectionName}] {Startup.engineKey}: no engine named '{name}' (available: {known})"⟩

def noCapability (section_ key name : String) : ConfigIssue :=
  ⟨.warning, .unknownCapability name, s!"[{section_}] {key}: unknown capability '{name}' has no effect"⟩

end ConfigIssue

namespace FileConfig

/-- The section of a name as texts. -/
def values (c : FileConfig) (name : String) : Section := (c.keyValues? name).getD Dict.empty

/-- Whether the engine is known and the master switch is one. -/
def startupIssues (c : FileConfig) (engines : List String) : List ConfigIssue :=
  match c.keyValues? Startup.sectionName with
  | none => []
  | some s =>
    let engine := s.string Startup.engineKey Startup.defaultEngine
    (if engines.contains engine then [] else [.noEngine engine engines]) ++
      (if s.isMalformedBool Startup.enabledKey then [.badSwitch Startup.sectionName Startup.enabledKey]
        else [])

/-- The key of the switch that a section may have for itself. -/
def switchKey : String := "enabled"

/-- Whether the switches of the sections are switches. -/
def switchIssues (c : FileConfig) : List ConfigIssue :=
  c.sections.entries.filterMap fun e =>
    if e.2.contains switchKey && (c.values e.1).isMalformedBool switchKey then
      some (.badSwitch e.1 switchKey)
    else none

/-- The key under which a section may have capabilities. -/
def capabilityKey : String := "capabilities"

/-- The capability switches: their section, their key in it and the name of the capability. -/
def capabilityEntries (c : FileConfig) : List (String × String × String) :=
  c.sections.entries.flatMap fun e =>
    let values := c.values e.1
    if Text.sameIgnoringCase e.1 EngineSettings.capabilitySection then
      values.keys.map fun key => (e.1, key, key)
    else if e.2.contains capabilityKey then
      (values.withLabel EngineSettings.capabilityLabel).map fun v =>
        (e.1, EngineSettings.capabilityLabel ++ v.1, v.1)
    else []

/-- Whether capability switches are switches of known capabilities. -/
def capabilityIssues (c : FileConfig) : List ConfigIssue :=
  c.capabilityEntries.flatMap fun (name, key, capability) =>
    (if (c.values name).isMalformedBool key then [.badSwitch name key] else []) ++
      (if Capabilities.isKnown capability then [] else [.noCapability name key capability])

/-- Everything that is wrong with a configuration for a host with some engines. -/
def validate (c : FileConfig) (engines : List String) : List ConfigIssue :=
  c.startupIssues engines ++ c.switchIssues ++ c.capabilityIssues

end FileConfig

end ScriptHost
