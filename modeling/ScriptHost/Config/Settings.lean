import ScriptHost.Capability
import ScriptHost.Config.Section
import ScriptHost.Language
import ScriptHost.Lease

/-! The settings of the Lua engine: the limits of its scripts, the leases of their handles and the
language of sources without a header, as its section of the configuration gives them. -/

namespace ScriptHost

/-- What the section of the engine sets. -/
structure EngineSettings where
  enabled : Bool
  /-- Bytes that a script may hold; 0 for no bound. -/
  memoryLimit : Nat
  /-- Instructions between two looks at the clock. -/
  instructionInterval : Nat
  /-- How long one run of a chunk or an event handler may take. -/
  maxSlice : Nat
  lease : LeasePolicy
  sweepInterval : Nat
  serviceTimeout : Nat
  defaultLanguage : Language
  /-- How many scripts may have a worker at once. -/
  maxScripts : Nat
  deriving DecidableEq, Inhabited

namespace EngineSettings

/-- The name of the section. -/
def sectionName : String := "LuaEngine"

/-- The name of the section with the capability switches of the whole region. -/
def capabilitySection : String := "Capabilities"

/-- What keys of capability switches start with. -/
def capabilityLabel : String := "capabilities."

def defaultMemoryLimit : Nat := 16 * 1024 * 1024

/-- The section that is written when the configuration has none. -/
def defaults : Section := Dict.ofList
  [("enabled", "true"), ("memory_limit_bytes", toString defaultMemoryLimit),
    ("instruction_interval", "1000"), ("max_slice_ms", "50"), ("lease_initial_ms", "0"),
    ("lease_renew_on_call", "false"), ("lease_sponsorship_ms", "120000"),
    ("lease_sweep_interval_ms", "1000"), ("service_timeout_ms", "2000"),
    ("default_language", "lua"), ("max_scripts", "1024")]

/-- The terms of leases: no expiry without an initial time. -/
def leaseOf (s : Section) : LeasePolicy :=
  let initial := s.nat "lease_initial_ms" 0
  let base := if initial = 0 then LeasePolicy.manual
    else LeasePolicy.timed initial (s.nat "lease_sponsorship_ms" 120000)
  { base with renewOnCall := s.bool "lease_renew_on_call" false }

/-- The language of a section; one that is not known counts as Lua. -/
def languageOf (s : Section) : Language :=
  match Language.parse (s.string "default_language" Language.lua.tag) with
  | .ok l => l
  | .error _ => .lua

/-- The settings that a section gives. Missing and malformed entries take their defaults. -/
def ofSection (s : Section) : EngineSettings where
  enabled := s.bool "enabled" true
  memoryLimit := s.nat "memory_limit_bytes" defaultMemoryLimit
  instructionInterval := max 1 (min (UInt32.size - 1) (s.nat "instruction_interval" 1000))
  maxSlice := s.nat "max_slice_ms" 50
  lease := leaseOf s
  sweepInterval := max 10 (s.nat "lease_sweep_interval_ms" 1000)
  serviceTimeout := s.nat "service_timeout_ms" 2000
  defaultLanguage := languageOf s
  maxScripts := max 1 (s.nat "max_scripts" 1024)

/-- Threads beyond the scripts in the table, for workers that are winding down. -/
def headroom : Nat := 16

/-- How many threads the pool of an engine has. -/
def poolSize (s : EngineSettings) : Nat := min (UInt64.size - 1) (s.maxScripts + headroom)

/-- The settings of a section without entries. -/
def default : EngineSettings := ofSection Dict.empty

/-- The capabilities of one engine: those of the whole region, and over them the switches in the
engine's own section. -/
def capabilities (engine : Section) (global : Option Section) : Capabilities :=
  let base := match global with
    | some g => g.keys.foldl (fun c key => c.set key (g.bool key false)) Capabilities.none
    | none => Capabilities.none
  (engine.withLabel capabilityLabel).foldl
    (fun c e => c.set e.1 (engine.bool (capabilityLabel ++ e.1) false)) base

end EngineSettings

end ScriptHost
