import ScriptHost.Capability
import ScriptHost.Host.Function

/-! The host functions that every engine offers: the caller's own keys, writing to the log, and
questions to the account service. -/

namespace ScriptHost.Modules

/-! ### Identity -/

/-- A function that answers a key of the calling script. -/
def ownKey (name : String) (key : ScriptContext → ObjectId) : HostFunction :=
  { name, capability := none, neutral := .string ""
    handler := fun call _ => pure (.string (toString (key call.context))) }

/-- The keys of the calling script. -/
def identity : HostModule :=
  ⟨"identity", [ownKey "script_key" (·.script), ownKey "object_key" (·.hostObject),
    ownKey "owner_key" (·.owner)]⟩

/-! ### Diagnostics -/

/-- How much of a message goes to the log. -/
def maxLogChars : Nat := 1024

/-- The arguments' texts with a space between them, cut to the greatest length. -/
def logText (args : List Value) : String :=
  String.ofList ((" ".intercalate (args.map Value.text)).toList.take maxLogChars)

/-- Writing to the host's log. -/
def diagnostics : HostModule :=
  ⟨"diagnostics", [
    { name := "log", capability := none, neutral := .nil
      handler := fun call args => do
        Serving.emit (.logged call.context.name (logText args))
        pure .nil }]⟩

/-! ### Directory -/

/-- Asks the region's account service for a user. The question is put only where there is somebody
to wait for the answer. -/
def lookup (call : Call) (user : ObjectId) : Serving (Option Account) :=
  match call.region.directory with
  | none => Serving.deny (.serviceUnavailable "region has no account service")
  | some directory => do
    if call.attached then Serving.emit (.asked call.region.scope user)
    let answer := match directory.lookup user with
      | .ok account => .ok account
      | .error e => .error e.message
    Serving.ofExcept (call.await ⟨directory.latency, answer⟩)

/-- The country of an account, for owners with privileges only. An unknown account has none. -/
def agentCountry : Handler := fun call args => do
  let agent ← Serving.ofExcept (keyArgument args 0)
  unless call.region.permissions.isPrivileged call.context.owner call.context.hostOwner do
    Serving.deny .permissionDenied
  let account ← lookup call agent
  pure (.string ((account.map (·.country)).getD ""))

/-- The name of an account. An unknown account has an empty one. -/
def agentName : Handler := fun call args => do
  let agent ← Serving.ofExcept (keyArgument args 0)
  let account ← lookup call agent
  pure (.string ((account.map (·.displayName)).getD ""))

def countryFunction : HostFunction :=
  { name := "agent_country", capability := some Capabilities.extendedCountryLookup
    neutral := .string "", handler := agentCountry }

def nameFunction : HostFunction :=
  { name := "agent_name", capability := some Capabilities.accountLookup
    neutral := .string "", handler := agentName }

/-- Questions about accounts. -/
def directory : HostModule := ⟨"directory", [countryFunction, nameFunction]⟩

/-- The modules of a standard surface, in order. -/
def standard : List HostModule := [identity, diagnostics, directory]

end ScriptHost.Modules
