import ScriptHost.ObjectId

/-! Scripts as they are handed to an engine, and the identity of a running one. -/

namespace ScriptHost

/-- A script to be loaded: whose it is, and its source. -/
structure ScriptItem where
  script : ObjectId
  name : String
  hostObject : ObjectId
  owner : ObjectId
  hostOwner : ObjectId
  source : String
  deriving DecidableEq, Inhabited

/-- The identity of a running script. Every call of a host function is made in the name of exactly
one context. -/
structure ScriptContext where
  script : ObjectId
  name : String
  hostObject : ObjectId
  owner : ObjectId
  /-- The owner of the host object, over whose objects privileges are asked. -/
  hostOwner : ObjectId
  engine : String
  region : String
  deriving DecidableEq, Inhabited

def ScriptContext.ofItem (item : ScriptItem) (engine region : String) : ScriptContext :=
  { script := item.script, name := item.name, hostObject := item.hostObject, owner := item.owner,
    hostOwner := item.hostOwner, engine, region }

end ScriptHost
