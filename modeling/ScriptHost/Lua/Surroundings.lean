import ScriptHost.Lua.Value

/-! What a machine meets outside of its program. Nothing is known of it in advance: clocks show what they show,
nobody foresees a seed, objects lie where the process has room for them, and the collector comes when it comes. So
all this is given from outside, and what is proved about machines holds whatever it is. -/

namespace ScriptHost.Lua

/-- What a machine meets at some moment. -/
structure Moment where
  /-- The clock of the host, in nanoseconds. -/
  instant : Nat
  /-- The processor time that the process has taken, in seconds. -/
  processor : Double
  /-- The seconds since the beginning of 1970. -/
  seconds : Int64
  /-- A number to begin random numbers with. -/
  seed : UInt64
  /-- A table that the collector finds dead. -/
  dead : Option Nat

structure Surroundings where
  /-- What a machine meets once it has done so much work. -/
  moment : Nat → Moment
  /-- The address of an object in the memory of the process. -/
  address : Val → Nat

namespace Surroundings

/-- Addresses that are different for different objects. -/
def spread : Val → Nat
  | .table a => 0x5500000000 + 64 * a
  | .function a => 0x5600000000 + 64 * a
  | .thread a => 0x5700000000 + 64 * a
  | .builtin f => 0x5800000000 + 64 * (hash f).toNat
  | _ => 0

/-- Surroundings in which only the clock of the host goes on, by so many nanoseconds for each piece of work. The
collector finds nothing. -/
def steady (pace : Nat) : Surroundings := ⟨fun work => ⟨work * pace, .zero, 0, 0, none⟩, spread⟩

instance : Inhabited Surroundings := ⟨steady 50⟩

end Surroundings

end ScriptHost.Lua
