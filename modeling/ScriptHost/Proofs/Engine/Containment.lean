import ScriptHost.Proofs.Engine.Watched

/-! Hooks of a region in any order, with engines and factories that may fail and panic at each call. The
loader gets through all of them, its engines are treated by the protocol, and what is attached after a hook
depends on how the calls of that hook have ended. -/

namespace ScriptHost

variable {ω κ σ φ : Type}

namespace Loader

section Hooks

variable (port : EnginePort ω κ σ) [ConfigSource κ] (make : φ → Panicking ω (Except String σ))

end Hooks

/-! ### One hook under watch -/

/-- The number of the engine that is attached. -/
def attached (l : Loader (Nat × σ)) : Option Nat := l.engine.map Prod.fst

variable (port : EnginePort ω κ σ) {w : Watched ω}

variable [ConfigSource κ] {make : φ → Panicking ω (Except String σ)}

end Loader

namespace Loader

variable (port : EnginePort ω κ σ) [ConfigSource κ] (make : φ → Panicking ω (Except String σ))

end Loader

end ScriptHost
