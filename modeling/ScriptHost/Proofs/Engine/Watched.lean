import ScriptHost.Proofs.Engine.Transcript

/-! Engines under watch. The world of a loader gets a transcript, engines get the numbers under which they
stand in it, and everything else is as it was: work in a watched world is the same work in the world
itself. -/

namespace ScriptHost

/-- A world, and what has passed in it. -/
structure Watched (ω : Type) where
  world : ω
  events : List EngineEvent
  /-- How many engines were made. -/
  made : Nat

variable {ω τ κ σ φ α β γ : Type}

namespace Watched

def fresh (w : ω) : Watched ω := ⟨w, [], 0⟩

/-- The world has become another one when something has passed. -/
def saw (w : Watched ω) (v : ω) (x : EngineEvent) : Watched ω := ⟨v, w.events ++ [x], w.made⟩

end Watched

/-- A call that is written down. -/
def watch (n : Nat) (call : EngineCall) (x : Panicking (τ × ω) (Except EngineError Unit)) :
    Panicking (τ × Watched ω) (Except EngineError Unit) := fun (t, w) =>
  let (r, t, v) := x (t, w.world)
  (r, t, w.saw v (.called n call (EngineFault.flatten r).isOk))

/-- Engines with numbers, whose calls are written down. -/
def EnginePort.watched (port : EnginePort ω κ σ) : EnginePort (Watched ω) κ (Nat × σ) where
  name e := port.name e.2
  state e := port.state e.2
  setUp region := fun (((n, e), c), w) =>
    let (r, (e, c), w) := watch n .setUp (port.setUp region) ((e, c), w)
    (r, ((n, e), c), w)
  complete := fun ((n, e), w) =>
    let (r, e, w) := watch n .complete port.complete (e, w)
    (r, (n, e), w)
  close := fun ((n, e), w) =>
    let (r, e, w) := watch n .close port.close (e, w)
    (r, (n, e), w)

section Calls

variable (port : EnginePort ω κ σ) (n : Nat) (e : σ) (w : Watched ω)

end Calls

/-! ### Work in a watched world -/

/-- Work in a watched world does what work in the world itself does. -/
def Erases (x : Panicking (Watched ω) α) (f : α → β) (y : Panicking ω β) : Prop :=
  ∀ w, y w.world = ((x w).1.map f, (x w).2.world)

theorem Erases.bind {x : Panicking (Watched ω) α} {y : Panicking ω β} {f : α → β} {δ : Type}
    {g : α → Panicking (Watched ω) γ} {h : β → Panicking ω δ} {f' : γ → δ} (hx : Erases x f y)
    (hg : ∀ a, Erases (g a) f' (h (f a))) : Erases (x >>= g) f' (y >>= h) := by
  intro w
  rw [bind_apply, bind_apply, hx w]
  rcases x w with ⟨r, v⟩
  cases r with
  | error message => rfl
  | ok a => exact hg a v

theorem Erases.caught {x : Panicking (Watched ω) α} {y : Panicking ω β} {f : α → β} (hx : Erases x f y) :
    Erases x.caught (·.map f) y.caught := by
  intro w
  rw [Panicking.caught, hx w]
  rfl

/-- The engine without its number. -/
def Loader.erase (l : Loader (Nat × σ)) : Loader σ := { l with engine := l.engine.map Prod.snd }

def HookReport.erase (report : HookReport (Nat × σ)) : HookReport σ :=
  { report with released := report.released.map Prod.snd }

namespace Loader

variable (port : EnginePort ω κ σ)

variable [ConfigSource κ] (make : φ → Panicking ω (Except String σ))

end Loader

end ScriptHost
