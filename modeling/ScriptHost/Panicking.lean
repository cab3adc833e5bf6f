/-! Work that may panic. A panic ends the work up to where it is caught; what was done before stays
done. -/

namespace ScriptHost

/-- Work on a state that may fail goes on from the state that it has come to. -/
theorem bind_apply {ε σ α β : Type} (x : ExceptT ε (StateM σ) α) (f : α → ExceptT ε (StateM σ) β)
    (s : σ) :
    (x >>= f) s =
      match x s with
      | (.ok a, s) => f a s
      | (.error e, s) => (.error e, s) := by
  show (match x s with | (r, s) => ExceptT.bindCont f r s) = _
  rcases x s with ⟨r, s⟩
  cases r <;> rfl

/-- Work on a state that comes to a value or to a panic, which may have a message. -/
abbrev Panicking (ω : Type) := ExceptT (Option String) (StateM ω)

namespace Panicking

variable {ω τ α β : Type}

/-- Catches a panic. -/
def caught (x : Panicking ω α) : Panicking ω (Except (Option String) α) := fun w =>
  let (r, w) := x w
  (.ok r, w)

/-- The work with a part of its state at hand. -/
def on (x : Panicking (τ × ω) α) (t : τ) : Panicking ω (α × τ) := fun w =>
  match x (t, w) with
  | (.ok a, t, w) => (.ok (a, t), w)
  | (.error message, _, w) => (.error message, w)

/-! ### Work that ends without a panic -/

/-- No panic gets out. -/
def Contained (x : Panicking ω α) : Prop := ∀ w, ∃ a v, x w = (.ok a, v)

theorem contained_pure (a : α) : (pure a : Panicking ω α).Contained := fun w => ⟨a, w, rfl⟩

theorem contained_caught (x : Panicking ω α) : x.caught.Contained := fun w => ⟨(x w).1, (x w).2, rfl⟩

theorem Contained.bind {x : Panicking ω α} {f : α → Panicking ω β} (hx : x.Contained)
    (hf : ∀ a, (f a).Contained) : (x >>= f).Contained := by
  intro w
  obtain ⟨a, v, ha⟩ := hx w
  obtain ⟨b, u, hb⟩ := hf a v
  exact ⟨b, u, by rw [bind_apply, ha]; exact hb⟩

theorem Contained.on {x : Panicking (τ × ω) α} (hx : x.Contained) (t : τ) : (x.on t).Contained := by
  intro w
  obtain ⟨a, ⟨s, v⟩, h⟩ := hx (t, w)
  exact ⟨(a, s), v, by rw [Panicking.on, h]⟩

/-- Work that comes to a value and a state of a kind. -/
def Ends (x : Panicking ω α) (w : ω) (P : α → ω → Prop) : Prop := ∃ a v, x w = (.ok a, v) ∧ P a v

theorem ends_pure {a : α} {w : ω} {P : α → ω → Prop} (h : P a w) : (pure a : Panicking ω α).Ends w P :=
  ⟨a, w, rfl, h⟩

theorem Ends.weaken {x : Panicking ω α} {w : ω} {P Q : α → ω → Prop} (hx : x.Ends w P)
    (hPQ : ∀ a v, P a v → Q a v) : x.Ends w Q := by
  obtain ⟨a, v, ha, hP⟩ := hx
  exact ⟨a, v, ha, hPQ a v hP⟩

theorem Ends.bind {x : Panicking ω α} {f : α → Panicking ω β} {w : ω} {P : α → ω → Prop}
    {Q : β → ω → Prop} (hx : x.Ends w P) (hf : ∀ a v, P a v → (f a).Ends v Q) : (x >>= f).Ends w Q := by
  obtain ⟨a, v, ha, hP⟩ := hx
  obtain ⟨b, u, hb, hQ⟩ := hf a v hP
  exact ⟨b, u, by rw [bind_apply, ha]; exact hb, hQ⟩

/-- What work comes to that no panic gets out of. -/
def result (x : Panicking ω α) (h : x.Contained) (w : ω) : α :=
  match hx : x w with
  | (.ok a, _) => a
  | (.error _, _) => absurd (h w) fun ⟨_, _, ha⟩ => by rw [hx] at ha; cases ha

theorem result_eq {x : Panicking ω α} {h : x.Contained} {w v : ω} {a : α} (ha : x w = (.ok a, v)) :
    x.result h w = a := by
  unfold result
  split
  · rename_i b _ hb
    rw [ha] at hb
    cases hb
    rfl
  · rename_i hb
    rw [ha] at hb
    cases hb

end Panicking

end ScriptHost
