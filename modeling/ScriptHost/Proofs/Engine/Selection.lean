import ScriptHost.Engine.Loader

/-! Which engine is missed. A region that comes up asks its registry for one engine; it goes without, for
want of that engine, just if scripting is enabled and nothing is registered under the name. -/

namespace ScriptHost

variable {ω κ σ φ α : Type}

namespace Panicking

theorem Contained.ends {x : Panicking ω α} (h : x.Contained) (w : ω) : x.Ends w fun _ _ => True := by
  obtain ⟨a, v, ha⟩ := h w
  exact ⟨a, v, ha, trivial⟩

/-- What work ends with is settled where it is told in other terms. -/
theorem Ends.not_iff {x : Panicking ω α} {w : ω} {P : α → ω → Prop} {q : Prop}
    (h : x.Ends w fun a v => (P a v ↔ q)) : (x.Ends w fun a v => ¬ P a v) ↔ ¬ q := by
  obtain ⟨a, v, ha, hiff⟩ := h
  constructor
  · rintro ⟨b, u, hb, hnot⟩
    rw [ha] at hb
    cases hb
    rwa [hiff] at hnot
  · intro hnot
    exact ⟨a, v, ha, fun hP => hnot (hiff.1 hP)⟩

end Panicking

/-! ### What a report says -/

namespace RegistryError

theorem notFound_ne_creation (name other : String) (why : FactoryFailure) :
    (notFound name).message ≠ (creation other why).message := by
  have hmissed : (notFound name).message = "script engine not found: '" ++ (name ++ "'") :=
    String.append_assoc
  have hmade : (creation other why).message =
      "script engine '" ++ (other ++ ("' failed to start: " ++ why.message)) := by
    rw [← String.append_assoc, ← String.append_assoc]
    rfl
  rw [hmissed, hmade]
  intro h
  have hchars := congrArg (fun s => s.toList[14]?) h
  simp only [String.toList_append] at hchars
  rw [List.getElem?_append_left (by decide), List.getElem?_append_left (by decide)] at hchars
  exact absurd hchars (by decide)

end RegistryError

namespace HookReport

/-- The report says that an engine could not be made because nothing is registered under its name. -/
def MissesEngine (report : HookReport σ) : Prop :=
  ∃ record ∈ report.logs,
    record.message = "Could not create script engine; region continues without scripting" ∧
    ∃ name, ("error", (RegistryError.notFound name).message) ∈ record.fields

@[simp] theorem missesEngine_append (a b : HookReport σ) :
    (a.append b).MissesEngine ↔ a.MissesEngine ∨ b.MissesEngine := by
  simp [MissesEngine, append, or_and_right, exists_or]

theorem not_missesEngine_of_message {records : List LogRecord} {released : List σ}
    (h : ∀ record ∈ records,
      record.message ≠ "Could not create script engine; region continues without scripting") :
    ¬ (HookReport.mk records released).MissesEngine := by
  rintro ⟨record, hmem, hmessage, -⟩
  exact h record hmem hmessage

end HookReport

/-! ### Steps that look no engine up -/

namespace Loader

open HookReport (not_missesEngine_of_message missesEngine_append)

variable (port : EnginePort ω κ σ)

theorem release_misses (region : String) (e : σ) (w : ω) :
    (release port region e).Ends w fun a _ => ¬ a.2.MissesEngine := by
  refine (((contained_guarded _).on e).ends w).bind fun (r, e) v _ => ?_
  cases r with
  | ok => exact Panicking.ends_pure (not_missesEngine_of_message (by simp))
  | error fault => exact Panicking.ends_pure (not_missesEngine_of_message (by simp))

theorem onClosing_misses (l : Loader σ) (w : ω) :
    (l.onClosing port).Ends w fun a _ => ¬ a.2.MissesEngine := by
  unfold onClosing
  split
  · exact Panicking.ends_pure (not_missesEngine_of_message (by simp))
  · refine (release_misses port _ _ w).bind fun a v ha => Panicking.ends_pure ?_
    rw [missesEngine_append]
    rintro (h | h)
    · exact ha h
    · exact not_missesEngine_of_message (by simp) h

theorem attach_misses (region : Region) (name : String) (e : σ) (c : κ) (w : ω) :
    (attach port region name e c).Ends w fun a _ => ¬ a.2.2.MissesEngine := by
  refine (((contained_guarded _).on (e, c)).ends w).bind fun (r, e, c) v _ => ?_
  cases r with
  | ok =>
    refine Panicking.ends_pure (not_missesEngine_of_message ?_)
    split <;> simp
  | error fault =>
    refine (release_misses port _ _ v).bind fun a u ha => Panicking.ends_pure ?_
    rw [missesEngine_append]
    rintro (h | h)
    · exact not_missesEngine_of_message (by simp) h
    · exact ha h

/-! ### The engine that is looked up -/

variable [ConfigSource κ] (make : φ → Panicking ω (Except String σ)) (r : Registry φ)

/-- A factory that is found is not missed, whatever becomes of it. -/
theorem instantiate_of_found {name : String} {f : φ} (h : r.get? name = some f) (w : ω) :
    (r.instantiate make name).Ends w fun made _ =>
      ∀ e, made = .error e → ∃ why, e = .creation name why := by
  have hf : r.factory name = .ok f := by
    unfold Registry.factory
    rw [h]
  unfold Registry.instantiate
  rw [hf]
  refine ((Panicking.contained_caught (make f)).ends w).bind fun made v _ => ?_
  rcases made with message | why | e
  · refine Panicking.ends_pure fun e he => ⟨.panicked message, ?_⟩
    cases he
    rfl
  · refine Panicking.ends_pure fun e he => ⟨.refused why, ?_⟩
    cases he
    rfl
  · refine Panicking.ends_pure fun e he => ?_
    cases he

theorem start_misses (region : Region) (c : κ) (w : ω) :
    (start port (r.instantiate make) region c).Ends w fun a _ =>
      (a.2.2.MissesEngine ↔ (Startup.read c).enabled = true ∧ r.contains (Startup.read c).engine = false) := by
  unfold start
  dsimp only
  split
  · rename_i hdisabled
    refine Panicking.ends_pure (iff_of_false (not_missesEngine_of_message (by simp)) ?_)
    rintro ⟨henabled, -⟩
    simp [henabled] at hdisabled
  · rename_i henabled
    have henabled : (Startup.read c).enabled = true := by simpa using henabled
    unfold Dict.contains
    cases hget : r.get? (Startup.read c).engine with
    | none =>
      have hfactory : r.instantiate make (Startup.read c).engine =
          pure (.error (.notFound (Startup.read c).engine)) := by
        unfold Registry.instantiate Registry.factory
        rw [hget]
      rw [hfactory]
      refine Panicking.ends_pure (iff_of_true ⟨_, List.mem_singleton_self _, rfl, ?_⟩ ⟨henabled, rfl⟩)
      exact ⟨(Startup.read c).engine, by simp⟩
    | some f =>
      refine (instantiate_of_found make r hget w).bind fun made v hmade => ?_
      cases made with
      | error e =>
        obtain ⟨why, rfl⟩ := hmade e rfl
        refine Panicking.ends_pure (iff_of_false ?_ (by simp))
        rintro ⟨record, hmem, -, name, hname⟩
        cases List.mem_singleton.1 hmem
        simp [RegistryError.notFound_ne_creation] at hname
      | ok e =>
        refine (attach_misses port region _ e c v).weaken fun a u ha => ?_
        exact iff_of_false ha (by simp)

/-- A region that is created misses its engine just if it wants one and nothing is registered under the
name. -/
theorem onCreated_misses (l : Loader σ) (region : Region) (c : κ) (w : ω) :
    (l.onCreated port (r.instantiate make) region c).Ends w fun a _ =>
      (a.2.2.MissesEngine ↔ (Startup.read c).enabled = true ∧ r.contains (Startup.read c).engine = false) := by
  refine (onClosing_misses port l w).bind fun (_, closing) v hclosing => ?_
  refine (start_misses port make r region c v).bind fun (engine, c, starting) u hstarting => ?_
  refine Panicking.ends_pure ?_
  have hnotice : ¬ (if l.engine.isSome then
      .logging [⟨.warn, "Region created twice; closing previous script engine", [("region", region.name)]⟩]
    else .none : HookReport σ).MissesEngine := by
    split <;> exact not_missesEngine_of_message (by simp)
  rw [missesEngine_append, missesEngine_append]
  simpa [hnotice, hclosing] using hstarting

end Loader

end ScriptHost
