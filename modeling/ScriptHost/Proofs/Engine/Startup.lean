import ScriptHost.Proofs.Engine.Lifespan

/-! An initialization that fails. It should leave an engine as it was, but the settings are taken over before
anything is checked, so an engine that runs goes on with the settings of the configuration that was refused.
Those are read by loads alone. -/

namespace ScriptHost

/-- Settings under which scripts are loaded in the same way. -/
structure EngineSettings.LoadAlike (s t : EngineSettings) : Prop where
  lease : s.lease = t.lease
  maxScripts : s.maxScripts = t.maxScripts
  memoryLimit : s.memoryLimit = t.memoryLimit
  maxSlice : s.maxSlice = t.maxSlice
  instructionInterval : s.instructionInterval = t.instructionInterval

theorem EngineSettings.LoadAlike.limits {s t : EngineSettings} (h : s.LoadAlike t) (around : Lua.Surroundings) :
    s.limits around = t.limits around := by
  unfold EngineSettings.limits
  rw [h.memoryLimit, h.maxSlice, h.instructionInterval]

namespace LuaEngine

variable {e : LuaEngine}

/-- An engine with other settings. -/
def retuned (e : LuaEngine) (settings : EngineSettings) : LuaEngine := { e with settings }

/-- Loads read the settings, and only when the engine is active. -/
theorem load_retuned {settings : EngineSettings} (h : e.active = none ∨ settings.LoadAlike e.settings)
    (item : ScriptItem) (now : Nat) (around : Lua.Surroundings) :
    (e.retuned settings).load item now around =
      ((e.load item now around).1, (e.load item now around).2.retuned settings) := by
  obtain ⟨state, own, backend, modules, active⟩ := e
  cases active with
  | none => rfl
  | some a =>
    have halike : settings.LoadAlike own := h.resolve_left nofun
    unfold retuned
    rw [load_eq, load_eq]
    dsimp only
    rw [halike.lease, halike.maxScripts, halike.limits around]
    cases a.compiler.compile ⟨item.script, item.name⟩ item.source with
    | error err => rfl
    | ok unit =>
      dsimp only
      split <;> rfl

theorem post_retuned (e : LuaEngine) (settings : EngineSettings) (script : ObjectId) (event : ScriptEvent)
    (now : Nat) : ((e.retuned settings).post script event now).1 = (e.post script event now).1 := by
  obtain ⟨state, own, backend, modules, active⟩ := e
  cases active with
  | none => rfl
  | some a =>
    unfold post retuned
    dsimp only
    cases a.worker? script <;> rfl

theorem remove_retuned (e : LuaEngine) (settings : EngineSettings) (script : ObjectId) :
    ((e.retuned settings).remove script).1 = (e.remove script).1 := by
  obtain ⟨state, own, backend, modules, active⟩ := e
  cases active with
  | none => rfl
  | some a =>
    unfold remove retuned
    dsimp only
    cases a.worker? script <;> rfl

theorem sweep_retuned (e : LuaEngine) (settings : EngineSettings) (now : Nat) :
    ((e.retuned settings).sweep now).1 = (e.sweep now).1 := by
  obtain ⟨state, own, backend, modules, active⟩ := e
  cases active <;> rfl

end LuaEngine

/-! ### Two runs -/

/-- What an operation answers. -/
inductive Reply
  | setUp (result : Except EngineError Unit)
  | loaded (result : Except ScriptError CompiledUnit)
  | posted (result : Except ScriptError Unit)
  | removed (found : Bool)
  | swept (expired : Nat)
  | nothing

namespace Session

variable {κ : Type} [ConfigSource κ] {s : Session} {settings : EngineSettings}

def reply (s : Session) : Operation κ → Reply
  | .setUp region config => .setUp (s.engine.setUp region config).1
  | .load item now around => .loaded (s.engine.load item now around).1
  | .post script event now => .posted (s.engine.post script event now).1
  | .remove script => .removed (s.engine.remove script).1
  | .sweep now => .swept (s.engine.sweep now).1
  | .complete | .close | .work .. | .settle .. | .workRetired .. | .directory .. => .nothing

def replies (s : Session) : List (Operation κ) → List Reply
  | [] => []
  | op :: ops => s.reply op :: (s.step op).replies ops

def retuned (s : Session) (settings : EngineSettings) : Session :=
  { s with engine := s.engine.retuned settings }

/-- An engine that is brought up anew forgets its settings. -/
theorem step_setUp_retuned (s : Session) (settings : EngineSettings) (region : Region) (config : κ) :
    (s.retuned settings).step (.setUp region config) = s.step (.setUp region config) ∧
      (s.retuned settings).reply (.setUp region config) = s.reply (.setUp region config) := ⟨rfl, rfl⟩

theorem step_retuned (op : Operation κ) (hsetUp : ∀ region config, op ≠ .setUp region config)
    (hload : (∃ item now around, op = .load item now around) →
      s.engine.active = none ∨ settings.LoadAlike s.engine.settings) :
    (s.retuned settings).step op = (s.step op).retuned settings ∧
      (s.retuned settings).reply op = s.reply op := by
  cases op with
  | setUp region config => exact absurd rfl (hsetUp region config)
  | complete =>
    refine ⟨?_, rfl⟩
    obtain ⟨⟨state, own, backend, modules, active⟩, left, issued⟩ := s
    unfold step retuned LuaEngine.complete LuaEngine.retuned
    dsimp only
    split <;> rfl
  | load item now around =>
    have halike := hload ⟨item, now, around, rfl⟩
    have hsame : (s.retuned settings).engine.load item now around =
        ((s.engine.load item now around).1, (s.engine.load item now around).2.retuned settings) :=
      LuaEngine.load_retuned halike item now around
    have hresult := congrArg Prod.fst hsame
    refine ⟨?_, congrArg Reply.loaded hresult⟩
    rcases s.engine.load_cases item now around with ⟨err, hload⟩ | ⟨a, unit, context, limits, ha, -, hload⟩
    · simp only [step, hsame, hload]
      rfl
    · rw [ha] at halike
      have hlease := (halike.resolve_left (Option.some_ne_none a)).lease
      simp only [step, hsame, hload, LuaEngine.retuned, hlease]
      rfl
  | post script event now =>
    refine ⟨?_, congrArg Reply.posted (s.engine.post_retuned settings script event now)⟩
    simp only [step, retuned, LuaEngine.post_eq]
    rfl
  | remove script =>
    refine ⟨?_, congrArg Reply.removed (s.engine.remove_retuned settings script)⟩
    simp only [step, retuned, LuaEngine.remove_eq]
    rfl
  | sweep now =>
    refine ⟨?_, congrArg Reply.swept (s.engine.sweep_retuned settings now)⟩
    simp only [step, retuned, LuaEngine.sweep_eq]
    rfl
  | settle held now fuel =>
    refine ⟨?_, rfl⟩
    simp only [step, retuned, LuaEngine.settle_eq]
    rfl
  | workRetired i n now =>
    refine ⟨?_, rfl⟩
    obtain ⟨⟨state, own, backend, modules, active⟩, left, issued⟩ := s
    cases active <;> rfl
  | close | work | directory => exact ⟨rfl, rfl⟩

/-- An engine with other settings answers alike, as long as no script is loaded that they make a difference
to. It is the same engine once it is brought up anew. -/
theorem run_retuned (ops : List (Operation κ))
    (h : s.engine.active = none ∨ settings.LoadAlike s.engine.settings ∨
      ∀ item now around, .load item now around ∉ ops) :
    (s.retuned settings).replies ops = s.replies ops ∧
      ((s.retuned settings).run ops = s.run ops ∨
        (s.retuned settings).run ops = (s.run ops).retuned settings) := by
  induction ops generalizing s with
  | nil => exact ⟨rfl, .inr rfl⟩
  | cons op ops ih =>
    by_cases hop : ∃ region config, op = .setUp region config
    · obtain ⟨region, config, rfl⟩ := hop
      obtain ⟨hstep, hreply⟩ := s.step_setUp_retuned settings region config
      refine ⟨?_, .inl (congrArg (·.run ops) hstep)⟩
      rw [replies, hstep, hreply]
      rfl
    · have hsetUp : ∀ region config, op ≠ .setUp region config :=
        fun region config heq => hop ⟨region, config, heq⟩
      have hload : (∃ item now around, op = .load item now around) →
          s.engine.active = none ∨ settings.LoadAlike s.engine.settings := by
        rintro ⟨item, now, around, rfl⟩
        rcases h with hnone | halike | hnever
        · exact .inl hnone
        · exact .inr halike
        · exact absurd List.mem_cons_self (hnever item now around)
      obtain ⟨hstep, hreply⟩ := step_retuned op hsetUp hload
      have hlater : (s.step op).engine.active = none ∨ settings.LoadAlike (s.step op).engine.settings ∨
          ∀ item now around, .load item now around ∉ ops := by
        rw [s.settings_step op hsetUp]
        refine h.imp (active_step · op hsetUp) (Or.imp_right fun hnever item now around hmem => ?_)
        exact hnever item now around (List.mem_cons_of_mem _ hmem)
      obtain ⟨hreplies, hrun⟩ := ih hlater
      rw [← hstep] at hreplies hrun
      exact ⟨congrArg₂ List.cons hreply hreplies, hrun⟩

/-- An initialization that fails, for whatever reason, does nothing but take the settings over. So it leaves an
engine as it was just if the settings are those that the engine has; and all that is asked of the engine later
is answered as if it had not been tried, unless a script is loaded by an active engine under settings that
differ in what loads read. -/
theorem failed_setUp_harmless_iff (s : Session) (runtime : Except String Unit) (region : Region) (c : κ)
    (err : EngineError) (hfailed : (s.engine.setUpOn runtime region c).1 = .error err) :
    let t : Session := { s with engine := (s.engine.setUpOn runtime region c).2.2 }
    t = s.retuned (LuaEngine.settingsOf c) ∧
    (t = s ↔ LuaEngine.settingsOf c = s.engine.settings) ∧
    ∀ later : List (Operation κ),
      s.engine.active = none ∨ (LuaEngine.settingsOf c).LoadAlike s.engine.settings ∨
        (∀ item now around, .load item now around ∉ later) →
      t.replies later = s.replies later ∧
        (t.run later = s.run later ∨ t.run later = (s.run later).retuned (LuaEngine.settingsOf c)) := by
  intro t
  have hretuned : t = s.retuned (LuaEngine.settingsOf c) := by
    simp only [t, LuaEngine.setUpOn_down (.inr ⟨err, hfailed⟩)]
    rfl
  refine ⟨hretuned, ?_, ?_⟩
  · rw [hretuned]
    constructor
    · exact fun hsame => congrArg (·.engine.settings) hsame
    · intro hsettings
      rw [hsettings]
      rfl
  · intro later h
    rw [hretuned]
    exact run_retuned later h

/-- An engine that runs is brought up again in vain, under its own settings. -/
theorem failed_setUp_harmless_iff_same :
    let s := (start Compile.LuaBackend.backend []).step (.setUp default (Dict.empty : Sections))
    let again := s.engine.setUpOn (.ok ()) default (Dict.empty : Sections)
    again.1 = .error (.lifecycle ⟨.initialized, .initialized⟩) ∧ again.2.2 = s.engine := by
  intro s again
  have hfailed : again.1 = .error (.lifecycle ⟨.initialized, .initialized⟩) := by decide +kernel
  have hsettings : LuaEngine.settingsOf (Dict.empty : Sections) = s.engine.settings := by decide +kernel
  obtain ⟨-, hsame, -⟩ := failed_setUp_harmless_iff s (.ok ()) default (Dict.empty : Sections) _ hfailed
  exact ⟨hfailed, congrArg Session.engine (hsame.2 hsettings)⟩

/-- Brought up again in vain with room for one script, an engine that has one refuses the next. -/
theorem failed_setUp_limits_loads :
    let config : Sections := Dict.empty.insert EngineSettings.sectionName (Dict.ofList [("max_scripts", "1")])
    let door : ScriptItem := default
    let lamp : ScriptItem := { door with script := ⟨1⟩ }
    let s := (start Compile.LuaBackend.backend []).run
      [.setUp default (Dict.empty : Sections), .load door 0 default]
    let t := s.step (.setUp default config)
    (s.engine.setUp default config).1 = .error (.lifecycle ⟨.initialized, .initialized⟩) ∧
      s.engine.settings.maxScripts = 1024 ∧ t.engine.settings.maxScripts = 1 ∧
      (s.engine.load lamp 1 default).1.isOk = true ∧
      (t.engine.load lamp 1 default).1 = .error (.worker "script limit reached (1)") := by
  decide +kernel

end Session

end ScriptHost
