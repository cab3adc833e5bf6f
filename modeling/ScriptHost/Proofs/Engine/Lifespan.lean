import ScriptHost.Proofs.Engine.Standing

/-! The life of an engine in use. Its state and what it has while it is active are written one after the other,
on different ways through each operation, and yet they agree at all times: an engine has scripts just between
its initialization and its close, and once it is closed nothing comes of it any more. -/

namespace ScriptHost

namespace EngineState

theorem isActive_iff {s : EngineState} : s.isActive = true ↔ s = initialized ∨ s = postInitialized := by
  cases s <;> simp [isActive]

/-- From every state there is a way to the closed one, or it is that. -/
theorem eq_or_canMoveTo_closed (s : EngineState) : closed = s ∨ s.canMoveTo closed = true := by
  cases s <;> simp [canMoveTo]

end EngineState

/-! ### Operations on an engine that is not active -/

namespace LuaEngine

variable {κ : Type} [ConfigSource κ] {e : LuaEngine} {item : ScriptItem} {script : ObjectId} {now : Nat}

/-- An engine that is not brought up takes the settings over, and nothing else. -/
theorem setUp_down {region : Region} {c : κ}
    (h : (settingsOf c).enabled = false ∨ ∃ err, (e.setUp region c).1 = .error err) :
    (e.setUp region c).2.2 = { e with settings := settingsOf c } := by
  unfold setUp settingsOf at h ⊢
  generalize readSection c = read at h ⊢
  obtain ⟨own, c⟩ := read
  dsimp only at h ⊢
  split
  · rfl
  · rename_i henabled
    split
    · rfl
    · rename_i hmove
      rw [hmove] at h
      split
      · rfl
      · rename_i hbuild
        rw [hbuild] at h
        rcases h with hdisabled | ⟨err, herr⟩
        · simp [hdisabled] at henabled
        · simp [henabled] at herr

theorem setUpOn_down {runtime : Except String Unit} {region : Region} {c : κ}
    (h : (settingsOf c).enabled = false ∨ ∃ err, (e.setUpOn runtime region c).1 = .error err) :
    (e.setUpOn runtime region c).2.2 = { e with settings := settingsOf c } := by
  cases runtime with
  | ok => exact setUp_down h
  | error why =>
    unfold setUpOn at h ⊢
    dsimp only at h ⊢
    split
    · rfl
    · rename_i hdown
      rw [if_neg hdown] at h
      exact setUp_down h

theorem load_notActive_iff (hstage : e.active.isSome = e.state.isActive) (item : ScriptItem) (now : Nat)
    (around : Lua.Surroundings)
    (state : EngineState) :
    (e.load item now around).1 = .error (.notActive state) ↔ state = e.state ∧ e.state.isActive = false := by
  rw [load_eq]
  cases ha : e.active with
  | none =>
    rw [ha] at hstage
    simp [← hstage, eq_comm]
  | some a =>
    rw [ha] at hstage
    refine iff_of_false ?_ (by simp [← hstage])
    dsimp only
    split
    · simp
    · split <;> simp

theorem post_notActive_iff (hstage : e.active.isSome = e.state.isActive) (script : ObjectId)
    (event : ScriptEvent) (now : Nat) (state : EngineState) :
    (e.post script event now).1 = .error (.notActive state) ↔ state = e.state ∧ e.state.isActive = false := by
  unfold post
  cases ha : e.active with
  | none =>
    rw [ha] at hstage
    simp [← hstage, eq_comm]
  | some a =>
    rw [ha] at hstage
    refine iff_of_false ?_ (by simp [← hstage])
    dsimp only
    split
    · simp
    · rename_i w _
      dsimp only
      cases (w.post event).1 <;> simp [Except.mapError]

end LuaEngine

/-! ### Sessions -/

namespace Session

variable {κ : Type} [ConfigSource κ] {s t : Session} {revoked : Option ObjectId}

/-- An engine has its active part just while its state says so, and leaves no handles to its workers. -/
structure Coherent (s : Session) : Prop where
  stage : s.engine.active.isSome = s.engine.state.isActive
  left : ∀ a ∈ s.left, a.surface.arena = .empty

theorem coherent_start (backend : Compile.Backend) (modules : List HostModule) :
    (start backend modules).Coherent := ⟨rfl, nofun⟩

theorem Coherent.inactive (hs : s.Coherent) (h : s.engine.state.isActive = false) : s.engine.active = none := by
  have hstage := hs.stage
  rw [h, Option.isSome_eq_false_iff, Option.isNone_iff_eq_none] at hstage
  exact hstage

theorem Steps.coherent (h : s.Steps revoked t) (hs : s.Coherent) : t.Coherent := by
  have hstage := hs.stage
  cases h with
  | rests => exact ⟨hstage, hs.left⟩
  | rises => exact ⟨rfl, hs.left⟩
  | completes hstate =>
    rw [hstate] at hstage
    exact ⟨hstage, hs.left⟩
  | uses ha | vacates ha | starts _ _ _ _ ha =>
    rw [ha] at hstage
    exact ⟨hstage, hs.left⟩
  | closes =>
    refine ⟨rfl, ?_⟩
    intro a ha
    cases hactive : s.engine.active with
    | none =>
      rw [hactive] at ha
      exact hs.left a ha
    | some b =>
      rw [hactive] at ha
      obtain rfl := Option.some.inj ha
      rfl
  | works _ hleft huses =>
    refine ⟨hstage, ?_⟩
    intro c hc
    obtain rfl := Option.some.inj hc
    have harena := huses.arena
    rw [hs.left _ hleft] at harena
    exact harena.of_empty

/-- A step leaves the state as it is, or is one that the life of an engine allows. -/
theorem Steps.legal (h : s.Steps revoked t) :
    t.engine.state = s.engine.state ∨ s.engine.state.canMoveTo t.engine.state = true := by
  cases h with
  | rests | uses | vacates | starts | works => exact .inl rfl
  | rises hstate =>
    rw [hstate]
    exact .inr rfl
  | completes hstate =>
    rw [hstate]
    exact .inr rfl
  | closes => exact s.engine.state.eq_or_canMoveTo_closed

theorem Steps.closed (h : s.Steps revoked t) (hs : s.engine.state = .closed) : t.engine.state = .closed := by
  rcases h.legal with hsame | hmove
  · exact hsame.trans hs
  · rw [hs, EngineState.canMoveTo_closed_left] at hmove
    cases hmove

theorem Regular.steps (hs : s.Regular) (op : Operation κ) : s.Steps (s.revokes? op) (s.step op) :=
  step_steps (fun a ha => (hs a ha).once) op

theorem Coherent.run (hs : s.Coherent) (hregular : s.Regular) (ops : List (Operation κ)) :
    (s.run ops).Coherent := by
  induction ops generalizing s with
  | nil => exact hs
  | cons op ops ih => exact ih ((hregular.steps op).coherent hs) (hregular.step op)

theorem closed_run (hs : s.engine.state = .closed) (hregular : s.Regular) (ops : List (Operation κ)) :
    (s.run ops).engine.state = .closed := by
  induction ops generalizing s with
  | nil => exact hs
  | cons op ops ih => exact ih ((hregular.steps op).closed hs) (hregular.step op)

/-! ### Operations that bring no engine up -/

theorem settings_step (s : Session) (op : Operation κ) (hsetUp : ∀ region config, op ≠ .setUp region config) :
    (s.step op).engine.settings = s.engine.settings := by
  cases op with
  | setUp region config => exact absurd rfl (hsetUp region config)
  | complete =>
    unfold step LuaEngine.complete
    dsimp only
    split <;> rfl
  | load item now around =>
    rcases s.engine.load_cases item now around with ⟨err, hresult⟩ | ⟨a, unit, _, _, -, -, hresult⟩ <;>
      simp only [step, hresult]
  | post script event now => simp only [step, LuaEngine.post_eq]
  | remove script => simp only [step, LuaEngine.remove_eq]
  | sweep now => simp only [step, LuaEngine.sweep_eq]
  | settle held now fuel => simp only [step, LuaEngine.settle_eq]
  | workRetired i n now =>
    unfold step
    dsimp only
    split <;> rfl
  | close | work | directory => rfl

theorem active_step (hs : s.engine.active = none) (op : Operation κ)
    (hsetUp : ∀ region config, op ≠ .setUp region config) : (s.step op).engine.active = none := by
  cases op with
  | setUp region config => exact absurd rfl (hsetUp region config)
  | complete =>
    unfold step LuaEngine.complete
    dsimp only
    split <;> exact hs
  | load item now around => simp only [step, LuaEngine.load_eq, hs]
  | post script event now => simp only [step, LuaEngine.post, hs]
  | remove script => simp only [step, LuaEngine.remove, hs]
  | sweep now => simp only [step, LuaEngine.sweep, hs]
  | settle held now fuel => simp only [step, LuaEngine.settle, hs]
  | workRetired i n now => simp only [step, hs]
  | close => rfl
  | work | directory => exact congrArg (Option.map _) hs

/-! ### The life and the end of an engine -/

/-- What holds of an engine at any time of its life. -/
structure Lives (κ : Type) [ConfigSource κ] (s : Session) : Prop where
  active : s.engine.active.isSome = true ↔
    s.engine.state = .initialized ∨ s.engine.state = .postInitialized
  legal : ∀ op : Operation κ, (s.step op).engine.state ≠ s.engine.state →
    s.engine.state.canMoveTo (s.step op).engine.state = true
  closed : s.engine.state = .closed → ∀ ops : List (Operation κ), (s.run ops).engine.state = .closed
  load : ∀ item now around state, (s.engine.load item now around).1 = .error (.notActive state) ↔
    state = s.engine.state ∧ s.engine.state.isActive = false
  post : ∀ script event now state, (s.engine.post script event now).1 = .error (.notActive state) ↔
    state = s.engine.state ∧ s.engine.state.isActive = false
  compiles : ∀ item now around,
    s.engine.load item now around = LuaEngine.loadWith (m := Id) Compile.Compiler.compile s.engine item now around
  /-- A load that is refused for the state never calls the compiler. -/
  quiet : s.engine.state.isActive = false → ∀ {m : Type → Type} [Monad m] compile item now around,
    LuaEngine.loadWith (m := m) compile s.engine item now around =
      pure (.error (.notActive s.engine.state), s.engine)
  down : ∀ runtime region (c : κ), s.engine.state.isActive = false →
    ((LuaEngine.settingsOf c).enabled = false ∨ ∃ err, (s.engine.setUpOn runtime region c).1 = .error err) →
    let e := (s.engine.setUpOn runtime region c).2.2
    e.active = none ∧ e.state = s.engine.state

/-- The engine is closed, and nothing is left of what it had. -/
structure IsOver (κ : Type) [ConfigSource κ] (s : Session) : Prop where
  state : s.engine.state = .closed
  scripts : s.scripts = [] ∧ s.engine.running = []
  units : ∀ script, s.engine.unit? script = none ∧ s.engine.status? script = none ∧ s.engine.pending script = 0
  languages : s.engine.languages = []
  functions : s.engine.functionNames = []
  capabilities : s.engine.capabilities? = none
  handles : s.engine.liveHandles = 0 ∧ ∀ surface ∈ s.surface?, surface.arena.size = 0
  load : ∀ item now around, s.engine.load item now around = (.error (.notActive .closed), s.engine)
  post : ∀ script event now, s.engine.post script event now = (.error (.notActive .closed), s.engine)
  remove : ∀ script, s.engine.remove script = (false, s.engine)
  sweep : ∀ now, s.engine.sweep now = (0, s.engine)
  complete : (LuaEngine.kind κ).complete s.engine = (.ok (), s.engine)
  close : (LuaEngine.kind κ).close s.engine = (.ok (), s.engine) ∧ s.step (.close : Operation κ) = s

theorem Coherent.lives (hs : s.Coherent) (hregular : s.Regular) : s.Lives κ := by
  refine ⟨?_, ?_, ?_, ?_, ?_, fun _ _ _ => rfl, ?_, ?_⟩
  · rw [hs.stage, EngineState.isActive_iff]
  · intro op hchange
    exact (hregular.steps op).legal.resolve_left hchange
  · exact fun hclosed ops => closed_run hclosed hregular ops
  · exact LuaEngine.load_notActive_iff hs.stage
  · exact LuaEngine.post_notActive_iff hs.stage
  · intro hinactive m _ compile item now around
    unfold LuaEngine.loadWith
    rw [hs.inactive hinactive]
  · intro runtime region c hinactive hdown
    rw [LuaEngine.setUpOn_down hdown]
    exact ⟨hs.inactive hinactive, rfl⟩

theorem Coherent.isOver (hs : s.Coherent) (hclosed : s.engine.state = .closed) : s.IsOver κ := by
  obtain ⟨⟨state, settings, backend, modules, active⟩, left, issued⟩ := s
  obtain rfl : state = .closed := hclosed
  obtain rfl : active = none := hs.inactive rfl
  have hsurface : ∀ surface ∈ Option.map (·.surface) left, surface.arena.size = 0 := by
    intro surface hsurface
    obtain ⟨a, ha, rfl⟩ := Option.map_eq_some_iff.1 hsurface
    rw [hs.left a ha]
    rfl
  exact {
    state := rfl
    scripts := ⟨rfl, List.mergeSort_nil⟩
    units := fun _ => ⟨rfl, rfl, rfl⟩
    languages := rfl
    functions := rfl
    capabilities := rfl
    handles := ⟨rfl, hsurface⟩
    load := fun _ _ _ => rfl
    post := fun _ _ _ => rfl
    remove := fun _ => rfl
    sweep := fun _ => rfl
    complete := rfl
    close := ⟨rfl, rfl⟩ }

/-- An engine lives by its states: its active part is there just while they say so, whatever is asked of it in
whatever order, and no step between them is illegal. Once it is closed nothing is left of what it had, and
nothing that is asked of it later changes that. -/
theorem engine_lives_until_closed (backend : Compile.Backend) (modules : List HostModule)
    (ops : List (Operation κ)) :
    ((start backend modules).run ops).Lives κ ∧
      ∀ later : List (Operation κ),
        ((((start backend modules).run ops).step (.close : Operation κ)).run later).IsOver κ := by
  have hregular := (regular_run backend modules ops).1
  have hstart : (start backend modules).Regular := nofun
  have hcoherent := (coherent_start backend modules).run hstart ops
  generalize (start backend modules).run ops = s at hregular hcoherent
  refine ⟨hcoherent.lives hregular, fun later => ?_⟩
  have hclosing := hregular.step (.close : Operation κ)
  have hend := ((hregular.steps (.close : Operation κ)).coherent hcoherent).run hclosing later
  exact hend.isOver (closed_run rfl hclosing later)

end Session

end ScriptHost
