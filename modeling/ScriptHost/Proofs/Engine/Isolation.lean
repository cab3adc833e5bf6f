import ScriptHost.Proofs.Engine.Views

/-! Isolation of scripts. Whatever is done with other scripts, and however the workers take turns, a script
goes through its own course: its errands and its own turns depend on nothing but its worker and the terms of
the engine. So two runs with the same errands for a script cannot be told apart from what is known of it. -/

namespace ScriptHost

/-- What an operation asks of a script. -/
def Operation.errand? {κ : Type} (script : ObjectId) : Operation κ → Option Errand
  | .load item _ around => if item.script = script then some (.load item around) else none
  | .post target event _ => if target = script then some (.post event) else none
  | .remove target => if target = script then some .remove else none
  | _ => none

/-- Whether a load is refused for the number of scripts. -/
def LuaEngine.refuses (e : LuaEngine) (item : ScriptItem) (now : Nat) (around : Lua.Surroundings) : Bool :=
  match (e.load item now around).1 with
  | .error (.worker _) => true
  | _ => false

/-! ### Errands -/

section Errands

variable {e : LuaEngine} {a : ActiveEngine} {t : Terms} {script : ObjectId}

theorem LuaEngine.serve_post (ha : e.active = some a) (event : ScriptEvent) (now : Nat) :
    t.serve script (a.view script) (.post event) =
      ((a.post script event now).view script, .posted (e.post script event now).1) := by
  have hview := a.view_post script event now script
  rw [if_pos rfl] at hview
  rw [hview]
  unfold LuaEngine.post
  rw [ha]
  cases hw : a.worker? script with
  | none => simp [Terms.serve, ActiveEngine.view, hw]
  | some w => simp [Terms.serve, ActiveEngine.view, hw, Worker.post_anonymous]

theorem LuaEngine.serve_remove (ha : e.active = some a) :
    t.serve script (a.view script) .remove =
      ((a.vacate script).view script, .removed (e.remove script).1) := by
  have hview := a.view_vacate script script
  rw [if_pos rfl] at hview
  rw [hview]
  unfold LuaEngine.remove
  rw [ha]
  cases hw : a.worker? script <;> simp [Terms.serve, ActiveEngine.view, hw]

/-- A load by an active engine: the compiler rejects the source, or there are too many scripts, or the script
is started. -/
theorem LuaEngine.load_active_cases (ha : e.active = some a) (item : ScriptItem) (now : Nat)
    (around : Lua.Surroundings) :
    (∃ err, a.compiler.compile ⟨item.script, item.name⟩ item.source = .error err ∧
      e.load item now around = (.error (.compile err), e)) ∨
    (e.refuses item now around = true ∧ ∃ err, e.load item now around = (.error err, e)) ∨
    ∃ unit, a.compiler.compile ⟨item.script, item.name⟩ item.source = .ok unit ∧
      e.load item now around = (.ok unit, { e with
        active := some (a.start unit (ScriptContext.ofItem item name a.region.name) e.settings.lease
          (e.settings.limits around) now) }) := by
  unfold refuses
  rw [load_eq, ha]
  cases hcompile : a.compiler.compile ⟨item.script, item.name⟩ item.source with
  | error err => exact .inl ⟨err, rfl, by simp [hcompile]⟩
  | ok unit =>
    by_cases hfull : a.unfinished item.script ≥ e.settings.maxScripts
    · exact .inr (.inl (by simp [hcompile, hfull]))
    · exact .inr (.inr ⟨unit, rfl, by simp [hcompile, hfull]⟩)

end Errands

/-! ### Runs -/

theorem isResting_view (a : ActiveEngine) (script : ObjectId) :
    isResting (a.view script) = isResting (a.worker? script) := by
  unfold ActiveEngine.view
  cases a.worker? script <;> rfl

/-- What becomes known of a script by a turn of a worker. -/
def ActiveEngine.incidents (a : ActiveEngine) (script : ObjectId) (n now : Nat) :
    Option Worker → List Incident
  | some w => if w.context.script = script then w.incidents n a.surface now else []
  | none => []

namespace Session

variable {κ : Type} [ConfigSource κ]

def isAtRest (s : Session) (script : ObjectId) : Bool := isResting (s.engine.worker? script)

/-- Whether a script is at rest and its earlier workers have nothing left to do. -/
def isDrained (s : Session) (script : ObjectId) : Bool :=
  s.isAtRest script &&
    s.engine.active.all fun a => a.retired.all fun w => w.context.script != script || w.isSpent

/-- Whether an operation is one on scripts or a turn of a worker, and leaves a script the time to come to
rest before it is asked for something. No load of the script is refused for the number of scripts. -/
def admits (s : Session) (script : ObjectId) : Operation κ → Bool
  | .load item now around => item.script != script || s.isAtRest script && !s.engine.refuses item now around
  | .post target _ _ | .remove target => target != script || s.isAtRest script
  | .sweep _ | .work _ _ _ | .workRetired _ _ _ => true
  | _ => false

/-- Whether all operations are of that kind, and the script is at rest in the end. -/
def isPaced (script : ObjectId) : Session → List (Operation κ) → Bool
  | s, [] => s.isAtRest script
  | s, op :: ops => s.admits script op && (s.step op).isPaced script ops

/-- What becomes known of a script by such an operation. What the finalizers of its earlier workers call does not
count: those workers go on beside the present one, in any order, with handles that are void. -/
def incidents (s : Session) (script : ObjectId) : Operation κ → List Incident
  | .load item now around => if item.script = script then [.loaded (s.engine.load item now around).1] else []
  | .post target event now =>
    if target = script then [.posted (s.engine.post target event now).1] else []
  | .remove target => if target = script then [.removed (s.engine.remove target).1] else []
  | .work target n now =>
    match s.engine.active with
    | some a => a.incidents script n now (a.worker? target)
    | none => []
  | .workRetired i n now =>
    match s.engine.active with
    | some a => a.incidents script n now (a.retired[i]?.filter (!·.isClosing))
    | none => []
  | _ => []

/-- What becomes known of a script in a run. -/
def journal (script : ObjectId) : Session → List (Operation κ) → List Incident
  | _, [] => []
  | s, op :: ops => s.incidents script op ++ (s.step op).journal script ops

/-- A script runs on some terms, in an engine whose leases have no end. -/
structure Runs (s : Session) (t : Terms) (script : ObjectId) (a : ActiveEngine) : Prop where
  active : s.engine.active = some a
  terms : a.terms s.engine.settings = t
  spent : a.Spent script
  regular : s.Regular
  fit : s.Fit
  manual : ∀ i ∈ s.issued, i.lease.mode = .manual
  lease : t.settings.lease.mode = .manual

variable {s : Session} {t : Terms} {script : ObjectId} {a b : ActiveEngine} {op : Operation κ}

theorem Runs.step (h : s.Runs t script a) (op : Operation κ) (hactive : (s.step op).engine.active = some b)
    (hsettings : (s.step op).engine.settings = s.engine.settings)
    (hissued : ∀ i ∈ (s.step op).issued, i ∈ s.issued ∨ i.lease = s.engine.settings.lease)
    (hterms : ∀ settings, b.terms settings = a.terms settings) (hspent : b.Spent script) :
    (s.step op).Runs t script b := by
  refine ⟨hactive, ?_, hspent, h.regular.step op, h.fit.step op, fun i hi => ?_, h.lease⟩
  · rw [hsettings, hterms]
    exact h.terms
  · rcases hissued i hi with hi | hlease
    · exact h.manual i hi
    · have hmanual := h.lease
      rw [← h.terms] at hmanual
      rw [hlease]
      exact hmanual

/-- An operation that is one change of the active engine. -/
theorem Runs.map (h : s.Runs t script a) {f : ActiveEngine → ActiveEngine}
    (hstep : s.step op = { s with engine.active := s.engine.active.map f })
    (hterms : ∀ settings, (f a).terms settings = a.terms settings) (hspent : (f a).Spent script) :
    (s.step op).Runs t script (f a) := by
  refine h.step op ?_ ?_ ?_ hterms hspent
  · rw [hstep, h.active]
    rfl
  · rw [hstep]
  · rw [hstep]
    exact fun i hi => .inl hi

/-- An operation takes a script on in its course. -/
def Goes (s : Session) (t : Terms) (script : ObjectId) (a : ActiveEngine) (op : Operation κ) : Prop :=
  ∃ b, (s.step op).Runs t script b ∧ ∀ es is v, Course t script (b.view script) es is v →
    Course t script (a.view script) ((op.errand? script).toList ++ es) (s.incidents script op ++ is) v

theorem Runs.isResting (h : s.Runs t script a) (hrest : s.isAtRest script = true) :
    isResting (a.view script) = true := by
  rw [isResting_view]
  unfold isAtRest LuaEngine.worker? at hrest
  rw [h.active] at hrest
  exact hrest

/-- Another script's operation, or another worker's turn. -/
theorem goes_elsewhere (hruns : (s.step op).Runs t script b) (hview : b.view script = a.view script)
    (herrand : op.errand? script = none) (hincidents : s.incidents script op = []) :
    s.Goes t script a op := by
  refine ⟨b, hruns, fun es is v hv => ?_⟩
  rw [hview] at hv
  rw [herrand, hincidents]
  exact hv

/-- An operation on the script itself, which is at rest. -/
theorem Runs.goes_errand (h : s.Runs t script a) (hrest : s.isAtRest script = true)
    (hruns : (s.step op).Runs t script b) {e : Errand} {i : Incident} (herrand : op.errand? script = some e)
    (hserve : t.serve script (a.view script) e = (b.view script, i))
    (hincidents : s.incidents script op = [i]) : s.Goes t script a op := by
  refine ⟨b, hruns, fun es is v hv => ?_⟩
  have hcourse := Course.errand (e := e) (h.isResting hrest) (by rw [hserve]; exact hv)
  rw [hserve] at hcourse
  rw [herrand, hincidents]
  exact hcourse

/-- An operation that is meant for one script, whichever it is. -/
theorem Runs.goes_aimed (h : s.Runs t script a) (hruns : (s.step op).Runs t script b) {target : ObjectId}
    {e : Errand} {i : Incident} (hrest : target = script → s.isAtRest script = true)
    (herrand : op.errand? script = if target = script then some e else none)
    (hincidents : s.incidents script op = if target = script then [i] else [])
    (hserve : target = script → t.serve script (a.view script) e = (b.view script, i))
    (hview : target ≠ script → b.view script = a.view script) : s.Goes t script a op := by
  by_cases htarget : target = script
  · rw [if_pos htarget] at herrand hincidents
    exact h.goes_errand (hrest htarget) hruns herrand (hserve htarget) hincidents
  · rw [if_neg htarget] at herrand hincidents
    exact goes_elsewhere hruns (hview htarget) herrand hincidents

theorem Runs.goes_post (h : s.Runs t script a) (target : ObjectId) (event : ScriptEvent) (now : Nat)
    (hadmits : s.admits script (.post target event now : Operation κ) = true) :
    s.Goes t script a (.post target event now : Operation κ) := by
  have hstep : s.step (.post target event now : Operation κ) =
      { s with engine.active := s.engine.active.map (·.post target event now) } :=
    congrArg (fun engine => { s with engine }) (s.engine.post_eq target event now)
  have hruns := h.map hstep (fun _ => a.terms_post _ event) (h.spent.post event)
  have hrest (htarget : target = script) : s.isAtRest script = true := by
    simpa [admits, htarget] using hadmits
  refine h.goes_aimed hruns hrest rfl rfl (fun htarget => ?_) fun hother => ?_
  · subst htarget
    exact LuaEngine.serve_post h.active event now
  · exact (a.view_post target event now script).trans (if_neg hother)

theorem Runs.isSpent (h : s.Runs t script a) (hrest : s.isAtRest script = true) :
    ∀ w ∈ a.worker? script, w.isSpent = true := by
  intro w hw
  have hresting := h.isResting hrest
  rw [isResting_view, hw] at hresting
  exact Worker.isSpent_of_isAtRest hresting

theorem Runs.goes_remove (h : s.Runs t script a) (target : ObjectId)
    (hadmits : s.admits script (.remove target : Operation κ) = true) :
    s.Goes t script a (.remove target : Operation κ) := by
  have hrest (htarget : target = script) : s.isAtRest script = true := by
    simpa [admits, htarget] using hadmits
  have hstep : s.step (.remove target : Operation κ) =
      { s with engine.active := s.engine.active.map (·.vacate target) } :=
    congrArg (fun engine => { s with engine }) (s.engine.remove_eq target)
  have hspent : (a.vacate target).Spent script := h.spent.vacate fun htarget => by
    rw [htarget]
    exact h.isSpent (hrest htarget)
  have hruns := h.map hstep (fun _ => a.terms_vacate _) hspent
  refine h.goes_aimed hruns hrest rfl rfl (fun htarget => ?_) fun hother => ?_
  · subst htarget
    exact LuaEngine.serve_remove h.active
  · exact (a.view_vacate target script).trans (if_neg hother)

theorem Runs.goes_sweep (h : s.Runs t script a) (now : Nat) :
    s.Goes t script a (.sweep now : Operation κ) := by
  have hstep : s.step (.sweep now : Operation κ) =
      { s with engine.active := s.engine.active.map (·.sweep now) } :=
    congrArg (fun engine => { s with engine }) (s.engine.sweep_eq now)
  exact goes_elsewhere (h.map hstep (fun _ => rfl) h.spent) rfl rfl rfl

/-- The handle of a script in the table lasts. -/
theorem Runs.lasts (h : s.Runs t script a) {w : Worker} (hw : a.worker? script = some w) :
    a.surface.arena.Lasts w.handle w.context :=
  (h.regular a h.active).lasts h.manual w.holder
    (List.mem_map_of_mem (ActiveEngine.mem_of_worker? hw).1)

/-- The script's own worker makes strides, which do not depend on its handle. -/
theorem Runs.strides (h : s.Runs t script a) {w : Worker} (hw : a.worker? script = some w) (n now : Nat) :
    Worker.Strides t.surface w.anonymous (w.incidents n a.surface now)
      (w.turn n a.surface now).anonymous := by
  have hstrides := (Worker.turn_strides (h.lasts hw) n now).anonymous.without_arena
  rw [← h.terms]
  exact hstrides

theorem Runs.goes_work (h : s.Runs t script a) (target : ObjectId) (n now : Nat) :
    s.Goes t script a (.work target n now : Operation κ) := by
  have hstep : s.step (.work target n now : Operation κ) =
      { s with engine.active := s.engine.active.map (·.turnWorker target n now) } := rfl
  have hruns := h.map hstep (fun _ => a.terms_turnWorker _) h.spent.turnWorker
  have hview := a.view_turnWorker target n now script
  have hincidents : s.incidents script (.work target n now : Operation κ) =
      a.incidents script n now (a.worker? target) := by
    simp only [incidents, h.active]
  cases hw : a.worker? target with
  | none =>
    rw [hw] at hincidents
    refine goes_elsewhere hruns (hview.trans ?_) rfl hincidents
    by_cases htarget : target = script
    · subst htarget
      simp [ActiveEngine.view, hw]
    · simp [htarget]
  | some w =>
    obtain ⟨hmem, hscript⟩ := ActiveEngine.mem_of_worker? hw
    simp only [hw, ActiveEngine.incidents, hscript] at hincidents
    by_cases htarget : target = script
    · subst htarget
      rw [if_pos rfl] at hincidents hview
      rw [hw] at hview
      have hfit : w.Fit := (h.fit a h.active).scripts hmem
      refine ⟨_, hruns, fun es is v hv => ?_⟩
      rw [hview] at hv
      rw [hincidents, ActiveEngine.view, hw]
      exact Course.of_strides (h.strides hw n now) hfit hv
    · rw [if_neg htarget] at hincidents hview
      exact goes_elsewhere hruns hview rfl hincidents

/-- The earlier workers of the script are spent. -/
theorem Runs.goes_workRetired (h : s.Runs t script a) (i n now : Nat) :
    s.Goes t script a (.workRetired i n now : Operation κ) := by
  have hfit := h.fit a h.active
  have hstep : s.step (.workRetired i n now : Operation κ) =
      { s with engine.active := s.engine.active.map (·.turnRetired i n now) } := by
    simp [Session.step, h.active]
  have hruns := h.map hstep (fun _ => a.terms_turnRetired _ i) (h.spent.turnRetired hfit i)
  refine goes_elsewhere hruns (a.view_turnRetired i n now script) rfl ?_
  simp only [incidents, h.active]
  cases hw : a.retired[i]? with
  | none => rfl
  | some w =>
    have hmem := List.mem_of_getElem? hw
    cases hclosing : w.isClosing with
    | true =>
      rw [Option.filter_some, hclosing]
      rfl
    | false =>
      rw [Option.filter_some, hclosing]
      show (if w.context.script = script then _ else _) = _
      split
      · rename_i hscript
        exact (Worker.turn_of_isSpent (hfit.retired hmem) (h.spent w hmem hscript) n a.surface now).2 hclosing
      · rfl

theorem Runs.start (h : s.Runs t script a) {item : ScriptItem} {now : Nat} {around : Lua.Surroundings}
    {unit : CompiledUnit} {context : ScriptContext} {limits : WorkerLimits} (hcontext : context.script = item.script)
    (hload : s.engine.load item now around = (.ok unit, { s.engine with
      active := some (a.start unit context s.engine.settings.lease limits now) }))
    (hrest : item.script = script → s.isAtRest script = true) :
    (s.step (.load item now around : Operation κ)).Runs t script
      (a.start unit context s.engine.settings.lease limits now) := by
  have hspent : (a.vacate context.script).Spent script := h.spent.vacate fun hscript => by
    rw [hscript]
    exact h.isSpent (hrest (hcontext.symm.trans hscript))
  refine h.step (.load item now around) ?_ ?_ ?_ (fun _ => a.terms_start _ unit context _ limits) hspent
  · simp only [Session.step, hload]
  · simp only [Session.step, hload]
  · simp only [Session.step, hload]
    intro i hi
    rcases List.mem_append.1 hi with hi | hi
    · obtain ⟨w, -, rfl⟩ := List.mem_map.1 hi
      exact .inr rfl
    · exact .inl hi

theorem Runs.goes_load (h : s.Runs t script a) (item : ScriptItem) (now : Nat) (around : Lua.Surroundings)
    (hadmits : s.admits script (.load item now around : Operation κ) = true) :
    s.Goes t script a (.load item now around : Operation κ) := by
  have hown (htarget : item.script = script) :
      s.isAtRest script = true ∧ s.engine.refuses item now around = false := by
    simpa [admits, htarget] using hadmits
  rcases LuaEngine.load_active_cases h.active item now around with
    ⟨err, hcompile, hload⟩ | ⟨hrefuses, err, hload⟩ | ⟨unit, hcompile, hload⟩
  · have hruns := h
    rw [← step_load_error (κ := κ) hload] at hruns
    refine h.goes_aimed hruns (fun htarget => (hown htarget).1) rfl rfl (fun _ => ?_) fun _ => rfl
    rw [← h.terms]
    simp [Terms.serve, ActiveEngine.terms, hcompile, hload]
  · have hruns := h
    rw [← step_load_error (κ := κ) hload] at hruns
    have htarget : item.script ≠ script := by
      intro htarget
      rw [(hown htarget).2] at hrefuses
      cases hrefuses
    exact goes_elsewhere hruns rfl (if_neg htarget) (if_neg htarget)
  · have hruns := h.start (κ := κ) rfl hload fun htarget => (hown htarget).1
    have hview := a.view_start unit (.ofItem item LuaEngine.name a.region.name) s.engine.settings.lease
      (s.engine.settings.limits around) now script
    refine h.goes_aimed hruns (fun htarget => (hown htarget).1) rfl rfl (fun htarget => ?_) fun hother => ?_
    · rw [hview.trans (if_pos htarget), ← h.terms]
      simp [Terms.serve, ActiveEngine.terms, hcompile, hload]
      rfl
    · exact hview.trans (if_neg hother)

theorem Runs.goes (h : s.Runs t script a) (hadmits : s.admits script op = true) : s.Goes t script a op := by
  cases op with
  | load item now around => exact h.goes_load item now around hadmits
  | post target event now => exact h.goes_post target event now hadmits
  | remove target => exact h.goes_remove target hadmits
  | sweep now => exact h.goes_sweep now
  | work target n now => exact h.goes_work target n now
  | workRetired i n now => exact h.goes_workRetired i n now
  | setUp | complete | close | settle | directory => cases hadmits

/-- A run takes a script through the course of its errands. -/
theorem Runs.course (h : s.Runs t script a) {ops : List (Operation κ)}
    (hpaced : s.isPaced script ops = true) :
    Course t script (a.view script) (ops.filterMap (·.errand? script)) (s.journal script ops)
      (((s.run ops).engine.worker? script).map (·.anonymous)) := by
  -- Each step is told of the course of all that is left, so the engine after it is not fixed beforehand.
  induction ops generalizing s a with
  | nil =>
    have hworker : s.engine.worker? script = a.worker? script := by
      unfold LuaEngine.worker?
      rw [h.active]
      rfl
    show Course t script (a.view script) [] [] ((s.engine.worker? script).map _)
    rw [hworker]
    exact .rests (h.isResting hpaced)
  | cons op ops ih =>
    obtain ⟨hadmits, hlater⟩ := Bool.and_eq_true_iff.1 hpaced
    obtain ⟨b, hruns, hgoes⟩ := h.goes hadmits
    have hcourse := hgoes _ _ _ (ih hruns hlater)
    have herrands : (op :: ops).filterMap (·.errand? script) =
        (op.errand? script).toList ++ ops.filterMap (·.errand? script) := by
      rw [List.filterMap_cons]
      cases op.errand? script <;> rfl
    rw [herrands]
    exact hcourse

theorem runs_of_isDrained {backend : Compile.Backend} {modules : List HostModule}
    {before : List (Operation κ)} (hs : s = (start backend modules).run before)
    (ha : s.engine.active = some a) (hlease : s.engine.settings.lease.mode = .manual)
    (hmanual : ∀ i ∈ s.issued, i.lease.mode = .manual) (hdrained : s.isDrained script = true) :
    s.Runs (a.terms s.engine.settings) script a := by
  obtain ⟨hregular, hfit⟩ := regular_run backend modules before
  rw [← hs] at hregular hfit
  refine ⟨ha, rfl, fun w hw hscript => ?_, hregular, hfit, hmanual, hlease⟩
  have hspent := (Bool.and_eq_true_iff.1 hdrained).2
  rw [ha, Option.all_some, List.all_eq_true] at hspent
  simpa [hscript] using hspent w hw

/-- Scripts cannot affect one another. From any state of an engine whose leases have no end, in two runs
that ask the same of a script in the same order, each time once the script is at rest and in the same
surroundings, and that do anything with other scripts, the same becomes known of the script, and it is the
same in the end, except for the number of its handle. -/
theorem scripts_isolated {backend : Compile.Backend} {modules : List HostModule}
    {before : List (Operation κ)} (hs : s = (start backend modules).run before)
    (hactive : s.engine.active.isSome = true) (hlease : s.engine.settings.lease.mode = .manual)
    (hmanual : ∀ i ∈ s.issued, i.lease.mode = .manual) (hdrained : s.isDrained script = true)
    {xs ys : List (Operation κ)} (hxs : s.isPaced script xs = true) (hys : s.isPaced script ys = true)
    (hsame : xs.filterMap (·.errand? script) = ys.filterMap (·.errand? script)) :
    s.journal script xs = s.journal script ys ∧
    (s.run xs).engine.status? script = (s.run ys).engine.status? script ∧
    (s.run xs).engine.unit? script = (s.run ys).engine.unit? script ∧
    (s.run xs).engine.pending script = (s.run ys).engine.pending script ∧
    ((s.run xs).engine.worker? script).map (·.anonymous) =
      ((s.run ys).engine.worker? script).map (·.anonymous) := by
  obtain ⟨a, ha⟩ := Option.isSome_iff_exists.1 hactive
  have hruns := runs_of_isDrained hs ha hlease hmanual hdrained
  have hx := hruns.course hxs
  rw [hsame] at hx
  obtain ⟨hjournal, hworker⟩ := hx.unique (hruns.course hys)
  have hstatus := congrArg (Option.map (·.status)) hworker
  have hunit := congrArg (Option.map (·.unit)) hworker
  have hpending := congrArg (Option.map (·.pending.toNat)) hworker
  rw [Option.map_map, Option.map_map] at hstatus hunit hpending
  exact ⟨hjournal, hstatus, hunit, congrArg (·.getD 0) hpending, hworker⟩

/-- A script whose chunk takes too long, alone and beside a script that is started before it, started again
and removed. Its handle is another one there. -/
theorem scripts_isolated_overrun :
    let limits : Section :=
      Dict.ofList [("memory_limit_bytes", "0"), ("instruction_interval", "1"), ("max_slice_ms", "0")]
    let config : Sections := Dict.empty.insert EngineSettings.sectionName limits
    let door : ScriptItem := { (default : ScriptItem) with source := "while true do end" }
    let lamp : ScriptItem := { door with script := ⟨1⟩ }
    let work (item : ScriptItem) : Operation Sections := .work item.script 50 9
    let touch : Operation Sections := .post door.script ⟨"touch", []⟩ 9
    let s := (start Compile.LuaBackend.backend []).run [.setUp default config]
    let xs := [.load door 0 default, work door, work door, work door, work door, touch]
    let ys := [.load lamp 0 default, work lamp, .load door 0 default, work door, work lamp,
      .load lamp 5 default, work door,
      .workRetired 0 50 9, .sweep 7, work door, .remove lamp.script, work door, touch]
    s.isDrained door.script = true ∧ s.isPaced door.script xs = true ∧ s.isPaced door.script ys = true ∧
      ((s.run xs).engine.worker? door.script).map (·.handle) = some ⟨0, 0⟩ ∧
      ((s.run ys).engine.worker? door.script).map (·.handle) = some ⟨1, 0⟩ ∧
      (s.journal door.script xs).length = 3 ∧ s.journal door.script xs = s.journal door.script ys ∧
      (s.run ys).engine.status? door.script = some (.faulted "execution budget exceeded (0 ms)") := by
  intro limits config door lamp work touch s xs ys
  have hdrained : s.isDrained door.script = true := by decide +kernel
  have hxs : s.isPaced door.script xs = true := by decide +kernel
  have hys : s.isPaced door.script ys = true := by decide +kernel
  have hactive : s.engine.active.isSome = true := by decide +kernel
  have hlease : s.engine.settings.lease.mode = .manual := by decide +kernel
  have hmanual : ∀ i ∈ s.issued, i.lease.mode = .manual := by decide +kernel
  obtain ⟨hjournal, hstatus, -⟩ := scripts_isolated rfl hactive hlease hmanual hdrained hxs hys rfl
  refine ⟨hdrained, hxs, hys, by decide +kernel, by decide +kernel, by decide +kernel, hjournal, ?_⟩
  rw [← hstatus]
  decide +kernel

end Session

end ScriptHost
