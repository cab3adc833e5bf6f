import ScriptHost.Proofs.Engine.Course

/-! Views of an active engine. A script is seen without the number of its handle. No operation on another
script and no turn of another worker changes the view of a script, and none changes the terms on which the
engine runs its scripts. -/

namespace ScriptHost

/-- A turn leaves the surface as it is, but for the arena. -/
theorem Worker.stepOn_terms (w : Worker) (n : Nat) (s : Surface) (now : Nat) :
    { (w.stepOn n s now).2.1 with arena := .empty } = { s with arena := .empty } := by
  unfold stepOn
  split
  · rfl
  · split
    · rfl
    · rename_i name args _
      have hresolve : { (s.resolve w.handle name now).2 with arena := .empty } =
          { s with arena := .empty } := by
        unfold Surface.resolve
        split
        · rfl
        · split <;> rfl
      split <;> (rename_i hresult; rw [hresult] at hresolve; exact hresolve)

namespace ActiveEngine

variable {a : ActiveEngine} {w v : Worker} {script target : ObjectId} {n now : Nat}

def terms (a : ActiveEngine) (settings : EngineSettings) : Terms :=
  ⟨settings, a.region, a.compiler, { a.surface with arena := .empty }⟩

/-- A script as far as it does not depend on the number of its handle. -/
def view (a : ActiveEngine) (script : ObjectId) : Option Worker := (a.worker? script).map (·.anonymous)

/-- The earlier workers of a script do nothing any more. -/
def Spent (a : ActiveEngine) (script : ObjectId) : Prop :=
  ∀ w ∈ a.retired, w.context.script = script → w.isSpent = true

theorem worker?_setWorker (a : ActiveEngine) (v : Worker) (script : ObjectId) :
    (a.setWorker v).worker? script =
      if v.context.script = script then (a.worker? script).map fun _ => v else a.worker? script := by
  unfold setWorker worker?
  have hfind : ((·.context.script == script) ∘
      fun u : Worker => if u.context.script == v.context.script then v else u) =
        (·.context.script == script) := by
    funext u
    by_cases h : u.context.script = v.context.script <;> simp [h]
  rw [List.find?_map, hfind]
  cases hu : a.scripts.find? (·.context.script == script) with
  | none => simp
  | some u =>
    have hscript : u.context.script = script := by simpa using List.find?_some hu
    by_cases h : v.context.script = script
    · simp [h, hscript]
    · simp [h, hscript, Ne.symm h]

theorem worker?_vacate (a : ActiveEngine) (target script : ObjectId) :
    (a.vacate target).worker? script = if target = script then none else a.worker? script := by
  unfold vacate
  split
  · rename_i w hw
    obtain ⟨-, rfl⟩ := mem_of_worker? hw
    unfold retire others worker?
    rw [List.find?_filter]
    by_cases h : w.context.script = script
    · subst h
      simp
    · rw [if_neg h]
      congr 1
      funext u
      by_cases hu : u.context.script = script <;> simp [hu, Ne.symm h]
  · rename_i hnone
    split
    · rename_i h
      rw [← h]
      exact hnone
    · rfl

theorem worker?_start_eq (a : ActiveEngine) (unit : CompiledUnit) (context : ScriptContext)
    (lease : LeasePolicy) (limits : WorkerLimits) (now : Nat) (script : ObjectId) :
    (a.start unit context lease limits now).worker? script =
      if context.script = script then
        some (.spawn unit context (a.vacate context.script).surface.functionNames
          ((a.vacate context.script).surface.issue context lease now).1 limits)
      else a.worker? script := by
  have hvacate := a.worker?_vacate context.script script
  unfold worker? at hvacate ⊢
  by_cases h : context.script = script
  · rw [if_pos h]
    exact List.find?_cons_of_pos (by simpa [Worker.spawn] using h)
  · rw [if_neg h] at hvacate ⊢
    exact (List.find?_cons_of_neg (by simpa [Worker.spawn] using h)).trans hvacate

/-! ### Views -/

theorem view_setWorker (hw : a.worker? target = some w) (hv : v.context = w.context) (surface : Surface)
    (script : ObjectId) :
    ({ a with surface }.setWorker v).view script =
      if target = script then some v.anonymous else a.view script := by
  have htarget : v.context.script = target := by rw [hv, (mem_of_worker? hw).2]
  unfold view
  rw [worker?_setWorker, htarget]
  by_cases h : target = script
  · subst h
    rw [if_pos rfl, if_pos rfl, show ({ a with surface } : ActiveEngine).worker? target = some w from hw]
    rfl
  · rw [if_neg h, if_neg h]
    rfl

theorem view_post (a : ActiveEngine) (target : ObjectId) (event : ScriptEvent) (now : Nat)
    (script : ObjectId) :
    (a.post target event now).view script =
      if target = script then (a.view script).map fun w => (w.post event).2 else a.view script := by
  unfold post
  cases hw : a.worker? target with
  | none =>
    by_cases h : target = script
    · subst h
      simp [view, hw]
    · simp [h]
  | some w =>
    have hcontext : (w.post event).2.context = w.context := congrArg Prod.fst (w.holder_post event)
    refine (view_setWorker hw hcontext _ script).trans ?_
    by_cases h : target = script
    · subst h
      simp [view, hw, Worker.post_anonymous]
    · simp [h]

theorem view_turnWorker (a : ActiveEngine) (target : ObjectId) (n now : Nat) (script : ObjectId) :
    (a.turnWorker target n now).view script =
      if target = script then (a.worker? script).map fun w => (w.turn n a.surface now).anonymous
      else a.view script := by
  unfold turnWorker
  cases hw : a.worker? target with
  | none =>
    by_cases h : target = script
    · subst h
      simp [view, hw]
    · simp [h]
  | some w =>
    refine (view_setWorker hw (w.turn_same_script n a.surface now).2.1 _ script).trans ?_
    by_cases h : target = script
    · subst h
      simp [hw]
    · simp [h]

theorem view_vacate (a : ActiveEngine) (target script : ObjectId) :
    (a.vacate target).view script = if target = script then none else a.view script := by
  unfold view
  rw [worker?_vacate]
  split <;> rfl

theorem view_turnRetired (a : ActiveEngine) (i n now : Nat) (script : ObjectId) :
    (a.turnRetired i n now).view script = a.view script := by
  unfold turnRetired
  split <;> rfl

theorem functionNames_vacate (a : ActiveEngine) (target : ObjectId) :
    (a.vacate target).surface.functionNames = a.surface.functionNames := by
  unfold vacate
  split <;> rfl

theorem view_start (a : ActiveEngine) (unit : CompiledUnit) (context : ScriptContext)
    (lease : LeasePolicy) (limits : WorkerLimits) (now : Nat) (script : ObjectId) :
    (a.start unit context lease limits now).view script =
      if context.script = script then
        some (.spawn unit context a.surface.functionNames default limits)
      else a.view script := by
  unfold view
  rw [worker?_start_eq, functionNames_vacate]
  split <;> rfl

/-! ### Terms -/

variable (settings : EngineSettings)

theorem terms_post (event : ScriptEvent) : (a.post target event now).terms settings = a.terms settings := by
  unfold post
  split <;> rfl

theorem terms_vacate : (a.vacate target).terms settings = a.terms settings := by
  unfold vacate
  split <;> rfl

theorem terms_start (unit : CompiledUnit) (context : ScriptContext) (lease : LeasePolicy)
    (limits : WorkerLimits) : (a.start unit context lease limits now).terms settings = a.terms settings :=
  terms_vacate settings

theorem terms_turnWorker : (a.turnWorker target n now).terms settings = a.terms settings := by
  unfold turnWorker
  split
  · rfl
  · rename_i w _
    exact congrArg _ (w.stepOn_terms n a.surface now)

theorem terms_turnRetired (i : Nat) : (a.turnRetired i n now).terms settings = a.terms settings := by
  unfold turnRetired
  split
  · rfl
  · rename_i w _
    exact congrArg _ (w.stepOn_terms n a.surface now)

/-! ### Earlier workers -/

theorem Spent.vacate (h : a.Spent script)
    (hw : target = script → ∀ w ∈ a.worker? target, w.isSpent = true) : (a.vacate target).Spent script := by
  unfold ActiveEngine.vacate
  split
  · rename_i w hworker
    obtain ⟨-, rfl⟩ := mem_of_worker? hworker
    intro v hv hscript
    rcases List.mem_cons.1 hv with rfl | hv
    · exact hw hscript w hworker
    · exact h v (List.mem_of_mem_filter hv) hscript
  · exact h

theorem Spent.post (h : a.Spent script) (event : ScriptEvent) : (a.post target event now).Spent script := by
  unfold ActiveEngine.post
  split <;> exact h

theorem Spent.turnWorker (h : a.Spent script) : (a.turnWorker target n now).Spent script := by
  unfold ActiveEngine.turnWorker
  split <;> exact h

theorem Spent.turnRetired (h : a.Spent script) (hfit : a.Fit) (i : Nat) :
    (a.turnRetired i n now).Spent script := by
  unfold ActiveEngine.turnRetired
  split
  · exact h
  · rename_i w hw
    have hmem := List.mem_of_getElem? hw
    intro v hv hscript
    rcases List.mem_or_eq_of_mem_set hv with hv | rfl
    · exact h v hv hscript
    · rw [(w.turn_same_script n a.surface now).2.1] at hscript
      exact (Worker.turn_of_isSpent (hfit.retired hmem) (h w hmem hscript) n a.surface now).1

end ActiveEngine

end ScriptHost
