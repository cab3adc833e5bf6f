import Mathlib.Data.List.Perm.Subperm
import ScriptHost.Proofs.Engine.Activity
import ScriptHost.Proofs.Engine.Views

/-! Loading a script. A load compiles the source, looks whether there is room, takes the old instance of the
script out of the table and puts the new one in. Whatever keeps it from doing the last of these keeps it from
all: the engine stays as it was, or the script is replaced and nothing else. -/

namespace ScriptHost

def ActiveEngine.compile (a : ActiveEngine) (item : ScriptItem) : Except CompileError CompiledUnit :=
  a.compiler.compile ⟨item.script, item.name⟩ item.source

namespace LuaEngine

variable {e : LuaEngine} {a : ActiveEngine} {item : ScriptItem} {now : Nat} {around : Lua.Surroundings}

/-- Why a load is refused that would have one worker too many. -/
def limitError (e : LuaEngine) : ScriptError :=
  .worker s!"script limit reached ({e.settings.maxScripts})"

/-- What a load by an active engine comes to. -/
inductive Loads (e : LuaEngine) (a : ActiveEngine) (item : ScriptItem) (now : Nat) (around : Lua.Surroundings) :
    Except ScriptError CompiledUnit × LuaEngine → Prop
  | rejects {err : CompileError} : a.compile item = .error err →
      Loads e a item now around (.error (.compile err), e)
  | refuses {unit : CompiledUnit} : a.compile item = .ok unit →
      e.settings.maxScripts ≤ a.unfinished item.script → Loads e a item now around (.error e.limitError, e)
  | starts {unit : CompiledUnit} : a.compile item = .ok unit →
      a.unfinished item.script < e.settings.maxScripts →
      Loads e a item now around (.ok unit, { e with
        active := some (a.start unit (.ofItem item name a.region.name) e.settings.lease
          (e.settings.limits around) now) })

theorem load_loads (ha : e.active = some a) (item : ScriptItem) (now : Nat) (around : Lua.Surroundings) :
    e.Loads a item now around (e.load item now around) := by
  rw [load_eq, ha]
  dsimp only
  split
  · exact .rejects ‹_›
  · split
    · exact .refuses ‹_› ‹_›
    · rename_i hroom
      exact .starts ‹_› (Nat.lt_of_not_ge hroom)

namespace Loads

variable {p : Except ScriptError CompiledUnit × LuaEngine} {unit : CompiledUnit}

/-- A load that fails leaves the engine as it is. -/
theorem unchanged (h : e.Loads a item now around p) {err : ScriptError} (herr : p.1 = .error err) :
    p = (.error err, e) ∧ (err = e.limitError ∨ ∃ reason, err = .compile reason) := by
  cases h with
  | rejects =>
    obtain rfl := Except.error.inj herr
    exact ⟨rfl, .inr ⟨_, rfl⟩⟩
  | refuses =>
    obtain rfl := Except.error.inj herr
    exact ⟨rfl, .inl rfl⟩
  | starts => cases herr

theorem rejected_iff (h : e.Loads a item now around p) (err : CompileError) :
    p.1 = .error (.compile err) ↔ a.compile item = .error err := by
  cases h with
  | rejects hcompile => simp [hcompile]
  | refuses hcompile => simp [hcompile, limitError]
  | starts hcompile => simp [hcompile]

theorem refused_iff (h : e.Loads a item now around p) :
    p.1 = .error e.limitError ↔
      (∃ unit, a.compile item = .ok unit) ∧ e.settings.maxScripts ≤ a.unfinished item.script := by
  cases h with
  | rejects hcompile => simp [hcompile, limitError]
  | refuses hcompile hfull => simp [hcompile, hfull]
  | starts _ hfree => simp [Nat.not_le.2 hfree]

theorem accepted_iff (h : e.Loads a item now around p) :
    p.1 = .ok unit ↔ a.compile item = .ok unit ∧ a.unfinished item.script < e.settings.maxScripts := by
  cases h with
  | rejects hcompile => simp [hcompile]
  | refuses _ hfull => simp [Nat.not_lt.2 hfull]
  | starts hcompile hfree => simp [hcompile, hfree]

theorem started (h : e.Loads a item now around p) (hunit : p.1 = .ok unit) :
    p = (.ok unit, { e with
      active := some (a.start unit (.ofItem item name a.region.name) e.settings.lease
        (e.settings.limits around) now) }) := by
  cases h with
  | rejects | refuses => cases hunit
  | starts =>
    obtain rfl := Except.ok.inj hunit
    rfl

end Loads

end LuaEngine

/-! ### Room in the table -/

namespace ActiveEngine

variable {a : ActiveEngine} {l : Ledger} {w : Worker} {script : ObjectId}

theorem worker?_of_mem (once : (a.scripts.map (·.context.script)).Nodup) (hw : w ∈ a.scripts) :
    a.worker? w.context.script = some w := by
  cases hfound : a.worker? w.context.script with
  | none =>
    have habsent := List.find?_eq_none.1 hfound w hw
    simp at habsent
  | some v =>
    obtain ⟨hv, hscript⟩ := mem_of_worker? hfound
    rw [List.inj_on_of_nodup_map once hv hw hscript]

/-- The number of unfinished workers is the number of other scripts that have one. -/
theorem le_unfinished_iff (once : (a.scripts.map (·.context.script)).Nodup) (script : ObjectId) (n : Nat) :
    n ≤ a.unfinished script ↔ ∃ ids : List ObjectId, ids.Nodup ∧ n ≤ ids.length ∧
      ∀ id ∈ ids, id ≠ script ∧ ∃ w, a.worker? id = some w ∧ w.isFinished = false := by
  have hcount : a.unfinished script = ((a.others script).filter (!·.isFinished)).length :=
    List.countP_eq_length_filter
  have hmem (w : Worker) : w ∈ (a.others script).filter (!·.isFinished) ↔
      w ∈ a.scripts ∧ w.context.script ≠ script ∧ w.isFinished = false := by
    simp [others, and_comm (a := w.isFinished = false)]
  rw [hcount]
  constructor
  · intro hn
    refine ⟨((a.others script).filter (!·.isFinished)).map (·.context.script), ?_, by simpa using hn, ?_⟩
    · exact once.sublist ((List.filter_sublist.trans List.filter_sublist).map _)
    · intro id hid
      obtain ⟨w, hw, rfl⟩ := List.mem_map.1 hid
      obtain ⟨hw, hother, hrunning⟩ := (hmem w).1 hw
      exact ⟨hother, w, worker?_of_mem once hw, hrunning⟩
  · rintro ⟨ids, hnodup, hn, hids⟩
    have hsub : ids ⊆ ((a.others script).filter (!·.isFinished)).map (·.context.script) := by
      intro id hid
      obtain ⟨hother, w, hw, hrunning⟩ := hids id hid
      obtain ⟨hmember, rfl⟩ := mem_of_worker? hw
      exact List.mem_map_of_mem ((hmem w).2 ⟨hmember, hother, hrunning⟩)
    have hlength := (List.subperm_of_subset hnodup hsub).length_le
    rw [List.length_map] at hlength
    exact Nat.le_trans hn hlength

/-! ### Live handles -/

/-- A script without a worker has no live handle either. -/
theorem Accounts.state?_live_vacate (h : a.Accounts l) (script : ObjectId) {g : Handle} {x : Holding} :
    (a.vacate script).surface.arena.state? g = some (.live x) ↔
      a.surface.arena.state? g = some (.live x) ∧ x.context.script ≠ script := by
  unfold ActiveEngine.vacate
  split
  · rename_i w hw
    obtain ⟨-, rfl⟩ := mem_of_worker? hw
    exact Arena.state?_live_disposeOwner
  · rename_i hnone
    refine ⟨fun hx => ⟨hx, ?_⟩, And.left⟩
    rintro rfl
    obtain ⟨w, hw, -, hcontext, -⟩ := h.owner hx
    rw [← hcontext, worker?_of_mem h.once hw] at hnone
    cases hnone

/-- After a start the script has its new handle, and the other scripts have theirs. -/
theorem Accounts.state?_live_start (h : a.Accounts l) (unit : CompiledUnit) (context : ScriptContext)
    (lease : LeasePolicy) (limits : WorkerLimits) (now : Nat) {g : Handle} {x : Holding} :
    (a.start unit context lease limits now).surface.arena.state? g = some (.live x) ↔
      g = ((a.vacate context.script).surface.issue context lease now).1 ∧
          x = ⟨context, Lease.start lease now, none⟩ ∨
        a.surface.arena.state? g = some (.live x) ∧ x.context.script ≠ context.script := by
  obtain ⟨m, -, -, hvacated, -⟩ := h.vacate context.script
  rw [← h.state?_live_vacate context.script]
  exact hvacated.tracks.valid.state?_live_issue context lease now

end ActiveEngine

/-! ### Replacement -/

namespace Session

variable {κ : Type} [ConfigSource κ] {s : Session} {l : Ledger} {a : ActiveEngine}

/-- A script has got a new instance with a new handle, and nothing else has changed for those who use the
engine. -/
structure Replaces (s : Session) (script : ObjectId) (unit : CompiledUnit) (h : Handle) (t : Session) :
    Prop where
  unit : t.engine.unit? script = some unit
  worker : ∃ w, t.engine.worker? script = some w ∧ w.handle = h ∧ w.stage = .fresh ∧ w.status = .running
  /-- The script has this live handle and no other. -/
  handle : ∀ g, (∃ x, t.engine.arena.state? g = some (.live x) ∧ x.context.script = script) ↔ g = h
  fresh : ∀ i ∈ s.issued, i.handle ≠ h
  revoked : ∀ i ∈ s.issued, i.script = script → t.Rejects i.handle
  workers : ∀ other, other ≠ script → t.engine.worker? other = s.engine.worker? other
  handles : ∀ g x, x.context.script ≠ script →
    (t.engine.arena.state? g = some (.live x) ↔ s.engine.arena.state? g = some (.live x))
  terms : ∀ a b, s.engine.active = some a → t.engine.active = some b →
    b.terms t.engine.settings = a.terms s.engine.settings
  state : t.engine.state = s.engine.state

/-- A handle that is not live is accepted no more. -/
theorem rejects_of_state? {h : Handle} (ha : s.engine.active = some a)
    (hdead : ∀ x, a.surface.arena.state? h ≠ some (.live x)) : s.Rejects h := by
  intro surface hsurface
  rw [surface?, ha] at hsurface
  obtain rfl := Option.some.inj hsurface
  exact Surface.rejects_of_arena (Arena.rejects_of_state? hdead)

theorem Accounts.replaces (hs : s.Accounts l) (ha : s.engine.active = some a)
    (hfew : s.issued.length < UInt32.size) (unit : CompiledUnit) (context : ScriptContext)
    (limits : WorkerLimits) (now : Nat) :
    let lease := s.engine.settings.lease
    let h := ((a.vacate context.script).surface.issue context lease now).1
    s.Replaces context.script unit h { s with
      engine.active := some (a.start unit context lease limits now)
      issued := ⟨context.script, h, lease⟩ :: s.issued } := by
  intro lease h
  have haccounts := hs.active a ha
  have hlive (g : Handle) (x : Holding) :=
    haccounts.state?_live_start unit context lease limits now (g := g) (x := x)
  have hworker := a.worker?_start_eq unit context lease limits now
  have hself := hworker context.script
  rw [if_pos rfl] at hself
  have hfresh : ∀ i ∈ s.issued, i.handle ≠ h := by
    obtain ⟨m, hissues, -, hstarted⟩ :=
      haccounts.start unit context lease limits now (by rwa [hs.length])
    have hdistinct : ((m.map Record.issue).map (·.handle)).Nodup := by
      rw [List.map_map]
      exact hstarted.tracks.distinct
    rw [hissues, hs.history] at hdistinct
    rintro i hi hsame
    exact (List.nodup_cons.1 hdistinct).1 (List.mem_map.2 ⟨i, hi, hsame⟩)
  refine ⟨?_, ⟨_, hself, rfl, rfl, rfl⟩, ?_, hfresh, ?_, ?_, ?_, ?_, rfl⟩
  · show ((a.start unit context lease limits now).worker? context.script).map (·.unit) = some unit
    rw [hself]
    rfl
  · intro g
    constructor
    · rintro ⟨x, hx, hscript⟩
      rcases (hlive g x).1 hx with ⟨hg, -⟩ | ⟨-, hother⟩
      · exact hg
      · exact absurd hscript hother
    · rintro rfl
      exact ⟨_, (hlive _ _).2 (.inl ⟨rfl, rfl⟩), rfl⟩
  · rintro i hi hscript
    refine rejects_of_state? rfl fun x hx => ?_
    rcases (hlive i.handle x).1 hx with ⟨hnew, -⟩ | ⟨hold, hother⟩
    · exact hfresh i hi hnew
    · -- The record of a live handle is for the script whose context the handle resolves to.
      obtain ⟨r, -, hr, hhandle, -, hcontext, -⟩ := haccounts.tracks.standing_live hold
      rw [← hs.history, List.mem_map] at hi
      obtain ⟨q, hq, rfl⟩ := hi
      obtain rfl : r = q := List.inj_on_of_nodup_map haccounts.tracks.distinct hr hq hhandle
      exact hother (hcontext ▸ hscript)
  · intro other hother
    have hsame := hworker other
    rw [if_neg (Ne.symm hother)] at hsame
    rw [LuaEngine.worker?, LuaEngine.worker?, ha]
    exact hsame
  · intro g x hother
    have harena : s.engine.arena = a.surface.arena := by rw [LuaEngine.arena, ha]; rfl
    rw [harena]
    refine (hlive g x).trans ⟨?_, fun hold => .inr ⟨hold, hother⟩⟩
    rintro (⟨-, rfl⟩ | ⟨hold, -⟩)
    · exact absurd rfl hother
    · exact hold
  · intro b c hb hc
    obtain rfl := Option.some.inj (ha.symm.trans hb)
    obtain rfl := Option.some.inj hc
    exact ActiveEngine.terms_start _ unit context lease limits

theorem step_load_of_starts {unit : CompiledUnit} {context : ScriptContext} {limits : WorkerLimits}
    {item : ScriptItem} {now : Nat} {around : Lua.Surroundings} (hscript : context.script = item.script)
    (hload : s.engine.load item now around = (.ok unit, { s.engine with
      active := some (a.start unit context s.engine.settings.lease limits now) })) :
    s.step (.load item now around : Operation κ) =
      let lease := s.engine.settings.lease
      { s with
        engine.active := some (a.start unit context lease limits now)
        issued := ⟨context.script, ((a.vacate context.script).surface.issue context lease now).1, lease⟩ ::
          s.issued } := by
  have hworker := a.worker?_start_eq unit context s.engine.settings.lease limits now context.script
  rw [if_pos rfl] at hworker
  simp only [step, hload]
  rw [← hscript, LuaEngine.worker?, Option.bind_some, hworker]
  rfl

/-- A load that fails changes nothing, and it fails if the compiler rejects the source, or if as many other
scripts as are allowed have unfinished workers. One that succeeds replaces the script, and nothing else. -/
theorem load_all_or_nothing (backend : Compile.Backend) (modules : List HostModule)
    (ops : List (Operation κ)) (item : ScriptItem) (now : Nat) (around : Lua.Surroundings) (a : ActiveEngine)
    (ha : ((start backend modules).run ops).engine.active = some a)
    (hfew : ((start backend modules).run ops).issued.length < UInt32.size) :
    let s := (start backend modules).run ops
    let result := (s.engine.load item now around).1
    let t := s.step (.load item now around : Operation κ)
    (∀ err, result = .error err →
      t = s ∧ (s.engine.load item now around).2 = s.engine ∧ (err = s.engine.limitError ∨ ∃ e, err = .compile e)) ∧
    (∀ e, result = .error (.compile e) ↔ a.compile item = .error e) ∧
    (result = .error s.engine.limitError ↔ (∃ unit, a.compile item = .ok unit) ∧
      ∃ ids : List ObjectId, ids.Nodup ∧ s.engine.settings.maxScripts ≤ ids.length ∧
        ∀ id ∈ ids, id ≠ item.script ∧ ∃ w, s.engine.worker? id = some w ∧ w.isFinished = false) ∧
    ∀ unit, result = .ok unit →
      a.compile item = .ok unit ∧ (s.engine.load item now around).2 = t.engine ∧
        ∃ h, s.Replaces item.script unit h t := by
  have hstart := accounts_start backend modules
  obtain ⟨l, hs, -⟩ := hstart.run ops hfew
  generalize (start backend modules).run ops = s at ha hfew hs
  intro s result t
  have hloads := s.engine.load_loads ha item now around
  refine ⟨?_, hloads.rejected_iff, ?_, ?_⟩
  · intro err herr
    obtain ⟨hload, hwhy⟩ := hloads.unchanged herr
    exact ⟨step_load_error hload, congrArg Prod.snd hload, hwhy⟩
  · have hroom := ActiveEngine.le_unfinished_iff (hs.active a ha).once item.script
      s.engine.settings.maxScripts
    have hworker (id : ObjectId) : s.engine.worker? id = a.worker? id := by
      rw [LuaEngine.worker?, ha, Option.bind_some]
    simp only [hworker, ← hroom]
    exact hloads.refused_iff
  · intro unit hunit
    obtain ⟨hcompile, -⟩ := hloads.accepted_iff.1 hunit
    have hload := hloads.started hunit
    have hstarts : t = _ := step_load_of_starts rfl hload
    have hreplaces := hs.replaces ha hfew unit (.ofItem item LuaEngine.name a.region.name)
      (s.engine.settings.limits around) now
    rw [hstarts]
    exact ⟨hcompile, congrArg Prod.snd hload, _, hreplaces⟩

/-- A script that is loaded again beside another one. -/
theorem load_all_or_nothing_reload :
    let door : ScriptItem := default
    let lamp : ScriptItem := { door with script := ⟨1⟩ }
    let ops : List (Operation Sections) := [.setUp default Dict.empty, .load door 0 default, .load lamp 1 default]
    let s := (start Compile.LuaBackend.backend []).run ops
    let t := s.step (.load door 5 default : Operation Sections)
    ∃ unit, (s.engine.load door 5 default).1 = .ok unit ∧ s.Replaces door.script unit ⟨0, 1⟩ t := by
  intro door lamp ops s t
  have hactive : s.engine.active.isSome = true := by decide +kernel
  obtain ⟨a, ha⟩ := Option.isSome_iff_exists.1 hactive
  have hfew : s.issued.length < UInt32.size := by
    have hissued : s.issued.length = 2 := by decide +kernel
    rw [hissued]
    decide
  obtain ⟨-, -, -, hreplaces⟩ := load_all_or_nothing Compile.LuaBackend.backend [] ops door 5 default a ha hfew
  have hok : (s.engine.load door 5 default).1.isOk = true := by decide +kernel
  cases hresult : (s.engine.load door 5 default).1 with
  | error err =>
    rw [hresult] at hok
    cases hok
  | ok unit =>
    obtain ⟨-, -, h, hh⟩ := hreplaces unit hresult
    obtain ⟨w, hw, hhandle, -⟩ := hh.worker
    have hnew : (t.engine.worker? door.script).map (·.handle) = some ⟨0, 1⟩ := by decide +kernel
    rw [hw, Option.map_some, hhandle] at hnew
    obtain rfl := Option.some.inj hnew
    exact ⟨unit, rfl, hh⟩

end Session

end ScriptHost
