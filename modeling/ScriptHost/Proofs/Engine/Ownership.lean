import ScriptHost.Proofs.Engine.Operations

/-! Ownership of handles. The table of scripts and the arena are changed by separate calls, and slots
pass from script to script, yet the two always agree: a live handle is that of one script in the table.
The invariant is that a ledger of all handles issued so far accounts for the arena and for the table. -/

namespace ScriptHost

/-! ### Accounts -/

def Record.issue (r : Record) : Issue := ⟨r.context.script, r.handle, r.lease.policy⟩

theorem Ledger.issues_map {l : Ledger} {f : Record → Record} (hf : ∀ r ∈ l, r.Wanes (f r)) :
    (l.map f).map Record.issue = l.map Record.issue := by
  rw [List.map_map]
  refine List.map_congr_left fun r hr => ?_
  have h := hf r hr
  rw [Function.comp_apply, Record.issue, h.context, h.handle, h.policy, ← Record.issue]

theorem Ledger.issues_close (l : Ledger) (p : Record → Bool) :
    (l.close p .disposed).map Record.issue = l.map Record.issue := by
  refine l.issues_map fun r _ => ?_
  split
  · exact r.wanes_disposed
  · exact (Record.Ages.refl r).toWanes

theorem Ledger.Ages.issues {l m : Ledger} (h : l.Ages m) : m.map Record.issue = l.map Record.issue := by
  obtain ⟨f, rfl, hf⟩ := h
  exact l.issues_map fun r hr => (hf r hr).toWanes

namespace ActiveEngine

variable {a b : ActiveEngine} {l : Ledger} {script : ObjectId}

/-- A ledger accounts for the arena, and for the table of scripts. -/
structure Accounts (a : ActiveEngine) (l : Ledger) : Prop where
  tracks : Tracks l a.surface.arena
  held : l.HeldBy a.holders

theorem Accounts.uses (h : a.Accounts l) (huses : a.Uses b) : ∃ m, l.Ages m ∧ b.Accounts m := by
  obtain ⟨m, hages, htracks⟩ := h.tracks.uses huses.arena
  have hheld := h.held.ages hages
  rw [← huses.holders] at hheld
  exact ⟨m, hages, htracks, hheld⟩

theorem holders_retire (a : ActiveEngine) (w : Worker) :
    (a.retire w).holders = a.holders.filter (·.1.script != w.context.script) := by
  unfold holders
  rw [List.filter_map]
  rfl

/-- A script without a worker holds no live handle, and one with a worker loses all of them with it. -/
theorem Accounts.vacate (h : a.Accounts l) (script : ObjectId) :
    ∃ m, m.map Record.issue = l.map Record.issue ∧ l.Becomes m (some script) ∧
      (a.vacate script).Accounts m ∧ script ∉ (a.vacate script).holders.map (·.1.script) := by
  unfold ActiveEngine.vacate
  split
  · rename_i w hw
    obtain ⟨-, rfl⟩ := mem_of_worker? hw
    have hbecomes : l.Becomes (l.close (·.context.script == w.context.script) .disposed)
        (some w.context.script) := by
      refine Ledger.becomes_close fun r _ hscript => ?_
      rw [← Option.some.inj hscript]
      exact beq_self_eq_true _
    -- The worker goes and so do all handles of its script, also those that no worker has.
    refine ⟨_, l.issues_close _, hbecomes, ⟨h.tracks.disposeOwner w.context.script, ?_⟩, ?_⟩
    · rw [holders_retire]
      exact h.held.vacate w.context.script
    · rw [holders_retire]
      simp
  · rename_i hnone
    have habsent : script ∉ a.holders.map (·.1.script) := by
      intro hmem
      rw [ids_eq, List.mem_map] at hmem
      obtain ⟨w, hw, rfl⟩ := hmem
      simpa using List.find?_eq_none.1 hnone w hw
    refine ⟨l, rfl, ?_, h, habsent⟩
    intro r hr
    refine ⟨r, hr, rfl, fun hlive => ⟨hlive, ?_⟩⟩
    intro hscript
    apply habsent
    rw [Option.some.inj hscript]
    exact List.mem_map.2 ⟨r.holder, h.held.owned r hr hlive, rfl⟩

theorem Accounts.start (h : a.Accounts l) (unit : CompiledUnit) (context : ScriptContext)
    (lease : LeasePolicy) (limits : WorkerLimits) (now : Nat) (hroom : l.length < UInt32.size) :
    ∃ m, m.map Record.issue =
        ⟨context.script, ((a.vacate context.script).surface.issue context lease now).1, lease⟩ ::
          l.map Record.issue ∧
      l.Becomes m (some context.script) ∧ (a.start unit context lease limits now).Accounts m := by
  obtain ⟨m, hissues, hbecomes, hvacated, habsent⟩ := h.vacate context.script
  have hlength : m.length = l.length := by simpa using congrArg List.length hissues
  obtain ⟨-, htracks⟩ := hvacated.tracks.issue (by omega) context lease now
  refine ⟨_, ?_, hbecomes.issue _, htracks, hvacated.held.issue lease now habsent⟩
  rw [List.map_cons, hissues]
  rfl

theorem Accounts.once (h : a.Accounts l) : (a.scripts.map (·.context.script)).Nodup := by
  rw [← ids_eq]
  exact h.held.single

theorem Accounts.apart (h : a.Accounts l) : (a.scripts.map (·.handle)).Nodup := by
  have hnodup := h.held.handles_nodup h.tracks.distinct
  rw [holders, List.map_map] at hnodup
  exact hnodup

/-- A live handle is that of one worker in the table, and stands for its script. -/
theorem Accounts.owner (h : a.Accounts l) {handle : Handle} {x : Holding}
    (hx : a.surface.arena.state? handle = some (.live x)) :
    ∃ w ∈ a.scripts, w.handle = handle ∧ w.context = x.context ∧
      ∀ v ∈ a.scripts, v.handle = handle → v = w := by
  obtain ⟨r, -, hr, rfl, hlive, hcontext, -⟩ := h.tracks.standing_live hx
  obtain ⟨w, hw, hholder⟩ := List.mem_map.1 (h.held.owned r hr hlive)
  have hhandle : w.handle = r.handle := congrArg Prod.snd hholder
  refine ⟨w, hw, hhandle, (congrArg Prod.fst hholder).trans hcontext, ?_⟩
  intro v hv hsame
  exact List.inj_on_of_nodup_map h.apart hv hw (hsame.trans hhandle.symm)

theorem Accounts.size_eq (h : a.Accounts l) (hmanual : ∀ r ∈ l, r.lease.policy.mode = .manual) :
    a.surface.arena.size = a.scripts.length := by
  rw [h.tracks.size_eq, h.held.length_live h.tracks.distinct hmanual]
  exact List.length_map _

end ActiveEngine

namespace Session

variable {s t : Session} {l : Ledger} {r : Record} {revoked : Option ObjectId}

/-- A ledger accounts for an engine: for its arena and its scripts while it is active, and for all that
was issued at any time. -/
structure Accounts (s : Session) (l : Ledger) : Prop where
  history : l.map Record.issue = s.issued
  fresh : (s.issued.map (·.handle)).Nodup
  active : ∀ a ∈ s.engine.active, a.Accounts l
  gone : s.engine.active = none → ∀ r ∈ l, r.status ≠ .live
  left : ∀ a ∈ s.left, a.surface.arena = .empty
  stage : s.engine.active.isSome = s.engine.state.isActive
  untouched : s.engine.state = .uninitialized → l = []

theorem accounts_start (backend : Compile.Backend) (modules : List HostModule) :
    (start backend modules).Accounts [] :=
  ⟨rfl, .nil, nofun, fun _ => nofun, nofun, rfl, fun _ => rfl⟩

theorem Accounts.length (hs : s.Accounts l) : l.length = s.issued.length := by
  rw [← hs.history, List.length_map]

/-- While an engine is active, its accounts are those of its arena and its table. -/
theorem Accounts.renewed {a b : ActiveEngine} {m : Ledger} {issued : List Issue} (hs : s.Accounts l)
    (ha : s.engine.active = some a) (hissued : m.map Record.issue = issued) (hb : b.Accounts m) :
    ({ s with engine.active := some b, issued } : Session).Accounts m := by
  have hstage := hs.stage
  rw [ha] at hstage
  have hfresh : (issued.map (·.handle)).Nodup := by
    rw [← hissued, List.map_map]
    exact hb.tracks.distinct
  refine ⟨hissued, hfresh, ?_, nofun, hs.left, hstage, ?_⟩
  · intro c hc
    obtain rfl := Option.some.inj hc
    exact hb
  · intro hstate
    rw [show s.engine.state = .uninitialized from hstate] at hstage
    cases hstage

theorem Accounts.closed (hs : s.Accounts l) :
    ({ s with
        engine := s.engine.close
        left := (s.engine.active.map (·.close)).or s.left } : Session).Accounts
      (l.close (fun _ => true) .disposed) := by
  have hhistory := (l.issues_close fun _ => true).trans hs.history
  refine ⟨hhistory, hs.fresh, nofun, ?_, ?_, rfl, nofun⟩
  · exact fun _ r hr => Ledger.not_live_of_mem_close hr
  · intro a ha
    cases hactive : s.engine.active with
    | none =>
      rw [hactive, Option.map_none, Option.none_or] at ha
      exact hs.left a ha
    | some b =>
      rw [hactive] at ha
      obtain rfl := Option.some.inj ha
      rfl

/-- One step keeps the accounts, and says which handles it takes away. -/
theorem Steps.accounts (h : s.Steps revoked t) (hs : s.Accounts l)
    (hfew : t.issued.length < UInt32.size) : ∃ m, t.Accounts m ∧ l.Becomes m revoked := by
  cases h with
  | rests settings hrevoked =>
    refine ⟨l, ⟨hs.history, hs.fresh, hs.active, hs.gone, hs.left, hs.stage, hs.untouched⟩, ?_⟩
    rcases hrevoked with rfl | hnone
    · exact .refl l
    · exact fun r hr => ⟨r, hr, rfl, fun hlive => absurd hlive (hs.gone hnone r hr)⟩
  | @rises settings a hstate harena hscripts =>
    have hnil := hs.untouched hstate
    subst hnil
    refine ⟨[], ⟨hs.history, hs.fresh, fun b hb => ?_, nofun, hs.left, rfl, nofun⟩, .refl []⟩
    obtain rfl := Option.some.inj hb
    refine ⟨harena ▸ tracks_empty, ?_⟩
    rw [ActiveEngine.holders, hscripts]
    exact Ledger.heldBy_nil
  | completes hstate =>
    have hstage := hs.stage
    rw [hstate] at hstage
    exact ⟨l, ⟨hs.history, hs.fresh, hs.active, hs.gone, hs.left, hstage, nofun⟩, .refl l⟩
  | @uses a b ha huses =>
    obtain ⟨m, hages, hb⟩ := (hs.active a ha).uses huses
    exact ⟨m, hs.renewed ha (hages.issues.trans hs.history) hb, hages.becomes⟩
  | @vacates a script ha =>
    obtain ⟨m, hissues, hbecomes, hb, -⟩ := (hs.active a ha).vacate script
    exact ⟨m, hs.renewed ha (hissues.trans hs.history) hb, hbecomes⟩
  | @starts a unit context limits now ha =>
    have hroom : l.length < UInt32.size := by
      have hlength := hs.length
      simp only [List.length_cons] at hfew
      omega
    obtain ⟨m, hissues, hbecomes, hb⟩ :=
      (hs.active a ha).start unit context s.engine.settings.lease limits now hroom
    rw [hs.history] at hissues
    exact ⟨m, hs.renewed ha hissues hb, hbecomes⟩
  | closes =>
    exact ⟨_, hs.closed, Ledger.becomes_close nofun⟩
  | @works a b hactive hleft huses =>
    refine ⟨l, ⟨hs.history, hs.fresh, hs.active, hs.gone, ?_, hs.stage, hs.untouched⟩, .refl l⟩
    intro c hc
    obtain rfl := Option.some.inj hc
    have harena := huses.arena
    rw [hs.left a hleft] at harena
    exact harena.of_empty

variable {κ : Type} [ConfigSource κ]

theorem length_issued_step (s : Session) (op : Operation κ) :
    s.issued.length ≤ (s.step op).issued.length := by
  cases op with
  | load item now around =>
    unfold step
    dsimp only
    split
    · exact Nat.le_refl _
    · rw [List.length_append]
      exact Nat.le_add_left _ _
  | workRetired i n now =>
    unfold step
    dsimp only
    split <;> exact Nat.le_refl _
  | _ => exact Nat.le_refl _

theorem length_issued_run (s : Session) (ops : List (Operation κ)) :
    s.issued.length ≤ (s.run ops).issued.length := by
  induction ops generalizing s with
  | nil => exact Nat.le_refl _
  | cons op ops ih => exact Nat.le_trans (s.length_issued_step op) (ih (s.step op))

/-- One operation keeps the accounts. -/
theorem Accounts.step (hs : s.Accounts l) (op : Operation κ)
    (hfew : (s.step op).issued.length < UInt32.size) :
    ∃ m, (s.step op).Accounts m ∧ l.Becomes m (s.revokes? op) :=
  (step_steps (fun a ha => (hs.active a ha).held.single) op).accounts hs hfew

/-- So do operations in a row. -/
theorem Accounts.run (hs : s.Accounts l) (ops : List (Operation κ))
    (hfew : (s.run ops).issued.length < UInt32.size) :
    ∃ m, (s.run ops).Accounts m ∧ l.Becomes m none := by
  induction ops generalizing s l with
  | nil => exact ⟨l, hs, .refl l⟩
  | cons op ops ih =>
    have hstep := Nat.lt_of_le_of_lt ((s.step op).length_issued_run ops) hfew
    obtain ⟨m, hm, hbecomes⟩ := hs.step op hstep
    obtain ⟨n, hn, hlater⟩ := ih hm hfew
    exact ⟨n, hn, (hbecomes.trans hlater).weaken⟩

end Session

/-! ### Owners -/

/-- No use of a handle succeeds on a surface, at any time. -/
def Surface.Rejects (s : Surface) (h : Handle) : Prop :=
  ∀ now, (∀ name args, ∃ e, (s.invoke h name args now).1 = .error e ∧ e.Refuses h) ∧
    (∃ e, (s.renew h now).1 = .error e ∧ e.Refuses h) ∧ (s.dispose h).1 = false

theorem Surface.rejects_of_arena {s : Surface} {h : Handle} (hs : s.arena.Rejects h) : s.Rejects h := by
  intro now
  obtain ⟨⟨e, haccess, hrefuses⟩, hrenew, hdispose⟩ := hs now
  refine ⟨fun name args => ⟨e, ?_, hrefuses⟩, hrenew, hdispose⟩
  have hresolve : (s.resolve h name now).1 = .error e := by
    unfold resolve
    split
    · rename_i hresult
      rw [hresult] at haccess
      exact congrArg Except.error (Except.error.inj haccess)
    · rename_i hresult
      rw [hresult] at haccess
      cases haccess
  unfold invoke
  split <;> rename_i hresult <;> rw [hresult] at hresolve <;> cases hresolve
  rfl

namespace Session

/-- Live handles belong to scripts in the table, each to one. -/
structure OwnsHandles (s : Session) : Prop where
  owner : ∀ surface ∈ s.surface?, ∀ h x, surface.arena.state? h = some (.live x) →
    ∃ w ∈ s.scripts, w.handle = h ∧ w.context = x.context ∧ ∀ v ∈ s.scripts, v.handle = h → v = w
  /-- The table has a script once. -/
  once : (s.scripts.map (·.context.script)).Nodup
  /-- Scripts in the table have different handles. -/
  apart : (s.scripts.map (·.handle)).Nodup
  /-- No handle is issued twice. -/
  fresh : (s.issued.map (·.handle)).Nodup
  manual : (∀ i ∈ s.issued, i.lease.mode = .manual) → s.engine.liveHandles = s.scripts.length
  inactive : s.engine.state.isActive = false →
    s.engine.liveHandles = 0 ∧ ∀ surface ∈ s.surface?, surface.arena.size = 0

/-- A handle is accepted no more. -/
def Rejects (s : Session) (h : Handle) : Prop := ∀ surface ∈ s.surface?, surface.Rejects h

variable {s : Session} {l : Ledger} {r : Record}

theorem Accounts.surface_of_over (hs : s.Accounts l) (hover : s.engine.active = none) :
    ∀ surface ∈ s.surface?, surface.arena = .empty := by
  intro surface hsurface
  rw [surface?, hover, Option.none_or] at hsurface
  obtain ⟨a, ha, rfl⟩ := Option.map_eq_some_iff.1 hsurface
  exact hs.left a ha

theorem Accounts.rejects (hs : s.Accounts l) (hr : r ∈ l) (hdead : r.status ≠ .live) :
    s.Rejects r.handle := by
  intro surface hsurface
  apply Surface.rejects_of_arena
  cases hactive : s.engine.active with
  | some a =>
    rw [surface?, hactive] at hsurface
    obtain rfl := Option.some.inj hsurface
    exact (hs.active a hactive).tracks.rejects hr hdead
  | none =>
    rw [hs.surface_of_over hactive surface hsurface]
    exact Arena.rejects_empty r.handle

theorem Accounts.ownsHandles (hs : s.Accounts l) : s.OwnsHandles := by
  cases hactive : s.engine.active with
  | some a =>
    have ha := hs.active a hactive
    have hsurface : s.surface? = some a.surface := by rw [surface?, hactive]; rfl
    have hscripts : s.scripts = a.scripts := by rw [scripts, hactive]; rfl
    refine ⟨?_, hscripts ▸ ha.once, hscripts ▸ ha.apart, hs.fresh, ?_, ?_⟩
    · intro surface hmem h x hx
      rw [hsurface] at hmem
      obtain rfl := Option.some.inj hmem
      rw [hscripts]
      exact ha.owner hx
    · intro hmanual
      rw [LuaEngine.liveHandles, hactive, hscripts]
      refine ha.size_eq fun r hr => hmanual r.issue ?_
      rw [← hs.history]
      exact List.mem_map_of_mem hr
    · intro hstate
      have hstage := hs.stage
      rw [hactive, hstate] at hstage
      cases hstage
  | none =>
    have hscripts : s.scripts = [] := by rw [scripts, hactive]; rfl
    have hlive : s.engine.liveHandles = 0 := by rw [LuaEngine.liveHandles, hactive]; rfl
    have harena := hs.surface_of_over hactive
    refine ⟨?_, hscripts ▸ .nil, hscripts ▸ .nil, hs.fresh, ?_, ?_⟩
    · intro surface hsurface h x hx
      rw [harena surface hsurface] at hx
      simp [Arena.state?, Arena.empty] at hx
    · intro _
      rw [hlive, hscripts]
      rfl
    · intro _
      refine ⟨hlive, fun surface hsurface => ?_⟩
      rw [harena surface hsurface]
      rfl

/-- What an operation takes away stays away. -/
theorem Accounts.revoked {κ : Type} [ConfigSource κ] (hs : s.Accounts l) (op : Operation κ)
    (after : List (Operation κ)) (hfew : ((s.step op).run after).issued.length < UInt32.size) {i : Issue}
    (hi : i ∈ s.issued) (hrevokes : s.revokes? op = some i.script) :
    ((s.step op).run after).Rejects i.handle := by
  have hstep := Nat.lt_of_le_of_lt ((s.step op).length_issued_run after) hfew
  obtain ⟨m, hm, hbecomes⟩ := hs.step op hstep
  obtain ⟨n, hn, hlater⟩ := hm.run after hfew
  rw [← hs.history, List.mem_map] at hi
  obtain ⟨r, hr, rfl⟩ := hi
  obtain ⟨r', hr', hhandle, hlive⟩ := (hbecomes.trans hlater) r hr
  have hdead : r'.status ≠ .live := by
    intro hlate
    exact (hlive hlate).2 hrevokes
  have hrejects := hn.rejects hr' hdead
  rw [hhandle] at hrejects
  exact hrejects

/-- In every state that an engine comes to while fewer than `2 ^ 32` handles are issued, the live handles
belong to the scripts in the table; and once a script is removed, or loaded again, none of the handles
issued to it before is accepted any more. -/
theorem handles_follow_scripts {κ : Type} [ConfigSource κ] (backend : Compile.Backend)
    (modules : List HostModule) (ops : List (Operation κ))
    (hfew : ((start backend modules).run ops).issued.length < UInt32.size) :
    ((start backend modules).run ops).OwnsHandles ∧
      ∀ before op after script, ops = before ++ op :: after →
        ((start backend modules).run before).revokes? op = some script →
        ∀ i ∈ ((start backend modules).run before).issued, i.script = script →
          ((start backend modules).run ops).Rejects i.handle := by
  have hstart := accounts_start backend modules
  generalize start backend modules = s at hfew hstart ⊢
  constructor
  · obtain ⟨l, hl, -⟩ := hstart.run ops hfew
    exact hl.ownsHandles
  · rintro before op after script rfl hrevokes i hi rfl
    rw [run_append] at hfew ⊢
    have hbefore := Nat.lt_of_le_of_lt ((s.run before).length_issued_run (op :: after)) hfew
    obtain ⟨l, hl, -⟩ := hstart.run before hbefore
    exact hl.revoked op after hfew hi hrevokes

/-- The slot of a lease that has run out goes to another script, and that script is loaded again. -/
theorem handles_follow_scripts_reload :
    let lease : Section := Dict.ofList [("lease_initial_ms", "10"), ("lease_sponsorship_ms", "0")]
    let config : Sections := Dict.empty.insert EngineSettings.sectionName lease
    let door : ScriptItem := default
    let lamp : ScriptItem := { door with script := ⟨1⟩ }
    let s := (start Compile.LuaBackend.backend []).run
      [.setUp default config, .load door 0 default, .sweep 20, .load lamp 30 default, .load lamp 35 default]
    s.issued.map (·.handle) = [⟨0, 2⟩, ⟨0, 1⟩, ⟨0, 0⟩] ∧ s.engine.liveHandles = 1 ∧ s.OwnsHandles ∧
      s.Rejects ⟨0, 1⟩ := by
  intro lease config door lamp s
  have hissued : s.issued.map (·.handle) = [⟨0, 2⟩, ⟨0, 1⟩, ⟨0, 0⟩] := by decide +kernel
  have hfew : s.issued.length < UInt32.size := by
    rw [← List.length_map (·.handle), hissued]
    decide
  obtain ⟨howns, hrevoked⟩ := handles_follow_scripts Compile.LuaBackend.backend []
    [.setUp default config, .load door 0 default, .sweep 20, .load lamp 30 default, .load lamp 35 default] hfew
  refine ⟨hissued, by decide +kernel, howns, ?_⟩
  exact hrevoked [.setUp default config, .load door 0 default, .sweep 20, .load lamp 30 default]
    (.load lamp 35 default) []
    ⟨1⟩ rfl (by decide +kernel) ⟨⟨1⟩, ⟨0, 1⟩, LeasePolicy.timed 10 0⟩ (by decide +kernel) rfl

end Session

end ScriptHost
