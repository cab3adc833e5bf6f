import ScriptHost.Proofs.Arena.Aging

/-! Ledgers whose live handles are all held, each in the name of the script that it was issued for. An
engine keeps its ledger that way by taking away all handles of a script whenever the script lets its
own go, and before it gets a new one. -/

namespace ScriptHost

/-- Who holds a handle, and which. -/
abbrev Holder := ScriptContext × Handle

def Record.holder (r : Record) : Holder := (r.context, r.handle)

theorem Record.Wanes.holder {r s : Record} (h : r.Wanes s) : s.holder = r.holder :=
  Prod.ext h.context h.handle

namespace Ledger

variable {l m n : Ledger} {holders : List Holder} {script : ObjectId}

/-- No script holds two handles, every live handle is held, and one that does not expire by time lives as
long as it is held. -/
structure HeldBy (l : Ledger) (holders : List Holder) : Prop where
  single : (holders.map (·.1.script)).Nodup
  held : ∀ p ∈ holders, ∃ r ∈ l, r.holder = p ∧ (r.lease.policy.mode = .manual → r.status = .live)
  owned : ∀ r ∈ l, r.status = .live → r.holder ∈ holders
  lasting : ∀ r ∈ l, r.lease.policy.mode = .manual → r.lease.ends = none

theorem heldBy_nil : HeldBy [] [] := ⟨.nil, nofun, nofun, nofun⟩

namespace HeldBy

/-- The handles are as different as the scripts. -/
theorem handles_nodup (h : l.HeldBy holders) (distinct : (l.map (·.handle)).Nodup) :
    (holders.map Prod.snd).Nodup := by
  refine (List.Nodup.of_map _ h.single).map_on fun p hp q hq hhandle => ?_
  obtain ⟨r, hr, rfl, -⟩ := h.held p hp
  obtain ⟨s, hs, rfl, -⟩ := h.held q hq
  rw [List.inj_on_of_nodup_map distinct hr hs hhandle]

/-- Without leases that expire, as many handles are live as are held. -/
theorem length_live (h : l.HeldBy holders) (distinct : (l.map (·.handle)).Nodup)
    (hmanual : ∀ r ∈ l, r.lease.policy.mode = .manual) :
    (l.live fun _ => true).length = holders.length := by
  have hleft : ((l.live fun _ => true).map Record.holder).Nodup := by
    refine List.Nodup.of_map Prod.snd ?_
    rw [List.map_map]
    exact distinct.sublist (List.filter_sublist.map _)
  have hperm : ((l.live fun _ => true).map Record.holder).Perm holders := by
    refine (List.perm_ext_iff_of_nodup hleft (List.Nodup.of_map _ h.single)).2 fun p => ?_
    rw [List.mem_map]
    constructor
    · rintro ⟨r, hr, rfl⟩
      obtain ⟨hr, hlive, -⟩ := mem_live.1 hr
      exact h.owned r hr hlive
    · intro hp
      obtain ⟨r, hr, rfl, hlive⟩ := h.held p hp
      exact ⟨r, mem_live.2 ⟨hr, hlive (hmanual r hr), rfl⟩, rfl⟩
  rw [← hperm.length_eq, List.length_map]

theorem ages (h : l.HeldBy holders) (ha : l.Ages m) : m.HeldBy holders := by
  obtain ⟨f, rfl, hf⟩ := ha
  refine ⟨h.single, ?_, ?_, ?_⟩
  · intro p hp
    obtain ⟨r, hr, rfl, hlive⟩ := h.held p hp
    refine ⟨f r, List.mem_map_of_mem hr, (hf r hr).holder, ?_⟩
    -- Under a manual lease the record was live, and without an end to its lease it stays so.
    intro hmanual
    rw [(hf r hr).policy] at hmanual
    exact (hf r hr).kept (h.lasting r hr hmanual) (hlive hmanual)
  · intro s hs hlive
    obtain ⟨r, hr, rfl⟩ := List.mem_map.1 hs
    rw [(hf r hr).holder]
    exact h.owned r hr ((hf r hr).live hlive)
  · intro s hs hmanual
    obtain ⟨r, hr, rfl⟩ := List.mem_map.1 hs
    rw [(hf r hr).policy] at hmanual
    exact (hf r hr).ends (h.lasting r hr hmanual)

/-- The handles of a script are disposed of when it lets its handle go. -/
theorem vacate (h : l.HeldBy holders) (script : ObjectId) :
    (l.close (·.context.script == script) .disposed).HeldBy
      (holders.filter (·.1.script != script)) := by
  refine ⟨h.single.sublist (List.filter_sublist.map _), ?_, ?_, ?_⟩
  · intro p hp
    obtain ⟨hp, hother⟩ := List.mem_filter.1 hp
    obtain ⟨r, hr, rfl, hlive⟩ := h.held p hp
    refine ⟨r, List.mem_map.2 ⟨r, hr, if_neg ?_⟩, rfl, hlive⟩
    simp_all [Record.holder]
  · intro s hs hlive
    obtain ⟨r, hr, rfl⟩ := List.mem_map.1 hs
    split at hlive
    · cases hlive
    · rename_i hkept
      rw [if_neg hkept]
      refine List.mem_filter.2 ⟨h.owned r hr hlive, ?_⟩
      simpa [Record.isLive, hlive, Record.holder] using hkept
  · intro s hs hmanual
    obtain ⟨r, hr, rfl⟩ := List.mem_map.1 hs
    split at hmanual <;> split <;> exact h.lasting r hr hmanual

/-- A script that holds no handle gets a new one. -/
theorem issue (h : l.HeldBy holders) {handle : Handle} {context : ScriptContext} (policy : LeasePolicy)
    (now : Nat) (hnew : context.script ∉ holders.map (·.1.script)) :
    HeldBy (⟨handle, context, Lease.start policy now, .live⟩ :: l) ((context, handle) :: holders) := by
  refine ⟨List.nodup_cons.2 ⟨hnew, h.single⟩, ?_, ?_, ?_⟩
  · intro p hp
    rcases List.mem_cons.1 hp with rfl | hp
    · exact ⟨_, List.mem_cons_self, rfl, fun _ => rfl⟩
    · obtain ⟨r, hr, hheld⟩ := h.held p hp
      exact ⟨r, List.mem_cons_of_mem _ hr, hheld⟩
  · intro r hr hlive
    rcases List.mem_cons.1 hr with rfl | hr
    · exact List.mem_cons_self
    · exact List.mem_cons_of_mem _ (h.owned r hr hlive)
  · intro r hr hmanual
    rcases List.mem_cons.1 hr with rfl | hr
    · exact Lease.start_ends_eq_none_iff.2 hmanual
    · exact h.lasting r hr hmanual

end HeldBy

/-! ### Later ledgers -/

/-- The records are still there. None that had ended is live, and none of a script whose handles were
taken away. -/
def Becomes (l m : Ledger) (revoked : Option ObjectId) : Prop :=
  ∀ r ∈ l, ∃ s ∈ m, s.handle = r.handle ∧
    (s.status = .live → r.status = .live ∧ revoked ≠ some r.context.script)

theorem Becomes.refl (l : Ledger) : l.Becomes l none :=
  fun r hr => ⟨r, hr, rfl, fun hlive => ⟨hlive, nofun⟩⟩

theorem Becomes.trans {revoked later : Option ObjectId} (h : l.Becomes m revoked)
    (h' : m.Becomes n later) : l.Becomes n revoked := by
  intro r hr
  obtain ⟨s, hs, hhandle, hlive⟩ := h r hr
  obtain ⟨t, ht, hhandle', hlive'⟩ := h' s hs
  exact ⟨t, ht, hhandle'.trans hhandle, fun hlate => hlive (hlive' hlate).1⟩

theorem Becomes.weaken {revoked : Option ObjectId} (h : l.Becomes m revoked) : l.Becomes m none := by
  intro r hr
  obtain ⟨s, hs, hhandle, hlive⟩ := h r hr
  exact ⟨s, hs, hhandle, fun hlate => ⟨(hlive hlate).1, nofun⟩⟩

theorem Ages.becomes (h : l.Ages m) : l.Becomes m none := by
  obtain ⟨f, rfl, hf⟩ := h
  intro r hr
  have hages := hf r hr
  exact ⟨f r, List.mem_map_of_mem hr, hages.handle, fun hlive => ⟨hages.live hlive, nofun⟩⟩

theorem becomes_close {p : Record → Bool} {revoked : Option ObjectId}
    (hp : ∀ r ∈ l, revoked = some r.context.script → p r = true) :
    l.Becomes (l.close p .disposed) revoked := by
  intro r hr
  refine ⟨_, List.mem_map_of_mem hr, ?_, fun hlive => ?_⟩
  · split <;> rfl
  · split at hlive
    · cases hlive
    · rename_i hkept
      refine ⟨hlive, fun hscript => hkept ?_⟩
      simp [Record.isLive, hlive, hp r hr hscript]

/-- Nothing is live once everything is disposed of. -/
theorem not_live_of_mem_close {r : Record} (hr : r ∈ l.close (fun _ => true) .disposed) :
    r.status ≠ .live := by
  obtain ⟨s, -, rfl⟩ := List.mem_map.1 hr
  split
  · exact nofun
  · simp_all [Record.isLive]

theorem Becomes.issue {revoked : Option ObjectId} (h : l.Becomes m revoked) (r : Record) :
    l.Becomes (r :: m) revoked := by
  intro s hs
  obtain ⟨t, ht, hbecomes⟩ := h s hs
  exact ⟨t, List.mem_cons_of_mem _ ht, hbecomes⟩

end Ledger

end ScriptHost
