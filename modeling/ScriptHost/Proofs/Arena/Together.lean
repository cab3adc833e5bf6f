import ScriptHost.Proofs.Arena.Requests

/-! Two arenas that are asked the same. Their slots may differ, and so may the times at which they are
swept. Record by record, in the order of the issues, their ledgers agree on every lease that has not
expired, and a lease that has expired does not come back. -/

namespace ScriptHost

/-! ### Expired leases -/

theorem Lease.isExpired_mono {l : Lease} {now later : Nat} (hle : now ≤ later)
    (h : l.isExpired now = true) : l.isExpired later = true := by
  obtain ⟨stop, hstop, hnow⟩ := isExpired_iff.1 h
  exact isExpired_iff.2 ⟨stop, hstop, by omega⟩

namespace Record

variable {r s : Record} {now : Nat}

/-- The handle of a record resolves no more. -/
def Over (now : Nat) (r : Record) : Prop := r.status ≠ .live ∨ r.lease.isExpired now = true

/-- Two records of one context, of which neither resolves, or both do under one lease. -/
structure Alike (now : Nat) (r s : Record) : Prop where
  context : r.context = s.context
  standing : r.Over now ∧ s.Over now ∨ r.status = .live ∧ s.status = .live ∧ r.lease = s.lease

theorem Over.mono {later : Nat} (hle : now ≤ later) (h : r.Over now) : r.Over later :=
  h.imp id (Lease.isExpired_mono hle)

theorem Alike.mono {later : Nat} (hle : now ≤ later) (h : r.Alike now s) : r.Alike later s :=
  ⟨h.context, h.standing.imp (fun ⟨hr, hs⟩ => ⟨hr.mono hle, hs.mono hle⟩) id⟩

theorem Alike.over_iff (h : r.Alike now s) : r.Over now ↔ s.Over now := by
  rcases h.standing with ⟨hr, hs⟩ | ⟨hr, hs, hlease⟩
  · exact ⟨fun _ => hs, fun _ => hr⟩
  · simp [Over, hr, hs, hlease]

theorem Alike.of_not_over (h : r.Alike now s) (hr : ¬ r.Over now) :
    r.status = .live ∧ s.status = .live ∧ r.lease = s.lease ∧ r.lease.isExpired now = false := by
  rcases h.standing with ⟨hover, -⟩ | ⟨hlive, hlive', hlease⟩
  · exact absurd hover hr
  · exact ⟨hlive, hlive', hlease, by simpa [Over, hlive] using hr⟩

/-- What is over may be closed. -/
theorem Alike.close_left {p : Record → Bool} {status : Status} (h : r.Alike now s)
    (hstatus : status ≠ .live) (hover : r.status = .live → p r = true → r.Over now) :
    (if r.isLive && p r then { r with status } else r).Alike now s := by
  split
  · rename_i hp
    simp only [isLive, Bool.and_eq_true, beq_iff_eq] at hp
    exact ⟨h.context, .inl ⟨.inl hstatus, h.over_iff.1 (hover hp.1 hp.2)⟩⟩
  · exact h

theorem Alike.symm (h : r.Alike now s) : s.Alike now r :=
  ⟨h.context.symm, h.standing.imp And.symm fun ⟨hr, hs, he⟩ => ⟨hs, hr, he.symm⟩⟩

/-- Records that are live may be closed together. -/
theorem Alike.close {p : Record → Bool} {q : Record → Bool} {status : Status} (h : r.Alike now s)
    (hstatus : status ≠ .live) (hsame : p r = q s) :
    (if r.isLive && p r then { r with status } else r).Alike now
      (if s.isLive && q s then { s with status } else s) := by
  rcases h.standing with ⟨hr, hs⟩ | ⟨hr, hs, hlease⟩
  · exact ((h.close_left hstatus fun _ _ => hr).symm.close_left hstatus fun _ _ => hs).symm
  · rw [isLive, isLive, hr, hs, hsame]
    split
    · exact ⟨h.context, .inl ⟨.inl hstatus, .inl hstatus⟩⟩
    · exact h

end Record

/-! ### Uses in the ledger -/

namespace Ledger

variable {l : Ledger} {r : Record} {now : Nat}

theorem standing_of_live (distinct : (l.map (·.handle)).Nodup) (hr : r ∈ l)
    (hlive : r.status = .live) : l.standing r.handle = .live r := by
  have hrecord : l.record? r.handle = some r := (record?_eq_some_iff distinct).2 ⟨hr, rfl⟩
  simp only [standing, hrecord, hlive]

theorem standing_of_not_live (distinct : (l.map (·.handle)).Nodup) (hr : r ∈ l)
    (hdead : r.status ≠ .live) :
    l.standing r.handle = .expired ∨ l.standing r.handle = .invalid := by
  have hrecord : l.record? r.handle = some r := (record?_eq_some_iff distinct).2 ⟨hr, rfl⟩
  simp only [standing, hrecord]
  split
  · rename_i hlive
    exact absurd hlive hdead
  · exact .inr rfl
  · split
    · exact .inr rfl
    · exact .inl rfl

/-- The record of a handle that is not live has nothing to close. -/
theorem close_of_not_live (distinct : (l.map (·.handle)).Nodup) (hr : r ∈ l)
    (hdead : r.status ≠ .live) (status : Status) : l.close (·.handle == r.handle) status = l := by
  unfold close
  refine (List.map_congr_left fun s hs => ?_).trans (List.map_id l)
  refine if_neg fun hclosed => ?_
  simp only [Record.isLive, Bool.and_eq_true, beq_iff_eq] at hclosed
  obtain rfl : s = r := List.inj_on_of_nodup_map distinct hs hr hclosed.2
  exact hdead hclosed.1

/-- The use of a handle that is over fails, and closes its record if that was still live. -/
theorem access_of_over (distinct : (l.map (·.handle)).Nodup) (hr : r ∈ l) (h : r.Over now) :
    (∃ e, (l.access r.handle now).1 = .error e ∧ e.Refuses r.handle) ∧
      (l.access r.handle now).2 = l.close (·.handle == r.handle) .expired := by
  unfold access
  by_cases hlive : r.status = .live
  · have hexpired : r.lease.isExpired now = true := h.resolve_left (absurd hlive)
    simp only [standing_of_live distinct hr hlive, hexpired, if_true]
    exact ⟨⟨_, rfl, .inl rfl⟩, trivial⟩
  · rw [close_of_not_live distinct hr hlive]
    rcases standing_of_not_live distinct hr hlive with hs | hs <;> rw [hs]
    · exact ⟨⟨_, rfl, .inl rfl⟩, rfl⟩
    · exact ⟨⟨_, rfl, .inr rfl⟩, rfl⟩

theorem renew_of_over (distinct : (l.map (·.handle)).Nodup) (hr : r ∈ l) (h : r.Over now) :
    (∃ e, (l.renew r.handle now).1 = .error e ∧ e.Refuses r.handle) ∧
      (l.renew r.handle now).2 = l.close (·.handle == r.handle) .expired := by
  unfold renew
  by_cases hlive : r.status = .live
  · have hnone : r.lease.renew? now = none :=
      Lease.renew?_eq_none_iff.2 (h.resolve_left (absurd hlive))
    simp only [standing_of_live distinct hr hlive, hnone]
    exact ⟨⟨_, rfl, .inl rfl⟩, trivial⟩
  · rw [close_of_not_live distinct hr hlive]
    rcases standing_of_not_live distinct hr hlive with hs | hs <;> rw [hs]
    · exact ⟨⟨_, rfl, .inl rfl⟩, rfl⟩
    · exact ⟨⟨_, rfl, .inr rfl⟩, rfl⟩

theorem access_of_live (distinct : (l.map (·.handle)).Nodup) (hr : r ∈ l) (hlive : r.status = .live)
    (hlease : r.lease.isExpired now = false) :
    l.access r.handle now = (.ok r.context, l.relet r.handle (r.lease.recordCall now)) := by
  simp [access, standing_of_live distinct hr hlive, hlease]

theorem renew_of_live (distinct : (l.map (·.handle)).Nodup) (hr : r ∈ l) (hlive : r.status = .live)
    {lease : Lease} (hlease : r.lease.renew? now = some lease) :
    l.renew r.handle now = (.ok (), l.relet r.handle lease) := by
  simp only [renew, standing_of_live distinct hr hlive, hlease]

theorem dispose_of_mem (distinct : (l.map (·.handle)).Nodup) (hr : r ∈ l) :
    (l.dispose r.handle).2 = l.close (·.handle == r.handle) .disposed := by
  unfold dispose
  by_cases hlive : r.status = .live
  · rw [standing_of_live distinct hr hlive]
  · rw [close_of_not_live distinct hr hlive]
    rcases standing_of_not_live distinct hr hlive with hs | hs <;> rw [hs]

end Ledger

namespace Tracks

variable {l : Ledger} {a : Arena} {r : Record} {now : Nat}

theorem lease?_of_over (t : Tracks l a) (hr : r ∈ l) (hover : r.Over now) :
    a.lease? r.handle now = none := by
  unfold Arena.lease?
  split
  · rename_i x hx
    obtain ⟨s, -, hs, hhandle, hlive, -, hlease⟩ := t.standing_live hx
    obtain rfl : s = r := List.inj_on_of_nodup_map t.distinct hs hr hhandle
    rw [← hlease, if_pos (hover.resolve_left (absurd hlive))]
  · rfl

theorem lease?_of_live (t : Tracks l a) (hr : r ∈ l) (hlive : r.status = .live)
    (hlease : r.lease.isExpired now = false) : a.lease? r.handle now = some r.lease := by
  obtain ⟨x, hslot, -, hx⟩ := t.live_slot hr hlive
  simp only [Arena.lease?, Arena.state?_eq_some_iff.2 hslot, ← hx, hlease, Bool.false_eq_true, if_false]

end Tracks

/-! ### Two arenas that are asked the same -/

open Arena (Desk Request Act)

/-- Two arenas have answered the same requests: the pairs of records that their ledgers have for each
issue, the latest first. -/
structure Together (now : Nat) (ps : List (Record × Record)) (d e : Desk) : Prop where
  left : Tracks (ps.map Prod.fst) d.arena
  right : Tracks (ps.map Prod.snd) e.arena
  leftIssued : d.issued = (ps.map (·.1.handle)).reverse
  rightIssued : e.issued = (ps.map (·.2.handle)).reverse
  alike : ∀ p ∈ ps, p.1.Alike now p.2

namespace Together

variable {now : Nat} {ps : List (Record × Record)} {d e d' e' : Desk} {p : Record × Record}

theorem fresh : Together 0 [] .fresh .fresh :=
  ⟨tracks_empty, tracks_empty, rfl, rfl, nofun⟩

theorem mono (t : Together now ps d e) {later : Nat} (hle : now ≤ later) : Together later ps d e :=
  { t with alike := fun p hp => (t.alike p hp).mono hle }

/-- Records are written under their own handles on both sides. -/
theorem write (t : Together now ps d e) {f g : Record → Record}
    (hf : ∀ r, (f r).handle = r.handle) (hg : ∀ r, (g r).handle = r.handle)
    (hd : Tracks ((ps.map Prod.fst).map f) d'.arena) (he : Tracks ((ps.map Prod.snd).map g) e'.arena)
    (hd' : d'.issued = d.issued) (he' : e'.issued = e.issued)
    (halike : ∀ p ∈ ps, (f p.1).Alike now (g p.2)) :
    Together now (ps.map (Prod.map f g)) d' e' := by
  constructor
  · simpa [List.map_map, Function.comp_def] using hd
  · simpa [List.map_map, Function.comp_def] using he
  · simpa [List.map_map, Function.comp_def, hf] using hd'.trans t.leftIssued
  · simpa [List.map_map, Function.comp_def, hg] using he'.trans t.rightIssued
  · intro q hq
    obtain ⟨p, hp, rfl⟩ := List.mem_map.1 hq
    exact halike p hp

theorem leftDistinct (t : Together now ps d e) : (ps.map (·.1.handle)).Nodup := by
  have hdistinct := t.left.distinct
  rwa [List.map_map] at hdistinct

theorem rightDistinct (t : Together now ps d e) : (ps.map (·.2.handle)).Nodup := by
  have hdistinct := t.right.distinct
  rwa [List.map_map] at hdistinct

theorem handle_iff (t : Together now ps d e) (hp : p ∈ ps) {q : Record × Record} (hq : q ∈ ps) :
    q.1.handle = p.1.handle ↔ q.2.handle = p.2.handle := by
  constructor
  · intro h
    rw [List.inj_on_of_nodup_map t.leftDistinct hq hp h]
  · intro h
    rw [List.inj_on_of_nodup_map t.rightDistinct hq hp h]

theorem leftIssued_get (t : Together now ps d e) (k : Nat) :
    d.issued[k]? = ps.reverse[k]?.map (·.1.handle) := by
  rw [t.leftIssued, ← List.map_reverse, List.getElem?_map]

theorem rightIssued_get (t : Together now ps d e) (k : Nat) :
    e.issued[k]? = ps.reverse[k]?.map (·.2.handle) := by
  rw [t.rightIssued, ← List.map_reverse, List.getElem?_map]

/-- A sweep on one side closes what is over. -/
theorem sweep_left (t : Together now ps d e) : ∃ ps, Together now ps (d.call (.sweep now)) e := by
  refine ⟨_, t.write (g := id) (fun r => ?_) (fun r => rfl) (t.left.sweep now) ?_ (List.append_nil _)
    rfl fun p hp => ?_⟩
  · split <;> rfl
  · rw [List.map_id]
    exact t.right
  · have hstatus : Status.expired ≠ .live := by decide
    refine (t.alike p hp).close_left hstatus fun _ hdue => ?_
    exact .inr (Bool.and_eq_true_iff.1 hdue).2

/-- Records of a kind are closed on both sides. -/
theorem close (t : Together now ps d e) {p q : Record → Bool} {status : Status}
    (hstatus : status ≠ .live) (hd : Tracks (Ledger.close (ps.map Prod.fst) p status) d'.arena)
    (he : Tracks (Ledger.close (ps.map Prod.snd) q status) e'.arena)
    (hd' : d'.issued = d.issued) (he' : e'.issued = e.issued) (hsame : ∀ x ∈ ps, p x.1 = q x.2) :
    ∃ ps, Together now ps d' e' := by
  refine ⟨_, t.write (fun r => ?_) (fun r => ?_) hd he hd' he' fun x hx => ?_⟩
  · split <;> rfl
  · split <;> rfl
  · exact (t.alike x hx).close hstatus (hsame x hx)

/-- The same holds of the record of one handle. -/
theorem close_one (t : Together now ps d e) (hp : p ∈ ps) {status : Status} (hstatus : status ≠ .live)
    (hd : Tracks (Ledger.close (ps.map Prod.fst) (·.handle == p.1.handle) status) d'.arena)
    (he : Tracks (Ledger.close (ps.map Prod.snd) (·.handle == p.2.handle) status) e'.arena)
    (hd' : d'.issued = d.issued) (he' : e'.issued = e.issued) : ∃ ps, Together now ps d' e' := by
  refine t.close hstatus hd he hd' he' fun q hq => ?_
  rw [Bool.eq_iff_iff, beq_iff_eq, beq_iff_eq]
  exact t.handle_iff hp hq

/-- A record that resolves gets the same lease on both sides. -/
theorem relet (t : Together now ps d e) (hp : p ∈ ps) (hleft : p.1.status = .live)
    (hright : p.2.status = .live) (lease : Lease)
    (hd : Tracks (Ledger.relet (ps.map Prod.fst) p.1.handle lease) d'.arena)
    (he : Tracks (Ledger.relet (ps.map Prod.snd) p.2.handle lease) e'.arena)
    (hd' : d'.issued = d.issued) (he' : e'.issued = e.issued) : ∃ ps, Together now ps d' e' := by
  refine ⟨_, t.write (fun r => ?_) (fun r => ?_) hd he hd' he' fun q hq => ?_⟩
  · split <;> rfl
  · split <;> rfl
  · by_cases hsame : q.1.handle = p.1.handle
    · obtain rfl : q = p := List.inj_on_of_nodup_map t.leftDistinct hq hp hsame
      rw [if_pos rfl, if_pos rfl]
      exact ⟨(t.alike q hq).context, .inr ⟨hleft, hright, rfl⟩⟩
    · rw [if_neg hsame, if_neg fun h => hsame ((t.handle_iff hp hq).2 h)]
      exact t.alike q hq

/-! ### Requests on both sides -/

theorem issue (t : Together now ps d e) (context : ScriptContext) (policy : LeasePolicy)
    (hroom : d.issued.length < UInt32.size) :
    ∃ ps, Together now ps (d.call (.issue context policy now)) (e.call (.issue context policy now)) := by
  have hlength : ps.length < UInt32.size := by
    rw [t.leftIssued] at hroom
    simpa using hroom
  obtain ⟨-, hleft⟩ := t.left.issue (by simpa using hlength) context policy now
  obtain ⟨-, hright⟩ := t.right.issue (by simpa using hlength) context policy now
  refine ⟨(_, _) :: ps, hleft, hright, ?_, ?_, ?_⟩
  · show d.issued ++ [_] = _
    rw [t.leftIssued, List.map_cons, List.reverse_cons]
  · show e.issued ++ [_] = _
    rw [t.rightIssued, List.map_cons, List.reverse_cons]
  · intro p hp
    rcases List.mem_cons.1 hp with rfl | hp
    · exact ⟨rfl, .inr ⟨rfl, rfl, rfl⟩⟩
    · exact t.alike p hp

theorem access (t : Together now ps d e) (hp : p ∈ ps) :
    (∃ ps, Together now ps (d.call (.access p.1.handle now)) (e.call (.access p.2.handle now))) ∧
      (d.arena.call (.access p.1.handle now)).1.verdict? =
        (e.arena.call (.access p.2.handle now)).1.verdict? := by
  have hleft := List.mem_map_of_mem (f := Prod.fst) hp
  have hright := List.mem_map_of_mem (f := Prod.snd) hp
  obtain ⟨hd, htd⟩ := t.left.access p.1.handle now
  obtain ⟨he, hte⟩ := t.right.access p.2.handle now
  have halike := t.alike p hp
  simp only [Arena.call, hd, he]
  by_cases hover : p.1.Over now
  · obtain ⟨⟨e₁, h₁, -⟩, hclosed⟩ := Ledger.access_of_over t.left.distinct hleft hover
    obtain ⟨⟨e₂, h₂, -⟩, hclosed'⟩ :=
      Ledger.access_of_over t.right.distinct hright (halike.over_iff.1 hover)
    rw [hclosed] at htd
    rw [hclosed'] at hte
    have hstatus : Status.expired ≠ .live := by decide
    refine ⟨t.close_one hp hstatus htd hte (List.append_nil _) (List.append_nil _), ?_⟩
    rw [h₁, h₂]
    rfl
  · obtain ⟨hlive, hlive', hlease, hnot⟩ := halike.of_not_over hover
    have h₁ := Ledger.access_of_live t.left.distinct hleft hlive hnot
    have h₂ := Ledger.access_of_live t.right.distinct hright hlive' (hlease ▸ hnot)
    rw [h₁] at htd
    rw [h₂, ← hlease] at hte
    refine ⟨t.relet hp hlive hlive' _ htd hte (List.append_nil _) (List.append_nil _), ?_⟩
    rw [h₁, h₂, halike.context]

theorem renew (t : Together now ps d e) (hp : p ∈ ps) :
    (∃ ps, Together now ps (d.call (.renew p.1.handle now)) (e.call (.renew p.2.handle now))) ∧
      (d.arena.call (.renew p.1.handle now)).1.verdict? =
        (e.arena.call (.renew p.2.handle now)).1.verdict? := by
  have hleft := List.mem_map_of_mem (f := Prod.fst) hp
  have hright := List.mem_map_of_mem (f := Prod.snd) hp
  obtain ⟨hd, htd⟩ := t.left.renew p.1.handle now
  obtain ⟨he, hte⟩ := t.right.renew p.2.handle now
  have halike := t.alike p hp
  simp only [Arena.call, hd, he]
  by_cases hover : p.1.Over now
  · obtain ⟨⟨e₁, h₁, -⟩, hclosed⟩ := Ledger.renew_of_over t.left.distinct hleft hover
    obtain ⟨⟨e₂, h₂, -⟩, hclosed'⟩ :=
      Ledger.renew_of_over t.right.distinct hright (halike.over_iff.1 hover)
    rw [hclosed] at htd
    rw [hclosed'] at hte
    have hstatus : Status.expired ≠ .live := by decide
    refine ⟨t.close_one hp hstatus htd hte (List.append_nil _) (List.append_nil _), ?_⟩
    rw [h₁, h₂]
    rfl
  · obtain ⟨hlive, hlive', hlease, hnot⟩ := halike.of_not_over hover
    obtain ⟨lease, hrenew⟩ : ∃ lease, p.1.lease.renew? now = some lease := by
      rw [← Option.ne_none_iff_exists', ne_eq, Lease.renew?_eq_none_iff, hnot]
      exact Bool.false_ne_true
    have h₁ := Ledger.renew_of_live t.left.distinct hleft hlive hrenew
    have h₂ := Ledger.renew_of_live t.right.distinct hright hlive' (hlease ▸ hrenew)
    rw [h₁] at htd
    rw [h₂] at hte
    refine ⟨t.relet hp hlive hlive' _ htd hte (List.append_nil _) (List.append_nil _), ?_⟩
    rw [h₁, h₂]

theorem dispose (t : Together now ps d e) (hp : p ∈ ps) :
    ∃ ps, Together now ps (d.call (.dispose p.1.handle)) (e.call (.dispose p.2.handle)) := by
  obtain ⟨-, htd⟩ := t.left.dispose p.1.handle
  obtain ⟨-, hte⟩ := t.right.dispose p.2.handle
  rw [Ledger.dispose_of_mem t.left.distinct (List.mem_map_of_mem hp)] at htd
  rw [Ledger.dispose_of_mem t.right.distinct (List.mem_map_of_mem hp)] at hte
  have hstatus : Status.disposed ≠ .live := by decide
  exact t.close_one hp hstatus htd hte (List.append_nil _) (List.append_nil _)

theorem disposeOwner (t : Together now ps d e) (script : ObjectId) :
    ∃ ps, Together now ps (d.call (.disposeOwner script)) (e.call (.disposeOwner script)) := by
  have hstatus : Status.disposed ≠ .live := by decide
  refine t.close hstatus (t.left.disposeOwner script) (t.right.disposeOwner script)
    (List.append_nil _) (List.append_nil _) fun x hx => ?_
  rw [(t.alike x hx).context]

/-- A request is answered alike on both sides, and keeps them together. -/
theorem ask (t : Together now ps d e) (r : Request) (htime : ∀ time ∈ r.time?, time = now)
    (hroom : r.isIssue → d.issued.length < UInt32.size) :
    (∃ ps, Together now ps (d.ask r) (e.ask r)) ∧
      (d.answer? r).bind Arena.Answer.verdict? = (e.answer? r).bind Arena.Answer.verdict? := by
  cases r with
  | issue context policy time =>
    obtain rfl := htime time rfl
    exact ⟨t.issue context policy (hroom rfl), rfl⟩
  | disposeOwner script => exact ⟨t.disposeOwner script, rfl⟩
  | access k time =>
    obtain rfl := htime time rfl
    simp only [Desk.ask, Desk.answer?, Request.call?, t.leftIssued_get, t.rightIssued_get]
    cases hk : ps.reverse[k]? with
    | none => exact ⟨⟨ps, t⟩, rfl⟩
    | some p => exact t.access (List.mem_reverse.1 (List.mem_of_getElem? hk))
  | renew k time =>
    obtain rfl := htime time rfl
    simp only [Desk.ask, Desk.answer?, Request.call?, t.leftIssued_get, t.rightIssued_get]
    cases hk : ps.reverse[k]? with
    | none => exact ⟨⟨ps, t⟩, rfl⟩
    | some p => exact t.renew (List.mem_reverse.1 (List.mem_of_getElem? hk))
  | dispose k =>
    simp only [Desk.ask, Desk.answer?, Request.call?, t.leftIssued_get, t.rightIssued_get]
    cases hk : ps.reverse[k]? with
    | none => exact ⟨⟨ps, t⟩, rfl⟩
    | some p => exact ⟨t.dispose (List.mem_reverse.1 (List.mem_of_getElem? hk)), rfl⟩

theorem lease?_eq (t : Together now ps d e) (k : Nat) : d.lease? k now = e.lease? k now := by
  rw [Desk.lease?, Desk.lease?, t.leftIssued_get, t.rightIssued_get]
  cases hk : ps.reverse[k]? with
  | none => rfl
  | some p =>
    have hp : p ∈ ps := List.mem_reverse.1 (List.mem_of_getElem? hk)
    have hleft := List.mem_map_of_mem (f := Prod.fst) hp
    have hright := List.mem_map_of_mem (f := Prod.snd) hp
    have halike := t.alike p hp
    show d.arena.lease? p.1.handle now = e.arena.lease? p.2.handle now
    by_cases hover : p.1.Over now
    · rw [t.left.lease?_of_over hleft hover, t.right.lease?_of_over hright (halike.over_iff.1 hover)]
    · obtain ⟨hlive, hlive', hlease, hnot⟩ := halike.of_not_over hover
      rw [t.left.lease?_of_live hleft hlive hnot, t.right.lease?_of_live hright hlive' (hlease ▸ hnot),
        hlease]

end Together

end ScriptHost
