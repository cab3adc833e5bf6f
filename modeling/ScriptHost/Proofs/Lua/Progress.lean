import ScriptHost.Proofs.Lua.Ending

/-! How machines get on. Memory and budget are looked at before instructions and may take the control away
from the program, and finalizers may come; otherwise a step carries on with it. What a machine does can so be
followed whatever the counts of its memory and its work are, and a machine without bounds really gets there. -/

namespace ScriptHost.Lua.Machine

variable {m u : Machine} {P Q : Machine → Prop}

/-! ### Bounds -/

/-- A finalizer comes before the next instruction of the program, or one that did ends. -/
def IsInterrupted (m : Machine) : Prop :=
  m.due? ≠ none ∨ ∃ p, m.finalizing = .amid p ∧ ∃ r, m.step.control = .halt r

/-- Memory or budget keep a machine from its next instruction, or a finalizer does. -/
def IsHindered (m : Machine) : Prop :=
  m.IsInterrupted ∨ m.isInstruction = true ∧
    ((if m.isTight then m.measure else m).isTight = true ∨
      (m.meter.tick m.running.isEmpty m.isProgram).2 ≠ none)

/-- Something bounds what a machine may do, or there are finalizers that may come amid the program. -/
def IsBounded (m : Machine) : Prop :=
  m.heap.limit ≠ 0 ∨ m.meter.watched = true ∨ m.heap.marked ≠ [] ∨ ∃ p, m.finalizing = .amid p

theorem isBounded_of_isHindered (h : m.IsHindered) : m.IsBounded := by
  obtain (hdue | ⟨p, hamid, -⟩) | ⟨-, htight | habort⟩ := h
  · refine .inr (.inr (.inl fun hnone => hdue ?_))
    simp [due?, hnone]
  · exact .inr (.inr (.inr ⟨p, hamid⟩))
  · refine .inl fun hlimit => ?_
    have hslack : m.isTight = false := by simp [isTight, hlimit]
    rw [hslack] at htight
    simp [hslack] at htight
  · cases hwatched : m.meter.watched with
    | true => exact .inr (.inl hwatched)
    | false => simp [Meter.tick, hwatched] at habort

theorem beat_of_not_isInterrupted (h : ¬ m.IsInterrupted) : m.beat = m.step := by
  obtain ⟨hdue, hends⟩ := not_or.1 h
  unfold beat
  split
  · rename_i hsome
    exact absurd (hsome ▸ Option.some_ne_none _) hdue
  · rename_i p _ hamid
    unfold goBack
    split
    · rename_i r hhalt
      exact absurd ⟨p, hamid, r, hhalt⟩ hends
    · rfl
  · rfl

/-- A machine that is not hindered carries on. -/
theorem beat_of_not_isHindered (h : ¬ m.IsHindered) : ∃ used meter, meter.watched = m.meter.watched ∧
    m.beat = { m with heap := { m.heap with used }, meter }.carryOn := by
  obtain ⟨hcalm, h⟩ := not_or.1 h
  rw [beat_of_not_isInterrupted hcalm]
  by_cases hinstruction : m.isInstruction = true
  · obtain ⟨hslack, habort⟩ := not_or.1 fun hor => h ⟨hinstruction, hor⟩
    obtain ⟨used, hused⟩ := exists_measured m
    refine ⟨used, (m.meter.tick m.running.isEmpty m.isProgram).1, tick_watched _ _ _, ?_⟩
    unfold step
    rw [if_pos hinstruction]
    dsimp only
    rw [if_neg hslack, hused]
    have hprogram : Machine.isProgram { m with heap := { m.heap with used } } = m.isProgram := rfl
    rw [hprogram, Decidable.not_not.1 habort]
  · refine ⟨m.heap.used, m.meter, rfl, ?_⟩
    unfold step
    rw [if_neg hinstruction]

/-! ### Getting somewhere -/

theorem run_of_isStopped (h : m.isStopped = true) (n : Nat) : m.run n = m := by
  cases n with
  | zero => rfl
  | succ n => simp [run, h]

theorem run_of_not_isStopped (h : m.isStopped = false) (n : Nat) : m.run (n + 1) = m.beat.run n := by
  simp [run, h]

theorem run_add (m : Machine) (n k : Nat) : m.run (n + k) = (m.run n).run k := by
  induction n generalizing m with
  | zero => rw [Nat.zero_add, run]
  | succ n ih =>
    cases h : m.isStopped with
    | true => rw [run_of_isStopped h, run_of_isStopped h, run_of_isStopped h]
    | false => rw [Nat.add_right_comm, run_of_not_isStopped h, run_of_not_isStopped h, ih]

/-- Unless its bounds keep it from that, a machine comes to where a property holds. It gets no new bounds on the
way. -/
def Reaches (m : Machine) (P : Machine → Prop) : Prop :=
  ∃ n, P (m.run n) ∧ ((m.run n).IsBounded → m.IsBounded) ∨ m.IsBounded ∧ (m.run n).IsHindered

namespace Reaches

theorem trans (hp : m.Reaches P) (hq : ∀ u, P u → u.Reaches Q) : m.Reaches Q := by
  obtain ⟨n, ⟨hp, hbounded⟩ | hhindered⟩ := hp
  · obtain ⟨k, hq⟩ := hq _ hp
    refine ⟨n + k, ?_⟩
    rw [run_add]
    exact hq.imp (fun h => ⟨h.1, hbounded ∘ h.2⟩) fun h => ⟨hbounded h.1, h.2⟩
  · exact ⟨n, .inr hhindered⟩

theorem mono (h : m.Reaches P) (hpq : ∀ u, P u → Q u) : m.Reaches Q := by
  obtain ⟨n, h⟩ := h
  exact ⟨n, h.imp_left fun h => ⟨hpq _ h.1, h.2⟩⟩

/-- A machine that nothing bounds gets there. -/
theorem of_unbounded (h : m.Reaches P) (hfree : ¬ m.IsBounded) : ∃ n, P (m.run n) ∧ ¬ (m.run n).IsBounded := by
  obtain ⟨n, h | h⟩ := h
  · exact ⟨n, h.1, mt h.2 hfree⟩
  · exact absurd h.1 hfree

end Reaches

/-! ### From one thing to the next -/

/-- What a machine is doing: the function at work, its frames and the control. -/
structure Doing where
  act : Activation
  frames : List Frame
  control : Control

/-- A machine that does something, with a count of its memory and of its work. -/
def doing (m : Machine) (d : Doing) (used : Nat) (meter : Meter) : Machine :=
  { m with
    heap := { m.heap with used }, act := d.act, frames := d.frames, control := d.control, meter }

/-- Unless its bounds keep it from that, a machine comes from one thing to another, whatever its counts are, and
nothing else about it changes. -/
def Leads (m : Machine) (d e : Doing) : Prop :=
  ∀ used meter, (m.doing d used meter).Reaches fun u => ∃ used' meter', u = m.doing e used' meter'

namespace Leads

variable {d e f : Doing}

theorem trans (h : Leads m d e) (h' : Leads m e f) : Leads m d f := fun used meter =>
  (h used meter).trans fun _ ⟨used', meter', hu⟩ => hu ▸ h' used' meter'

/-- A step that counts work. -/
theorem counted (hgoes : ∀ used meter, (m.doing d used meter).isStopped = false)
    (hnext : ∀ used meter, ∃ used' meter', meter'.watched = meter.watched ∧
      (m.doing d used meter).carryOn = m.doing e used' meter') : Leads m d e := by
  intro used meter
  by_cases h : (m.doing d used meter).IsHindered
  · exact ⟨0, .inr ⟨isBounded_of_isHindered h, h⟩⟩
  · obtain ⟨used', meter', hwatched, hbeat⟩ := beat_of_not_isHindered h
    obtain ⟨used'', meter'', hwatched', hcarry⟩ := hnext used' meter'
    have hrun : (m.doing d used meter).run 1 = m.doing e used'' meter'' := by
      rw [run_of_not_isStopped (hgoes used meter)]
      exact hbeat.trans hcarry
    refine ⟨1, .inl ⟨⟨used'', meter'', hrun⟩, fun hbounded => ?_⟩⟩
    rw [hrun] at hbounded
    exact hbounded.imp_right (Or.imp_left ((hwatched'.trans hwatched).symm.trans ·))

/-- Any other step. -/
theorem one (hgoes : ∀ used meter, (m.doing d used meter).isStopped = false)
    (hnext : ∀ used meter, (m.doing d used meter).carryOn = m.doing e used meter) : Leads m d e :=
  counted hgoes fun used meter => ⟨used, meter, rfl, hnext used meter⟩

end Leads

/-! ### Routines -/

theorem indexChain_of_rawGet {heap : Heap} {t : Nat} {k v : Val} (fuel : Nat) (hv : heap.rawGet t k = v)
    (hsome : v.isNil = false) : Routine.indexChain (.table t) k (fuel + 1) heap = .done v heap := by
  unfold Routine.indexChain
  simp [hv, hsome]

theorem perform_of_done {r : Routine (List Val)} {vs : List Val} {heap : Heap} (who : Performer)
    (h : r m.heap = .done vs heap) :
    m.perform who r = { m with
      heap, control := .give vs
      meter := { m.meter with spent := m.meter.spent + (heap.used - m.heap.used) / 64 } } := by
  simp only [perform, h]

theorem operate_of_done {r : Routine Val} {v : Val} {heap : Heap} (o : Origin) (h : r m.heap = .done v heap) :
    m.operate o r = { m with
      heap, control := .give [v]
      meter := { m.meter with spent := m.meter.spent + (heap.used - m.heap.used) / 64 } } := by
  refine perform_of_done _ ?_
  show (r m.heap).bind _ = _
  rw [h]
  rfl

theorem perform_of_complain {r : Routine (List Val)} {c : Complaint} {heap : Heap} (who : Performer)
    (h : r m.heap = .complain c heap) :
    m.perform who r = ({ m with heap, control := .next } : Machine).complain who c := by
  simp only [perform, h, settle]

/-- An error with a place of level 0 has exactly the text that is given. -/
theorem callControl_error {b : Bytes} (hb : b ≠ memoryMessage) (name : Option Naming) :
    m.callControl .error name [.str b, .int 0] = m.raiseText b := by
  have hperform (r : Routine (List Val)) (h : r m.heap = .complain (.raised (.str b)) m.heap) :
      m.perform (.builtin (.control .error) name) r = m.raiseText b := by
    rw [perform_of_complain _ h]
    rfl
  unfold callControl
  dsimp only
  refine hperform _ ?_
  have hlevel (heap : Heap) : Routine.intArgD [.str b, .int 0] 1 1 heap = .done 0 heap := rfl
  have hempty : ByteArray.empty ++ b = b := ByteArray.empty_append
  have hother : ¬ (b == memoryMessage) = true := fun h =>
    hb (ByteArray.ext (LawfulBEq.eq_of_beq (α := Array UInt8) h))
  show Stage.bind (Routine.intArgD [.str b, .int 0] 1 1 m.heap) _ = _
  rw [hlevel]
  show Stage.complain (if (ByteArray.empty ++ b == memoryMessage) = true then Complaint.outOfMemory
    else .raised (.str (ByteArray.empty ++ b))) m.heap = _
  rw [hempty, if_neg hother]

theorem raise_of_handler_none (v : Val) (h : (handler? m.frames 0).1 = none) :
    m.raise ⟨v, false⟩ = m.go (.unwind ⟨v, false⟩) := by
  unfold raise
  generalize handler? m.frames 0 = found at h ⊢
  obtain ⟨handler, n⟩ := found
  cases h
  rfl

namespace Leads

variable {act : Activation} {fs : List Frame}

/-! ### Expressions -/

theorem const {k : Const} : Leads m ⟨act, fs, .eval (.const k)⟩ ⟨act, fs, .give [.ofConst k]⟩ :=
  .one (fun _ _ => rfl) fun _ _ => rfl

theorem vararg : Leads m ⟨act, fs, .eval .vararg⟩ ⟨act, fs, .give act.varargs⟩ :=
  .one (fun _ _ => rfl) fun _ _ => rfl

theorem upvalue {i a : Nat} {v : Val} {name : String} (ha : act.upvalues[i]? = some a)
    (hv : m.heap.cells[a]? = some v) :
    Leads m ⟨act, fs, .eval (.var (.upvalue i) name)⟩ ⟨act, fs, .give [v]⟩ := by
  have hcell : m.heap.cell (act.upvalues.getD i 0) = v := by
    rw [Heap.cell, Array.getD_eq_getD_getElem?, Array.getD_eq_getD_getElem?, ha, Option.getD_some, hv,
      Option.getD_some]
  subst hcell
  exact .one (fun _ _ => rfl) fun _ _ => rfl

theorem slot {i : Nat} {v : Val} {name : String} (hv : act.slots[i]? = some (.value v)) :
    Leads m ⟨act, fs, .eval (.var (.local i) name)⟩ ⟨act, fs, .give [v]⟩ := by
  refine .one (fun _ _ => rfl) fun used meter => ?_
  have hslot : (m.doing ⟨act, fs, .eval (.var (.local i) name)⟩ used meter).slot i = v := by
    simp only [Machine.slot, doing, hv]
  exact congrArg (giveOne _) hslot

theorem unary {op : UnaryOp} {e : Expr} {line : Nat} : Leads m ⟨act, fs, .eval (.unary op e line)⟩
    ⟨act, .expr (.unary op e line) :: fs, .eval e⟩ :=
  .one (fun _ _ => rfl) fun _ _ => rfl

theorem not {e : Expr} {line : Nat} {v : Val} : Leads m ⟨act, .expr (.unary .not e line) :: fs, .give [v]⟩
    ⟨act, fs, .give [.bool !v.isTrue]⟩ :=
  .one (fun _ _ => rfl) fun _ _ => rfl

theorem index {object key : Expr} {line : Nat} : Leads m ⟨act, fs, .eval (.index object key line)⟩
    ⟨act, .expr (.indexKey object key line) :: fs, .eval object⟩ :=
  .one (fun _ _ => rfl) fun _ _ => rfl

/-- A field that a table has itself. -/
theorem field {t : Nat} {k : Const} {v : Val} {object : Expr} {line : Nat}
    (hv : m.heap.rawGet t (.ofConst k) = v) (hsome : v.isNil = false) :
    Leads m ⟨act, .expr (.indexKey object (.const k) line) :: fs, .give [.table t]⟩ ⟨act, fs, .give [v]⟩ := by
  have hkey : Leads m ⟨act, .expr (.indexKey object (.const k) line) :: fs, .give [.table t]⟩
      ⟨act, .expr (.indexWith (.table t) object line) :: fs, .eval (.const k)⟩ :=
    .one (fun _ _ => rfl) fun _ _ => rfl
  refine hkey.trans (.trans .const (.counted (fun _ _ => rfl) fun used meter => ?_))
  have hindex : Routine.index (.table t) (.ofConst k) { m.heap with used } = .done v { m.heap with used } :=
    indexChain_of_rawGet 1999 hv hsome
  refine ⟨used, { meter with spent := meter.spent + (used - used) / 64 }, rfl, ?_⟩
  exact operate_of_done (m := m.doing ⟨act, fs, .give [.ofConst k]⟩ used meter) _ hindex

theorem call {f : Expr} {args : List Expr} {line : Nat} : Leads m ⟨act, fs, .eval (.call f args line)⟩
    ⟨act, .expr (.callee f args line false) :: fs, .eval f⟩ :=
  .one (fun _ _ => rfl) fun _ _ => rfl

theorem callee {f e : Expr} {es : List Expr} {line : Nat} {tail : Bool} {v : Val} :
    Leads m ⟨act, .expr (.callee f (e :: es) line tail) :: fs, .give [v]⟩
      ⟨act, .expr (.items [] es (.call v f.naming? line tail)) :: fs, .eval e⟩ :=
  .one (fun _ _ => rfl) fun _ _ => rfl

theorem item {e : Expr} {done : List Val} {es : List Expr} {use : Use} {v : Val} :
    Leads m ⟨act, .expr (.items done (e :: es) use) :: fs, .give [v]⟩
      ⟨act, .expr (.items (v :: done) es use) :: fs, .eval e⟩ :=
  .one (fun _ _ => rfl) fun _ _ => rfl

theorem invoke {f : Val} {done vs : List Val} {name : Option Naming} {line : Nat} :
    Leads m ⟨act, .expr (.items done [] (.call f name line false)) :: fs, .give vs⟩
      ⟨{ act with line }, fs, .invoke f (done.reverseAux vs) name⟩ :=
  .one (fun _ _ => rfl) fun _ _ => rfl

/-! ### Statements -/

theorem block {s : Stat} {rest all : List Stat} {base : Nat} :
    Leads m ⟨act, .stat (.block (s :: rest) all base) :: fs, .next⟩
      ⟨act, .stat (.block rest all base) :: fs, .exec s⟩ :=
  .one (fun _ _ => rfl) fun _ _ => rfl

/-- A block has ended within another one. -/
theorem blockEnd {inner rest all : List Stat} {base : Nat} :
    Leads m ⟨act, .stat (.block [] inner act.slots.size) :: .stat (.block rest all base) :: fs, .next⟩
      ⟨act, .stat (.block rest all base) :: fs, .next⟩ := by
  refine .one (fun _ _ => rfl) fun used meter => ?_
  have hslots : act.slots.shrink act.slots.size = act.slots := by simp
  show ({ m with
    heap := { m.heap with used }, act := { act with slots := act.slots.shrink act.slots.size }
    frames := .stat (.block rest all base) :: fs, control := .next, meter } : Machine) = _
  rw [hslots]
  rfl

theorem locals {names : List String} {e : Expr} {es : List Expr} {line : Nat} :
    Leads m ⟨act, fs, .exec (.locals names none (e :: es) line)⟩
      ⟨act, .expr (.items [] es (.locals names none line)) :: fs, .eval e⟩ :=
  .one (fun _ _ => rfl) fun _ _ => rfl

theorem bind {first second : String} {line : Nat} {v w : Val} :
    Leads m ⟨act, .expr (.items [] [] (.locals [first, second] none line)) :: fs, .give [v, w]⟩
      ⟨{ act with slots := (act.slots.push (.value v)).push (.value w) }, fs, .next⟩ :=
  .one (fun _ _ => rfl) fun _ _ => rfl

theorem ifStat {e : Expr} {body rest : List Stat} : Leads m ⟨act, fs, .exec (.if e body rest)⟩
    ⟨act, .stat (.ifTest body rest) :: fs, .eval e⟩ :=
  .one (fun _ _ => rfl) fun _ _ => rfl

theorem ifTest {body rest : List Stat} {b : Bool} :
    Leads m ⟨act, .stat (.ifTest body rest) :: fs, .give [.bool b]⟩
      ⟨act, .stat (.block (if b then body else rest) (if b then body else rest) act.slots.size) :: fs, .next⟩ := by
  cases b <;> exact .one (fun _ _ => rfl) fun _ _ => rfl

theorem callStat {e : Expr} :
    Leads m ⟨act, fs, .exec (.call e)⟩ ⟨act, .stat .discard :: fs, .eval e⟩ :=
  .one (fun _ _ => rfl) fun _ _ => rfl

theorem discard {vs : List Val} :
    Leads m ⟨act, .stat .discard :: fs, .give vs⟩ ⟨act, fs, .next⟩ :=
  .one (fun _ _ => rfl) fun _ _ => rfl

theorem returnStat {p : Place} {name : String} {line : Nat} :
    Leads m ⟨act, fs, .exec (.return [.var p name] line)⟩
      ⟨act, .expr (.items [] [] .result) :: fs, .eval (.var p name)⟩ :=
  .one (fun _ _ => rfl) fun _ _ => rfl

/-! ### Functions -/

theorem enter {a : Nat} {captures : List Capture} {names : List String} {body : List Stat}
    {line lastLine : Nat} {chunk : Bytes} {upvalues : Array Nat}
    (ha : m.heap.closures[a]? = some ⟨.mk 0 true captures names body line lastLine, chunk, upvalues⟩)
    (hdepth : act.depth < maxDepth) {args : List Val} {name : Option Naming} :
    Leads m ⟨act, fs, .invoke (.function a) args name⟩
      ⟨⟨chunk, 0, #[], upvalues, args, act.depth + 1⟩, .stat (.block body body 0) :: .caller act :: fs, .next⟩ := by
  have hlookup : m.heap.closures.getD a default = ⟨.mk 0 true captures names body line lastLine, chunk, upvalues⟩ := by
    rw [Array.getD_eq_getD_getElem?, ha, Option.getD_some]
  refine .one (fun _ _ => rfl) fun used meter => ?_
  show enterClosure _ (m.heap.closures.getD a default) args = _
  rw [hlookup]
  show (if act.depth + 1 > maxDepth then _ else _) = _
  rw [if_neg (by omega)]
  rfl

/-- The function at work hands on what it returns. -/
theorem leave {rest all : List Stat} {base : Nat} {saved : Activation} {vs : List Val} :
    Leads m ⟨act, .expr (.items [] [] .result) :: .stat (.block rest all base) :: .caller saved :: fs, .give vs⟩
      ⟨saved, fs, .give vs⟩ := by
  have hresult : Leads m
      ⟨act, .expr (.items [] [] .result) :: .stat (.block rest all base) :: .caller saved :: fs, .give vs⟩
      ⟨act, .stat (.block rest all base) :: .caller saved :: fs, .leave (.function vs)⟩ :=
    .one (fun _ _ => rfl) fun _ _ => rfl
  have hblock : Leads m ⟨act, .stat (.block rest all base) :: .caller saved :: fs, .leave (.function vs)⟩
      ⟨act, .caller saved :: fs, .leave (.function vs)⟩ :=
    .one (fun _ _ => rfl) fun _ _ => rfl
  have hcaller : Leads m ⟨act, .caller saved :: fs, .leave (.function vs)⟩ ⟨saved, fs, .give vs⟩ :=
    .one (fun _ _ => rfl) fun _ _ => rfl
  exact hresult.trans (hblock.trans hcaller)

theorem ask {f : String} {args : List Val} {name : Option Naming} :
    Leads m ⟨act, fs, .invoke (.builtin (.host f)) args name⟩ ⟨act, fs, .ask f args⟩ :=
  .one (fun _ _ => rfl) fun _ _ => rfl

theorem error {b : Bytes} (hb : b ≠ memoryMessage) {name : Option Naming} :
    Leads m ⟨act, fs, .invoke (.builtin (.control .error)) [.str b, .int 0] name⟩
      ⟨act, fs, .raise ⟨.str b, false⟩⟩ := by
  refine .one (fun _ _ => rfl) fun used meter => ?_
  exact callControl_error (m := m.doing ⟨act, fs, _⟩ used meter) hb name

end Leads

end ScriptHost.Lua.Machine
