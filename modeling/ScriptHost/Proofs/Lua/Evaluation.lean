import ScriptHost.Proofs.Lua.Frames

/-! Evaluation ends. On sound frames every expression and every statement leads to an outcome, so frames that
wait for one are sound again. The induction is on the instructions that are left before the abort is raised
again: between two of them only the text of the program is gone through. -/

namespace ScriptHost.Lua.Machine

variable {c c' d n ρ : Nat} {fs : List Frame} {f : Frame} {g : StatFrame} {m : Machine}

/-- Frames that belong to the function at work. -/
inductive Plain : Frame → Prop
  | expr (f : ExprFrame) : Plain (.expr f)
  | stat (g : StatFrame) : Plain (.stat g)
  | toClose (v : Val) : Plain (.toClose v)
  | closed (after : Resumption) : Plain (.closed after)

theorem room_plain (h : Plain f) : room d n (f :: fs) = room d n fs := by cases h <;> rfl

/-- Sound frames with less room than `ρ`. -/
structure Ground (ρ c d n : Nat) (fs : List Frame) : Prop where
  room : room d n fs < ρ
  sound : Sound c d n fs

theorem Ground.mono (h : Ground ρ c d n fs) (hle : c' ≤ c) : Ground ρ c' d n fs :=
  ⟨h.room, h.sound.mono hle⟩

theorem Ground.push (h : Ground ρ c d n fs) (hf : Plain f) (hs : Sound c d n (f :: fs)) :
    Ground ρ c d n (f :: fs) :=
  ⟨(room_plain hf).symm ▸ h.room, hs⟩

theorem Ground.invoke (h : Ground ρ c d n fs) (hcalls : Calls ρ) (hm : Stands c d n fs m) (f : Val)
    (args : List Val) (name : Option Naming) : Ends (m.go (.invoke f args name)) :=
  hcalls h.room h.sound hm f args name

/-- With `c` instructions left, whatever a function does on sound frames leads to an end. -/
structure Runs (ρ c d n : Nat) : Prop where
  push : ∀ {fs : List Frame} {f : Frame}, Ground ρ c d n fs → Plain f → Ground ρ c d n (f :: fs)
  evals : ∀ {fs : List Frame} {m : Machine}, Ground ρ c d n fs → Stands c d n fs m → ∀ e,
    Ends (m.go (.eval e))
  execs : ∀ {fs : List Frame} {m : Machine}, Ground ρ c d n fs → Stands c d n fs m → ∀ s,
    Ends (m.go (.exec s))

/-! ### The ends of statements -/

namespace Runs

variable (h : Runs ρ c d n) (hg : Ground ρ c d n fs) (hm : Stands c d n fs m)

include h hg hm

theorem evalFor (g : StatFrame) (e : Expr) : Ends (m.evalFor g e) :=
  h.evals (h.push hg (.stat g)) (hm.push _) e

theorem evalIn (f : ExprFrame) (e : Expr) : Ends (m.evalIn f e) :=
  h.evals (h.push hg (.expr f)) (hm.push _) e

theorem enter (body : List Stat) : Ends (m.enter body) :=
  (h.push hg (.stat _)).sound.nexts (hm.push _)

theorem numericRound (v : Val) (loop : NumericLoop) (body : List Stat) (base : Nat) :
    Ends (m.numericRound v loop body base) :=
  h.enter (h.push hg (.stat _)) (((hm.keep _).bind _ _).push _) body

/-- Once a statement has been carried out, the next one or a condition follows. -/
theorem nextStat (hcalls : Calls ρ) (g : StatFrame) : Ends (m.nextStat g) := by
  unfold Machine.nextStat
  split
  · exact h.execs (h.push hg (.stat _)) (hm.push _) _
  · split
    · exact hg.sound.nexts hm
    · exact hg.sound.nexts (hm.keep _)
  · exact h.evalFor hg (hm.keep _) _ _
  · exact h.evalFor hg hm _ _
  · split
    · exact h.numericRound hg hm _ _ _ _
    · exact hg.sound.nexts (hm.keep _)
  · exact (h.push hg (.stat _)).invoke hcalls (((hm.keep _).atLine _).push _) _ _ _
  · exact hg.sound.nexts hm

end Runs

/-! ### Frames that wait -/

/-- Sound frames from which deeper calls end, and on which all is well with fewer instructions left. -/
structure Level (ρ c d n : Nat) (fs : List Frame) : Prop extends Ground ρ c d n fs where
  calls : Calls ρ
  less : ∀ c' < c, Runs ρ c' d n

namespace Level

variable (h : Level ρ c d n fs)

include h

/-- On more frames of the same function. -/
theorem onto (hf : Plain f) (hs : Sound c d n (f :: fs)) : Level ρ c d n (f :: fs) :=
  ⟨h.push hf hs, h.calls, h.less⟩

theorem rises : Rises d n fs := Machine.rises h.calls (Nat.le_of_lt h.room) h.sound.falls

theorem perform (hm : Stands c d n fs m) (who : Performer) (r : Routine (List Val)) :
    Ends (m.perform who r) :=
  ends_perform h.calls (Nat.le_of_lt h.room) h.sound hm who r

theorem closeVariable (hm : Stands c d n fs m) {after : Resumption}
    (hafter : ∀ ⦃m : Machine⦄, Stands c d n fs m → Ends (m.continueWith after)) (v e : Val) :
    Ends (m.closeVariable v e after) :=
  ends_closeVariable h.calls h.room h.sound.falls hafter hm v e

/-- No function call lies between the frames of one function. -/
theorem risesOver (hf : Plain f) (hfalls : Falls d n (f :: fs)) : Rises d n (f :: fs) :=
  Machine.rises h.calls (Nat.le_of_lt ((room_plain hf).symm ▸ h.room)) hfalls

/-- Before a statement is gone on with, an instruction is counted. -/
theorem nexts (hm : Stands c d n (.stat g :: fs) m) : Ends (m.go .next) := by
  have hfalls : Falls d n (.stat g :: fs) := .cons fun _ _ hm e => h.sound.falls hm e
  refine ends_next hfalls (h.risesOver (.stat g) hfalls) (fun c' hlt m hm => ?_) hm
  exact (h.less c' hlt).nextStat (h.toGround.mono (Nat.le_of_lt hlt)) hm h.calls g

theorem enter (hm : Stands c d n fs m) (body : List Stat) : Ends (m.enter body) := h.nexts (hm.push _)

/-- On the way out of a block its locals are dropped, or a label is found in it. -/
theorem leaveStat (hm : Stands c d n fs m) (g : StatFrame) (x : Exit) : Ends (m.leaveStat g x) := by
  unfold Machine.leaveStat
  split
  · split
    · exact h.nexts ((hm.keep _).push _)
    · exact h.sound.leaves hm _
  all_goals first | exact h.sound.nexts (hm.keep _) | exact h.sound.leaves hm _

/-- A variable is closed on every way out of its block. -/
theorem toClose (v : Val) : Sound c d n (.toClose v :: fs) := by
  have hfalls : Falls d n (.toClose v :: fs) := .toClose h.calls h.room h.sound.falls v
  have hnext ⦃m : Machine⦄ (hm : Stands c d n fs m) : Ends (m.continueWith .next) := h.sound.nexts hm
  refine .cons hfalls (h.risesOver (.toClose v) hfalls) ?_ ?_ ?_ ?_ ?_
  · exact fun _ hm _ => h.sound.nexts hm
  · exact fun c' hlt _ hm => h.closeVariable (hm.mono (Nat.le_of_lt hlt)) hnext v .nil
  · intro m hm x
    have hleave ⦃m : Machine⦄ (hm : Stands c d n fs m) : Ends (m.continueWith (.leave x)) :=
      h.sound.leaves hm x
    exact h.closeVariable hm hleave v .nil
  · exact fun _ _ htail => by cases htail
  · exact fun _ hf => by cases hf

/-- What waits for the end of a statement, or for values, is sound if it ends with values. -/
theorem stat (hgive : ∀ ⦃m : Machine⦄, Stands c d n fs m → ∀ vs, Ends (m.giveStat g vs)) :
    Sound c d n (.stat g :: fs) := by
  have hfalls : Falls d n (.stat g :: fs) := .cons fun _ _ hm e => h.sound.falls hm e
  refine .cons hfalls (h.risesOver (.stat g) hfalls) hgive ?_ ?_ h.sound.tails ?_
  · exact fun c' hlt _ hm => (h.less c' hlt).nextStat (h.toGround.mono (Nat.le_of_lt hlt)) hm h.calls g
  · exact fun _ hm x => h.leaveStat hm g x
  · intro g' hg m v hm
    exact (h.onto (.toClose v) (h.toClose v)).nexts hm

/-- So is what waits for the values of an expression. -/
theorem expr {e : ExprFrame} (hgive : ∀ ⦃m : Machine⦄, Stands c d n fs m → ∀ vs, Ends (m.giveExpr e vs)) :
    Sound c d n (.expr e :: fs) := by
  have hfalls : Falls d n (.expr e :: fs) := .cons fun _ _ hm e => h.sound.falls hm e
  refine .cons hfalls (h.risesOver (.expr e) hfalls) hgive ?_ ?_ h.sound.tails fun _ hf => by cases hf
  · exact fun c' hlt _ hm => hgive (hm.mono (Nat.le_of_lt hlt)) []
  · exact fun _ hm x => h.sound.leaves hm x

/-! ### Expressions -/

theorem one : Sound c d n (.expr .one :: fs) := h.expr fun _ hm _ => h.sound.gives hm _

theorem operate (hm : Stands c d n fs m) (o : Origin) (r : Routine Val) : Ends (m.operate o r) :=
  h.perform hm _ _

/-- Raising an error at a line of the function at work. -/
theorem raiseHere (hm : Stands c d n fs m) (message : String) : Ends (m.raiseHere message) := h.rises hm _

end Level

/-- The items of a table are evaluated one by one. -/
theorem Runs.construct (h : Runs ρ c d n) (hg : Ground ρ c d n fs) (hm : Stands c d n fs m) (t : Nat)
    (done : List Val) (items : List Item) : Ends (m.construct t done items) := by
  unfold Machine.construct
  split
  · dsimp only
    split
    · exact hg.sound.gives hm _
    · exact hg.sound.gives (hm.withHeap _) _
  · exact h.evalIn hg hm _ _
  · exact h.evalIn hg hm _ _

/-- Evaluating an expression, by induction on the parentheses around it: those take no instruction. -/
theorem Level.eval (h : Level ρ c d n fs) (hm : Stands c d n fs m) (e : Expr) : Ends (m.go (.eval e)) := by
  induction hsize : sizeOf e using Nat.strongRecOn generalizing e fs m with
  | ind size ih =>
  have hsub (hcounts : (m.go (.eval e)).isInstruction = true)
      (hrest : ∀ c' < c, ∀ {m : Machine}, Runs ρ c' d n → Ground ρ c' d n fs → Stands c' d n fs m →
        Ends (m.eval e)) : Ends (m.go (.eval e)) :=
    hm.ends_counted hcounts h.sound.falls h.rises fun c' hlt _ hm _ =>
      hrest c' hlt (h.less c' hlt) (h.toGround.mono (Nat.le_of_lt hlt)) (hm.go _)
  cases e with
  | const | var | vararg => exact hm.ends_quiet rfl fun hm _ => h.sound.gives (hm.go _) _
  | paren e =>
    have hone := h.onto (.expr .one) h.one
    exact hm.ends_quiet rfl fun hm _ => ih _ (by rw [← hsize]; simp) hone ((hm.go _).push _) e rfl
  | closure body => exact hsub rfl fun _ _ _ _ hg hm => hg.sound.gives (hm.close body) _
  | table items line =>
    refine hsub rfl fun c' hlt m hr hg hm => ?_
    simp only [Machine.eval]
    exact hr.construct hg (hm.withHeap _) _ _ _
  | index | call | method | unary | binary => exact hsub rfl fun _ _ _ hr hg hm => hr.evalIn hg hm _ _

namespace Level

variable (h : Level ρ c d n fs)

include h

/-! ### Frames that need no other -/

theorem evalIn {e : ExprFrame} (hs : Sound c d n (.expr e :: fs)) (hm : Stands c d n fs m) (a : Expr) :
    Ends (m.evalIn e a) :=
  (h.onto (.expr e) hs).eval (hm.push _) a

theorem evalFor (hs : Sound c d n (.stat g :: fs)) (hm : Stands c d n fs m) (a : Expr) :
    Ends (m.evalFor g a) :=
  (h.onto (.stat g) hs).eval (hm.push _) a

theorem indexWith (t : Val) (object : Expr) (line : Nat) : Sound c d n (.expr (.indexWith t object line) :: fs) :=
  h.expr fun _ hm _ => h.operate hm _ _

theorem unary (op : UnaryOp) (e : Expr) (line : Nat) : Sound c d n (.expr (.unary op e line) :: fs) := by
  refine h.expr fun m hm vs => ?_
  cases op with
  | not => exact h.sound.gives hm _
  | _ => exact h.operate hm _ _

theorem right (op : BinaryOp) (v : Val) (a b : Expr) (line : Nat) :
    Sound c d n (.expr (.right op v a b line) :: fs) := by
  refine h.expr fun m hm vs => ?_
  cases op with
  | and | or => exact h.sound.gives hm _
  | arith | concat => exact h.operate hm _ _
  | compare => exact h.perform hm _ _

theorem left (op : BinaryOp) (a b : Expr) (line : Nat) : Sound c d n (.expr (.left op a b line) :: fs) := by
  refine h.expr fun m hm vs => ?_
  show Ends (m.giveExpr (.left op a b line) vs)
  unfold giveExpr
  dsimp only
  cases op with
  | and | or =>
    dsimp only
    split <;> first | exact h.sound.gives hm _ | exact h.evalIn h.one hm b
  | _ => exact h.evalIn (h.right _ _ a b line) hm b

theorem indexKey (object key : Expr) (line : Nat) : Sound c d n (.expr (.indexKey object key line) :: fs) :=
  h.expr fun _ hm _ => h.evalIn (h.indexWith _ object line) hm key

theorem waiting (hg : ∀ (m : Machine) vs, m.giveStat g vs = m.go .next) : Sound c d n (.stat g :: fs) :=
  h.stat fun m hm vs => by rw [hg]; exact h.sound.nexts hm

theorem returning : Sound c d n (.stat .returning :: fs) := h.stat fun _ hm _ => h.sound.leaves hm _

theorem numericRound (hm : Stands c d n fs m) (v : Val) (loop : NumericLoop) (body : List Stat) (base : Nat) :
    Ends (m.numericRound v loop body base) :=
  (h.onto (.stat _) (h.waiting fun _ _ => rfl)).enter (((hm.keep _).bind _ _).push _) body

theorem ifTest (body rest : List Stat) : Sound c d n (.stat (.ifTest body rest) :: fs) := by
  refine h.stat fun m hm vs => ?_
  unfold giveStat
  dsimp only
  split <;> exact h.enter hm _

theorem whileTest (e : Expr) (body : List Stat) (base : Nat) : Sound c d n (.stat (.whileTest e body base) :: fs) := by
  refine h.stat fun m hm vs => ?_
  unfold giveStat
  dsimp only
  split
  · exact (h.onto (.stat _) (h.waiting fun _ _ => rfl)).enter (hm.push _) _
  · exact h.sound.nexts hm

theorem repeatTest (body : List Stat) (e : Expr) (base : Nat) :
    Sound c d n (.stat (.repeatTest body e base) :: fs) := by
  refine h.stat fun m hm vs => ?_
  unfold giveStat
  dsimp only
  split
  · exact h.sound.nexts (hm.keep _)
  · exact (h.onto (.stat _) (h.waiting fun _ _ => rfl)).enter ((hm.keep _).push _) _

theorem genericCall (f state : Val) (names : Nat) (body : List Stat) (base line : Nat) :
    Sound c d n (.stat (.genericCall f state names body base line) :: fs) := by
  refine h.stat fun m hm vs => ?_
  unfold giveStat
  dsimp only
  split
  · exact h.sound.nexts (hm.keep _)
  · exact (h.onto (.stat _) (h.waiting fun _ _ => rfl)).enter (((hm.keep _).bind _ _).push _) _

/-! ### Values at their use -/

/-- In tail position the function at work may have made room. -/
theorem callFrom (hm : Stands c d n fs m) (f : Val) (args : List Val) (name : Option Naming) (line : Nat)
    (tail : Bool) : Ends (m.callFrom f args name line tail) := by
  unfold Machine.callFrom
  split
  · split
    · rename_i a saved rest htail
      rw [hm.frames] at htail
      have hm' : Stands c saved.depth n rest { m with act := saved, frames := rest } :=
        ⟨rfl, rfl, hm.nesting, hm.aborted, hm.watched, hm.left⟩
      exact h.sound.tails htail hm' a args name
    · exact (h.push (.stat _) h.returning).invoke h.calls ((hm.atLine _).push _) _ _ _
  · exact h.toGround.invoke h.calls (hm.atLine _) _ _ _

theorem assign (hm : Stands c d n fs m) (t : Target) (v : Val) : Ends (m.assign t v) := by
  cases t with
  | var p => exact h.sound.gives (hm.setPlace p v) []
  | field t k object line => exact h.perform hm _ _

theorem assigned (rest : List (Target × Val)) : Sound c d n (.stat (.assigned rest) :: fs) := by
  induction rest with
  | nil => exact h.waiting fun _ _ => rfl
  | cons tw rest ih => exact h.stat fun _ hm _ => (h.onto (.stat _) ih).assign (hm.push _) _ _

/-- A variable that is to be closed stands under its block, which has none yet. -/
theorem ends_toClose (hm : Stands c d n fs m) (v : Val) (name : String) : Ends (m.toClose v name true) := by
  unfold Machine.toClose
  split
  · exact h.sound.nexts hm
  · split
    · exact h.raiseHere hm _
    · split
      · rename_i g rest hframes _
        have hfs : fs = .stat g :: rest := hm.frames ▸ hframes
        have hm' : Stands c d n (.stat g :: .toClose v :: rest)
            { m with frames := .stat g :: .toClose v :: rest, control := .next } :=
          hm.of_budget rfl rfl rfl rfl
        exact h.sound.closes hfs hm'
      · exact (h.toClose v).nexts (hm.push _)

omit h in
/-- A variable that is to be closed may also stand above its block. -/
theorem toClose_above (m : Machine) (v : Val) (name : String) :
    m.toClose v name false = m.go .next ∨ (∃ e, m.toClose v name false = m.go (.raise e)) ∨
      m.toClose v name false = (m.push (.toClose v)).go .next := by
  unfold Machine.toClose
  split
  · exact .inl rfl
  · split
    · exact .inr (.inl ⟨_, rfl⟩)
    · refine .inr (.inr ?_)
      split
      · contradiction
      · rfl

/-- A loop over what a function gives begins with a call of that. -/
theorem genericFor (hm : Stands c d n fs m) (names : Nat) (body : List Stat) (line : Nat) (vs : List Val) :
    Ends (m.useValues vs (.genericFor names body line)) := by
  have hm' : Stands c d n fs ((m.bind [] genericHidden).atLine line) := (hm.bind _ _).atLine _
  unfold Machine.useValues
  dsimp only
  rcases toClose_above ((m.bind [] genericHidden).atLine line) (vs.getD 3 .nil) "(for state)" with
    heq | ⟨e, heq⟩ | heq <;> rw [heq]
  · exact (h.push (.stat _) (h.genericCall _ _ names body _ line)).invoke h.calls (hm'.push _) _ _ _
  · exact h.rises hm' e
  · have hclosing := h.onto (.toClose _) (h.toClose (vs.getD 3 .nil))
    exact (hclosing.push (.stat _) (hclosing.genericCall _ _ names body _ line)).invoke h.calls
      ((hm'.push _).push _) _ _ _

theorem useValues (hm : Stands c d n fs m) (vs : List Val) (use : Use) : Ends (m.useValues vs use) := by
  cases use with
  | call f name line tail => exact h.callFrom hm f vs name line tail
  | «locals» names closing line =>
    cases closing with
    | none => exact h.sound.nexts (hm.bind _ _)
    | some i => exact h.ends_toClose ((hm.bind _ _).atLine _) _ _
  | assign targets line =>
    unfold Machine.useValues
    dsimp only
    split
    · exact h.sound.nexts hm
    · exact (h.onto (.stat _) (h.assigned _)).assign (hm.push _) _ _
  | result => exact h.sound.leaves hm _
  | numericFor body line =>
    unfold Machine.useValues
    dsimp only
    split
    · exact h.raiseHere (hm.atLine _) _
    · exact h.sound.nexts hm
    · exact h.numericRound (hm.bind _ _) _ _ _ _
  | genericFor names body line => exact h.genericFor hm names body line vs

theorem items (done : List Val) (rest : List Expr) (use : Use) :
    Sound c d n (.expr (.items done rest use) :: fs) := by
  induction rest generalizing done with
  | nil => exact h.expr fun _ hm _ => h.useValues hm _ use
  | cons e rest ih => exact h.expr fun _ hm _ => h.evalIn (ih _) hm e

theorem evalList (hm : Stands c d n fs m) (es : List Expr) (use : Use) : Ends (m.evalList es use) := by
  cases es with
  | nil => exact h.useValues hm [] use
  | cons e rest => exact h.evalIn (h.items [] rest use) hm e

theorem callee (f : Expr) (args : List Expr) (line : Nat) (tail : Bool) :
    Sound c d n (.expr (.callee f args line tail) :: fs) :=
  h.expr fun _ hm _ => h.evalList hm args _

theorem methodOf (self : Val) (name : String) (args : List Expr) (line : Nat) (tail : Bool) :
    Sound c d n (.expr (.methodOf self name args line tail) :: fs) := by
  refine h.expr fun m hm vs => ?_
  cases args with
  | nil => exact h.callFrom hm _ _ _ line tail
  | cons e rest => exact h.evalIn (h.items _ rest _) hm e

theorem receiver (object : Expr) (name : String) (args : List Expr) (line : Nat) (tail : Bool) :
    Sound c d n (.expr (.receiver object name args line tail) :: fs) :=
  h.expr fun _ hm _ => (h.onto (.expr _) (h.methodOf _ name args line tail)).operate (hm.push _) _ _

/-! ### Tables under construction -/

section

variable {t : Nat} {rest : List Item}
  (hrest : ∀ ⦃m : Machine⦄, Stands c d n fs m → ∀ done, Ends (m.construct t done rest))

include hrest

theorem tableItem_of (done : List Val) : Sound c d n (.expr (.tableItem t done rest) :: fs) := by
  refine h.expr fun m hm vs => ?_
  cases rest <;> exact hrest hm _

theorem constructing_of (done : List Val) : Sound c d n (.stat (.constructing t done rest) :: fs) :=
  h.stat fun _ hm _ => hrest hm done

theorem tableValue_of (k : Val) (done : List Val) (line : Nat) :
    Sound c d n (.expr (.tableValue t k done rest line) :: fs) :=
  h.expr fun _ hm _ => (h.onto (.stat _) (h.constructing_of hrest done)).perform (hm.push _) _ _

theorem tableKey_of (done : List Val) (value : Expr) (line : Nat) :
    Sound c d n (.expr (.tableKey t done value rest line) :: fs) :=
  h.expr fun _ hm _ => h.evalIn (h.tableValue_of hrest _ done line) hm value

end

/-- The items of a table are evaluated one by one. -/
theorem construct (t : Nat) (items : List Item) (hm : Stands c d n fs m) (done : List Val) :
    Ends (m.construct t done items) := by
  induction items generalizing m done with
  | nil =>
    unfold Machine.construct
    dsimp only
    split
    · exact h.sound.gives hm _
    · exact h.sound.gives (hm.withHeap _) _
  | cons item rest ih =>
    have hrest ⦃m : Machine⦄ (hm : Stands c d n fs m) (done : List Val) : Ends (m.construct t done rest) :=
      ih hm done
    cases item with
    | positional e => exact h.evalIn (h.tableItem_of hrest done) hm e
    | keyed k v line => exact h.evalIn (h.tableKey_of hrest done v line) hm k

/-! ### Targets of assignments -/

section

variable {rest values : List Expr} {statement : Nat}
  (hrest : ∀ ⦃m : Machine⦄, Stands c d n fs m → ∀ done, Ends (m.evalTargets done rest values statement))

include hrest

theorem targetKey_of (v : Val) (object : Expr) (line : Nat) (done : List Target) :
    Sound c d n (.stat (.targetKey v object line done rest values statement) :: fs) :=
  h.stat fun _ hm _ => hrest hm _

theorem targetTable_of (object key : Expr) (line : Nat) (done : List Target) :
    Sound c d n (.stat (.targetTable object key line done rest values statement) :: fs) :=
  h.stat fun _ hm _ => h.evalFor (h.targetKey_of hrest _ object line done) hm key

end

theorem evalTargets (targets values : List Expr) (statement : Nat) (hm : Stands c d n fs m)
    (done : List Target) : Ends (m.evalTargets done targets values statement) := by
  induction targets generalizing m done with
  | nil => exact h.evalList hm values _
  | cons target rest ih =>
    have hrest ⦃m : Machine⦄ (hm : Stands c d n fs m) (done : List Target) :
        Ends (m.evalTargets done rest values statement) := ih hm done
    unfold Machine.evalTargets
    cases target with
    | var p name => exact ih hm _
    | index object key line => exact h.evalFor (h.targetTable_of hrest object key line done) hm object
    | _ => exact ih hm done

/-! ### All frames -/

/-- Every frame of the function at work is sound on sound frames. -/
theorem plain (hf : Plain f) : Sound c d n (f :: fs) := by
  cases hf with
  | toClose v => exact h.toClose v
  | closed after =>
    refine .closed h.calls (Nat.le_of_lt h.room) h.sound.falls fun m hm => ?_
    cases after with
    | next => exact h.sound.nexts hm
    | leave x => exact h.sound.leaves hm x
    | unwind e => exact h.sound.falls hm e
  | expr e =>
    cases e with
    | indexKey object key line => exact h.indexKey object key line
    | indexWith t object line => exact h.indexWith t object line
    | unary op e line => exact h.unary op e line
    | left op a b line => exact h.left op a b line
    | right op v a b line => exact h.right op v a b line
    | one => exact h.one
    | items done rest use => exact h.items done rest use
    | callee f args line tail => exact h.callee f args line tail
    | receiver object name args line tail => exact h.receiver object name args line tail
    | methodOf self name args line tail => exact h.methodOf self name args line tail
    | tableItem t done rest => exact h.tableItem_of (fun _ => h.construct t rest) done
    | tableKey t done value rest line => exact h.tableKey_of (fun _ => h.construct t rest) done value line
    | tableValue t k done rest line => exact h.tableValue_of (fun _ => h.construct t rest) k done line
  | stat g =>
    cases g with
    | targetTable object key line done rest values statement =>
      exact h.targetTable_of (fun _ => h.evalTargets rest values statement) object key line done
    | targetKey v object line done rest values statement =>
      exact h.targetKey_of (fun _ => h.evalTargets rest values statement) v object line done
    | assigned rest => exact h.assigned rest
    | constructing t done rest => exact h.constructing_of (fun _ => h.construct t rest) done
    | whileTest e body base => exact h.whileTest e body base
    | repeatTest body e base => exact h.repeatTest body e base
    | ifTest body rest => exact h.ifTest body rest
    | genericCall f state names body base line => exact h.genericCall f state names body base line
    | returning => exact h.returning
    | discard | block | whileBody | repeatBody | numericLoop | genericLoop => exact h.waiting fun _ _ => rfl

/-! ### Statements -/

theorem exec (hm : Stands c d n fs m) (s : Stat) : Ends (m.go (.exec s)) := by
  refine hm.ends_quiet rfl fun {m} hm _ => ?_
  replace hm := hm.go (.exec s)
  show Ends ((m.go (.exec s)).exec s)
  generalize m.go (.exec s) = m at hm
  have hin {m : Machine} (hm : Stands c d n fs m) (f : ExprFrame) (e : Expr) : Ends (m.evalIn f e) :=
    h.evalIn (h.plain (.expr f)) hm e
  have hfor {m : Machine} (hm : Stands c d n fs m) (g : StatFrame) (e : Expr) : Ends (m.evalFor g e) :=
    h.evalFor (h.plain (.stat g)) hm e
  unfold Machine.exec
  split
  · exact h.evalList hm _ _
  · exact h.sound.nexts (((hm.bind _ _).close _).setSlot _ _)
  · exact h.evalTargets _ _ _ hm _
  · exact hfor hm _ _
  · exact h.enter hm _
  · exact hfor hm _ _
  · exact (h.onto (.stat _) (h.plain (.stat _))).enter (hm.push _) _
  · exact hfor hm _ _
  · exact h.evalList hm _ _
  · exact h.evalList hm _ _
  · exact h.sound.leaves hm _
  · exact hin hm _ _
  · exact hin hm _ _
  · exact h.evalList hm _ _
  · exact h.sound.leaves hm _
  · exact h.sound.leaves hm _
  · exact h.sound.nexts hm

end Level

/-- By induction on the instructions that are left: a function that has less room than `ρ` ends, whatever it
does, if calls end that are nested more deeply. -/
theorem runs (hcalls : Calls ρ) (c d n : Nat) : Runs ρ c d n := by
  induction c using Nat.strongRecOn with
  | ind c ih =>
    have hlevel {fs : List Frame} (hg : Ground ρ c d n fs) : Level ρ c d n fs := ⟨hg, hcalls, ih⟩
    exact ⟨fun hg hf => hg.push hf ((hlevel hg).plain hf), fun hg hm e => (hlevel hg).eval hm e,
      fun hg hm s => (hlevel hg).exec hm s⟩

end ScriptHost.Lua.Machine
