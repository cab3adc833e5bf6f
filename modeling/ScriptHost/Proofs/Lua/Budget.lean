import ScriptHost.Lua.Execution

/-! The budget of an invocation. Only looks at it change what it says, and those are taken before
instructions; whatever else a machine does adds to the work done at most. An abort, once recorded, stands
until the next invocation. -/

namespace ScriptHost.Lua

namespace Meter

variable {t : Meter} {message : String}

theorem look_of_aborted (h : t.aborted = some message) : t.look = some message := by
  simp only [look, h]

/-- Counting an instruction leaves an abort that is recorded as it is. -/
theorem tick_aborted (h : t.aborted = some message) (isMain isProgram : Bool) :
    (t.tick isMain isProgram).1.aborted = some message := by
  simp only [tick]
  split
  · exact h
  · split
    · split
      · exact look_of_aborted (by exact h)
      · exact h
    · exact h

end Meter

namespace Machine

/-- The budget of the invocation, whatever work has been done, and whether a finalizer keeps the program from using
it up. -/
def budget (m : Machine) : Meter × Finalizing := ({ m.meter with spent := 0 }, m.finalizing)

section

variable (m : Machine)

@[simp] theorem go_budget (c : Control) : (m.go c).budget = m.budget := rfl
@[simp] theorem push_budget (f : Frame) : (m.push f).budget = m.budget := rfl
@[simp] theorem pushExpr_budget (f : ExprFrame) : (m.pushExpr f).budget = m.budget := rfl
@[simp] theorem pushStat_budget (f : StatFrame) : (m.pushStat f).budget = m.budget := rfl
@[simp] theorem giveOne_budget (v : Val) : (m.giveOne v).budget = m.budget := rfl
@[simp] theorem evalIn_budget (f : ExprFrame) (e : Expr) : (m.evalIn f e).budget = m.budget := rfl
@[simp] theorem evalFor_budget (f : StatFrame) (e : Expr) : (m.evalFor f e).budget = m.budget := rfl
@[simp] theorem atLine_budget (line : Nat) : (m.atLine line).budget = m.budget := rfl
@[simp] theorem setCell_budget (c : Nat) (v : Val) : (m.setCell c v).budget = m.budget := rfl

@[simp] theorem setSlot_budget (i : Nat) (v : Val) : (m.setSlot i v).budget = m.budget := by
  unfold setSlot
  split <;> rfl

@[simp] theorem setPlace_budget (p : Place) (v : Val) : (m.setPlace p v).budget = m.budget := by
  cases p <;> simp [setPlace]

@[simp] theorem bind_budget (vs : List Val) (n : Nat) : (m.bind vs n).budget = m.budget := by
  induction n generalizing m vs with
  | zero => rfl
  | succ n ih => exact ih _ _

@[simp] theorem keep_budget (n : Nat) : (m.keep n).budget = m.budget := rfl

@[simp] theorem capture_budget (c : Capture) : (m.capture c).2.budget = m.budget := by
  unfold capture
  split
  · split <;> rfl
  · rfl

@[simp] theorem close_budget (f : FunctionBody) : (m.close f).2.budget = m.budget := by
  have hfold (cs : List Capture) (start : Array Nat × Machine) :
      (cs.foldl (fun (acc : Array Nat × Machine) c =>
        (acc.1.push (acc.2.capture c).1, (acc.2.capture c).2)) start).2.budget = start.2.budget := by
    induction cs generalizing start with
    | nil => rfl
    | cons c cs ih => rw [List.foldl_cons, ih, capture_budget]
  cases f
  exact hfold _ (#[], m)

@[simp] theorem raiseValue_budget (v : Val) : (m.raiseValue v).budget = m.budget := rfl
@[simp] theorem raiseText_budget (b : Bytes) : (m.raiseText b).budget = m.budget := rfl
@[simp] theorem raiseHere_budget (message : String) : (m.raiseHere message).budget = m.budget := rfl
@[simp] theorem outOfMemory_budget : m.outOfMemory.budget = m.budget := rfl

@[simp] theorem complain_budget (who : Performer) (c : Complaint) :
    (m.complain who c).budget = m.budget := by
  unfold complain
  split <;> rfl

theorem settle_budget (who : Performer) (s : Stage (List Val)) (threads : Array Coroutine)
    (running : List Nat) (act : Activation) (frames : List Frame) (nesting : Nat) (meter : Meter)
    (finalizing : Finalizing) :
    (settle who s threads running act frames nesting meter finalizing).budget =
      ({ meter with spent := 0 }, finalizing) := by
  unfold settle
  split
  · rfl
  · exact complain_budget _ _ _
  · dsimp only
    split
    · exact complain_budget _ _ _
    · rfl

@[simp] theorem perform_budget (who : Performer) (r : Routine (List Val)) :
    (m.perform who r).budget = m.budget := by
  simp only [perform]
  split
  · rfl
  · exact settle_budget _ _ _ _ _ _ _ _ _

@[simp] theorem operate_budget (o : Origin) (r : Routine Val) : (m.operate o r).budget = m.budget :=
  perform_budget _ _ _

@[simp] theorem decide_budget (o : Origin) (r : Routine Bool) : (m.decide o r).budget = m.budget :=
  perform_budget _ _ _

@[simp] theorem enter_budget (body : List Stat) : (m.enter body).budget = m.budget := rfl

@[simp] theorem closeVariable_budget (v e : Val) (after : Resumption) :
    (m.closeVariable v e after).budget = m.budget := rfl

@[simp] theorem toClose_budget (v : Val) (name : String) (under : Bool) :
    (m.toClose v name under).budget = m.budget := by
  unfold toClose
  split
  · rfl
  · split
    · rfl
    · split <;> rfl

@[simp] theorem numericRound_budget (v : Val) (loop : NumericLoop) (body : List Stat) (base : Nat) :
    (m.numericRound v loop body base).budget = m.budget := by
  simp [numericRound]

@[simp] theorem callFrom_budget (f : Val) (args : List Val) (name : Option Naming) (line : Nat)
    (tail : Bool) : (m.callFrom f args name line tail).budget = m.budget := by
  unfold callFrom
  split
  · split <;> rfl
  · rfl

@[simp] theorem assign_budget (t : Target) (v : Val) : (m.assign t v).budget = m.budget := by
  cases t <;> simp [assign]

@[simp] theorem useValues_budget (vs : List Val) (use : Use) :
    (m.useValues vs use).budget = m.budget := by
  unfold useValues
  split
  · simp
  · split <;> simp
  · split <;> simp
  · simp
  · split <;> simp
  · dsimp only
    split <;> simp

@[simp] theorem evalList_budget (es : List Expr) (use : Use) :
    (m.evalList es use).budget = m.budget := by
  cases es <;> simp [evalList]

@[simp] theorem evalTargets_budget (done : List Target) (rest values : List Expr) (line : Nat) :
    (m.evalTargets done rest values line).budget = m.budget := by
  fun_induction evalTargets m done rest values line <;> simp_all

@[simp] theorem construct_budget (t : Nat) (done : List Val) (items : List Item) :
    (m.construct t done items).budget = m.budget := by
  unfold construct
  split
  · split <;> rfl
  · rfl
  · rfl

@[simp] theorem eval_budget (e : Expr) : (m.eval e).budget = m.budget := by
  cases e with
  | closure f => simp [eval]
  | table items line => simp only [eval, construct_budget]; rfl
  | _ => rfl

@[simp] theorem unary_budget (op : UnaryOp) (v : Val) (e : Expr) (line : Nat) :
    (m.unary op v e line).budget = m.budget := by
  cases op <;> simp [unary]

@[simp] theorem binary_budget (op : BinaryOp) (a b : Val) (ea eb : Expr) (line : Nat) :
    (m.binary op a b ea eb line).budget = m.budget := by
  cases op <;> simp [binary]

@[simp] theorem giveExpr_budget (f : ExprFrame) (vs : List Val) :
    (m.giveExpr f vs).budget = m.budget := by
  fun_cases giveExpr m f vs <;> first | rfl | simp

@[simp] theorem exec_budget (s : Stat) : (m.exec s).budget = m.budget := by
  unfold exec
  split <;> simp

@[simp] theorem giveStat_budget (f : StatFrame) (vs : List Val) :
    (m.giveStat f vs).budget = m.budget := by
  fun_cases giveStat m f vs <;> first | rfl | simp

@[simp] theorem nextStat_budget (f : StatFrame) : (m.nextStat f).budget = m.budget := by
  fun_cases nextStat m f
  case case2 => split <;> rfl
  all_goals simp

@[simp] theorem leaveStat_budget (f : StatFrame) (x : Exit) : (m.leaveStat f x).budget = m.budget := by
  fun_cases leaveStat m f x <;> rfl

@[simp] theorem enterClosure_budget (c : Closure) (args : List Val) :
    (m.enterClosure c args).budget = m.budget := by
  fun_cases enterClosure m c args <;> rfl

@[simp] theorem guard_budget (vs : List Val) : (m.guard vs).budget = m.budget := by
  unfold guard
  split <;> rfl

@[simp] theorem resume_budget (thread : Nat) (wrapped : Bool) (args : List Val) :
    (m.resume thread wrapped args).budget = m.budget := by
  unfold resume
  dsimp only
  split
  · split <;> simp
  · split <;> first | rfl | (split <;> simp)

@[simp] theorem yield_budget (vs : List Val) : (m.yield vs).budget = m.budget := by
  unfold yield
  split
  · rfl
  · split
    · rfl
    · dsimp only
      split
      · rfl
      · exact guard_budget _ _

@[simp] theorem newThread_budget (f : Val) : (m.newThread f).2.budget = m.budget := rfl

@[simp] theorem closeThread_budget (who : Performer) (thread : Nat) :
    (m.closeThread who thread).budget = m.budget := by
  unfold closeThread
  dsimp only
  split <;> first | rfl | exact complain_budget _ _ _

@[simp] theorem callControl_budget (f : ControlFunction) (name : Option Naming) (args : List Val) :
    (m.callControl f name args).budget = m.budget := by
  fun_cases callControl m f name args
  case case9 | case11 =>
    rename_i hnew
    cases hnew
    rfl
  -- The functions over coroutines, which want one first.
  case case12 | case14 | case17 =>
    rename_i withThread
    show (withThread _).budget = _
    simp only [withThread]
    split <;> simp
  all_goals first | rfl | simp

@[simp] theorem refuseCall_budget (message : String) : (m.refuseCall message).budget = m.budget := by
  unfold refuseCall
  split <;> rfl

@[simp] theorem callThrough_budget (f : Val) (args : List Val) (name : Option Naming) :
    (m.callThrough f args name).budget = m.budget := by
  fun_cases callThrough m f args name <;> first | rfl | simp

@[simp] theorem callLibrary_budget (f : Builtin) (args : List Val) (name : Option Naming) :
    (m.callLibrary f args name).budget = m.budget := perform_budget _ _ _

@[simp] theorem invoke_budget (f : Val) (args : List Val) (name : Option Naming) :
    (m.invoke f args name).budget = m.budget := by
  fun_cases invoke m f args name <;> first | rfl | simp_all

@[simp] theorem raise_budget (e : Thrown) : (m.raise e).budget = m.budget := by
  unfold raise
  split
  · rfl
  · split
    · rfl
    · split <;> rfl

@[simp] theorem failCoroutine_budget (thread : Nat) (wrapped : Bool) (e : Thrown) :
    (m.failCoroutine thread wrapped e).budget = m.budget := by
  unfold failCoroutine
  dsimp only
  split
  · split <;> rfl
  · exact guard_budget _ _

@[simp] theorem unwindFrame_budget (f : Frame) (e : Thrown) :
    (m.unwindFrame f e).budget = m.budget := by
  cases f <;> first | rfl | exact guard_budget _ _ | exact failCoroutine_budget _ _ _ _

@[simp] theorem continueWith_budget (r : Resumption) : (m.continueWith r).budget = m.budget := by
  cases r <;> rfl

@[simp] theorem giveFrame_budget (f : Frame) (vs : List Val) :
    (m.giveFrame f vs).budget = m.budget := by
  cases f with
  | coroutine thread wrapped saved nesting =>
    cases wrapped
    · exact guard_budget _ _
    · rfl
  | routine rest who => exact perform_budget _ _ _
  | protect h saved => exact guard_budget _ _
  | caller => rfl
  | handling => rfl
  | _ => simp [giveFrame]

@[simp] theorem nextFrame_budget (f : Frame) : (m.nextFrame f).budget = m.budget := by
  fun_cases nextFrame m f <;> first | rfl | simp

@[simp] theorem leaveFrame_budget (f : Frame) (x : Exit) : (m.leaveFrame f x).budget = m.budget := by
  fun_cases leaveFrame m f x <;> first | rfl | simp

theorem withFrame_budget {k : Machine → Frame → Machine}
    (hk : ∀ m f, (k m f).budget = m.budget) (last : Except Thrown (List Val)) :
    (m.withFrame k last).budget = m.budget := by
  unfold withFrame
  split
  · exact hk _ _
  · rfl

/-- Going on changes nothing about the budget but the work done. -/
@[simp] theorem carryOn_budget : m.carryOn.budget = m.budget := by
  unfold carryOn
  split
  · simp
  · simp
  · exact withFrame_budget _ nextFrame_budget _
  · exact withFrame_budget _ (fun m f => giveFrame_budget m f _) _
  · exact withFrame_budget _ (fun m f => leaveFrame_budget m f _) _
  · simp
  · simp
  · exact withFrame_budget _ (fun m f => unwindFrame_budget m f _) _
  · rfl
  · rfl

variable {m} {message : String}

theorem carryOn_aborted : m.carryOn.meter.aborted = m.meter.aborted := by
  show m.carryOn.budget.1.aborted = m.budget.1.aborted
  rw [carryOn_budget]

/-- Before an instruction memory may be measured. That changes nothing but its count. -/
theorem exists_measured (m : Machine) :
    ∃ used, (if m.isTight then m.measure else m) = { m with heap := { m.heap with used } } := by
  split <;> exact ⟨_, rfl⟩

theorem step_aborted (h : m.meter.aborted = some message) :
    m.step.meter.aborted = some message := by
  obtain ⟨used, hused⟩ := exists_measured m
  unfold step
  split
  · dsimp only
    rw [hused]
    split
    · exact h
    · split
      · exact Meter.tick_aborted h _ _
      · exact carryOn_aborted.trans (Meter.tick_aborted h _ _)
  · exact carryOn_aborted.trans h

theorem goBack_meter (m : Machine) (p : Paused) : (m.goBack p).meter = m.meter := by
  unfold goBack
  split <;> rfl

theorem beat_aborted (h : m.meter.aborted = some message) : m.beat.meter.aborted = some message := by
  unfold beat
  split
  · exact h
  · rw [goBack_meter]
    exact step_aborted h
  · exact step_aborted h

/-- An abort that is recorded stands for the rest of the invocation. -/
theorem run_aborted (h : m.meter.aborted = some message) (n : Nat) :
    (m.run n).meter.aborted = some message := by
  induction n generalizing m with
  | zero => exact h
  | succ n ih =>
    unfold run
    split
    · exact h
    · exact ih (beat_aborted h)

theorem answer_aborted (r : Except String Val) : (m.answer r).meter.aborted = m.meter.aborted := by
  cases r <;> rfl

/-- While an abort is recorded, an invocation does not end without an error. -/
theorem result?_of_aborted (h : m.meter.aborted = some message) (vs : List Val) :
    m.result? ≠ some (.ok vs) := by
  unfold result?
  rw [h]
  split <;> simp

end

end Machine

end ScriptHost.Lua
