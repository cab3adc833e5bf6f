import Mathlib
import ScriptHost.Engine.Worker
import ScriptHost.Host.Modules
import ScriptHost.Proofs.Engine.Callers
import ScriptHost.Proofs.Lua.Progress

/-! Calls of host functions from programs. The text of a caller is followed from the call to the question at the
host, and from the answer to the value that is returned or the error that is raised; the host is asked for just what
the program has said, and the program gets just what the host has answered. The error goes through what programs
know as `error` at that time. -/

namespace ScriptHost.Bridge

open Lua (Activation Expr Frame Heap Machine Meter Naming Stat StatFrame Val)
open Lua.Machine (Leads)

/-! ### Values -/

/-- A value of the host comes back from the program as it was. -/
theorem ofLua_toLua (v : Value) : Value.ofLua v.toLua = v := by
  cases v with
  -- Only the library as a whole knows that the bits of a float give it back.
  | float x => exact congrArg Value.float (Float.ofBits_toBits x)
  | string s => exact congrArg Value.string (Lua.Bytes.toText_ofString s)
  | _ => rfl

theorem map_ofLua_toLua (vs : List Value) : (vs.map Value.toLua).map Value.ofLua = vs := by
  induction vs with
  | nil => rfl
  | cons v vs ih => rw [List.map_cons, List.map_cons, ih, ofLua_toLua]

/-! ### The text of the callers -/

/-- The call of the function behind a caller. -/
def asking : Stat := .locals ["ok", "value"] none [.call (.var (.upvalue 0) "fn") [.vararg] 6] 6

/-- What programs know as `error`. -/
def errorName : Expr := .index (.var (.upvalue 1) "_ENV") (.const (.string (.ofString "error"))) 8

def errorNaming : Option Naming := errorName.naming?

def errorArgs : List Expr := [.var (.local 1) "value", .const (.number (.int 0))]

/-- The statement that raises the error of a call. -/
def raising : Stat := .call (.call errorName errorArgs 8)

def testing : Stat := .if (.unary .not (.var (.local 0) "ok") 7) [raising] []

def returning : Stat := .return [.var (.local 1) "value"] 10

theorem caller_eq : caller =
    .mk 0 true [⟨true, 7⟩, ⟨false, 0⟩] ["fn", "_ENV"] [asking, testing, returning] 5 11 := rfl

/-! ### Callers at work -/

/-- A caller at work: its two cells, and what it was called with. -/
structure Site where
  fn : Nat
  env : Nat
  args : List Val
  /-- The function that has called. -/
  saved : Activation
  /-- Its frames. -/
  frames : List Frame

namespace Site

variable {m : Machine} (c : Site)

def act (line : Nat) (slots : Array Lua.Slot) : Activation :=
  ⟨chunk, line, slots, #[c.fn, c.env], c.args, c.saved.depth + 1⟩

/-- The frames while some statements are left. -/
def left (rest : List Stat) : List Frame :=
  .stat (.block rest [asking, testing, returning] 0) :: .caller c.saved :: c.frames

/-- The frames while the host has the word. -/
def waiting : List Frame := .expr (.items [] [] (.locals ["ok", "value"] none 6)) :: c.left [testing, returning]

/-- The locals of the caller. -/
def locals (ok value : Val) : Array Lua.Slot := #[.value ok, .value value]

/-- The frames while the error is raised. -/
def failing : List Frame := .stat .discard :: .stat (.block [] [raising] 2) :: c.left [returning]

/-- A call asks the host with its arguments. -/
theorem leads_ask {name : String} {a : Nat}
    (hclosure : m.heap.closures[a]? = some ⟨caller, chunk, #[c.fn, c.env]⟩)
    (hfn : m.heap.cells[c.fn]? = some (.builtin (.host name))) (hdepth : c.saved.depth < Lua.Machine.maxDepth)
    (naming : Option Naming) :
    Leads m ⟨c.saved, c.frames, .invoke (.function a) c.args naming⟩ ⟨c.act 6 #[], c.waiting, .ask name c.args⟩ := by
  have henter : Leads m ⟨c.saved, c.frames, .invoke (.function a) c.args naming⟩
      ⟨c.act 0 #[], c.left [asking, testing, returning], .next⟩ :=
    .enter (caller_eq ▸ hclosure) hdepth
  have hcallee : Leads m ⟨c.act 0 #[], c.left [asking, testing, returning], .next⟩
      ⟨c.act 0 #[], .expr (.callee (.var (.upvalue 0) "fn") [.vararg] 6 false) :: c.waiting,
        .give [.builtin (.host name)]⟩ :=
    .trans .block <| .trans .locals <| .trans .call <| .upvalue rfl hfn
  have hcall : Leads m ⟨c.act 0 #[], .expr (.callee (.var (.upvalue 0) "fn") [.vararg] 6 false) :: c.waiting,
        .give [.builtin (.host name)]⟩ ⟨c.act 6 #[], c.waiting, .ask name c.args⟩ :=
    .trans .callee <| .trans .vararg <| .trans .invoke .ask
  exact henter.trans (hcallee.trans hcall)

/-- What the host has answered is looked at. -/
theorem leads_test (ok value : Val) :
    Leads m ⟨c.act 6 #[], c.waiting, .give [ok, value]⟩
      ⟨c.act 6 (locals ok value), .stat (.ifTest [raising] []) :: c.left [returning], .give [.bool !ok.isTrue]⟩ :=
  .trans .bind <| .trans .block <| .trans .ifStat <| .trans .unary <| .trans (.slot rfl) .not

/-- The last statement returns what came with the answer. -/
theorem leads_return (line : Nat) (ok value : Val) :
    Leads m ⟨c.act line (locals ok value), c.left [returning], .next⟩ ⟨c.saved, c.frames, .give [value]⟩ :=
  .trans .block <| .trans .returnStat <| .trans (.slot rfl) .leave

/-- A call that the host has carried out has its value. -/
theorem leads_ok (value : Val) :
    Leads m ⟨c.act 6 #[], c.waiting, .give [.bool true, value]⟩ ⟨c.saved, c.frames, .give [value]⟩ := by
  have hskip : Leads m ⟨c.act 6 (locals (.bool true) value), .stat (.ifTest [raising] []) :: c.left [returning],
      .give [.bool false]⟩ ⟨c.act 6 (locals (.bool true) value), c.left [returning], .next⟩ :=
    .trans .ifTest .blockEnd
  exact (c.leads_test _ value).trans (hskip.trans (c.leads_return 6 _ value))

/-- A call that has failed calls what programs know as `error`. -/
theorem leads_raising {g : Val} (henv : m.heap.cells[c.env]? = some (.table m.heap.globals))
    (hg : m.heap.global "error" = g) (hsome : g.isNil = false) (value : Val) :
    Leads m ⟨c.act 6 #[], c.waiting, .give [.bool false, value]⟩
      ⟨c.act 8 (locals (.bool false) value), c.failing, .invoke g [value, .int 0] errorNaming⟩ := by
  have hcallee : Leads m ⟨c.act 6 (locals (.bool false) value),
      .stat (.ifTest [raising] []) :: c.left [returning], .give [.bool true]⟩
      ⟨c.act 6 (locals (.bool false) value), .expr (.callee errorName errorArgs 8 false) :: c.failing, .give [g]⟩ :=
    .trans .ifTest <| .trans .block <| .trans .callStat <| .trans .call <| .trans .index <|
      .trans (.upvalue rfl henv) (.field hg hsome)
  have hargs : Leads m
      ⟨c.act 6 (locals (.bool false) value), .expr (.callee errorName errorArgs 8 false) :: c.failing, .give [g]⟩
      ⟨c.act 8 (locals (.bool false) value), c.failing, .invoke g [value, .int 0] errorNaming⟩ :=
    .trans .callee <| .trans (.slot rfl) <| .trans .item <| .trans .const .invoke
  exact (c.leads_test _ value).trans (hcallee.trans hargs)

/-- If that returns, so does the call. -/
theorem leads_failing (value : Val) (vs : List Val) :
    Leads m ⟨c.act 8 (locals (.bool false) value), c.failing, .give vs⟩ ⟨c.saved, c.frames, .give [value]⟩ :=
  .trans .discard <| .trans .blockEnd (c.leads_return 8 _ value)

end Site

/-! ### What becomes of a call -/

variable {m u : Machine} {name : String} {vs : List Value}

/-- A call has given a value to where it was made. -/
def Returned (m : Machine) (v : Val) (u : Machine) : Prop :=
  ∃ used meter, u = m.doing ⟨m.act, m.frames, .give [v]⟩ used meter

/-- An error has been raised in a call, by a statement of the function that was called. -/
def Raised (m : Machine) (v : Val) (u : Machine) : Prop :=
  ∃ (act : Activation) (stats : List StatFrame) (used : Nat) (meter : Meter),
    u = m.doing ⟨act, stats.map .stat ++ .caller m.act :: m.frames, .raise ⟨v, false⟩⟩ used meter

theorem Site.raised_of_failing (c : Site) (hsaved : c.saved = m.act) (hframes : c.frames = m.frames) (line : Nat)
    (slots : Array Lua.Slot) (v : Val) (used : Nat) (meter : Meter) :
    Raised m v (m.doing ⟨c.act line slots, c.failing, .raise ⟨v, false⟩⟩ used meter) := by
  refine ⟨c.act line slots, [.discard, .block [] [raising] 2, .block [returning] [asking, testing, returning] 0],
    used, meter, ?_⟩
  rw [← hsaved, ← hframes]
  rfl

theorem Returned.of_give {v w : Val} (hw : Returned m w u) :
    (Returned m v u ↔ v = w) ∧ ¬ Raised m v u := by
  obtain ⟨used, meter, rfl⟩ := hw
  refine ⟨⟨?_, ?_⟩, ?_⟩
  · rintro ⟨_, _, h⟩
    cases congrArg Machine.control h
    rfl
  · rintro rfl
    exact ⟨used, meter, rfl⟩
  · rintro ⟨_, _, _, _, h⟩
    cases congrArg Machine.control h

theorem Raised.of_raise {v w : Val} (hw : Raised m w u) :
    (Raised m v u ↔ v = w) ∧ ¬ Returned m v u := by
  obtain ⟨act, stats, used, meter, rfl⟩ := hw
  refine ⟨⟨?_, ?_⟩, ?_⟩
  · rintro ⟨_, _, _, _, h⟩
    cases congrArg Machine.control h
    rfl
  · rintro rfl
    exact ⟨act, stats, used, meter, rfl⟩
  · rintro ⟨_, _, h⟩
    cases congrArg Machine.control h

/-- Where no function handles errors, the error arrives with its value where the call was made. -/
theorem Raised.arrives {v : Val} (h : Raised m v u) (hplain : (Lua.Machine.handler? m.frames 0).1 = none) :
    u.Reaches fun u => ∃ used meter, u = m.doing ⟨m.act, m.frames, .unwind ⟨v, false⟩⟩ used meter := by
  obtain ⟨act, stats, used, meter, rfl⟩ := h
  have hhandler : (Lua.Machine.handler? (stats.map Frame.stat ++ .caller m.act :: m.frames) 0).1 = none := by
    induction stats with
    | nil => exact hplain
    | cons s stats ih => exact ih
  have hraise : Leads m ⟨act, stats.map .stat ++ .caller m.act :: m.frames, .raise ⟨v, false⟩⟩
      ⟨act, stats.map .stat ++ .caller m.act :: m.frames, .unwind ⟨v, false⟩⟩ := by
    refine .one (fun _ _ => rfl) fun used meter => ?_
    exact Lua.Machine.raise_of_handler_none (m := m.doing ⟨_, _, .raise ⟨v, false⟩⟩ used meter) v hhandler
  have hunwind : Leads m ⟨act, stats.map .stat ++ .caller m.act :: m.frames, .unwind ⟨v, false⟩⟩
      ⟨m.act, m.frames, .unwind ⟨v, false⟩⟩ := by
    clear hraise hhandler
    induction stats with
    | nil => exact .one (fun _ _ => rfl) fun _ _ => rfl
    | cons s stats ih =>
      refine .trans ?_ ih
      exact .one (fun _ _ => rfl) fun _ _ => rfl
  exact (hraise.trans hunwind) used meter

/-! ### Agreement -/

/-- What a call has come to is what the host has made of it: the value of a call that the host has carried out is
returned, and the text of an error is raised. -/
def Matches (m : Machine) (result : Except CallError Value) (u : Machine) : Prop :=
  (∀ v, Returned m v u ↔ ∃ r : Value, result = .ok r ∧ v = r.toLua) ∧
    ∀ v, Raised m v u ↔ ∃ e : CallError, result = .error e ∧ v = .text e.message

/-- A call of a host function in a program agrees with the host: it asks with the name and the arguments of the
call, and comes to what the host has made of that. -/
def Agrees (m : Machine) (name : String) (vs : List Value) (result : Except CallError Value) : Prop :=
  m.Reaches fun q => question? q = some (name, vs) ∧ (answer q result).Reaches (Matches m result)

/-- A call that fails hands the text of its error to a function, and returns it if that function returns. -/
def HandsOn (m : Machine) (name : String) (vs : List Value) (e : CallError) (g : Val) : Prop :=
  m.Reaches fun q => question? q = some (name, vs) ∧ (answer q (.error e)).Reaches fun u =>
    u.control = .invoke g [.text e.message, .int 0] errorNaming ∧
      ∀ ws, (u.go (.give ws)).Reaches (Returned m (.text e.message))

theorem Returned.matches {r : Value} (h : Returned m r.toLua u) : Matches m (.ok r) u := by
  simp [Matches, h.of_give]

theorem Raised.matches {e : CallError} (h : Raised m (.text e.message) u) : Matches m (.error e) u := by
  simp [Matches, h.of_raise]

/-- No error of a call is taken for a lack of memory. -/
theorem message_ne_memoryMessage (e : CallError) : Lua.Bytes.ofString e.message ≠ Lua.Machine.memoryMessage := by
  intro h
  have hmessage : e.message = "not enough memory" := Lua.Bytes.ofString_injective h
  have hfirst : e.message.toList.head? = some 'n' := by
    rw [hmessage]
    decide
  cases e <;> unfold CallError.message at hfirst <;> simp [ToString.toString, String.toList_append] at hfirst

/-- What a call does up to the question, and what it does with an answer. -/
theorem Calls.leads {f : Val} {args : List Val} {naming : Option Naming} (hf : Calls m.heap name f)
    (hcontrol : m.control = .invoke f args naming) (hdepth : m.act.depth < Lua.Machine.maxDepth) :
    ∃ c : Site, c.saved = m.act ∧ c.frames = m.frames ∧
      m.heap.cells[c.env]? = some (.table m.heap.globals) ∧
      m.Reaches fun q => ∃ used meter,
        q = m.doing ⟨c.act 6 #[], c.waiting, .ask name args⟩ used meter := by
  obtain ⟨a, fn, env, rfl, hclosure, hfn, henv⟩ := hf
  let c : Site := ⟨fn, env, args, m.act, m.frames⟩
  refine ⟨c, rfl, rfl, henv, ?_⟩
  have hm : m = m.doing ⟨m.act, m.frames, .invoke (.function a) args naming⟩ m.heap.used m.meter := by
    rw [← hcontrol]
    rfl
  have hleads := c.leads_ask hclosure hfn hdepth naming m.heap.used m.meter
  rwa [← hm] at hleads

/-- A call agrees with the host unless it fails where programs know something else as `error`. -/
theorem Calls.agrees {f : Val} {naming : Option Naming} {result : Except CallError Value}
    (hf : Calls m.heap name f) (hcontrol : m.control = .invoke f (vs.map Value.toLua) naming)
    (hdepth : m.act.depth < Lua.Machine.maxDepth)
    (herror : (∃ r, result = .ok r) ∨ m.heap.global "error" = .builtin (.control .error)) :
    Agrees m name vs result := by
  obtain ⟨c, hsaved, hframes, henv, hasks⟩ := hf.leads hcontrol hdepth
  refine hasks.mono ?_
  rintro _ ⟨used, meter, rfl⟩
  refine ⟨congrArg (fun vs => some (name, vs)) (map_ofLua_toLua vs), ?_⟩
  cases result with
  | ok r =>
    refine (c.leads_ok r.toLua used meter).mono ?_
    rintro _ ⟨used, meter, rfl⟩
    exact Returned.matches ⟨used, meter, by rw [hsaved, hframes]⟩
  | error e =>
    have hbuiltin := herror.resolve_left fun ⟨_, h⟩ => nomatch h
    have hraises := (c.leads_raising henv hbuiltin rfl (.text e.message)).trans
      (.error (message_ne_memoryMessage e))
    refine (hraises used meter).mono ?_
    rintro _ ⟨used, meter, rfl⟩
    exact (c.raised_of_failing hsaved hframes _ _ _ _ _).matches

/-- Whatever programs know as `error`, it is what a call that fails calls. -/
theorem Calls.handsOn {f g : Val} {naming : Option Naming} (hf : Calls m.heap name f)
    (hcontrol : m.control = .invoke f (vs.map Value.toLua) naming) (hdepth : m.act.depth < Lua.Machine.maxDepth)
    (hg : m.heap.global "error" = g) (hsome : g.isNil = false) (e : CallError) : HandsOn m name vs e g := by
  obtain ⟨c, hsaved, hframes, henv, hasks⟩ := hf.leads hcontrol hdepth
  refine hasks.mono ?_
  rintro _ ⟨used, meter, rfl⟩
  refine ⟨congrArg (fun vs => some (name, vs)) (map_ofLua_toLua vs), ?_⟩
  refine (c.leads_raising henv hg hsome (.text e.message) used meter).mono ?_
  rintro _ ⟨used, meter, rfl⟩
  refine ⟨rfl, fun ws => (c.leads_failing (.text e.message) ws used meter).mono ?_⟩
  rintro _ ⟨used, meter, rfl⟩
  exact ⟨used, meter, by rw [hsaved, hframes]⟩

/-! ### Workers -/

/-- A worker has its questions answered by the surface. -/
theorem settle_of_question {w : Worker} (hcall : w.call = none) (hquestion : w.question? = some (name, vs))
    (s : Surface) (now : Nat) :
    let r := s.invoke w.handle name vs now
    ∃ n, w.settle (fun _ => false) now s [] n = (w.answer r.1, r.2.2, r.2.1) := by
  have hrest : w.isAtRest = false := by
    unfold Worker.question? at hquestion
    unfold Worker.isAtRest
    split at hquestion
    · rename_i hstage
      rw [hstage]
    · rename_i hstage
      rw [hstage]
    · cases hquestion
  have hheld (w : Worker) : w.isHeld (fun _ => false) = false := by
    unfold Worker.isHeld
    cases w.call <;> rfl
  have hstep {v v' : Worker} {s s' : Surface} {events more : List HostEvent} (n : Nat)
      (hrest : v.isAtRest = false) (hstep : v.stepOn Worker.burst s now = (v', s', more)) :
      v.settle (fun _ => false) now s events (n + 1) = v'.settle (fun _ => false) now s' (events ++ more) n := by
    rw [Worker.settle, hrest, hheld, hstep]
    rfl
  show ∃ n, _ = (w.answer (s.invoke w.handle name vs now).1, _)
  unfold Surface.invoke
  cases hresolve : s.resolve w.handle name now with
  | mk resolved s' =>
    cases resolved with
    | error e =>
      have hanswer : w.stepOn Worker.burst s now = (w.answer (.error e), s', []) := by
        simp only [Worker.stepOn, hcall, hquestion, hresolve]
      exact ⟨1, hstep 0 hrest hanswer⟩
    | ok found =>
      obtain ⟨context, function⟩ := found
      have hserve : w.stepOn Worker.burst s now = ({ w with call := some ⟨context, function, vs⟩ }, s', []) := by
        simp only [Worker.stepOn, hcall, hquestion, hresolve]
      exact ⟨2, (hstep 1 hrest hserve).trans (hstep 0 hrest rfl)⟩

/-- The handler of an event gets the arguments of the event, and if it is a host function the host gets them. -/
theorem handler_asks {w : Worker} {f : Val} (hf : Calls w.machine.heap name f) (e : ScriptEvent) :
    (w.succeed (.search e) [f]).machine.Reaches fun q => question? q = some (name, e.args) := by
  obtain ⟨a, fn, env, rfl, hcalls⟩ := hf
  have hf : Calls (w.succeed (.search e) [.function a]).machine.heap name (.function a) := ⟨a, fn, env, rfl, hcalls⟩
  obtain ⟨c, -, -, -, hasks⟩ := hf.leads rfl (show 0 < Lua.Machine.maxDepth by decide)
  refine hasks.mono ?_
  rintro _ ⟨used, meter, rfl⟩
  exact congrArg (fun vs => some (name, vs)) (map_ofLua_toLua e.args)

/-! ### Programs and surfaces -/

theorem functionNames_nodup (s : Surface) : s.functionNames.Nodup :=
  List.pairwise_map.2 (s.functions.sorted.imp String.ne_of_lt)

/-- A machine for a program that may call the functions of a surface. -/
def prepared (s : Surface) (limit : Nat) (meter : Meter) : Machine :=
  install s.functionNames (.fresh limit meter)

/-- A program finds every function of a surface, and the built-in `error`. -/
theorem prepared_spec (s : Surface) (limit : Nat) (meter : Meter) :
    (prepared s limit meter).heap.HasGlobals ∧
      (prepared s limit meter).heap.global "error" = .builtin (.control .error) ∧
      Offers (prepared s limit meter).heap s.functionNames := by
  obtain ⟨hlibrary, herror⟩ := Heap.hasGlobals_fresh limit
  have hfresh : (Machine.fresh limit meter).heap.HasGlobals := ⟨hlibrary.bound, hlibrary.record⟩
  obtain ⟨hglobals, hothers, htable⟩ := install_spec (functionNames_nodup s) hfresh
  exact ⟨hglobals, (hothers "error" (by decide) (by decide)).trans herror, htable⟩

/-- Calls of host functions agree with the surface. A value is the same after it went to the program and back. A
program finds the functions of the surface. A call asks with its arguments and comes to what the surface makes of
them, where it fails through what programs know as `error`. Workers have their questions answered by the surface, and
the handler of an event gets its arguments. -/
theorem calls_agree (s : Surface) (limit : Nat) (meter : Meter) :
    (∀ v : Value, .ofLua v.toLua = v) ∧
      ((prepared s limit meter).heap.global "error" = .builtin (.control .error) ∧
        Offers (prepared s limit meter).heap s.functionNames) ∧
      (∀ (m : Machine) (name : String) (f : Val) (vs : List Value) (naming : Option Naming) (h : Handle) (now : Nat),
        Calls m.heap name f → m.control = .invoke f (vs.map Value.toLua) naming →
          m.act.depth < Lua.Machine.maxDepth →
          ((∃ r, (s.invoke h name vs now).1 = .ok r) ∨ m.heap.global "error" = .builtin (.control .error) →
            Agrees m name vs (s.invoke h name vs now).1) ∧
          ∀ e g, (s.invoke h name vs now).1 = .error e → m.heap.global "error" = g → g.isNil = false →
            HandsOn m name vs e g) ∧
      (∀ (w : Worker) (name : String) (vs : List Value) (now : Nat),
        w.call = none → w.question? = some (name, vs) →
          let r := s.invoke w.handle name vs now
          ∃ n, w.settle (fun _ => false) now s [] n = (w.answer r.1, r.2.2, r.2.1)) ∧
      ∀ (w : Worker) (e : ScriptEvent) (a : Nat),
        (w.succeed (.search e) [.function a]).machine = w.machine.start (.function a) (e.args.map Value.toLua) ∧
          ∀ name, Calls w.machine.heap name (.function a) →
            (w.succeed (.search e) [.function a]).machine.Reaches fun q => question? q = some (name, e.args) := by
  refine ⟨ofLua_toLua, (prepared_spec s limit meter).2, ?_, ?_, ?_⟩
  · intro m name f vs naming h now hf hcontrol hdepth
    exact ⟨hf.agrees hcontrol hdepth, fun e g _ hg hsome => hf.handsOn hcontrol hdepth hg hsome e⟩
  · intro w name vs now hcall hquestion
    exact settle_of_question hcall hquestion s now
  · intro w e a
    exact ⟨rfl, fun name hf => handler_asks hf e⟩

/-- A call with a handle that nobody has, and an event whose handler is the function of the host. -/
theorem calls_agree_script_key :
    let s : Surface := ⟨Dict.empty.insert "script_key" (Modules.ownKey "script_key" (·.script)), .empty, .none,
      default, true, Surface.defaultTimeout⟩
    let w := Worker.spawn default default s.functionNames ⟨0, 0⟩ ⟨0, 1, 1, default⟩
    let m := prepared s 0 (.start 1 1 default)
    let e : CallError := .invalidHandle ⟨0, 0⟩
    let waiting : Worker := { w with
      machine := m.go (.ask "script_key" [.nil]), stage := .running (.handler ⟨"tick", [.nil]⟩) }
    (s.invoke ⟨0, 0⟩ "script_key" [.nil] 0).1 = .error e ∧
      (∃ n, (waiting.settle (fun _ => false) 0 s [] n).1.machine = answer waiting.machine (.error e)) ∧
      ∃ a, Calls m.heap "script_key" (.function a) ∧
        Agrees (m.start (.function a) [.nil]) "script_key" [.nil] (.error e) ∧
        HandsOn (m.start (.function a) [.nil]) "script_key" [.nil] e (.builtin (.control .error)) ∧
        (w.succeed (.search ⟨"tick", [.nil]⟩) [.function a]).machine.Reaches
          fun q => question? q = some ("script_key", [.nil]) := by
  intro s w m e waiting
  obtain ⟨-, ⟨herror, t, -, hnames⟩, hcalls, hworker, hevents⟩ := calls_agree s 0 (.start 1 1 default)
  obtain ⟨f, -, hf, -⟩ := hnames "script_key" (by decide)
  obtain ⟨a, -, -, rfl, -⟩ := id hf
  have hinvoke : (s.invoke ⟨0, 0⟩ "script_key" [.nil] 0).1 = .error e := rfl
  obtain ⟨hagrees, hhands⟩ := hcalls (m.start (.function a) [.nil]) "script_key" (.function a) [.nil] none
    ⟨0, 0⟩ 0 hf rfl (show 0 < Lua.Machine.maxDepth by decide)
  obtain ⟨n, hn⟩ := hworker waiting "script_key" [.nil] 0 rfl rfl
  have hmachine : w.machine = m := rfl
  have hhandled := (hevents w ⟨"tick", [.nil]⟩ a).2 "script_key" (hmachine ▸ hf)
  refine ⟨hinvoke, ⟨n, ?_⟩, a, hf, hinvoke ▸ hagrees (.inr herror), hhands e _ hinvoke herror rfl, hhandled⟩
  rw [hn]
  rfl

/-- Where `error` has been replaced by a function that returns, a call that fails returns the text of its error. -/
theorem replaced_error_returned :
    let s : Surface := ⟨Dict.empty.insert "script_key" (Modules.ownKey "script_key" (·.script)), .empty, .none,
      default, true, Surface.defaultTimeout⟩
    let m := (prepared s 0 ((Meter.start 1 1 default).restart false)).setGlobal "error"
      (.builtin (.control .running))
    let e : CallError := .invalidHandle ⟨0, 0⟩
    (s.invoke ⟨0, 0⟩ "script_key" [] 0).1 = .error e ∧
      ∃ f, Calls m.heap "script_key" f ∧
        let call := { m with frames := [.base], control := .invoke f [] none }
        ∃ n k, question? (call.run n) = some ("script_key", []) ∧
          Returned call (.text e.message) ((answer (call.run n) (.error e)).run k) ∧
          ¬ Matches call (.error e) ((answer (call.run n) (.error e)).run k) := by
  intro s m e
  obtain ⟨hglobals, -, t, -, hnames⟩ := prepared_spec s 0 ((Meter.start 1 1 default).restart false)
  obtain ⟨f, -, hf, -⟩ := hnames "script_key" (by decide)
  have hcalls : Calls m.heap "script_key" f := hf.setText _ _ _
  have hreplaced : m.heap.global "error" = .builtin (.control .running) :=
    ((hglobals.set "error" (.builtin (.control .running))).2 "error").trans (if_pos rfl)
  refine ⟨rfl, f, hcalls, ?_⟩
  intro call
  have hfree : ¬ call.IsBounded := by
    rintro (hlimit | hwatched | hmarked | ⟨p, hamid⟩)
    · exact hlimit rfl
    · cases hwatched
    · exact hmarked rfl
    · cases hamid
  have hcontrol : call.control = .invoke f (([] : List Value).map Value.toLua) none := rfl
  have hdepth : call.act.depth < Lua.Machine.maxDepth := show 0 < Lua.Machine.maxDepth by decide
  have hreaches := Calls.handsOn (show Calls call.heap "script_key" f from hcalls) hcontrol hdepth hreplaced rfl e
  obtain ⟨n, ⟨hquestion, hanswer⟩, hfree⟩ := hreaches.of_unbounded hfree
  obtain ⟨j, ⟨hinvoke, hreturns⟩, hfree⟩ := hanswer.of_unbounded (m := answer (call.run n) (.error e)) hfree
  refine ⟨n, ?_⟩
  generalize answer (call.run n) (.error e) = answered at hinvoke hreturns hfree ⊢
  have hgives : ∃ ws, (answered.run j).run 1 = (answered.run j).go (.give ws) := by
    have hcalm : ¬ (answered.run j).IsInterrupted := fun h => hfree (Lua.Machine.isBounded_of_isHindered (.inl h))
    generalize answered.run j = u at hinvoke hcalm
    have hrun : u.run 1 = u.step := by
      rw [Lua.Machine.run_of_not_isStopped (by rw [Machine.isStopped, hinvoke]),
        Lua.Machine.beat_of_not_isInterrupted hcalm, Machine.run]
    rw [hrun]
    obtain ⟨heap, threads, running, act, frames, nesting, control, meter, finalizing⟩ := u
    cases hinvoke
    exact ⟨_, rfl⟩
  obtain ⟨ws, hws⟩ := hgives
  obtain ⟨k, hreturned, -⟩ := (hreturns ws).of_unbounded (m := (answered.run j).go (.give ws)) hfree
  have hrun : answered.run (j + (1 + k)) = ((answered.run j).go (.give ws)).run k := by
    rw [Lua.Machine.run_add, Lua.Machine.run_add, hws]
  refine ⟨j + (1 + k), hquestion, hrun ▸ hreturned, fun hmatches => ?_⟩
  obtain ⟨_, hr, -⟩ := (hmatches.1 _).1 (hrun ▸ hreturned)
  cases hr

end ScriptHost.Bridge
