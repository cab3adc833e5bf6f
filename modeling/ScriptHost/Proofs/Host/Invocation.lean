import ScriptHost.Host.Modules
import ScriptHost.Proofs.Arena.Call
import ScriptHost.Proofs.Host.FunctionTable

/-! Calls of host functions. A call that is no valid call is told so; a valid one is answered a value,
whether its handler answers, refuses or panics. The arena sees of a call only that its handle is used, so
what a handler does is seen by nobody but its caller. -/

namespace ScriptHost

namespace Surface

variable {s : Surface} {h : Handle} {name : String} {args : List Value} {now : Nat} {e : CallError}
  {context : ScriptContext} {f : HostFunction} {v : Value}

/-! ### One call -/

/-- The surface after a call: the handle has been used. -/
theorem invoke_surface (s : Surface) (h : Handle) (name : String) (args : List Value) (now : Nat) :
    (s.invoke h name args now).2.2 = { s with arena := (s.arena.access h now).2 } := by
  unfold invoke resolve
  rcases s.arena.access h now with ⟨r, arena⟩
  cases r with
  | error e => rfl
  | ok context => cases s.functions.get? name <;> rfl

theorem invoke_arena (s : Surface) (h : Handle) (name : String) (args : List Value) (now : Nat) :
    (s.invoke h name args now).2.2.arena = (s.arena.access h now).2 := by
  rw [invoke_surface]

theorem invoke_of_error (he : (s.arena.access h now).1 = .error e) :
    (s.invoke h name args now).1 = .error e := by
  unfold invoke resolve
  generalize s.arena.access h now = result at he ⊢
  obtain ⟨r, arena⟩ := result
  cases he
  rfl

theorem invoke_of_unknown (hcontext : (s.arena.access h now).1 = .ok context)
    (hf : s.functions.get? name = none) :
    (s.invoke h name args now).1 = .error (.unknownFunction name) := by
  unfold invoke resolve
  generalize s.arena.access h now = result at hcontext ⊢
  obtain ⟨r, arena⟩ := result
  cases hcontext
  simp only [hf]

/-- A call that resolves is served. -/
theorem invoke_of_found (hcontext : (s.arena.access h now).1 = .ok context)
    (hf : s.functions.get? name = some f) (args : List Value) :
    (s.invoke h name args now).1 = .ok (s.serve context f args).1 ∧
      (s.invoke h name args now).2.1 = (s.serve context f args).2 := by
  unfold invoke resolve
  generalize s.arena.access h now = result at hcontext ⊢
  obtain ⟨r, arena⟩ := result
  cases hcontext
  simp only [hf]
  exact ⟨rfl, rfl⟩

theorem invoke_eq_ok (hv : (s.invoke h name args now).1 = .ok v) :
    ∃ context, (s.arena.access h now).1 = .ok context := by
  cases hr : (s.arena.access h now).1 with
  | error e =>
    rw [invoke_of_error hr] at hv
    cases hv
  | ok context => exact ⟨context, rfl⟩

/-- A call fails because its handle is refused, or because there is no such function. -/
theorem invoke_eq_error_iff :
    (s.invoke h name args now).1 = .error e ↔
      (s.arena.access h now).1 = .error e ∨
        (∃ context, (s.arena.access h now).1 = .ok context) ∧ s.functions.get? name = none ∧
          e = .unknownFunction name := by
  cases hr : (s.arena.access h now).1 with
  | error e' =>
    rw [invoke_of_error hr]
    simp
  | ok context =>
    cases hf : s.functions.get? name with
    | none =>
      rw [invoke_of_unknown hr hf]
      simp [eq_comm]
    | some f =>
      rw [(invoke_of_found hr hf args).1]
      simp

/-! ### What is served -/

/-- The gate of a function is open. -/
def GateOpen (capabilities : Capabilities) (f : HostFunction) : Prop :=
  ∀ c, f.capability = some c → capabilities.isEnabled c = true

/-- A handler behind a closed gate does nothing at all. -/
theorem serve_of_closed {c : String} (hc : f.capability = some c)
    (hclosed : s.capabilities.isEnabled c = false) (context : ScriptContext) (args : List Value) :
    s.serve context f args = (f.neutral, [.denied f.name (.capabilityDisabled c)]) := by
  unfold serve closedGate?
  rw [hc, Option.filter_some, hclosed]
  rfl

/-- A handler behind an open gate is run, and its value is the answer if it comes to one. -/
theorem serve_of_open (hopen : GateOpen s.capabilities f) (context : ScriptContext) (args : List Value) :
    let outcome := (f.handler ⟨context, s.region, s.attached, s.timeout⟩ args
      [.served context.script f.name args]).1
    (∀ v, outcome = .ok v → (s.serve context f args).1 = v) ∧
      ∀ refusal, outcome = .error refusal → (s.serve context f args).1 = f.neutral := by
  have hgate : s.closedGate? f = none := by
    unfold closedGate?
    rw [Option.filter_eq_none_iff]
    intro c hc
    simp [hopen c hc]
  unfold serve
  rw [hgate]
  dsimp only
  rcases f.handler ⟨context, s.region, s.attached, s.timeout⟩ args
    [.served context.script f.name args] with ⟨r, events⟩
  cases r with
  | ok v => simp
  | error refusal => cases refusal <;> simp

/-! ### Requests -/

/-- What may be asked of a surface. -/
inductive Request
  | issue (context : ScriptContext) (policy : LeasePolicy) (now : Nat)
  | renew (h : Handle) (now : Nat)
  | dispose (h : Handle)
  | disposeOwner (script : ObjectId)
  | disposeAll
  | sweep (now : Nat)
  | invoke (h : Handle) (name : String) (args : List Value) (now : Nat)

/-- What is answered, and for a call also what happened on the way. -/
inductive Reply
  | issued (h : Handle)
  | renewed (r : Except CallError Unit)
  | disposed (wasLive : Bool)
  | count (n : Nat)
  | answered (r : Except CallError Value) (events : List HostEvent)

/-- What the arena sees of a request. -/
def Request.call : Request → Arena.Call
  | issue context policy now => .issue context policy now
  | renew h now => .renew h now
  | dispose h => .dispose h
  | disposeOwner script => .disposeOwner script
  | disposeAll => .disposeAll
  | sweep now => .sweep now
  | invoke h _ _ now => .access h now

/-- The function that a request calls. -/
def Request.function? : Request → Option String
  | invoke _ name _ _ => some name
  | _ => none

/-- A reply without what a handler has put into it: the value of a call and what happened on the way. -/
def Reply.outline : Reply → Reply
  | answered r _ => answered (r.map fun _ => .nil) []
  | r => r

def ask (s : Surface) : Request → Reply × Surface
  | .issue context policy now =>
    (.issued (s.issue context policy now).1, (s.issue context policy now).2)
  | .renew h now => (.renewed (s.renew h now).1, (s.renew h now).2)
  | .dispose h => (.disposed (s.dispose h).1, (s.dispose h).2)
  | .disposeOwner script => (.count (s.disposeOwner script).1, (s.disposeOwner script).2)
  | .disposeAll => (.count s.disposeAll.1, s.disposeAll.2)
  | .sweep now => (.count (s.sweep now).1, (s.sweep now).2)
  | .invoke h name args now =>
    (.answered (s.invoke h name args now).1 (s.invoke h name args now).2.1,
      (s.invoke h name args now).2.2)

/-- The surface after requests. -/
def after (s : Surface) : List Request → Surface
  | [] => s
  | r :: rs => (s.ask r).2.after rs

/-- What requests are answered, one after the other. -/
def replies (s : Surface) : List Request → List Reply
  | [] => []
  | r :: rs => (s.ask r).1 :: (s.ask r).2.replies rs

/-- A request changes the arena, and that as its call does. -/
theorem ask_surface (s : Surface) (r : Request) :
    (s.ask r).2 = { s with arena := (s.arena.call r.call).2 } := by
  cases r with
  | invoke h name args now => exact s.invoke_surface h name args now
  | _ => rfl

theorem after_eq (s : Surface) (rs : List Request) :
    s.after rs = { s with arena := s.arena.after (rs.map Request.call) } := by
  induction rs generalizing s with
  | nil => rfl
  | cons r rs ih =>
    rw [after, ih, ask_surface]
    rfl

/-! ### Handlers that do something else -/

/-- The surface with another handler for the function of a name. -/
def withHandler (s : Surface) (name : String) (g : Handler) : Surface :=
  { s with functions := s.functions.mapValues fun n f => if n = name then { f with handler := g } else f }

theorem get?_withHandler (s : Surface) (name other : String) (g : Handler) :
    (s.withHandler other g).functions.get? name =
      (s.functions.get? name).map fun f => if name = other then { f with handler := g } else f :=
  Dict.get?_mapValues _ _ _

theorem ask_withHandler (s : Surface) (other : String) (g : Handler) (r : Request) :
    ((s.withHandler other g).ask r).2 = (s.ask r).2.withHandler other g := by
  rw [ask_surface, ask_surface]
  rfl

theorem invoke_withHandler_of_ne {other : String} (hne : name ≠ other) (s : Surface) (g : Handler)
    (h : Handle) (args : List Value) (now : Nat) :
    ((s.withHandler other g).invoke h name args now).1 = (s.invoke h name args now).1 ∧
      ((s.withHandler other g).invoke h name args now).2.1 = (s.invoke h name args now).2.1 := by
  have hget : (s.withHandler other g).functions.get? name = s.functions.get? name := by
    rw [get?_withHandler]
    simp [hne]
  have harena : (s.withHandler other g).arena = s.arena := rfl
  unfold invoke resolve
  rw [hget, harena]
  rcases s.arena.access h now with ⟨r, arena⟩
  cases r with
  | error e => exact ⟨rfl, rfl⟩
  | ok context => cases s.functions.get? name <;> exact ⟨rfl, rfl⟩

/-- Calls of other functions are answered as before. -/
theorem reply_withHandler {other : String} {r : Request} (hr : r.function? ≠ some other) (g : Handler) :
    ((s.withHandler other g).ask r).1 = (s.ask r).1 := by
  cases r with
  | invoke h name args now =>
    have hne : name ≠ other := fun heq => hr (congrArg some heq)
    obtain ⟨hanswer, hevents⟩ := invoke_withHandler_of_ne hne s g h args now
    show Reply.answered _ _ = Reply.answered _ _
    rw [hanswer, hevents]
  | _ => rfl

/-- A call fails for the same reason, or for none, whatever handlers do. -/
theorem outline_withHandler (s : Surface) (other : String) (g : Handler) (r : Request) :
    ((s.withHandler other g).ask r).1.outline = (s.ask r).1.outline := by
  cases r with
  | invoke h name args now =>
    have hsame : ((s.withHandler other g).invoke h name args now).1.map (fun _ => Value.nil) =
        (s.invoke h name args now).1.map fun _ => Value.nil := by
      have hget := s.get?_withHandler name other g
      cases haccess : (s.arena.access h now).1 with
      | error e =>
        have haccess' : ((s.withHandler other g).arena.access h now).1 = .error e := haccess
        rw [invoke_of_error haccess, invoke_of_error haccess']
      | ok context =>
        have haccess' : ((s.withHandler other g).arena.access h now).1 = .ok context := haccess
        cases hf : s.functions.get? name with
        | none =>
          rw [hf, Option.map_none] at hget
          rw [invoke_of_unknown haccess hf, invoke_of_unknown haccess' hget]
        | some f =>
          rw [hf, Option.map_some] at hget
          rw [(invoke_of_found haccess hf args).1, (invoke_of_found haccess' hget args).1]
          rfl
    exact congrArg (Reply.answered · []) hsame
  | _ => rfl

theorem replies_withHandler {other : String} {rs : List Request} (hrs : ∀ r ∈ rs, r.function? ≠ some other)
    (s : Surface) (g : Handler) : (s.withHandler other g).replies rs = s.replies rs := by
  induction rs generalizing s with
  | nil => rfl
  | cons r rs ih =>
    obtain ⟨hr, hrs⟩ := List.forall_mem_cons.1 hrs
    rw [replies, replies, reply_withHandler hr, ask_withHandler, ih hrs]

theorem outlines_withHandler (s : Surface) (other : String) (g : Handler) (rs : List Request) :
    ((s.withHandler other g).replies rs).map Reply.outline = (s.replies rs).map Reply.outline := by
  induction rs generalizing s with
  | nil => rfl
  | cons r rs ih =>
    rw [replies, replies, List.map_cons, List.map_cons, outline_withHandler, ask_withHandler, ih]

/-! ### Calls on a surface in use -/

/-- A call on a surface that has been used in any way. It fails just if its handle is refused, or is not
and no module has a function of its name. Otherwise it is answered the value of the handler behind an open
gate, and the neutral value if the handler refuses or panics, or if the gate is closed, behind which the
handler is not run. What the call leaves behind is told by its handle and its time: after a call of any
other function with any arguments, of which a handler may do something else, the arena is the same, and so
are all later replies, up to what that handler puts into those of its own calls. -/
theorem refusals_and_panics_contained {region : Region} {capabilities : Capabilities}
    {modules : List HostModule} {attached : Bool} {timeout : Nat} {built : Surface}
    (hbuild : build region capabilities modules attached timeout = .ok built) (before : List Request)
    (h : Handle) (name : String) (args : List Value) (now : Nat) :
    let s := built.after before
    let answer := (s.invoke h name args now).1
    let next := (s.invoke h name args now).2.2
    (∀ e, answer = .error e ↔
      (s.arena.access h now).1 = .error e ∨
        (∃ context, (s.arena.access h now).1 = .ok context) ∧
          (∀ m ∈ modules, ∀ f ∈ m.functions, f.name ≠ name) ∧ e = .unknownFunction name) ∧
    (∀ context, (s.arena.access h now).1 = .ok context →
      ∀ m ∈ modules, ∀ f ∈ m.functions, f.name = name →
        (∀ c, f.capability = some c → capabilities.isEnabled c = false →
          answer = .ok f.neutral ∧
            (s.invoke h name args now).2.1 = [.denied name (.capabilityDisabled c)]) ∧
        (GateOpen capabilities f →
          let outcome := (f.handler ⟨context, region, attached, timeout⟩ args
            [.served context.script name args]).1
          (∀ v, outcome = .ok v → answer = .ok v) ∧
            ∀ refusal, outcome = .error refusal → answer = .ok f.neutral)) ∧
    next = { s with arena := (s.arena.access h now).2 } ∧
    ∀ name' args' other g later,
      let next' := ((s.withHandler other g).invoke h name' args' now).2.2
      (next'.after later).arena = (next.after later).arena ∧
        (next'.replies later).map Reply.outline = (next.replies later).map Reply.outline ∧
        ((∀ r ∈ later, r.function? ≠ some other) → next'.replies later = next.replies later) := by
  intro s answer next
  have hs : s = { built with arena := built.arena.after (before.map Request.call) } := built.after_eq before
  have hfunctions : s.functions = built.functions := by rw [hs]
  refine ⟨fun e => ?_, fun context hcontext m hm f hf hname => ?_, s.invoke_surface h name args now,
    fun name' args' other g later => ?_⟩
  · rw [invoke_eq_error_iff, hfunctions]
    have hnone : built.functions.get? name = none ↔ ∀ m ∈ modules, ∀ f ∈ m.functions, f.name ≠ name := by
      constructor
      · rintro hnone m hm f hf rfl
        rw [get?_build hbuild hm hf] at hnone
        cases hnone
      · intro hall
        rw [Option.eq_none_iff_forall_ne_some]
        intro f hf
        obtain ⟨m, hm, hmem, hname⟩ := mem_of_get?_build hbuild hf
        exact hall m hm f hmem hname
    rw [hnone]
  · subst hname
    have hfound : s.functions.get? f.name = some f := by
      rw [hfunctions]
      exact get?_build hbuild hm hf
    obtain ⟨hanswer, hevents⟩ := invoke_of_found hcontext hfound args
    have hcapabilities : s.capabilities = capabilities := by
      obtain ⟨table, -, rfl⟩ := build_eq_ok_iff.1 hbuild
      rw [hs]
    have hcall : (⟨context, s.region, s.attached, s.timeout⟩ : Call) = ⟨context, region, attached, timeout⟩ := by
      obtain ⟨table, -, rfl⟩ := build_eq_ok_iff.1 hbuild
      rw [hs]
    refine ⟨fun c hc hclosed => ?_, fun hopen => ?_⟩
    · have hserve := serve_of_closed (s := s) hc (hcapabilities ▸ hclosed) context args
      rw [hserve] at hanswer hevents
      exact ⟨hanswer, hevents⟩
    · have hserve := serve_of_open (s := s) (hcapabilities ▸ hopen) context args
      rw [hcall] at hserve
      exact ⟨fun v hv => hanswer.trans (congrArg Except.ok (hserve.1 v hv)),
        fun refusal hr => hanswer.trans (congrArg Except.ok (hserve.2 refusal hr))⟩
  · have hnext : ((s.withHandler other g).invoke h name' args' now).2.2 = next.withHandler other g := by
      rw [invoke_surface]
      show _ = (s.invoke h name args now).2.2.withHandler other g
      rw [invoke_surface]
      rfl
    rw [hnext]
    refine ⟨?_, outlines_withHandler next other g later, fun hlater => replies_withHandler hlater next g⟩
    rw [after_eq, after_eq]
    rfl

/-- A function that panics, called on a surface with one handle. It is answered its neutral value, and a
call that follows is answered as after a call that succeeds. -/
theorem refusals_and_panics_contained_panic :
    let explode : HostFunction :=
      { name := "explode", capability := none, neutral := .boolean false
        handler := fun _ _ => Serving.panic (some "handler bug") }
    let region : Region :=
      { name := "Sandbox", id := .nil, scope := .nil, directory := none, permissions := ⟨fun _ _ => false⟩ }
    let modules := Modules.identity :: [⟨"test", [explode]⟩]
    ∃ built, build region .none modules true 10 = .ok built ∧
      let s := built.after [.issue default .manual 0]
      (s.invoke ⟨0, 0⟩ "explode" [] 1).1 = .ok (.boolean false) ∧
        ((s.withHandler "explode" fun _ _ => pure .nil).invoke ⟨0, 0⟩ "explode" [] 1).2.2.replies
            [.invoke ⟨0, 0⟩ "script_key" [] 2] =
          (s.invoke ⟨0, 0⟩ "explode" [] 1).2.2.replies [.invoke ⟨0, 0⟩ "script_key" [] 2] := by
  intro explode region modules
  have hbuild : ∃ built, build region .none modules true 10 = .ok built := ⟨_, rfl⟩
  obtain ⟨built, hbuild⟩ := hbuild
  have hcontained := refusals_and_panics_contained hbuild [.issue default .manual 0] ⟨0, 0⟩ "explode" [] 1
  have hempty : built.arena = .empty := build_arena hbuild
  obtain ⟨-, hserved, -, hlater⟩ := hcontained
  refine ⟨built, hbuild, ?_, ?_⟩
  · have haccess : ((built.after [.issue default .manual 0]).arena.access ⟨0, 0⟩ 1).1 = .ok default := by
      rw [after_eq, hempty]
      rfl
    have hmem : (⟨"test", [explode]⟩ : HostModule) ∈ modules := by simp [modules]
    have hopen : GateOpen .none explode := fun c hc => by cases hc
    exact ((hserved default haccess _ hmem explode List.mem_cons_self rfl).2 hopen).2 _ rfl
  · exact (hlater "explode" [] "explode" (fun _ _ => pure .nil) _).2.2 (by simp [Request.function?])

end Surface

end ScriptHost
