import ScriptHost.Host.Modules
import ScriptHost.Proofs.Host.FunctionTable

/-! Who is told where an account lives. The account service is asked only in the name of an owner who may
know, and then once; everybody else gets the empty text that a user whom nobody knows gets too, whatever
the service holds and however it fares. -/

namespace ScriptHost

/-! ### Keys -/

theorem keyArgument_eq_ok_iff {args : List Value} {index : Nat} {user : ObjectId} :
    keyArgument args index = .ok user ↔
      ∃ text, args[index]? = some (.string text) ∧ ObjectId.parse? (Text.trim text) = some user := by
  unfold keyArgument
  cases args[index]? with
  | none => simp
  | some v =>
    have hkey : v.asString?.bind ObjectId.parseLenient? = some user ↔
        ∃ text, v = .string text ∧ ObjectId.parse? (Text.trim text) = some user := by
      cases v <;> simp [Value.asString?, ObjectId.parseLenient?]
    simp only [Option.some.injEq, ← hkey]
    cases v.asString?.bind ObjectId.parseLenient? with
    | none => simp
    | some id => simp

/-! ### The account service -/

/-- The account that a directory finds for a user within a time limit. -/
def Directory.inTime? (d : Directory) (timeout : Nat) (user : ObjectId) : Option Account :=
  if d.offline || decide (timeout < d.latency) then none else d.find? user

theorem Directory.inTime?_eq_some_iff {d : Directory} {timeout : Nat} {user : ObjectId}
    {account : Account} :
    d.inTime? timeout user = some account ↔
      d.offline = false ∧ d.latency ≤ timeout ∧ d.find? user = some account := by
  unfold inTime?
  by_cases hlate : timeout < d.latency
  · simp [hlate, Nat.not_le.2 hlate]
  · cases d.offline with
    | true => simp
    | false => simp [hlate, Nat.not_lt.1 hlate]

/-- The text of the country of an account that may not be known. -/
def countryText (account : Option Account) : String := (account.map (·.country)).getD ""

namespace Call

variable {call : Call} {args : List Value} {user : ObjectId} {d : Directory}

/-- A call that may know where a user lives. -/
structure MayKnow (call : Call) (args : List Value) (user : ObjectId) : Prop where
  key : ∃ text, args[0]? = some (.string text) ∧ ObjectId.parse? (Text.trim text) = some user
  privileged : call.region.permissions.isPrivileged call.context.owner call.context.hostOwner = true
  service : call.region.directory.isSome = true
  attached : call.attached = true

/-- The same call after a change of the account service. -/
def withDirectory (call : Call) (f : Directory → Directory) : Call :=
  { call with region := { call.region with directory := call.region.directory.map f } }

end Call

namespace Modules

variable {call : Call} {args : List Value} {user : ObjectId} {d : Directory}

theorem mapError_ok {ε ε' α : Type} (f : ε → ε') (x : α) : (Except.ok x).mapError f = .ok x := rfl

theorem mapError_error {ε ε' α : Type} (f : ε → ε') (e : ε) :
    (Except.error e : Except ε α).mapError f = .error (f e) := rfl

theorem lookup_of_none (hnone : call.region.directory = none) (events : List HostEvent) :
    lookup call user events =
      (.error (.denied (.serviceUnavailable "region has no account service")), events) := by
  unfold lookup
  rw [hnone]
  rfl

theorem lookup_of_unattached (hsome : call.region.directory = some d) (hattached : call.attached = false)
    (events : List HostEvent) :
    lookup call user events = (.error (.denied (.serviceUnavailable "no runtime attached")), events) := by
  unfold lookup
  rw [hsome]
  simp only [hattached, Call.await]
  rfl

/-- The question that is put is answered with the account found in time, or not at all. -/
theorem lookup_of_attached (hsome : call.region.directory = some d) (hattached : call.attached = true)
    (user : ObjectId) (events : List HostEvent) :
    ∃ r, lookup call user events = (r, events ++ [.asked call.region.scope user]) ∧
      (r = .ok (d.inTime? call.timeout user) ∨
        (∃ why, r = .error (.denied why)) ∧ d.inTime? call.timeout user = none) := by
  unfold lookup
  rw [hsome]
  simp only [hattached, Call.await, bind_apply, Serving.emit_apply, Serving.ofExcept_apply,
    if_true]
  refine ⟨_, rfl, ?_⟩
  by_cases hlate : call.timeout < d.latency
  · refine .inr ⟨⟨.serviceUnavailable s!"no answer within {call.timeout} ms", ?_⟩, ?_⟩
    · rw [if_pos hlate]
      rfl
    · simp [Directory.inTime?, hlate]
  · cases hoffline : d.offline with
    | true => simp [Directory.lookup, Directory.inTime?, hlate, hoffline, mapError_error]
    | false => simp [Directory.lookup, Directory.inTime?, hlate, hoffline, mapError_ok]

theorem agentCountry_eq (call : Call) (args : List Value) (events : List HostEvent) :
    agentCountry call args events =
      match keyArgument args 0 with
      | .error why => (.error (.denied why), events)
      | .ok user =>
        if call.region.permissions.isPrivileged call.context.owner call.context.hostOwner then
          match lookup call user events with
          | (.ok account, events) => (.ok (.string (countryText account)), events)
          | (.error e, events) => (.error e, events)
        else (.error (.denied .permissionDenied), events) := by
  unfold agentCountry
  rw [bind_apply, Serving.ofExcept_apply]
  cases keyArgument args 0 with
  | error why => rfl
  | ok user =>
    rw [mapError_ok]
    dsimp only
    split
    · rw [bind_apply]
      rcases lookup call user events with ⟨r, asked⟩
      cases r <;> rfl
    · rfl

/-- Who may know is told what is found in time, and the account service is asked. -/
theorem agentCountry_of_mayKnow (hmay : call.MayKnow args user) (hsome : call.region.directory = some d)
    (events : List HostEvent) :
    ∃ r, agentCountry call args events = (r, events ++ [.asked call.region.scope user]) ∧
      (r = .ok (.string (countryText (d.inTime? call.timeout user))) ∨
        (∃ why, r = .error (.denied why)) ∧ d.inTime? call.timeout user = none) := by
  obtain ⟨r, hlookup, hr⟩ := lookup_of_attached hsome hmay.attached user events
  rw [agentCountry_eq, keyArgument_eq_ok_iff.2 hmay.key]
  simp only [hmay.privileged, if_true, hlookup]
  rcases hr with rfl | ⟨⟨why, rfl⟩, hnone⟩
  · exact ⟨_, rfl, .inl rfl⟩
  · exact ⟨_, rfl, .inr ⟨⟨why, rfl⟩, hnone⟩⟩

/-- Whoever may not know is refused for a reason that does not depend on what the service holds, and
nothing is asked. -/
theorem agentCountry_of_not_mayKnow (hnot : ∀ user, ¬ call.MayKnow args user) :
    ∃ why, ∀ f events, agentCountry (call.withDirectory f) args events = (.error (.denied why), events) := by
  cases hkey : keyArgument args 0 with
  | error why => exact ⟨why, fun f events => by rw [agentCountry_eq, hkey]⟩
  | ok user =>
    cases hprivileged : call.region.permissions.isPrivileged call.context.owner call.context.hostOwner with
    | false =>
      refine ⟨.permissionDenied, fun f events => ?_⟩
      rw [agentCountry_eq, hkey]
      exact if_neg (by simp [Call.withDirectory, hprivileged])
    | true =>
      have hrefused {f : Directory → Directory} {events : List HostEvent} {why : Denial}
          (hlookup : lookup (call.withDirectory f) user events = (.error (.denied why), events)) :
          agentCountry (call.withDirectory f) args events = (.error (.denied why), events) := by
        rw [agentCountry_eq, hkey]
        simp only [Call.withDirectory, hprivileged, if_true]
        rw [Call.withDirectory] at hlookup
        rw [hlookup]
      cases hsome : call.region.directory with
      | none =>
        refine ⟨_, fun f events => hrefused (lookup_of_none ?_ events)⟩
        simp [Call.withDirectory, hsome]
      | some d =>
        have hattached : call.attached = false := by
          rw [← Bool.not_eq_true]
          intro hattached
          exact hnot user ⟨keyArgument_eq_ok_iff.1 hkey, hprivileged, by simp [hsome], hattached⟩
        refine ⟨.serviceUnavailable "no runtime attached", fun f events => ?_⟩
        have hserved : (call.withDirectory f).region.directory = some (f d) := by simp [Call.withDirectory, hsome]
        exact hrefused (lookup_of_unattached hserved hattached events)

end Modules

/-! ### Surfaces -/

/-- A question to the account service: the scope and the user. -/
def HostEvent.question? : HostEvent → Option (ObjectId × ObjectId)
  | asked scope user => some (scope, user)
  | _ => none

namespace Surface

variable {s : Surface} {context : ScriptContext} {args : List Value} {user : ObjectId} {d : Directory}

/-- A caller that may know where a user lives. -/
structure Entitled (s : Surface) (context : ScriptContext) (args : List Value) (user : ObjectId) : Prop
    extends Call.MayKnow ⟨context, s.region, s.attached, s.timeout⟩ args user where
  enabled : s.capabilities.isEnabled Capabilities.extendedCountryLookup = true

/-- What a call for a country answers, and what it asks the account service. -/
def country (s : Surface) (h : Handle) (args : List Value) (now : Nat) :
    Except CallError Value × List (ObjectId × ObjectId) :=
  let (answer, events, _) := s.invoke h "agent_country" args now
  (answer, events.filterMap HostEvent.question?)

theorem serve_country_of_entitled (hmay : s.Entitled context args user)
    (hsome : s.region.directory = some d) :
    (s.serve context Modules.countryFunction args).1 =
        .string (countryText (d.inTime? s.timeout user)) ∧
      (s.serve context Modules.countryFunction args).2.filterMap HostEvent.question? =
        [(s.region.scope, user)] := by
  have hopen : s.closedGate? Modules.countryFunction = none := by
    simp [closedGate?, Modules.countryFunction, hmay.enabled]
  obtain ⟨r, hanswer, hr⟩ := Modules.agentCountry_of_mayKnow hmay.toMayKnow hsome
    [.served context.script "agent_country" args]
  unfold serve
  rw [hopen]
  simp only [Modules.countryFunction, hanswer]
  rcases hr with rfl | ⟨⟨why, rfl⟩, hnone⟩
  · exact ⟨rfl, rfl⟩
  · exact ⟨by rw [hnone]; rfl, rfl⟩

theorem serve_country_of_not_entitled (hnot : ∀ user, ¬ s.Entitled context args user) :
    ∃ events, events.filterMap HostEvent.question? = [] ∧
      ∀ f, (s.updateDirectory f).serve context Modules.countryFunction args = (.string "", events) := by
  cases henabled : s.capabilities.isEnabled Capabilities.extendedCountryLookup with
  | false =>
    refine ⟨[.denied "agent_country" (.capabilityDisabled Capabilities.extendedCountryLookup)], rfl,
      fun f => ?_⟩
    have hclosed : (s.updateDirectory f).closedGate? Modules.countryFunction =
        some Capabilities.extendedCountryLookup := by
      simp [closedGate?, Modules.countryFunction, updateDirectory, henabled]
    unfold serve
    rw [hclosed]
    rfl
  | true =>
    have hmay (user : ObjectId) : ¬ Call.MayKnow ⟨context, s.region, s.attached, s.timeout⟩ args user :=
      fun hmay => hnot user ⟨hmay, henabled⟩
    obtain ⟨why, hwhy⟩ := Modules.agentCountry_of_not_mayKnow hmay
    refine ⟨[.served context.script "agent_country" args, .denied "agent_country" why], rfl, fun f => ?_⟩
    have hopen : (s.updateDirectory f).closedGate? Modules.countryFunction = none := by
      simp [closedGate?, Modules.countryFunction, updateDirectory, henabled]
    unfold serve
    rw [hopen]
    have hrefused := hwhy f [.served context.script "agent_country" args]
    simp only [Modules.countryFunction, updateDirectory]
    rw [Call.withDirectory] at hrefused
    rw [hrefused]
    rfl

theorem country_of_error {h : Handle} {now : Nat} {e : CallError}
    (haccess : (s.arena.access h now).1 = .error e) : s.country h args now = (.error e, []) := by
  unfold country invoke resolve
  rcases hresult : s.arena.access h now with ⟨r, arena⟩
  rw [hresult] at haccess
  cases haccess
  rfl

theorem country_of_ok {h : Handle} {now : Nat}
    (hfunction : s.functions.get? "agent_country" = some Modules.countryFunction)
    (haccess : (s.arena.access h now).1 = .ok context) :
    s.country h args now = (.ok (s.serve context Modules.countryFunction args).1,
      (s.serve context Modules.countryFunction args).2.filterMap HostEvent.question?) := by
  unfold country invoke resolve
  rcases hresult : s.arena.access h now with ⟨r, arena⟩
  rw [hresult] at haccess
  cases haccess
  simp only [hfunction]
  rfl

/-- Who is entitled is told what the service finds in time, whatever service it has become. -/
theorem country_of_entitled {h : Handle} {now : Nat}
    (hfunction : s.functions.get? "agent_country" = some Modules.countryFunction)
    (haccess : (s.arena.access h now).1 = .ok context) (hmay : s.Entitled context args user)
    (hsome : s.region.directory = some d) (f : Directory → Directory) :
    (s.updateDirectory f).country h args now =
      (.ok (.string (countryText ((f d).inTime? s.timeout user))), [(s.region.scope, user)]) := by
  have hsome' : (s.updateDirectory f).region.directory = some (f d) := by simp [updateDirectory, hsome]
  have hmay' : (s.updateDirectory f).Entitled context args user :=
    ⟨⟨hmay.key, hmay.privileged, by rw [hsome']; rfl, hmay.attached⟩, hmay.enabled⟩
  obtain ⟨hanswer, hasked⟩ := serve_country_of_entitled hmay' hsome'
  have hcall : (s.updateDirectory f).country h args now = _ := country_of_ok hfunction haccess
  rw [hcall, hanswer, hasked]
  rfl

theorem country_of_not_entitled {h : Handle} {now : Nat}
    (hfunction : s.functions.get? "agent_country" = some Modules.countryFunction)
    (haccess : (s.arena.access h now).1 = .ok context)
    (hnot : ∀ user, ¬ s.Entitled context args user) (f : Directory → Directory) :
    (s.updateDirectory f).country h args now = (.ok (.string ""), []) := by
  obtain ⟨events, hevents, hserve⟩ := serve_country_of_not_entitled hnot
  have hcall : (s.updateDirectory f).country h args now = _ := country_of_ok hfunction haccess
  rw [hcall, hserve, hevents]

theorem updateDirectory_id (s : Surface) : s.updateDirectory id = s := by
  rw [updateDirectory, Option.map_id]
  rfl

/-- The country of a user is told to a caller whose handle resolves, whose engine may look countries up,
who names the user by a key, whose owner is privileged over the owner of the host object, and where there
is an account service and somebody to wait for it. The service is then asked once, for that user. Any
other caller is answered the empty text, as is one who asks for a user that is not found in time, and the
service is not asked. -/
theorem country_told_to_entitled {region : Region} {capabilities : Capabilities}
    {modules : List HostModule} {attached : Bool} {timeout : Nat} {built : Surface}
    (hbuild : build region capabilities modules attached timeout = .ok built)
    (hstandard : Modules.standard ⊆ modules) (arena : Arena) (h : Handle) (args : List Value) (now : Nat) :
    let s := { built with arena }
    (∀ e, (arena.access h now).1 = .error e → s.country h args now = (.error e, [])) ∧
    ∀ context, (arena.access h now).1 = .ok context →
      (∀ user, s.Entitled context args user → ∃ d, region.directory = some d ∧
        ∀ f, (s.updateDirectory f).country h args now =
          (.ok (.string (countryText ((f d).inTime? timeout user))), [(region.scope, user)])) ∧
      ((∀ user, ¬ s.Entitled context args user) →
        ∀ f, (s.updateDirectory f).country h args now = (.ok (.string ""), [])) ∧
      ∀ text, (s.country h args now).1 = .ok (.string text) → text ≠ "" →
        ∃ user d account, s.Entitled context args user ∧ region.directory = some d ∧
          d.offline = false ∧ d.latency ≤ timeout ∧ d.find? user = some account ∧
          text = account.country := by
  obtain ⟨table, -, rfl⟩ := build_eq_ok_iff.1 hbuild
  have hdirectory : Modules.directory ∈ modules := hstandard (by simp [Modules.standard])
  have hcountry : Modules.countryFunction ∈ Modules.directory.functions := List.mem_cons_self
  intro s
  have hfunction : s.functions.get? "agent_country" = some Modules.countryFunction :=
    get?_build hbuild hdirectory hcountry
  refine ⟨fun e he => country_of_error he, fun context hcontext => ?_⟩
  have haccess : (s.arena.access h now).1 = .ok context := hcontext
  refine ⟨fun user hmay => ?_, country_of_not_entitled hfunction haccess, fun text htext hne => ?_⟩
  · obtain ⟨d, hd⟩ := Option.isSome_iff_exists.1 hmay.service
    exact ⟨d, hd, country_of_entitled hfunction haccess hmay hd⟩
  · by_cases hmay : ∃ user, s.Entitled context args user
    · obtain ⟨user, hmay⟩ := hmay
      obtain ⟨d, hd⟩ := Option.isSome_iff_exists.1 hmay.service
      have htold := country_of_entitled hfunction haccess hmay hd id
      rw [updateDirectory_id] at htold
      rw [htold] at htext
      cases haccount : d.inTime? timeout user with
      | none =>
        have hempty : countryText (d.inTime? timeout user) = text := by cases htext; rfl
        rw [haccount] at hempty
        exact absurd hempty.symm hne
      | some account =>
        have hcountry : countryText (d.inTime? timeout user) = text := by cases htext; rfl
        rw [haccount] at hcountry
        obtain ⟨honline, hintime, hfound⟩ := Directory.inTime?_eq_some_iff.1 haccount
        exact ⟨user, d, account, hmay, hd, honline, hintime, hfound, hcountry.symm⟩
    · have htold := country_of_not_entitled hfunction haccess (not_exists.1 hmay) id
      rw [updateDirectory_id] at htold
      rw [htold] at htext
      cases htext
      exact absurd rfl hne

/-- An owner with privileges asks for a user, while the service works and while it is offline. -/
theorem country_told_to_entitled_found :
    let account : Account := ⟨⟨7⟩, "Ada", "Byron", "UK"⟩
    let region : Region :=
      { name := "Sandbox", id := .nil, scope := ⟨3⟩, directory := some ⟨[account], false, 5⟩
        permissions := ⟨fun owner _ => owner = ⟨1⟩⟩ }
    let capabilities := Capabilities.none.set Capabilities.extendedCountryLookup true
    let context : ScriptContext := { (default : ScriptContext) with owner := ⟨1⟩ }
    let arena := (Arena.empty.issue context .manual 0).2
    let args : List Value := [.string " 00000000000000000000000000000007 "]
    ∃ built, build region capabilities Modules.standard true 10 = .ok built ∧
      Modules.standard ⊆ Modules.standard ∧
      let s := { built with arena }
      s.Entitled context args ⟨7⟩ ∧ s.country ⟨0, 0⟩ args 1 = (.ok (.string "UK"), [(⟨3⟩, ⟨7⟩)]) ∧
      (s.updateDirectory fun d => { d with offline := true }).country ⟨0, 0⟩ args 1 =
        (.ok (.string ""), [(⟨3⟩, ⟨7⟩)]) := by
  intro account region capabilities context arena args
  have hbuild : ∃ built, build region capabilities Modules.standard true 10 = .ok built := ⟨_, rfl⟩
  obtain ⟨built, hbuild⟩ := hbuild
  have hstandard : Modules.standard ⊆ Modules.standard := List.Subset.refl _
  have htold := country_told_to_entitled hbuild hstandard arena ⟨0, 0⟩ args 1
  obtain ⟨table, -, rfl⟩ := build_eq_ok_iff.1 hbuild
  refine ⟨_, hbuild, hstandard, ?_⟩
  intro s
  have hkey : ObjectId.parse? (Text.trim " 00000000000000000000000000000007 ") = some ⟨7⟩ := by decide
  have hprivileged : region.permissions.isPrivileged context.owner context.hostOwner = true := by decide
  have henabled : capabilities.isEnabled Capabilities.extendedCountryLookup = true := by decide
  have hmay : s.Entitled context args ⟨7⟩ := ⟨⟨⟨_, rfl, hkey⟩, hprivileged, rfl, rfl⟩, henabled⟩
  obtain ⟨d, hd, hanswer⟩ := (htold.2 context rfl).1 ⟨7⟩ hmay
  cases hd
  refine ⟨hmay, ?_, hanswer fun d => { d with offline := true }⟩
  rw [← updateDirectory_id s]
  exact hanswer id

end Surface

end ScriptHost
