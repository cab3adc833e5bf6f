import ScriptHost.Host.Surface

/-! The functions of a surface. A name is taken once, so a surface that can be built has every function
of its modules under its name. -/

namespace ScriptHost

namespace FunctionTable

variable {module : String} {t u v : FunctionTable} {f : HostFunction}

/-- What a table has, the other has too. -/
def Within (t u : FunctionTable) : Prop :=
  ∀ name entry, t.get? name = some entry → u.get? name = some entry

/-- A table has a function of a module. -/
def Has (module : String) (t : FunctionTable) (f : HostFunction) : Prop :=
  t.get? f.name = some (module, f)

theorem Within.trans (h : t.Within u) (h' : u.Within v) : t.Within v :=
  fun name entry hentry => h' name entry (h name entry hentry)

theorem add_eq_ok_iff :
    add module t f = .ok u ↔ t.get? f.name = none ∧ t.insert f.name (module, f) = u := by
  unfold add
  cases t.get? f.name with
  | none => simp
  | some entry => simp

theorem within_add (h : add module t f = .ok u) :
    t.Within u ∧ Has module u f := by
  obtain ⟨hfree, rfl⟩ := add_eq_ok_iff.1 h
  refine ⟨fun name entry hentry => ?_, Dict.get?_insert_self _ _ _⟩
  have hne : name ≠ f.name := by
    rintro rfl
    rw [hfree] at hentry
    cases hentry
  rw [Dict.get?_insert_of_ne _ hne, hentry]

/-- Steps that only add to a table leave in it what each of them has added. -/
theorem within_foldlM {α : Type} {step : FunctionTable → α → Except BuildError FunctionTable}
    {P : FunctionTable → α → Prop} (hkeep : ∀ t u x, t.Within u → P t x → P u x)
    (hstep : ∀ t u x, step t x = .ok u → t.Within u ∧ P u x) {xs : List α}
    (h : xs.foldlM step t = .ok u) : t.Within u ∧ ∀ x ∈ xs, P u x := by
  induction xs generalizing t with
  | nil =>
    cases h
    exact ⟨fun _ _ hentry => hentry, nofun⟩
  | cons x xs ih =>
    rw [List.foldlM_cons] at h
    cases hx : step t x with
    | error e =>
      rw [hx] at h
      cases h
    | ok next =>
      rw [hx] at h
      obtain ⟨hwithin, hhas⟩ := hstep _ _ _ hx
      obtain ⟨hwithin', hall⟩ := ih h
      refine ⟨hwithin.trans hwithin', fun y hy => ?_⟩
      rcases List.mem_cons.1 hy with rfl | hy
      · exact hkeep _ _ _ hwithin' hhas
      · exact hall y hy

theorem within_module {m : HostModule} (h : m.functions.foldlM (add m.name) t = .ok u) :
    t.Within u ∧ ∀ f ∈ m.functions, Has m.name u f :=
  within_foldlM (P := Has m.name) (fun _ _ _ hwithin hhas => hwithin _ _ hhas) (fun _ _ _ => within_add) h

/-- A table has every function of its modules. -/
theorem has_ofModules {modules : List HostModule} (h : ofModules modules = .ok u) {m : HostModule}
    (hm : m ∈ modules) (hf : f ∈ m.functions) : Has m.name u f := by
  have hkeep (t u : FunctionTable) (m : HostModule) (hwithin : t.Within u)
      (hall : ∀ f ∈ m.functions, Has m.name t f) : ∀ f ∈ m.functions, Has m.name u f :=
    fun f hf => hwithin _ _ (hall f hf)
  exact (within_foldlM hkeep (fun _ _ _ => within_module) h).2 m hm f hf

/-- An entry that is a function of some module, under its name. -/
def Comes (modules : List HostModule) (name : String) (entry : String × HostFunction) : Prop :=
  ∃ m ∈ modules, m.name = entry.1 ∧ entry.2 ∈ m.functions ∧ entry.2.name = name

/-- Steps that add entries of a kind leave a table whose new entries are of that kind. -/
theorem comes_foldlM {α : Type} {step : FunctionTable → α → Except BuildError FunctionTable}
    {P : String → String × HostFunction → Prop} {xs : List α}
    (hstep : ∀ x ∈ xs, ∀ t u, step t x = .ok u →
      ∀ name entry, u.get? name = some entry → t.get? name = some entry ∨ P name entry)
    (h : xs.foldlM step t = .ok u) {name : String} {entry : String × HostFunction}
    (hentry : u.get? name = some entry) : t.get? name = some entry ∨ P name entry := by
  induction xs generalizing t with
  | nil =>
    cases h
    exact .inl hentry
  | cons x xs ih =>
    obtain ⟨hx, hxs⟩ := List.forall_mem_cons.1 hstep
    rw [List.foldlM_cons] at h
    cases hnext : step t x with
    | error e =>
      rw [hnext] at h
      cases h
    | ok next =>
      rw [hnext] at h
      rcases ih hxs h with hnew | hnew
      · exact hx t next hnext name entry hnew
      · exact .inr hnew

/-- A table has nothing but the functions of its modules. -/
theorem comes_ofModules {modules : List HostModule} (h : ofModules modules = .ok u) {name : String}
    {entry : String × HostFunction} (hentry : u.get? name = some entry) : Comes modules name entry := by
  have hadd (m : HostModule) (hm : m ∈ modules) (f : HostFunction) (hf : f ∈ m.functions)
      (t u : FunctionTable) (hu : add m.name t f = .ok u) (name : String)
      (entry : String × HostFunction) (hentry : u.get? name = some entry) :
      t.get? name = some entry ∨ Comes modules name entry := by
    obtain ⟨-, rfl⟩ := add_eq_ok_iff.1 hu
    rw [Dict.get?_insert] at hentry
    split at hentry
    · rename_i heq
      cases hentry
      exact .inr ⟨m, hm, rfl, hf, heq.symm⟩
    · exact .inl hentry
  have hmodule (m : HostModule) (hm : m ∈ modules) (t u : FunctionTable)
      (hu : m.functions.foldlM (add m.name) t = .ok u) (name : String) (entry : String × HostFunction)
      (hentry : u.get? name = some entry) : t.get? name = some entry ∨ Comes modules name entry :=
    comes_foldlM (hadd m hm) hu hentry
  rcases comes_foldlM hmodule h hentry with hnone | hcomes
  · cases hnone
  · exact hcomes

end FunctionTable

namespace Surface

variable {region : Region} {capabilities : Capabilities} {modules : List HostModule} {attached : Bool}
  {timeout : Nat} {s : Surface}

theorem build_eq_ok_iff :
    build region capabilities modules attached timeout = .ok s ↔
      ∃ table, FunctionTable.ofModules modules = .ok table ∧
        s = ⟨table.mapValues fun _ f => f.2, .empty, capabilities, region, attached, timeout⟩ := by
  unfold build
  cases FunctionTable.ofModules modules with
  | error e => exact ⟨nofun, fun ⟨_, h, _⟩ => nomatch h⟩
  | ok table =>
    constructor
    · intro h
      cases h
      exact ⟨table, rfl, rfl⟩
    · rintro ⟨_, h, rfl⟩
      cases h
      rfl

/-- A surface has every function of its modules. -/
theorem get?_build (h : build region capabilities modules attached timeout = .ok s) {m : HostModule}
    (hm : m ∈ modules) {f : HostFunction} (hf : f ∈ m.functions) : s.functions.get? f.name = some f := by
  obtain ⟨table, htable, rfl⟩ := build_eq_ok_iff.1 h
  show (table.mapValues fun _ f => f.2).get? f.name = some f
  rw [Dict.get?_mapValues, FunctionTable.has_ofModules htable hm hf]
  rfl

/-- A surface has nothing but the functions of its modules. -/
theorem mem_of_get?_build (h : build region capabilities modules attached timeout = .ok s) {name : String}
    {f : HostFunction} (hf : s.functions.get? name = some f) :
    ∃ m ∈ modules, f ∈ m.functions ∧ f.name = name := by
  obtain ⟨table, htable, rfl⟩ := build_eq_ok_iff.1 h
  have hget : (table.mapValues fun _ f => f.2).get? name = some f := hf
  rw [Dict.get?_mapValues] at hget
  obtain ⟨entry, hentry, rfl⟩ := Option.map_eq_some_iff.1 hget
  obtain ⟨m, hm, -, hmem, hname⟩ := FunctionTable.comes_ofModules htable hentry
  exact ⟨m, hm, hmem, hname⟩

end Surface

end ScriptHost
