import ScriptHost.Proofs.Host.FunctionTable

/-! Which modules can share a surface. All functions of all modules stand in one order, module by module; a
surface is built just if their names differ, and otherwise the first function whose name is taken is the
one that is reported, with its own module and the module that took the name. -/

namespace ScriptHost

/-- A function and the name of the module that contributes it. -/
abbrev Contribution := String × HostFunction

/-- The functions of modules in the order in which they are added. -/
def contributions (modules : List HostModule) : List Contribution :=
  modules.flatMap fun m => m.functions.map (m.name, ·)

/-- The names of functions, each as often as it is contributed. -/
def contributedNames (cs : List Contribution) : List String := cs.map fun c => c.2.name

/-- The first function whose name is taken, and who took it. -/
def FirstClash (cs : List Contribution) (e : BuildError) : Prop :=
  ∃ before c after d, cs = before ++ c :: after ∧ (contributedNames before).Nodup ∧ d ∈ before ∧
    d.2.name = c.2.name ∧ e = .duplicateFunction c.2.name c.1 d.1

theorem contributions_append (modules later : List HostModule) :
    contributions (modules ++ later) = contributions modules ++ contributions later :=
  List.flatMap_append

theorem contributedNames_append (cs ds : List Contribution) :
    contributedNames (cs ++ ds) = contributedNames cs ++ contributedNames ds :=
  List.map_append

/-- Functions that follow do not change what the first clash is. -/
theorem FirstClash.append {cs : List Contribution} {e : BuildError} (h : FirstClash cs e)
    (later : List Contribution) : FirstClash (cs ++ later) e := by
  obtain ⟨before, c, after, d, rfl, hclash⟩ := h
  exact ⟨before, c, after ++ later, d, by simp, hclash⟩

theorem FirstClash.not_nodup {cs : List Contribution} {e : BuildError} (h : FirstClash cs e) :
    ¬(contributedNames cs).Nodup := by
  obtain ⟨before, c, after, d, rfl, -, hd, hname, -⟩ := h
  intro hnodup
  rw [contributedNames_append, List.nodup_append] at hnodup
  have hmem : d.2.name ∈ contributedNames before := List.mem_map.2 ⟨d, hd, rfl⟩
  exact hnodup.2.2 _ hmem _ List.mem_cons_self hname

namespace FunctionTable

variable {t u : FunctionTable} {c : Contribution} {before cs : List Contribution}

def addContribution (t : FunctionTable) (c : Contribution) : Except BuildError FunctionTable := add c.1 t c.2

/-- The table does not show where one module ends and the next begins. -/
theorem ofModules_eq (modules : List HostModule) :
    ofModules modules = (contributions modules).foldlM addContribution Dict.empty := by
  unfold ofModules
  generalize (Dict.empty : FunctionTable) = t
  induction modules generalizing t with
  | nil => rfl
  | cons m modules ih =>
    have hcons : contributions (m :: modules) = m.functions.map (m.name, ·) ++ contributions modules := rfl
    rw [List.foldlM_cons, hcons, List.foldlM_append, List.foldlM_map]
    exact bind_congr fun t => ih t

/-- A table holds functions of different names, each under its own, and nothing else. -/
structure Holds (t : FunctionTable) (cs : List Contribution) : Prop where
  distinct : (contributedNames cs).Nodup
  get?_iff : ∀ name c, t.get? name = some c ↔ c ∈ cs ∧ c.2.name = name

theorem holds_empty : Holds Dict.empty [] := ⟨.nil, fun name c => by simp⟩

/-- A function is added just if its name is not taken; else whoever took it is told. -/
theorem Holds.add (h : Holds t before) (c : Contribution) :
    (∃ d ∈ before, d.2.name = c.2.name ∧
      addContribution t c = .error (.duplicateFunction c.2.name c.1 d.1)) ∨
    ∃ u, addContribution t c = .ok u ∧ Holds u (before ++ [c]) := by
  unfold addContribution FunctionTable.add
  cases hget : t.get? c.2.name with
  | some d =>
    obtain ⟨hd, hname⟩ := (h.get?_iff _ _).1 hget
    exact .inl ⟨d, hd, hname, rfl⟩
  | none =>
    have hfree : ∀ d ∈ before, d.2.name ≠ c.2.name := by
      intro d hd hname
      rw [(h.get?_iff _ _).2 ⟨hd, hname⟩] at hget
      cases hget
    refine .inr ⟨_, rfl, ?_, fun name d => ?_⟩
    · rw [contributedNames_append, List.nodup_append]
      refine ⟨h.distinct, List.nodup_cons.2 ⟨List.not_mem_nil, .nil⟩, fun name hname other hother => ?_⟩
      obtain ⟨d, hd, rfl⟩ := List.mem_map.1 hname
      exact List.mem_singleton.1 hother ▸ hfree d hd
    · rw [Dict.get?_insert, List.mem_append, List.mem_singleton]
      split
      · rename_i hname
        subst hname
        constructor
        · rintro ⟨⟩
          exact ⟨.inr rfl, rfl⟩
        · rintro ⟨hd | rfl, hname⟩
          · exact absurd hname (hfree d hd)
          · rfl
      · rename_i hname
        rw [h.get?_iff]
        constructor
        · exact fun ⟨hd, hdname⟩ => ⟨.inl hd, hdname⟩
        · rintro ⟨hd | rfl, hdname⟩
          · exact ⟨hd, hdname⟩
          · exact absurd hdname.symm hname

/-- Adding functions one by one ends with a table of all of them, or at the first clash. -/
theorem Holds.run (h : Holds t before) (cs : List Contribution) :
    (∃ e, cs.foldlM addContribution t = .error e ∧ FirstClash (before ++ cs) e) ∨
      ∃ u, cs.foldlM addContribution t = .ok u ∧ Holds u (before ++ cs) := by
  induction cs generalizing t before with
  | nil => exact .inr ⟨t, rfl, by simpa using h⟩
  | cons c cs ih =>
    rw [List.foldlM_cons]
    rcases h.add c with ⟨d, hd, hname, hadd⟩ | ⟨u, hadd, hu⟩
    · rw [hadd]
      exact .inl ⟨_, rfl, before, c, cs, d, rfl, h.distinct, hd, hname, rfl⟩
    · rw [hadd, List.append_cons]
      exact ih hu

/-- What becomes of a list of modules. -/
theorem ofModules_cases (modules : List HostModule) :
    (∃ e, ofModules modules = .error e ∧ FirstClash (contributions modules) e) ∨
      ∃ u, ofModules modules = .ok u ∧ Holds u (contributions modules) := by
  rw [ofModules_eq]
  exact holds_empty.run (contributions modules)

/-- The first clash is the one that is met. -/
theorem ofModules_of_firstClash {modules : List HostModule} {e : BuildError}
    (h : FirstClash (contributions modules) e) : ofModules modules = .error e := by
  obtain ⟨before, c, after, d, hcs, hdistinct, hd, hname, rfl⟩ := h
  rw [ofModules_eq, hcs, List.foldlM_append]
  rcases holds_empty.run before with ⟨_, -, hclash⟩ | ⟨t, ht, hholds⟩
  · exact absurd hdistinct hclash.not_nodup
  · have hget : t.get? c.2.name = some d := (hholds.get?_iff _ _).2 ⟨hd, hname⟩
    have hadd : addContribution t c = .error (.duplicateFunction c.2.name c.1 d.1) := by
      simp only [addContribution, FunctionTable.add, hget]
    rw [ht]
    show ((c :: after).foldlM addContribution t) = _
    rw [List.foldlM_cons, hadd]
    rfl

end FunctionTable

namespace Surface

theorem build_eq_error_iff {region : Region} {capabilities : Capabilities} {modules : List HostModule}
    {attached : Bool} {timeout : Nat} {e : BuildError} :
    build region capabilities modules attached timeout = .error e ↔
      FunctionTable.ofModules modules = .error e := by
  unfold build
  cases FunctionTable.ofModules modules with
  | error e' =>
    show Except.error e' = _ ↔ _
    simp
  | ok table => exact iff_of_false nofun nofun

/-- A surface is built just if all functions of all modules have different names. It then has under each
name the function of that name that a module contributes, and nothing else. Otherwise the error is the first
clash, and modules that follow do not change it. -/
theorem build_ok_iff_distinct (region : Region) (capabilities : Capabilities) (modules : List HostModule)
    (attached : Bool) (timeout : Nat) :
    ((∃ s, build region capabilities modules attached timeout = .ok s) ↔
      (contributedNames (contributions modules)).Nodup) ∧
    (∀ s, build region capabilities modules attached timeout = .ok s →
      ∀ name f, s.functions.get? name = some f ↔ ∃ m ∈ modules, f ∈ m.functions ∧ f.name = name) ∧
    (∀ e, build region capabilities modules attached timeout = .error e ↔
      FirstClash (contributions modules) e) ∧
    ∀ e later, build region capabilities modules attached timeout = .error e →
      build region capabilities (modules ++ later) attached timeout = .error e := by
  have herror (modules : List HostModule) (e : BuildError) :
      build region capabilities modules attached timeout = .error e ↔
        FirstClash (contributions modules) e := by
    rw [build_eq_error_iff]
    refine ⟨fun he => ?_, FunctionTable.ofModules_of_firstClash⟩
    rcases FunctionTable.ofModules_cases modules with ⟨e', he', hclash⟩ | ⟨u, hu, -⟩
    · rw [he] at he'
      cases he'
      exact hclash
    · rw [he] at hu
      cases hu
  refine ⟨⟨?_, fun hdistinct => ?_⟩, fun s hs name f => ⟨mem_of_get?_build hs, ?_⟩, herror modules, ?_⟩
  · rintro ⟨s, hs⟩
    obtain ⟨table, htable, -⟩ := build_eq_ok_iff.1 hs
    rcases FunctionTable.ofModules_cases modules with ⟨e, he, -⟩ | ⟨u, -, hholds⟩
    · rw [htable] at he
      cases he
    · exact hholds.distinct
  · cases hbuild : build region capabilities modules attached timeout with
    | ok s => exact ⟨s, rfl⟩
    | error e => exact absurd hdistinct ((herror modules e).1 hbuild).not_nodup
  · rintro ⟨m, hm, hf, rfl⟩
    exact get?_build hs hm hf
  · intro e later he
    rw [herror, contributions_append]
    exact ((herror modules e).1 he).append _

end Surface

end ScriptHost
