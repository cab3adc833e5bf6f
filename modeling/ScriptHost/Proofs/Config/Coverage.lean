import ScriptHost.Config.Validation
import ScriptHost.Host.Modules
import ScriptHost.Proofs.Config.Writing
import ScriptHost.Proofs.Engine.Selection
import ScriptHost.Proofs.Host.FunctionTable

/-! Whether validation sees what a host reads. Both walk the same sections, but validation looks for a key in
a section itself before it looks at the dotted keys that readers go by, and it has nothing to say about a
section that is not there. -/

namespace ScriptHost

open ScriptHost.Tree

/-! ### Keys behind a label -/

namespace Text

theorem restAfter?_eq_some_iff {lead s rest : String} : restAfter? lead s = some rest ↔ s = lead ++ rest := by
  unfold restAfter?
  rw [Option.map_eq_some_iff]
  constructor
  · rintro ⟨cs, hcs, rfl⟩
    rw [← String.toList_inj, String.toList_append, String.toList_ofList]
    exact after?_eq_some_iff.1 hcs
  · rintro rfl
    refine ⟨rest.toList, ?_, String.ofList_toList⟩
    rw [String.toList_append]
    exact after?_append _ _

end Text

namespace Section

variable {s : Section} {label key name t : String}

theorem mem_withLabel : (name, t) ∈ s.withLabel label ↔ s.get? (label ++ name) = some t := by
  unfold withLabel
  rw [List.mem_filterMap]
  constructor
  · rintro ⟨⟨k, v⟩, he, hmap⟩
    obtain ⟨rest, hrest, heq⟩ := Option.map_eq_some_iff.1 hmap
    cases heq
    rw [← Text.restAfter?_eq_some_iff.1 hrest]
    exact lookup_of_mem s.sorted he
  · intro hget
    refine ⟨(label ++ name, t), mem_of_lookup hget, ?_⟩
    rw [Text.restAfter?_eq_some_iff.2 rfl]
    rfl

/-- An entry is malformed just if it is there and its text is no switch. -/
theorem isMalformedBool_eq_false : s.isMalformedBool key = false ↔
    ∀ t, s.get? key = some t → (switch? t).isSome := by
  unfold isMalformedBool
  cases s.get? key with
  | none => simp
  | some t => simp

end Section

/-! ### The capabilities of an engine -/

namespace Capabilities

theorem isSome_foldl_set {α : Type} (l : List α) (key : α → String) (on : α → Bool) (c : Capabilities)
    (name : String) : ((l.foldl (fun c a => c.set (key a) (on a)) c).flags.get? name).isSome ↔
      (c.flags.get? name).isSome ∨ ∃ a ∈ l, key a = name := by
  induction l generalizing c with
  | nil => simp
  | cons a l ih =>
    rw [List.foldl_cons, ih, set, Dict.get?_insert]
    by_cases hname : name = key a
    · simp [hname]
    · simp [hname, Ne.symm hname]

end Capabilities

namespace EngineSettings

/-- An engine has a flag for each key of the region's section, and for each of its own behind the label. -/
theorem mem_capabilities_keys {own : Section} {region : Option Section} {name : String} :
    name ∈ (capabilities own region).flags.keys ↔
      (∃ s, region = some s ∧ (s.get? name).isSome) ∨ ∃ t, (name, t) ∈ own.withLabel capabilityLabel := by
  rw [Dict.mem_keys]
  unfold capabilities
  rw [Capabilities.isSome_foldl_set]
  refine or_congr ?_ ?_
  · cases region with
    | none => simp [Capabilities.none]
    | some s =>
      simp only [Capabilities.isSome_foldl_set]
      simp [Capabilities.none, Dict.mem_keys]
  · constructor
    · rintro ⟨⟨name, t⟩, he, rfl⟩
      exact ⟨t, he⟩
    · rintro ⟨t, he⟩
      exact ⟨(name, t), he, rfl⟩

end EngineSettings

namespace FileConfig

variable {c : FileConfig} {k n key name t : String} {s : FileSection} {engines : List String}

/-! ### What validation looks at -/

theorem values_of_get? (h : c.sections.get? k = some s) : c.values k = flatten s := by
  unfold values keyValues? find?
  rw [h]
  rfl

theorem get?_of_find? (h : c.find? n = some s) :
    ∃ k, c.sections.get? k = some s ∧ Text.sameIgnoringCase k n = true := by
  rw [find?_eq_pick?] at h
  obtain ⟨k, hk⟩ := pick?_mem h
  obtain ⟨hs, hlower⟩ := mem_variants.1 hk
  exact ⟨k, hs, beq_iff_eq.2 hlower⟩

theorem mem_entries_iff {e : String × FileSection} :
    e ∈ c.sections.entries ↔ c.sections.get? e.1 = some e.2 :=
  ⟨lookup_of_mem c.sections.sorted, mem_of_lookup⟩

/-- The capability switches that validation looks at: every key of a section of capabilities, and of
another section those behind the label, if the section has the label for a key. -/
theorem mem_capabilityEntries : (k, key, name) ∈ c.capabilityEntries ↔
    ∃ s, c.sections.get? k = some s ∧ ((flatten s).get? key).isSome ∧
      (Text.sameIgnoringCase k EngineSettings.capabilitySection = true ∧ key = name ∨
        Text.sameIgnoringCase k EngineSettings.capabilitySection = false ∧
          s.contains capabilityKey = true ∧ key = EngineSettings.capabilityLabel ++ name) := by
  unfold capabilityEntries
  rw [List.mem_flatMap]
  constructor
  · rintro ⟨⟨k', s⟩, he, hmem⟩
    have hs := mem_entries_iff.1 he
    have hvalues := values_of_get? hs
    dsimp only at hs hvalues hmem
    rw [hvalues] at hmem
    split at hmem
    · rename_i hsame
      obtain ⟨key', hkey, heq⟩ := List.mem_map.1 hmem
      cases heq
      exact ⟨s, hs, Dict.mem_keys.1 hkey, .inl ⟨hsame, rfl⟩⟩
    · rename_i hother
      split at hmem
      · rename_i hhas
        obtain ⟨⟨name', t⟩, hlabel, heq⟩ := List.mem_map.1 hmem
        cases heq
        rw [Section.mem_withLabel] at hlabel
        exact ⟨s, hs, by rw [hlabel]; rfl, .inr ⟨by simpa using hother, hhas, rfl⟩⟩
      · cases hmem
  · rintro ⟨s, hs, hkey, hkind⟩
    refine ⟨(k, s), mem_entries_iff.2 hs, ?_⟩
    have hvalues := values_of_get? hs
    dsimp only
    rw [hvalues]
    rcases hkind with ⟨hsame, rfl⟩ | ⟨hother, hhas, rfl⟩
    · rw [if_pos hsame]
      exact List.mem_map_of_mem (Dict.mem_keys.2 hkey)
    · rw [if_neg (by simp [hother]), if_pos hhas]
      obtain ⟨t, ht⟩ := Option.isSome_iff_exists.1 hkey
      exact List.mem_map.2 ⟨(name, t), Section.mem_withLabel.2 ht, rfl⟩

/-! ### What it reports -/

/-- Validation reports no error. -/
def Passes (c : FileConfig) (engines : List String) : Prop :=
  ∀ i ∈ c.validate engines, i.severity ≠ .error

theorem startupIssues_pass : (∀ i ∈ c.startupIssues engines, i.severity ≠ .error) ↔
    ∀ s, c.keyValues? Startup.sectionName = some s →
      s.string Startup.engineKey Startup.defaultEngine ∈ engines ∧
        s.isMalformedBool Startup.enabledKey = false := by
  unfold startupIssues
  cases c.keyValues? Startup.sectionName with
  | none => simp
  | some s =>
    dsimp only
    by_cases hengine : s.string Startup.engineKey Startup.defaultEngine ∈ engines
    · cases hswitch : s.isMalformedBool Startup.enabledKey <;>
        simp [hengine, hswitch, ConfigIssue.badSwitch]
    · simp [hengine, ConfigIssue.noEngine]

theorem switchIssues_pass : (∀ i ∈ c.switchIssues, i.severity ≠ .error) ↔
    ∀ k s, c.sections.get? k = some s → s.contains switchKey = true →
      (flatten s).isMalformedBool switchKey = false := by
  unfold switchIssues
  constructor
  · intro h k s hs hhas
    rw [← values_of_get? hs]
    cases hbad : (c.values k).isMalformedBool switchKey with
    | false => rfl
    | true =>
      have hissue := h (.badSwitch k switchKey)
        (List.mem_filterMap.2 ⟨(k, s), mem_entries_iff.2 hs, by simp [hhas, hbad]⟩)
      exact absurd rfl hissue
  · intro h i hi
    obtain ⟨⟨k, s⟩, he, heq⟩ := List.mem_filterMap.1 hi
    have hs := mem_entries_iff.1 he
    dsimp only at hs heq
    rw [values_of_get? hs] at heq
    split at heq
    · rename_i hboth
      obtain ⟨hhas, hbad⟩ := Bool.and_eq_true_iff.1 hboth
      rw [h k s hs hhas] at hbad
      cases hbad
    · cases heq

theorem mem_capabilityIssues {i : ConfigIssue} : i ∈ c.capabilityIssues ↔
    ∃ k key name, (k, key, name) ∈ c.capabilityEntries ∧
      ((c.values k).isMalformedBool key = true ∧ i = .badSwitch k key ∨
        Capabilities.isKnown name = false ∧ i = .noCapability k key name) := by
  unfold capabilityIssues
  rw [List.mem_flatMap]
  constructor
  · rintro ⟨⟨k, key, name⟩, he, hi⟩
    refine ⟨k, key, name, he, ?_⟩
    rcases List.mem_append.1 hi with hi | hi
    · split at hi
      · exact .inl ⟨‹_›, List.mem_singleton.1 hi⟩
      · cases hi
    · split at hi
      · cases hi
      · exact .inr ⟨by simpa using ‹¬ Capabilities.isKnown name = true›, List.mem_singleton.1 hi⟩
  · rintro ⟨k, key, name, he, hkind⟩
    refine ⟨_, he, List.mem_append.2 ?_⟩
    rcases hkind with ⟨hbad, rfl⟩ | ⟨hunknown, rfl⟩
    · left
      rw [if_pos hbad]
      exact List.mem_singleton_self _
    · right
      rw [if_neg (by simp [hunknown])]
      exact List.mem_singleton_self _

theorem capabilityIssues_pass : (∀ i ∈ c.capabilityIssues, i.severity ≠ .error) ↔
    ∀ k key name, (k, key, name) ∈ c.capabilityEntries → (c.values k).isMalformedBool key = false := by
  constructor
  · intro h k key name he
    cases hbad : (c.values k).isMalformedBool key with
    | false => rfl
    | true =>
      have hissue := h _ (mem_capabilityIssues.2 ⟨k, key, name, he, .inl ⟨hbad, rfl⟩⟩)
      exact absurd rfl hissue
  · intro h i hi
    obtain ⟨k, key, name, he, ⟨hbad, rfl⟩ | ⟨-, rfl⟩⟩ := mem_capabilityIssues.1 hi
    · rw [h k key name he] at hbad
      cases hbad
    · exact fun heq => by cases heq

theorem startupIssues_code {i : ConfigIssue} (h : i ∈ c.startupIssues engines) :
    i.code ≠ .unknownCapability name := by
  unfold startupIssues at h
  split at h
  · cases h
  · rcases List.mem_append.1 h with h | h
    · split at h
      · cases h
      · rw [List.mem_singleton.1 h]
        exact fun heq => by cases heq
    · split at h
      · rw [List.mem_singleton.1 h]
        exact fun heq => by cases heq
      · cases h

theorem switchIssues_code {i : ConfigIssue} (h : i ∈ c.switchIssues) :
    i.code ≠ .unknownCapability name := by
  obtain ⟨e, -, heq⟩ := List.mem_filterMap.1 h
  split at heq
  · cases heq
    exact fun heq => by cases heq
  · cases heq

/-- A capability is reported just if it is not known and among the switches that validation looks at. -/
theorem reported_iff : (∃ i ∈ c.validate engines, i.code = .unknownCapability name) ↔
    Capabilities.isKnown name = false ∧ ∃ k key, (k, key, name) ∈ c.capabilityEntries := by
  unfold validate
  constructor
  · rintro ⟨i, hi, hcode⟩
    rcases List.mem_append.1 hi with hi | hi
    · rcases List.mem_append.1 hi with hi | hi
      · exact absurd hcode (startupIssues_code hi)
      · exact absurd hcode (switchIssues_code hi)
    · obtain ⟨k, key, name', he, ⟨-, rfl⟩ | ⟨hunknown, rfl⟩⟩ := mem_capabilityIssues.1 hi
      · cases hcode
      · cases hcode
        exact ⟨hunknown, k, key, he⟩
  · rintro ⟨hunknown, k, key, he⟩
    refine ⟨.noCapability k key name, List.mem_append_right _ ?_, rfl⟩
    exact mem_capabilityIssues.2 ⟨k, key, name, he, .inr ⟨hunknown, rfl⟩⟩

/-! ### What a host reads -/

/-- The capability switches of the whole region, as the engine reads them after its own section. -/
def regionSwitches? (c : FileConfig) : Option Section :=
  ConfigSource.read? (LuaEngine.readSection c).2 EngineSettings.capabilitySection

/-- The texts of the switches that a host reads at startup: of scripting, of the engine and of each
capability. -/
def switchTexts (c : FileConfig) : List String :=
  let own := (LuaEngine.readSection c).1
  ((c.values Startup.sectionName).get? Startup.enabledKey).toList ++ (own.get? switchKey).toList ++
    (own.withLabel EngineSettings.capabilityLabel).map (·.2) ++
    (c.regionSwitches?.getD Dict.empty).entries.map (·.2)

/-- The capabilities that the engine is brought up with. -/
def engineCapabilities (c : FileConfig) : Capabilities :=
  EngineSettings.capabilities (LuaEngine.readSection c).1 c.regionSwitches?

theorem readSection_of_some (h : c.find? EngineSettings.sectionName = some s) :
    LuaEngine.readSection c = (flatten s, c) := by
  have hread : ConfigSource.read? c EngineSettings.sectionName = some (flatten s) := by
    show c.keyValues? _ = _
    unfold keyValues?
    rw [h]
    rfl
  unfold LuaEngine.readSection
  rw [hread]

theorem readSection_of_none (h : c.find? EngineSettings.sectionName = none) :
    LuaEngine.readSection c =
      (EngineSettings.defaults, c.setKeyValues EngineSettings.sectionName EngineSettings.defaults) := by
  have hread : ConfigSource.read? c EngineSettings.sectionName = none := by
    show c.keyValues? _ = _
    unfold keyValues?
    rw [h]
    rfl
  unfold LuaEngine.readSection
  rw [hread]
  rfl

/-- The defaults that the engine writes do not get in the way of the region's capabilities. -/
theorem regionSwitches?_eq (c : FileConfig) :
    c.regionSwitches? = c.keyValues? EngineSettings.capabilitySection := by
  unfold regionSwitches?
  cases h : c.find? EngineSettings.sectionName with
  | some s =>
    rw [readSection_of_some h]
    rfl
  | none =>
    have hother : Text.sameIgnoringCase EngineSettings.capabilitySection EngineSettings.sectionName = false := by
      rw [← Bool.not_eq_true, Text.sameIgnoringCase_iff]
      decide
    rw [readSection_of_none h]
    exact keyValues?_setKeyValues_of_ne hother c _

theorem defaults_get? : EngineSettings.defaults.get? switchKey = some "true" := by decide +kernel

theorem defaults_withLabel : EngineSettings.defaults.withLabel EngineSettings.capabilityLabel = [] := by
  decide +kernel

/-- Validation looks at all capability switches of the region. -/
theorem exists_entry_of_region {g : Section} (hg : c.keyValues? EngineSettings.capabilitySection = some g)
    (h : (g.get? name).isSome) : ∃ k, (k, name, name) ∈ c.capabilityEntries ∧ c.values k = g := by
  obtain ⟨s, hfind, rfl⟩ := Option.map_eq_some_iff.1 hg
  obtain ⟨k, hs, hk⟩ := get?_of_find? hfind
  exact ⟨k, mem_capabilityEntries.2 ⟨s, hs, h, .inl ⟨hk, rfl⟩⟩, values_of_get? hs⟩

/-- It looks at those of the engine if its section has a key for them. -/
theorem exists_entry_of_own (hfind : c.find? EngineSettings.sectionName = some s) (hhas : s.contains capabilityKey = true)
    (h : (name, t) ∈ (flatten s).withLabel EngineSettings.capabilityLabel) :
    ∃ k, (k, EngineSettings.capabilityLabel ++ name, name) ∈ c.capabilityEntries ∧ c.values k = flatten s := by
  obtain ⟨k, hs, hk⟩ := get?_of_find? hfind
  have hkey : ((flatten s).get? (EngineSettings.capabilityLabel ++ name)).isSome := by
    rw [Section.mem_withLabel.1 h]
    rfl
  have hother : Text.sameIgnoringCase k EngineSettings.capabilitySection = false := by
    rw [← Bool.not_eq_true, Text.sameIgnoringCase_iff, Text.sameIgnoringCase_iff.1 hk]
    decide
  exact ⟨k, mem_capabilityEntries.2 ⟨s, hs, hkey, .inr ⟨hother, hhas, rfl⟩⟩, values_of_get? hs⟩

/-! ### What passes -/

theorem passes_iff : c.Passes engines ↔
    (∀ s, c.keyValues? Startup.sectionName = some s →
      s.string Startup.engineKey Startup.defaultEngine ∈ engines ∧
        s.isMalformedBool Startup.enabledKey = false) ∧
    (∀ k s, c.sections.get? k = some s → s.contains switchKey = true →
      (flatten s).isMalformedBool switchKey = false) ∧
    ∀ k key name, (k, key, name) ∈ c.capabilityEntries → (c.values k).isMalformedBool key = false := by
  unfold Passes validate
  rw [List.forall_mem_append, List.forall_mem_append, startupIssues_pass, switchIssues_pass,
    capabilityIssues_pass, and_assoc]

/-- The switches of the engine's own section that validation does not look at are switches all the same. -/
def HiddenSwitchesValid (s : FileSection) : Prop :=
  (s.contains switchKey = true ∨ (flatten s).isMalformedBool switchKey = false) ∧
  (s.contains capabilityKey = true ∨
    ∀ v ∈ (flatten s).withLabel EngineSettings.capabilityLabel, (switch? v.2).isSome)

theorem ownTexts_iff (h : c.Passes engines) :
    (∀ t, (LuaEngine.readSection c).1.get? switchKey = some t → (switch? t).isSome) ∧
      (∀ v ∈ (LuaEngine.readSection c).1.withLabel EngineSettings.capabilityLabel, (switch? v.2).isSome) ↔
      ∀ s, c.find? EngineSettings.sectionName = some s → HiddenSwitchesValid s := by
  obtain ⟨-, hswitches, hcapabilities⟩ := passes_iff.1 h
  cases hfind : c.find? EngineSettings.sectionName with
  | none =>
    rw [readSection_of_none hfind]
    refine iff_of_true ⟨?_, ?_⟩ ?_
    · intro t ht
      rw [defaults_get?] at ht
      cases ht
      decide +kernel
    · rw [defaults_withLabel]
      exact List.forall_mem_nil _
    · rintro s ⟨⟩
  | some s =>
    rw [readSection_of_some hfind, ← Section.isMalformedBool_eq_false]
    have hown : s.contains switchKey = true → (flatten s).isMalformedBool switchKey = false := by
      obtain ⟨k, hs, -⟩ := get?_of_find? hfind
      exact hswitches k s hs
    have hlabelled (hhas : s.contains capabilityKey = true) :
        ∀ v ∈ (flatten s).withLabel EngineSettings.capabilityLabel, (switch? v.2).isSome := by
      rintro ⟨name, t⟩ hv
      obtain ⟨k, he, hvalues⟩ := exists_entry_of_own hfind hhas hv
      have hvalid := hcapabilities k _ _ he
      rw [hvalues, Section.isMalformedBool_eq_false] at hvalid
      exact hvalid t (Section.mem_withLabel.1 hv)
    constructor
    · rintro ⟨hswitch, hall⟩ s' ⟨⟩
      exact ⟨.inr hswitch, .inr hall⟩
    · intro hall
      obtain ⟨hswitch, hrest⟩ := hall s rfl
      exact ⟨hswitch.elim hown id, hrest.elim hlabelled id⟩

/-- Of all switches that a host reads, validation vouches for those that it looks at. -/
theorem switchTexts_iff (h : c.Passes engines) : (∀ t ∈ c.switchTexts, (switch? t).isSome) ↔
    ∀ s, c.find? EngineSettings.sectionName = some s → HiddenSwitchesValid s := by
  obtain ⟨hstartup, -, hcapabilities⟩ := passes_iff.1 h
  have hmaster : ∀ t ∈ ((c.values Startup.sectionName).get? Startup.enabledKey).toList, (switch? t).isSome := by
    intro t ht
    rw [Option.mem_toList] at ht
    unfold values at ht
    cases hs : c.keyValues? Startup.sectionName with
    | none =>
      rw [hs] at ht
      cases ht
    | some s =>
      rw [hs] at ht
      exact Section.isMalformedBool_eq_false.1 (hstartup s hs).2 t ht
  have hregion : ∀ t ∈ (c.regionSwitches?.getD Dict.empty).entries.map (·.2), (switch? t).isSome := by
    rw [regionSwitches?_eq]
    cases hg : c.keyValues? EngineSettings.capabilitySection with
    | none => exact List.forall_mem_nil _
    | some g =>
      intro t ht
      obtain ⟨⟨name, t⟩, he, rfl⟩ := List.mem_map.1 ht
      have hget : g.get? name = some t := lookup_of_mem g.sorted he
      obtain ⟨k, hk, hvalues⟩ := exists_entry_of_region hg (by rw [hget]; rfl)
      have hvalid := hcapabilities k _ _ hk
      rw [hvalues, Section.isMalformedBool_eq_false] at hvalid
      exact hvalid t hget
  rw [← ownTexts_iff h]
  unfold switchTexts
  dsimp only
  rw [List.forall_mem_append, List.forall_mem_append, List.forall_mem_append, List.forall_mem_map]
  constructor
  · rintro ⟨⟨⟨-, hswitch⟩, hlabelled⟩, -⟩
    exact ⟨fun t ht => hswitch t (Option.mem_toList.2 ht), hlabelled⟩
  · rintro ⟨hswitch, hlabelled⟩
    exact ⟨⟨⟨hmaster, fun t ht => hswitch t (Option.mem_toList.1 ht)⟩, hlabelled⟩, hregion⟩

/-! ### What validation is for -/

/-- Some host function asks for a capability. -/
def Consults (modules : List HostModule) (name : String) : Prop :=
  ∃ m ∈ modules, ∃ f ∈ m.functions, f.capability = some name

theorem consults_of_isKnown (modules : List HostModule) (h : Capabilities.isKnown name = true) :
    Consults (Modules.standard ++ modules) name := by
  have hdirectory : Modules.directory ∈ Modules.standard ++ modules := by simp [Modules.standard]
  refine ⟨Modules.directory, hdirectory, ?_⟩
  unfold Capabilities.isKnown Capabilities.known at h
  rw [List.contains_iff_mem, List.mem_cons, List.mem_singleton] at h
  rcases h with rfl | rfl
  · exact ⟨Modules.countryFunction, by simp [Modules.directory], rfl⟩
  · exact ⟨Modules.nameFunction, by simp [Modules.directory], rfl⟩

/-- The capabilities of the engine's own section that validation does not look at there are asked for, or
another section has them too. -/
def HiddenCapabilitiesReported (c : FileConfig) (modules : List HostModule) (s : FileSection) : Prop :=
  s.contains capabilityKey = true ∨
    ∀ v ∈ (flatten s).withLabel EngineSettings.capabilityLabel, ¬ Consults (Modules.standard ++ modules) v.1 →
      ∃ k key, (k, key, v.1) ∈ c.capabilityEntries

theorem reported_all_iff (modules : List HostModule) :
    (∀ name ∈ c.engineCapabilities.flags.keys, ¬ Consults (Modules.standard ++ modules) name →
        ∃ i ∈ c.validate engines, i.code = .unknownCapability name) ↔
      ∀ s, c.find? EngineSettings.sectionName = some s → HiddenCapabilitiesReported c modules s := by
  have hunknown {name : String} (h : ¬ Consults (Modules.standard ++ modules) name) :
      Capabilities.isKnown name = false := by
    rw [← Bool.not_eq_true]
    exact fun hknown => h (consults_of_isKnown modules hknown)
  unfold engineCapabilities
  simp only [EngineSettings.mem_capabilities_keys, reported_iff]
  constructor
  · intro h s hfind
    right
    rintro ⟨name, t⟩ hv hnot
    refine (h name (.inr ⟨t, ?_⟩) hnot).2
    rw [readSection_of_some hfind]
    exact hv
  · rintro h name (⟨g, hg, hname⟩ | ⟨t, hv⟩) hnot
    · rw [regionSwitches?_eq] at hg
      obtain ⟨k, he, -⟩ := exists_entry_of_region hg hname
      exact ⟨hunknown hnot, k, name, he⟩
    · refine ⟨hunknown hnot, ?_⟩
      cases hfind : c.find? EngineSettings.sectionName with
      | none =>
        rw [readSection_of_none hfind, defaults_withLabel] at hv
        cases hv
      | some s =>
        rw [readSection_of_some hfind] at hv
        rcases h s hfind with hhas | hall
        · obtain ⟨k, he, -⟩ := exists_entry_of_own hfind hhas hv
          exact ⟨k, _, he⟩
        · exact hall _ hv hnot

section Startup

variable {ω φ σ : Type} (port : EnginePort ω FileConfig σ) (make : φ → Panicking ω (Except String σ))
  (r : Registry φ) (l : Loader σ) (region : Region) (w : ω) (modules : List HostModule) (c : FileConfig)

/-- What passes validation works when a region is created: its engine is not missed, and every switch that is
read is one. A capability that is set and that no function asks for is reported. -/
structure ValidationCovers : Prop where
  found : c.Passes r.names →
    (l.onCreated port (r.instantiate make) region c).Ends w fun a _ => ¬ a.2.2.MissesEngine
  switches : c.Passes r.names → ∀ t ∈ c.switchTexts, (switch? t).isSome
  reported : ∀ name ∈ c.engineCapabilities.flags.keys, ¬ Consults (Modules.standard ++ modules) name →
    ∃ i ∈ c.validate r.names, i.code = .unknownCapability name

/-- The engine of a configuration that passes is missed just if no section says which engine it is, and the
default one is not there. -/
theorem found_iff (h : c.Passes r.names) :
    ((l.onCreated port (r.instantiate make) region c).Ends w fun a _ => ¬ a.2.2.MissesEngine) ↔
      (c.find? Startup.sectionName).isSome ∨ r.contains Startup.defaultEngine = true := by
  rw [(Loader.onCreated_misses port make r l region c w).not_iff]
  have hread : Startup.read c =
      Startup.ofSection (((c.find? Startup.sectionName).map flatten).getD Dict.empty) := rfl
  rw [hread]
  cases hfind : c.find? Startup.sectionName with
  | none =>
    have hdefault : Startup.ofSection ((Option.map flatten none).getD Dict.empty) =
        ⟨true, Startup.defaultEngine⟩ := rfl
    rw [hdefault]
    simp
  | some s =>
    have hkeys : c.keyValues? Startup.sectionName = some (flatten s) := by
      unfold keyValues?
      rw [hfind]
      rfl
    have hengine := ((passes_iff.1 h).1 _ hkeys).1
    have hcontains : r.contains (Startup.ofSection (flatten s)).engine = true := Dict.mem_keys.1 hengine
    rw [Option.map_some, Option.getD_some, hcontains]
    simp

/-- Validation covers what a host reads at startup just if three things hold. If the configuration passes and
has no startup section, the default engine is registered. If it passes, what readers take for switches of the
engine's own section are switches, also where the section has no key for them and validation does not look.
And the capabilities that such a section sets are asked for by some function, or set in another section. -/
theorem validationCovers_iff :
    ValidationCovers port make r l region w modules c ↔
      (c.Passes r.names →
        ((c.find? Startup.sectionName).isSome ∨ r.contains Startup.defaultEngine = true) ∧
        ∀ s, c.find? EngineSettings.sectionName = some s → HiddenSwitchesValid s) ∧
      ∀ s, c.find? EngineSettings.sectionName = some s → HiddenCapabilitiesReported c modules s := by
  constructor
  · intro h
    refine ⟨fun hpass => ⟨?_, ?_⟩, (reported_all_iff modules).1 h.reported⟩
    · exact (found_iff port make r l region w c hpass).1 (h.found hpass)
    · exact (switchTexts_iff hpass).1 (h.switches hpass)
  · rintro ⟨hpasses, hreported⟩
    refine ⟨fun hpass => ?_, fun hpass => ?_, (reported_all_iff modules).2 hreported⟩
    · exact (found_iff port make r l region w c hpass).2 (hpasses hpass).1
    · exact (switchTexts_iff hpass).2 (hpasses hpass).2

end Startup

/-- A file that gives a capability under its dotted key: validation finds nothing, though the text is no
switch. -/
theorem dotted_switch_not_seen :
    let file : FileText := .ok "[LuaEngine]\n\"capabilities.account-lookup\" = \"maybe\"\n"
    let r : Registry Unit := .standard ()
    ∃ c, loadFile "config.toml" file = .ok c ∧ c.Passes r.names ∧
      ¬ ValidationCovers (LuaEngine.kind FileConfig).port (fun _ => pure (.ok .fresh)) r .fresh
        Inhabited.default () [] c := by
  intro file r
  have hloaded : (loadFile "config.toml" file).toOption.map (fun c =>
      (c.sections.entries.map fun e => (e.1, e.2.contains switchKey, e.2.contains capabilityKey),
        c.keyValues? Startup.sectionName, c.keyValues? EngineSettings.sectionName)) =
      some ([("LuaEngine", false, false), ("Startup", false, false)],
        some (Dict.ofList [("script_engine", "lua"), ("scripting_enabled", "true")]),
        some (Dict.ofList [("capabilities.account-lookup", "maybe")])) := by decide +kernel
  obtain ⟨c, hc, hloaded⟩ := Option.map_eq_some_iff.1 hloaded
  obtain ⟨hkinds, htexts⟩ := Prod.mk.inj hloaded
  obtain ⟨hstartup, hown⟩ := Prod.mk.inj htexts
  have hkeys {k : String} {s : FileSection} (hs : c.sections.get? k = some s) :
      (k = "LuaEngine" ∨ k = "Startup") ∧ s.contains switchKey = false ∧ s.contains capabilityKey = false := by
    have hmem := List.mem_map_of_mem (f := fun e : String × FileSection =>
      (e.1, e.2.contains switchKey, e.2.contains capabilityKey)) (mem_of_lookup hs)
    rw [hkinds] at hmem
    simpa [or_and_right] using hmem
  have hpass : c.Passes r.names := by
    rw [passes_iff]
    refine ⟨?_, ?_, ?_⟩
    · intro s hs
      rw [hstartup] at hs
      cases hs
      decide +kernel
    · intro k s hs hhas
      rw [(hkeys hs).2.1] at hhas
      cases hhas
    · intro k key name he
      obtain ⟨s, hs, -, hkind⟩ := mem_capabilityEntries.1 he
      obtain ⟨hk, -, hhas⟩ := hkeys hs
      rcases hkind with ⟨hsame, -⟩ | ⟨-, hhas', -⟩
      · rw [Text.sameIgnoringCase_iff] at hsame
        rcases hk with rfl | rfl <;> exact absurd hsame (by decide)
      · rw [hhas] at hhas'
        cases hhas'
  refine ⟨c, eq_ok_of_toOption hc, hpass, ?_⟩
  intro h
  obtain ⟨s, hfind, hflatten⟩ := Option.map_eq_some_iff.1 hown
  obtain ⟨k, hs, -⟩ := get?_of_find? hfind
  rcases ((switchTexts_iff hpass).1 (h.switches hpass) s hfind).2 with hhas | hvalid
  · rw [(hkeys hs).2.2] at hhas
    cases hhas
  · have hmem : ("account-lookup", "maybe") ∈ (flatten s).withLabel EngineSettings.capabilityLabel := by
      rw [hflatten]
      decide +kernel
    exact absurd (hvalid _ hmem) (by decide +kernel)

end FileConfig

end ScriptHost
