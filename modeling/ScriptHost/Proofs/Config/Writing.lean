import ScriptHost.Proofs.Config.Precedence

/-! Sections that are written. A section goes to the first spelling of its name, and readers look for the
name itself before that. Where the two are different sections, what is written is not what is read. -/

namespace ScriptHost

namespace FileConfig

open Entries

variable {c : FileConfig} {m n : String}

/-! ### Sections of texts -/

theorem leavesOf_texts (es : List (String × String)) :
    Tree.leavesOf (es.map fun e => (e.1, Tree.leaf (Scalar.string e.2))) =
      es.map fun e => ([e.1], Scalar.string e.2) := by
  induction es with
  | nil => rfl
  | cons e es ih =>
    rw [List.map_cons, Tree.leavesOf, ih]
    rfl

/-- Texts are read as they are written, dots in their keys and all. -/
theorem flatten_unflattened (v : Section) : flatten (unflattened v) = v := by
  have hentries : Tree.flattenEntries "" (unflattened v).entries = v.entries := by
    have hkey (e : String × String) : ([e.1].foldl Tree.joinKey "", (Scalar.string e.2).text) = e := rfl
    rw [Tree.flattenEntries_eq_map]
    unfold unflattened Dict.mapValues
    rw [leavesOf_texts, List.map_map]
    exact (List.map_congr_left fun e _ => hkey e).trans (List.map_id v.entries)
  unfold flatten
  rw [hentries]
  cases v with
  | mk es hes =>
    have hsame : (Dict.ofList es).entries = es := Dict.entries_ofList hes
    cases hd : Dict.ofList es with
    | mk fs hfs =>
      rw [hd] at hsame
      cases hsame
      rfl

/-! ### Spellings after writing -/

/-- What writing makes of the spellings of a name: the first one has the new section. -/
def written (n : String) (s : FileSection) : List (String × FileSection) → List (String × FileSection)
  | [] => [(n, s)]
  | (k, _) :: rest => (k, s) :: rest

theorem variants_setKeyValues (c : FileConfig) (n : String) (v : Section) :
    variants (Text.lower n) (c.setKeyValues n v) =
      written n (unflattened v) (variants (Text.lower n) c) := by
  have hfirst : (c.names.find? fun k => Text.sameIgnoringCase k n) =
      ((variants (Text.lower n) c).head?).map (·.1) := find?_names c _
  unfold setKeyValues
  rw [hfirst]
  cases hvs : variants (Text.lower n) c with
  | nil =>
    rw [List.head?_nil, Option.map_none, Option.getD_none, variants_insert rfl, hvs]
    rfl
  | cons e rest =>
    obtain ⟨k, s⟩ := e
    have hmem : (k, s) ∈ variants (Text.lower n) c := by
      rw [hvs]
      exact List.mem_cons_self
    rw [List.head?_cons, Option.map_some, Option.getD_some, variants_insert (mem_variants.1 hmem).2, hvs]
    simp only [written, Entries.insert, if_neg (String.lt_irrefl k), if_true]

/-- To write a section leaves the spellings of every other name alone. -/
theorem variants_setKeyValues_of_ne (h : Text.sameIgnoringCase m n = false) (c : FileConfig) (v : Section) :
    variants (Text.lower m) (c.setKeyValues n v) = variants (Text.lower m) c := by
  have hnm : Text.lower n ≠ Text.lower m := by
    unfold Text.sameIgnoringCase at h
    rw [beq_eq_false_iff_ne] at h
    exact h.symm
  unfold setKeyValues
  apply variants_insert_of_ne
  cases hfound : c.names.find? fun k => Text.sameIgnoringCase k n with
  | none => exact hnm
  | some k =>
    have hsame := List.find?_some hfound
    have hk : Text.lower k = Text.lower n := beq_iff_eq.1 hsame
    rw [Option.getD_some, hk]
    exact hnm

theorem keyValues?_setKeyValues_of_ne (h : Text.sameIgnoringCase m n = false) (c : FileConfig)
    (v : Section) : (c.setKeyValues n v).keyValues? m = c.keyValues? m := by
  unfold keyValues?
  rw [find?_eq_pick?, find?_eq_pick?, variants_setKeyValues_of_ne h]

/-! ### Reading what is written -/

/-- Another spelling of a name comes before it. -/
def Preceded (c : FileConfig) (n : String) : Prop :=
  ∃ k ∈ c.names, Text.sameIgnoringCase k n = true ∧ k < n

theorem preceded_iff {k : String} {s : FileSection} {rest : List (String × FileSection)}
    (hvs : variants (Text.lower n) c = (k, s) :: rest) (hn : n ∈ c.names) : c.Preceded n ↔ n ≠ k := by
  have hsorted := sorted_variants (Text.lower n) c
  rw [hvs] at hsorted
  have hfirst := (List.pairwise_cons.1 hsorted).1
  have hmem {j : String} (hj : j ∈ c.names) (hsame : Text.lower j = Text.lower n) :
      ∃ t, (j, t) ∈ (k, s) :: rest := by
    obtain ⟨⟨j, t⟩, ht, rfl⟩ := List.mem_map.1 hj
    refine ⟨t, ?_⟩
    rw [← hvs, variants, mem_keep]
    exact ⟨ht, beq_iff_eq.2 hsame⟩
  constructor
  · rintro ⟨j, hj, hsame, hlt⟩ rfl
    obtain ⟨t, ht⟩ := hmem hj (beq_iff_eq.1 hsame)
    rcases List.mem_cons.1 ht with heq | ht
    · cases heq
      exact String.lt_irrefl _ hlt
    · exact String.lt_asymm hlt (hfirst _ ht)
  · intro hne
    obtain ⟨t, ht⟩ := hmem hn rfl
    rcases List.mem_cons.1 ht with heq | ht
    · cases heq
      exact absurd rfl hne
    · have hk : (k, s) ∈ variants (Text.lower n) c := by rw [hvs]; exact List.mem_cons_self
      obtain ⟨hentry, hsame⟩ := mem_keep.1 hk
      exact ⟨k, List.mem_map_of_mem hentry, hsame, hfirst _ ht⟩

/-- What is read under a name after writing: the new section, unless the name has a section of its own
and another spelling comes before it. -/
theorem keyValues?_setKeyValues_eq_some_iff (c : FileConfig) (n : String) (v : Section) :
    (c.setKeyValues n v).keyValues? n = some v ↔
      ∀ s, c.sections.get? n = some s → c.Preceded n → flatten s = v := by
  unfold keyValues?
  rw [find?_eq_pick?, variants_setKeyValues]
  have hlookup := lookup_variants (k := n) rfl c
  cases hvs : variants (Text.lower n) c with
  | nil =>
    rw [hvs] at hlookup
    have hnone : c.sections.get? n = none := hlookup.symm
    simp [written, pick?, flatten_unflattened, hnone]
  | cons e rest =>
    obtain ⟨k, s⟩ := e
    rw [hvs, List.lookup_cons] at hlookup
    unfold written pick?
    rw [List.lookup_cons]
    by_cases hk : n = k
    · subst hk
      have hself : (n == n) = true := beq_self_eq_true n
      rw [hself] at hlookup ⊢
      have hn : n ∈ c.names := List.mem_map_of_mem (Tree.mem_of_lookup hlookup.symm)
      have hfirst : ¬ c.Preceded n := fun h => (preceded_iff hvs hn).1 h rfl
      simp [flatten_unflattened, hfirst]
    · rw [beq_false_of_ne hk] at hlookup ⊢
      rw [hlookup]
      cases hget : c.sections.get? n with
      | none => simp [flatten_unflattened]
      | some t =>
        have hn : n ∈ c.names := List.mem_map_of_mem (Tree.mem_of_lookup hget)
        have hbefore : c.Preceded n := (preceded_iff hvs hn).2 hk
        simp [hbefore]

/-- A section that is written is read back, and what is read under other names is what it was. -/
structure ReadsBack {κ : Type} (read? : κ → String → Option Section) (write : κ → String → Section → κ)
    (c : κ) (n : String) (v : Section) : Prop where
  back : read? (write c n v) n = some v
  others (m : String) : Text.sameIgnoringCase m n = false → read? (write c n v) m = read? c m

/-- Writing never touches another name. What is written is read back unless the name has a section of
its own, with other contents, and another spelling of the name comes before it. Configurations and
the sources that hold them are the same in this. -/
theorem readsBack_iff (c : FileConfig) (n : String) (v : Section) :
    (∀ m, Text.sameIgnoringCase m n = false → (c.setKeyValues n v).keyValues? m = c.keyValues? m) ∧
    (ReadsBack keyValues? setKeyValues c n v ↔
      ∀ s, c.sections.get? n = some s → c.Preceded n → flatten s = v) ∧
    (ReadsBack ConfigSource.read? ConfigSource.write c n v ↔
      ∀ s, c.sections.get? n = some s → c.Preceded n → flatten s = v) := by
  have hothers (m : String) (h : Text.sameIgnoringCase m n = false) :=
    keyValues?_setKeyValues_of_ne h c v
  have hback := keyValues?_setKeyValues_eq_some_iff c n v
  have hiff : ReadsBack keyValues? setKeyValues c n v ↔
      ∀ s, c.sections.get? n = some s → c.Preceded n → flatten s = v :=
    ⟨fun h => hback.1 h.back, fun h => ⟨hback.2 h, hothers⟩⟩
  exact ⟨hothers, hiff, hiff⟩

/-- Of a file with two spellings of a section, the first is written and the second is read. -/
theorem written_section_not_read :
    let file : FileText := .ok "[LUAENGINE]\nenabled = true\n\n[LuaEngine]\nenabled = true\n"
    let off : Section := Dict.ofList [("enabled", "false")]
    ∃ c, loadFile "config.toml" file = .ok c ∧
      ¬ ReadsBack keyValues? setKeyValues c "LuaEngine" off ∧
      ¬ ReadsBack ConfigSource.read? ConfigSource.write c "LuaEngine" off := by
  intro file off
  have hloaded : (loadFile "config.toml" file).toOption.map
      (fun c => (c.names, (c.sections.get? "LuaEngine").map flatten)) =
        some (["LUAENGINE", "LuaEngine", "Startup"], some (Dict.ofList [("enabled", "true")])) := by
    decide +kernel
  obtain ⟨c, hc, hfound⟩ := Option.map_eq_some_iff.1 hloaded
  obtain ⟨hnames, hsection⟩ := Prod.mk.inj hfound
  obtain ⟨s, hs, hflatten⟩ := Option.map_eq_some_iff.1 hsection
  have hsame : Text.sameIgnoringCase "LUAENGINE" "LuaEngine" = true :=
    Text.sameIgnoringCase_iff.2 (by decide)
  have hbefore : c.Preceded "LuaEngine" := ⟨"LUAENGINE", by rw [hnames]; decide, hsame, by decide⟩
  have hne : flatten s ≠ off := by
    rw [hflatten]
    decide
  have hnot : ¬ ReadsBack keyValues? setKeyValues c "LuaEngine" off := by
    intro h
    exact hne ((keyValues?_setKeyValues_eq_some_iff c "LuaEngine" off).1 h.back s hs hbefore)
  exact ⟨c, eq_ok_of_toOption hc, hnot, hnot⟩

end FileConfig

end ScriptHost
