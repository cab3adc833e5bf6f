import ScriptHost.Proofs.Config.Precedence

/-! What folding keeps. It unites the lower-case spelling of a section with one other, entry by entry of the
section: of a table that both have, only the lower-case one is left, and further spellings stay. -/

namespace ScriptHost

open ScriptHost.Tree

namespace FileConfig

open Entries

variable {c : FileConfig} {n m k key : String} {s t later : FileSection} {path : List String}

/-! ### What spellings say -/

/-- What the section of exactly this name says under a dotted key. -/
def said? (c : FileConfig) (k key : String) : Option String :=
  (c.sections.get? k).bind fun s => (flatten s).get? key

/-- What readers of a name see under a dotted key. -/
def seen? (c : FileConfig) (n key : String) : Option String := (c.keyValues? n).bind (·.get? key)

/-- The spellings of a name other than the lower-case one. -/
def others (c : FileConfig) (n : String) : List String :=
  (spellings c.names n).filter (· != Text.lower n)

/-- What is to be seen under a key when all spellings of a name are one: what the lower-case one says, or
else what some other says, if any says something. -/
structure United (c : FileConfig) (n key : String) (seen : Option String) : Prop where
  lower {v : String} : c.said? (Text.lower n) key = some v → seen = some v
  other {v : String} : c.said? (Text.lower n) key = none → seen = some v →
    ∃ k, Text.sameIgnoringCase k n = true ∧ c.said? k key = some v
  kept {k v : String} : Text.sameIgnoringCase k n = true → c.said? k key = some v → seen.isSome

/-- Folding leaves one spelling of a name, with all that any spelling says. It changes no section that has
one spelling only, and there is nothing left to fold. -/
structure FoldsCompletely (c : FileConfig) (n : String) : Prop where
  single : ∃ k, spellings c.foldCase.names n = [k]
  united (m key : String) : Text.sameIgnoringCase m n = true → United c n key (c.foldCase.seen? m key)
  alone {m : String} : spellings c.names m = [m] →
    spellings c.foldCase.names m = [m] ∧ c.foldCase.sections.get? m = c.sections.get? m
  twice : c.foldCase.foldCase = c.foldCase

/-- A section of a name that has its lower-case spelling over it. -/
def Overridden (c : FileConfig) (n : String) (s later : FileSection) : Prop :=
  c.sections.get? (Text.lower n) = some later ∧ ∃ k ∈ c.others n, c.sections.get? k = some s

theorem others_eq_map (c : FileConfig) (n : String) :
    c.others n = (keep (· != Text.lower n) (variants (Text.lower n) c)).map (·.1) := by
  unfold others
  rw [← map_variants]
  exact List.filter_map

theorem mem_others : k ∈ c.others n ↔
    k ∈ spellings c.names n ∧ k ≠ Text.lower n := by
  unfold others
  rw [List.mem_filter, bne_iff_ne]

theorem sameIgnoringCase_of_mem_spellings {names : List String} (h : k ∈ spellings names n) :
    Text.sameIgnoringCase k n = true := (List.mem_filter.1 h).2

theorem sameIgnoringCase_lower (n : String) : Text.sameIgnoringCase (Text.lower n) n = true :=
  beq_iff_eq.2 (Text.lower_lower n)

theorem said?_of_get? (h : c.sections.get? k = some s) (key : String) :
    c.said? k key = (flatten s).get? key := by
  unfold said?
  rw [h]
  rfl

theorem mem_spellings_of_said? {v : String} (hk : Text.sameIgnoringCase k n = true)
    (h : c.said? k key = some v) : k ∈ spellings c.names n := by
  obtain ⟨s, hs, -⟩ := Option.bind_eq_some_iff.1 h
  exact List.mem_filter.2 ⟨List.mem_map_of_mem (mem_of_lookup hs), hk⟩

/-- With one other spelling at most, there is one thing to be seen. -/
theorem united_iff (hone : (c.others n).length ≤ 1) {seen : Option String} :
    United c n key seen ↔
      seen = (c.said? (Text.lower n) key).or ((c.others n).findSome? (c.said? · key)) := by
  constructor
  · intro h
    cases hlower : c.said? (Text.lower n) key with
    | some v => exact h.lower hlower
    | none =>
      have hother {k v : String} (hk : Text.sameIgnoringCase k n = true) (hv : c.said? k key = some v) :
          c.others n = [k] := by
        have hne : k ≠ Text.lower n := by
          rintro rfl
          rw [hlower] at hv
          cases hv
        have hmem : k ∈ c.others n := mem_others.2 ⟨mem_spellings_of_said? hk hv, hne⟩
        cases hothers : c.others n with
        | nil => simp [hothers] at hmem
        | cons j rest =>
          rw [hothers] at hone hmem
          obtain rfl : rest = [] := List.eq_nil_of_length_eq_zero (by simpa using hone)
          rw [List.mem_singleton.1 hmem]
      cases seen with
      | some v =>
        obtain ⟨k, hk, hv⟩ := h.other hlower rfl
        rw [hother hk hv, List.findSome?_singleton, hv]
        rfl
      | none =>
        rw [Option.none_or, eq_comm, List.findSome?_eq_none_iff]
        intro k hk
        cases hv : c.said? k key with
        | none => rfl
        | some v => cases h.kept (sameIgnoringCase_of_mem_spellings (mem_others.1 hk).1) hv
  · rintro rfl
    refine ⟨?_, ?_, ?_⟩
    · intro v hv
      rw [hv]
      rfl
    · intro v hnone hv
      rw [hnone, Option.none_or] at hv
      obtain ⟨k, hk, hv⟩ := List.exists_of_findSome?_eq_some hv
      exact ⟨k, sameIgnoringCase_of_mem_spellings (mem_others.1 hk).1, hv⟩
    · intro k v hk hv
      by_cases hlower : k = Text.lower n
      · rw [← hlower, hv]
        rfl
      · have hmem : k ∈ c.others n := mem_others.2 ⟨mem_spellings_of_said? hk hv, hlower⟩
        rw [Option.isSome_or, Bool.or_eq_true_iff]
        right
        rw [List.findSome?_isSome_iff]
        exact ⟨k, hmem, by rw [hv]; rfl⟩

/-! ### What folding leaves -/

/-- Either there is nothing to fold, or the lower-case spelling goes into the first of the others. -/
theorem variants_foldCase_cases (c : FileConfig) (n : String) :
    ((c.others n = [] ∨ c.sections.get? (Text.lower n) = none) ∧
      variants (Text.lower n) c.foldCase = variants (Text.lower n) c) ∨
    ∃ name s rest later, c.others n = name :: rest.map (·.1) ∧ c.sections.get? name = some s ∧
      c.sections.get? (Text.lower n) = some later ∧
      variants (Text.lower n) c.foldCase = (name, extend s later) :: rest := by
  have hl := Text.lower_lower n
  rw [variants_foldCase hl, others_eq_map, ← lookup_variants hl]
  unfold folded
  cases hkeep : keep (· != Text.lower n) (variants (Text.lower n) c) with
  | nil => exact .inl ⟨.inl rfl, rfl⟩
  | cons e rest =>
    obtain ⟨name, s⟩ := e
    cases hlower : (variants (Text.lower n) c).lookup (Text.lower n) with
    | none => exact .inl ⟨.inr rfl, rfl⟩
    | some later =>
      have hmem : (name, s) ∈ keep (· != Text.lower n) (variants (Text.lower n) c) := by
        rw [hkeep]
        exact List.mem_cons_self
      have hname := (mem_variants.1 (mem_keep.1 hmem).1).1
      exact .inr ⟨name, s, rest, later, rfl, hname, rfl, rfl⟩

theorem length_spellings (c : FileConfig) (n : String) : (spellings c.names n).length =
    (c.others n).length + if Text.lower n ∈ spellings c.names n then 1 else 0 := by
  have hnodup : (spellings c.names n).Nodup := c.nodup_names.filter _
  rw [← hnodup.count, others, ← List.countP_eq_length_filter, List.count_eq_countP,
    List.length_eq_countP_add_countP (· != Text.lower n)]
  congr 2
  funext k
  by_cases hk : k = Text.lower n <;> simp [hk]

theorem single_iff (h : spellings c.names n ≠ []) :
    (∃ k, spellings c.foldCase.names n = [k]) ↔ (c.others n).length ≤ 1 := by
  rw [← map_variants]
  rcases variants_foldCase_cases c n with ⟨hkind, hsame⟩ | ⟨name, s, rest, later, hothers, hname, hlower, hfolded⟩
  · rw [hsame, map_variants, ← List.length_eq_one_iff]
    have hpos := List.length_pos_iff.2 h
    have hlength := length_spellings c n
    rcases hkind with hnil | hnone
    · rw [hnil, List.length_nil] at hlength ⊢
      split at hlength <;> omega
    · have hnot : Text.lower n ∉ spellings c.names n := by
        intro hmem
        have hname := Dict.mem_keys.1 (List.mem_filter.1 hmem).1
        rw [hnone] at hname
        cases hname
      rw [if_neg hnot] at hlength
      omega
  · rw [hfolded, hothers]
    cases rest with
    | nil => simp
    | cons e rest => simp

theorem variants_of_single (h : spellings c.names n = [k]) :
    ∃ s, variants (Text.lower n) c = [(k, s)] := by
  rw [← map_variants] at h
  obtain ⟨e, he, rfl⟩ := List.map_eq_singleton_iff.1 h
  exact ⟨e.2, he⟩

/-- Readers see the one spelling that there is, however they spell the name. -/
theorem seen?_of_variants (h : variants (Text.lower n) c = [(k, s)]) (hm : Text.sameIgnoringCase m n = true) :
    c.seen? m key = (flatten s).get? key := by
  have hlower : Text.lower m = Text.lower n := beq_iff_eq.1 hm
  unfold seen? keyValues?
  rw [find?_eq_pick?, hlower, h]
  unfold pick?
  rw [List.lookup_cons]
  cases m == k <;> rfl

/-- A section with one spelling says all that there is to be seen. -/
theorem get?_flatten_of_single (h : variants (Text.lower n) c = [(k, s)]) (key : String) :
    (flatten s).get? key =
      (c.said? (Text.lower n) key).or ((c.others n).findSome? (c.said? · key)) := by
  have hmem : (k, s) ∈ variants (Text.lower n) c := by simp [h]
  have hsaid := said?_of_get? (mem_variants.1 hmem).1 key
  rw [others_eq_map, h]
  by_cases hk : k = Text.lower n
  · subst hk
    rw [hsaid, keep_cons_of_neg _ _ (by simp)]
    exact Option.or_none.symm
  · have hnone : c.said? (Text.lower n) key = none := by
      unfold said?
      rw [← lookup_variants (Text.lower_lower n), h, List.lookup_cons, beq_false_of_ne (Ne.symm hk)]
      rfl
    rw [hnone, keep_cons_of_pos _ _ (by simpa using hk), Option.none_or]
    simp [keep, hsaid]

/-- The entries of one section over those of another read like both, the later section first. -/
def Unites (s later : FileSection) : Prop :=
  ∀ key, (flatten (extend s later)).get? key = ((flatten later).get? key).or ((flatten s).get? key)

/-- What folding makes of two spellings is right just if the united section reads like both. -/
theorem united_foldCase_iff (h : spellings c.names n ≠ []) (hone : (c.others n).length ≤ 1) :
    (∀ m key, Text.sameIgnoringCase m n = true → United c n key (c.foldCase.seen? m key)) ↔
      ∀ s later, c.Overridden n s later → Unites s later := by
  have hself : Text.sameIgnoringCase n n = true := beq_self_eq_true _
  simp only [united_iff hone]
  rcases variants_foldCase_cases c n with ⟨hkind, hsame⟩ | ⟨name, s, rest, later, hothers, hname, hlower, hfolded⟩
  · obtain ⟨k, hk⟩ := (single_iff h).2 hone
    obtain ⟨t, ht⟩ := variants_of_single hk
    constructor
    · rintro - s later ⟨hlater, k, hk, -⟩
      rcases hkind with hnil | hnone
      · simp [hnil] at hk
      · rw [hnone] at hlater
        cases hlater
    · intro _ m key hm
      rw [seen?_of_variants ht hm]
      exact get?_flatten_of_single (hsame ▸ ht) key
  · obtain rfl : rest = [] := by
      rw [hothers] at hone
      exact List.eq_nil_of_length_eq_zero (by simpa using hone)
    have hright (key : String) : (c.said? (Text.lower n) key).or ((c.others n).findSome? (c.said? · key)) =
        ((flatten later).get? key).or ((flatten s).get? key) := by
      rw [hothers, List.map_nil, List.findSome?_singleton, said?_of_get? hlower,
        said?_of_get? hname]
    simp only [hright]
    constructor
    · rintro hunited s' later' ⟨hlater, k, hk, hs⟩ key
      obtain rfl : k = name := by simpa [hothers] using hk
      obtain rfl : s = s' := Option.some.inj (hname.symm.trans hs)
      obtain rfl : later = later' := Option.some.inj (hlower.symm.trans hlater)
      rw [← hunited n key hself, seen?_of_variants hfolded hself]
    · intro hunites m key hm
      have hover : c.Overridden n s later := ⟨hlower, name, by simp [hothers], hname⟩
      rw [seen?_of_variants hfolded hm, hunites s later hover key]

/-! ### Sections that are left alone -/

theorem alone_foldCase (h : spellings c.names m = [m]) :
    spellings c.foldCase.names m = [m] ∧ c.foldCase.sections.get? m = c.sections.get? m := by
  have hsame : variants (Text.lower m) c.foldCase = variants (Text.lower m) c := by
    rcases variants_foldCase_cases c m with ⟨-, hsame⟩ | ⟨name, s, rest, later, hothers, -, hlower, -⟩
    · exact hsame
    · have hmem : Text.lower m ∈ spellings c.names m := by
        have hname := Dict.mem_keys.2 (Option.isSome_of_eq_some hlower)
        exact List.mem_filter.2 ⟨hname, sameIgnoringCase_lower m⟩
      rw [h, List.mem_singleton] at hmem
      unfold others at hothers
      rw [h, hmem] at hothers
      simp at hothers
  rw [← map_variants] at h ⊢
  refine ⟨by rw [hsame, h], ?_⟩
  rw [← lookup_variants (k := m) rfl, ← lookup_variants (k := m) rfl, hsame]

/-- There is nothing to fold where there are not both a lower-case spelling and another. -/
theorem foldName_eq_self {l : String} (hl : Text.lower l = l)
    (h : keep (· != l) (variants l c) = [] ∨ c.sections.get? l = none) : c.foldName l = c := by
  unfold foldName
  rw [find?_names, others_eq hl]
  rcases h with h | h
  · rw [h]
    rfl
  · rw [h]
    cases (keep (· != l) (variants l c)).head? <;> rfl

theorem foldCase_foldCase (c : FileConfig) : c.foldCase.foldCase = c.foldCase := by
  have hfix (l : String) (hl : Text.lower l = l) : c.foldCase.foldName l = c.foldCase := by
    apply foldName_eq_self hl
    rcases variants_foldCase_cases c l with ⟨hkind, hsame⟩ | ⟨name, s, rest, later, hothers, -, -, hfolded⟩
    · rw [hl] at hkind hsame
      rw [hsame, ← lookup_variants hl, hsame, lookup_variants hl]
      refine hkind.imp_left fun hnil => ?_
      rw [others_eq_map, hl] at hnil
      exact List.map_eq_nil_iff.1 hnil
    · right
      rw [hl] at hfolded
      rw [← lookup_variants hl, hfolded, List.lookup_eq_none_iff]
      intro e he
      have hmem : e.1 ∈ c.others l := by
        rw [hothers]
        exact List.mem_map_of_mem (f := Prod.fst) he
      have hne := (mem_others.1 hmem).2
      rw [hl] at hne
      exact bne_iff_ne.2 hne.symm
  have hall (ls : List String) (hls : ∀ l ∈ ls, Text.lower l = l) :
      ls.foldl foldName c.foldCase = c.foldCase := by
    induction ls with
    | nil => rfl
    | cons l ls ih =>
      obtain ⟨hl, hrest⟩ := List.forall_mem_cons.1 hls
      rw [List.foldl_cons, hfix l hl, ih hrest]
  exact hall _ fun l => lower_of_mem

/-! ### Paths of two spellings -/

/-- A path leads to a leaf under some spelling of a name. -/
def Leads (c : FileConfig) (n : String) (path : List String) : Prop :=
  ∃ k s, c.sections.get? k = some s ∧ Text.sameIgnoringCase k n = true ∧ (leafIn? s path).isSome

/-- The spellings of a name have their keys in order, and no two of their paths have the same dotted key. -/
structure Clear (c : FileConfig) (n : String) : Prop where
  ordered {k : String} {s : FileSection} : c.sections.get? k = some s → Text.sameIgnoringCase k n = true →
    Ordered (.table s.entries)
  distinct {p q : List String} : c.Leads n p → c.Leads n q → dotted p = dotted q → p = q

theorem Clear.plain (h : c.Clear n) (hs : c.sections.get? k = some s)
    (hk : Text.sameIgnoringCase k n = true) (hpath : c.Leads n path) : Plain path s := by
  refine ⟨h.ordered hs hk, ?_⟩
  intro q a ha hkey
  exact h.distinct ⟨k, s, hs, hk, by rw [ha]; rfl⟩ hpath hkey

/-- Readers see nothing under a key to which no path leads. -/
theorem get?_flatten_eq_none (hs : Ordered (.table s.entries))
    (h : ∀ path, (leafIn? s path).isSome → dotted path ≠ key) : (flatten s).get? key = none := by
  unfold flatten
  rw [Dict.get?_ofList, flattenEntries_eq_map, List.lookup_eq_none_iff]
  intro e he
  obtain ⟨⟨q, a⟩, hmem, rfl⟩ := List.mem_map.1 (List.mem_reverse.1 he)
  have hleaf : leafIn? s q = some a := (mem_leaves_iff hs).1 hmem
  exact bne_iff_ne.2 (Ne.symm (h q (by rw [hleaf]; rfl)))

/-- Of each table that both sections have, the later one has all leaves of the other. -/
def Covers (later s : FileSection) : Prop :=
  ∀ key rest, (later.get? key).isSome → (leafIn? s (key :: rest)).isSome → (leafIn? later (key :: rest)).isSome

theorem leafIn?_extend_of_covers (h : Covers later s) (path : List String) :
    leafIn? (extend s later) path = (leafIn? later path).or (leafIn? s path) := by
  cases path with
  | nil => rfl
  | cons key rest =>
    rw [leafIn?_extend]
    split
    · rename_i hhas
      cases hlater : leafIn? later (key :: rest) with
      | some a => rfl
      | none =>
        cases hs : leafIn? s (key :: rest) with
        | none => rfl
        | some a =>
          have hkept := h key rest hhas (Option.isSome_of_eq_some hs)
          rw [hlater] at hkept
          cases hkept
    · rename_i hhas
      have hnone : leafIn? later (key :: rest) = none := by
        rw [leafIn?_cons, Option.not_isSome_iff_eq_none.1 hhas, Option.bind_none]
      rw [hnone, Option.none_or]

theorem leafIn?_extend_isSome (h : (leafIn? (extend s later) path).isSome) :
    (leafIn? later path).isSome ∨ (leafIn? s path).isSome := by
  cases path with
  | nil => cases h
  | cons key rest =>
    rw [leafIn?_extend] at h
    split at h
    · exact .inl h
    · exact .inr h

/-- Nothing is lost just if, of each table that both spellings have, the lower-case one has all leaves of
the other. -/
theorem unites_iff_covers (hclear : c.Clear n) (h : c.Overridden n s later) :
    Unites s later ↔ Covers later s := by
  obtain ⟨hlater, k, hk, hs⟩ := h
  have hsame : Text.sameIgnoringCase k n = true := sameIgnoringCase_of_mem_spellings (mem_others.1 hk).1
  have hlower := sameIgnoringCase_lower n
  have hos := hclear.ordered hs hsame
  have hol := hclear.ordered hlater hlower
  have hleads (path : List String) (hpath : (leafIn? later path).isSome ∨ (leafIn? s path).isSome) :
      c.Leads n path := by
    rcases hpath with hpath | hpath
    · exact ⟨_, later, hlater, hlower, hpath⟩
    · exact ⟨k, s, hs, hsame, hpath⟩
  -- under the dotted key of a path, readers of each of the three sections see its leaf there
  have hread (path : List String) (hpath : c.Leads n path) :
      ((flatten (extend s later)).get? (dotted path) =
          ((flatten later).get? (dotted path)).or ((flatten s).get? (dotted path))) ↔
        (leafIn? (extend s later) path).map Scalar.text =
          ((leafIn? later path).map Scalar.text).or ((leafIn? s path).map Scalar.text) := by
    have hps := hclear.plain hs hsame hpath
    have hpl := hclear.plain hlater hlower hpath
    have hpe := plain_extend hps hpl
    rw [get?_flatten hps.1 hps.2, get?_flatten hpl.1 hpl.2, get?_flatten hpe.1 hpe.2]
    rfl
  constructor
  · intro hunites key rest hhas hleaf
    have hat := (hread (key :: rest) (hleads _ (.inr hleaf))).1 (hunites _)
    rw [leafIn?_extend, if_pos hhas] at hat
    obtain ⟨a, ha⟩ := Option.isSome_iff_exists.1 hleaf
    rw [ha] at hat
    cases hl : leafIn? later (key :: rest) with
    | some b => rfl
    | none =>
      rw [hl] at hat
      cases hat
  · intro hcovers key
    by_cases hpath : ∃ path, c.Leads n path ∧ dotted path = key
    · obtain ⟨path, hpath, rfl⟩ := hpath
      rw [hread path hpath, leafIn?_extend_of_covers hcovers]
      cases leafIn? later path <;> rfl
    · have hnone {x : FileSection} (hx : Ordered (.table x.entries))
          (hall : ∀ path, (leafIn? x path).isSome → c.Leads n path) : (flatten x).get? key = none := by
        apply get?_flatten_eq_none hx
        intro path hleaf hkey
        exact hpath ⟨path, hall path hleaf, hkey⟩
      rw [hnone hos fun path h => hleads path (.inr h), hnone hol fun path h => hleads path (.inl h),
        hnone (ordered_extend hos hol) fun path h => hleads path (leafIn?_extend_isSome h)]
      rfl

/-! ### Sections without tables -/

/-- A section that holds scalars only. -/
def Scalars (s : FileSection) : Prop := ∀ e ∈ s.entries, ∃ a, e.2 = .leaf a

theorem Scalars.path_eq (h : Scalars s) (hpath : (leafIn? s path).isSome) : ∃ key, path = [key] := by
  cases path with
  | nil => cases hpath
  | cons key rest =>
    rw [leafIn?_cons] at hpath
    cases hget : s.get? key with
    | none => simp [hget] at hpath
    | some t =>
      obtain ⟨a, rfl⟩ := h (key, t) (mem_of_lookup hget)
      rw [hget] at hpath
      cases rest with
      | nil => exact ⟨key, rfl⟩
      | cons key' rest => cases hpath

theorem clear_of_scalars
    (h : ∀ k s, c.sections.get? k = some s → Text.sameIgnoringCase k n = true → Scalars s) : c.Clear n := by
  have hsingle (path : List String) (hpath : c.Leads n path) : ∃ key, path = [key] := by
    obtain ⟨k, s, hs, hk, hleaf⟩ := hpath
    exact (h k s hs hk).path_eq hleaf
  refine ⟨?_, ?_⟩
  · intro k s hs hk
    refine .table s.sorted ?_
    intro e he
    obtain ⟨a, ha⟩ := h k s hs hk e he
    rw [ha]
    exact .leaf a
  · intro p q hp hq hkey
    obtain ⟨key, rfl⟩ := hsingle p hp
    obtain ⟨key', rfl⟩ := hsingle q hq
    exact congrArg (fun k => [k]) hkey

theorem Scalars.covers (hlater : Scalars later) (hs : Scalars s) : Covers later s := by
  intro key rest hhas hleaf
  obtain ⟨key', hpath⟩ := hs.path_eq hleaf
  obtain ⟨rfl, rfl⟩ := List.cons.inj hpath
  obtain ⟨t, ht⟩ := Option.isSome_iff_exists.1 hhas
  obtain ⟨a, rfl⟩ := hlater (key, t) (mem_of_lookup ht)
  rw [leafIn?_cons, ht]
  rfl

/-! ### Completeness -/

theorem foldsCompletely_iff_unites (h : spellings c.names n ≠ []) :
    c.FoldsCompletely n ↔
      (c.others n).length ≤ 1 ∧ ∀ s later, c.Overridden n s later → Unites s later := by
  constructor
  · intro hc
    have hone := (single_iff h).1 hc.single
    exact ⟨hone, (united_foldCase_iff h hone).1 hc.united⟩
  · rintro ⟨hone, hunites⟩
    exact ⟨(single_iff h).2 hone, (united_foldCase_iff h hone).2 hunites, alone_foldCase,
      c.foldCase_foldCase⟩

/-- Folding is complete for a name just if it has one spelling at most besides the lower-case one, and
that one, with the lower-case section over it, reads like both. Where no two paths have the same dotted
key this says that, of each table that both have, the lower-case section has all leaves of the other.
Sections with one spelling are never changed, and folding again never changes anything. -/
theorem foldsCompletely_iff (h : spellings c.names n ≠ []) :
    (c.FoldsCompletely n ↔
      (c.others n).length ≤ 1 ∧ ∀ s later, c.Overridden n s later → Unites s later) ∧
    (c.Clear n → (c.FoldsCompletely n ↔
      (c.others n).length ≤ 1 ∧ ∀ s later, c.Overridden n s later → Covers later s)) ∧
    (∀ m, spellings c.names m = [m] →
      spellings c.foldCase.names m = [m] ∧ c.foldCase.sections.get? m = c.sections.get? m) ∧
    c.foldCase.foldCase = c.foldCase := by
  have hunites := foldsCompletely_iff_unites h
  refine ⟨hunites, ?_, fun m => alone_foldCase, c.foldCase_foldCase⟩
  intro hclear
  rw [hunites]
  refine and_congr_right fun _ => ?_
  constructor
  · intro hall s later hover
    exact (unites_iff_covers hclear hover).1 (hall s later hover)
  · intro hall s later hover
    exact (unites_iff_covers hclear hover).2 (hall s later hover)

/-- A switch in lower case over a section with two settings. -/
theorem foldsCompletely_iff_switch :
    let settings : FileSection := Dict.ofList
      [("enabled", .leaf (.boolean true)), ("max_slice_ms", .leaf (.integer 20))]
    let switch : FileSection := Dict.ofList [("enabled", .leaf (.boolean false))]
    let c : FileConfig := ⟨Dict.ofList [("LuaEngine", settings), ("luaengine", switch)]⟩
    spellings c.names "LuaEngine" ≠ [] ∧ c.Clear "LuaEngine" ∧ c.FoldsCompletely "LuaEngine" := by
  intro settings switch c
  have hlt : "LuaEngine" < "luaengine" := by decide
  have hentries : c.sections.entries = [("LuaEngine", settings), ("luaengine", switch)] :=
    Dict.entries_ofList (List.pairwise_pair.2 hlt)
  have hothers : c.others "LuaEngine" = ["LuaEngine"] := by
    have hlower : Text.lower "LuaEngine" = "luaengine" := Text.lower_eq_iff.2 (by decide)
    have hself : Text.sameIgnoringCase "LuaEngine" "LuaEngine" = true := beq_self_eq_true _
    unfold others spellings names Dict.keys
    rw [hentries, hlower]
    simp [hself, List.filter_cons]
  have hspelled : spellings c.names "LuaEngine" ≠ [] := by
    have hmem : "LuaEngine" ∈ c.others "LuaEngine" := by simp [hothers]
    exact List.ne_nil_of_mem (mem_others.1 hmem).1
  have hscalars (k : String) (s : FileSection) (hs : c.sections.get? k = some s) : Scalars s := by
    have hsettings : settings.entries =
      [("enabled", .leaf (.boolean true)), ("max_slice_ms", .leaf (.integer 20))] := rfl
    have hswitch : switch.entries = [("enabled", .leaf (.boolean false))] := rfl
    have hmem : (k, s) ∈ c.sections.entries := mem_of_lookup hs
    rw [hentries] at hmem
    unfold Scalars
    rcases List.mem_cons.1 hmem with heq | hmem
    · cases heq
      rw [hsettings]
      simp
    · cases List.mem_singleton.1 hmem
      rw [hswitch]
      simp
  have hclear : c.Clear "LuaEngine" := clear_of_scalars fun k s hs _ => hscalars k s hs
  have hcovers (s later : FileSection) (h : c.Overridden "LuaEngine" s later) : Covers later s := by
    obtain ⟨hlater, k, -, hs⟩ := h
    exact (hscalars _ later hlater).covers (hscalars k s hs)
  have hone : (c.others "LuaEngine").length ≤ 1 := by simp [hothers]
  exact ⟨hspelled, hclear, ((foldsCompletely_iff hspelled).2.1 hclear).2 ⟨hone, hcovers⟩⟩

/-- No key is a table under one spelling of a name and a scalar under another. -/
def SpellingsAgree (c : FileConfig) (n : String) : Prop :=
  ∀ j k s t, c.sections.get? j = some s → c.sections.get? k = some t → Text.sameIgnoringCase j n = true →
    Text.sameIgnoringCase k n = true → Agree (.table s.entries) (.table t.entries)

/-- A file denies one capability and grants another in lower case: the denial is lost. -/
theorem denial_lost :
    let file : FileText := .ok "[LuaEngine.capabilities]\naccount-lookup = false\n\n[luaengine.capabilities]\nextended-country-lookup = true\n"
    ∃ c, loadFile "config.toml" file = .ok c ∧ spellings c.names "LuaEngine" ≠ [] ∧
      c.SpellingsAgree "LuaEngine" ∧ ¬ c.FoldsCompletely "LuaEngine" := by
  intro file
  have hloaded : (loadFile "config.toml" file).toOption.map (fun c => (c.names,
      (c.sections.get? "LuaEngine").bind fun s => (c.sections.get? "luaengine").map fun later =>
        (agree (.table s.entries) (.table later.entries),
          (flatten s).get? "capabilities.account-lookup",
          (flatten (extend s later)).get? "capabilities.account-lookup"))) =
      some (["LuaEngine", "Startup", "luaengine"], some (true, some "false", none)) := by decide +kernel
  obtain ⟨c, hc, hloaded⟩ := Option.map_eq_some_iff.1 hloaded
  obtain ⟨hnames, hsections⟩ := Prod.mk.inj hloaded
  obtain ⟨s, hs, hsections⟩ := Option.bind_eq_some_iff.1 hsections
  obtain ⟨later, hlater, hsections⟩ := Option.map_eq_some_iff.1 hsections
  obtain ⟨hagree, htexts⟩ := Prod.mk.inj hsections
  obtain ⟨hdenied, hlost⟩ := Prod.mk.inj htexts
  have hlower : Text.lower "LuaEngine" = "luaengine" := Text.lower_eq_iff.2 (by decide)
  have hspelled : "LuaEngine" ∈ spellings c.names "LuaEngine" :=
    List.mem_filter.2 ⟨by simp [hnames], beq_self_eq_true _⟩
  have hover : c.Overridden "LuaEngine" s later :=
    ⟨by rw [hlower, hlater], "LuaEngine", mem_others.2 ⟨hspelled, by rw [hlower]; decide⟩, hs⟩
  have hsections (k : String) (t : FileSection) (ht : c.sections.get? k = some t)
      (hk : Text.sameIgnoringCase k "LuaEngine" = true) : t = s ∨ t = later := by
    have hmem : k ∈ c.names := Dict.mem_keys.2 (Option.isSome_of_eq_some ht)
    rw [hnames] at hmem
    rcases List.mem_cons.1 hmem with rfl | hmem
    · exact .inl (Option.some.inj (ht.symm.trans hs))
    rcases List.mem_cons.1 hmem with rfl | hmem
    · exact absurd (Text.sameIgnoringCase_iff.1 hk) (by decide)
    · rw [List.mem_singleton.1 hmem] at ht
      exact .inr (Option.some.inj (ht.symm.trans hlater))
  refine ⟨c, eq_ok_of_toOption hc, List.ne_nil_of_mem hspelled, ?_, ?_⟩
  · intro j k t u ht hu hj hk
    rcases hsections j t ht hj with rfl | rfl <;> rcases hsections k u hu hk with rfl | rfl
    · exact .refl _
    · exact agree_sound hagree
    · exact (agree_sound hagree).symm
    · exact .refl _
  · intro hfolds
    have hunites := ((foldsCompletely_iff_unites (List.ne_nil_of_mem hspelled)).1 hfolds).2 s later hover
    have hat := hunites "capabilities.account-lookup"
    rw [hlost, hdenied, eq_comm, Option.or_eq_none_iff] at hat
    cases hat.2

end FileConfig

end ScriptHost
