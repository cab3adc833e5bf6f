import ScriptHost.Proofs.Config.Folding
import ScriptHost.Proofs.Config.Layers
import ScriptHost.Proofs.Config.Order

/-! Which source counts. Sources are merged under the exact names of their sections, so that the strongest
one counts for each spelling by itself; between spellings it is not the strength of their sources that
decides, but how they are spelled. -/

namespace ScriptHost

open ScriptHost.Tree ConfigLayer

namespace FileConfig

variable {c : FileConfig} {layers : List ConfigLayer} {n key : String} {path : List String}
  {s later : FileSection} {vs : List (String × FileSection)}

/-- What readers of a name see at a path. -/
def read? (c : FileConfig) (n : String) (path : List String) : Option String :=
  (c.keyValues? n).bind (·.get? (dotted path))

/-! ### Spellings -/

def spellings (names : List String) (n : String) : List String := names.filter (Text.sameIgnoringCase · n)

/-- The name itself if it is there, or else the first of its spellings. -/
def found? (n : String) (same : List String) : Option String :=
  if same.contains n then some n else same.head?

/-- The spelling whose section decides about a key after folding: where the lower-case one has been taken
into the section that is found, it decides about all that it has. -/
def decider? (layers : List ConfigLayer) (n key : String) : Option String :=
  let same := spellings ((merged layers).map (·.1)) n
  let others := same.filter (· != Text.lower n)
  (found? n (if others.isEmpty then same else others)).map fun k =>
    if others.head? == some k && layers.any (·.has (Text.lower n) key) then Text.lower n else k

theorem found?_mem {same : List String} {k : String} (h : found? n same = some k) : k ∈ same := by
  unfold found? at h
  split at h
  · cases h
    simpa using ‹same.contains n = true›
  · exact List.mem_of_mem_head? h

theorem pick?_eq (hvs : Entries.Sorted vs) (n : String) :
    pick? n vs = (found? n (vs.map (·.1))).bind (vs.lookup ·) := by
  unfold pick? found?
  cases hn : vs.lookup n with
  | some s =>
    have hmem : n ∈ vs.map (·.1) := List.mem_map_of_mem (mem_of_lookup hn)
    simp [hmem, hn]
  | none =>
    have hnot : n ∉ vs.map (·.1) := by
      intro hmem
      obtain ⟨e, he, rfl⟩ := List.mem_map.1 hmem
      rw [lookup_of_mem hvs he] at hn
      cases hn
    have hcontains : (vs.map (·.1)).contains n = false := by simpa using hnot
    rw [hcontains]
    cases vs with
    | nil => rfl
    | cons e vs =>
      obtain ⟨k, s⟩ := e
      simp

/-! ### Sections that are extended -/

theorem get?_extend (s later : FileSection) (k : String) :
    (extend s later).get? k = (later.get? k).or (s.get? k) := by
  have hlast : later.entries.reverse.lookup k = later.get? k := by
    apply lookup_eq_of_mem_iff
    intro v
    rw [List.mem_reverse]
    exact ⟨lookup_of_mem later.sorted, mem_of_lookup⟩
  unfold extend
  rw [Dict.get?_foldl_insert, hlast]

theorem leafIn?_cons (s : FileSection) (key : String) (rest : List String) :
    leafIn? s (key :: rest) = (s.get? key).bind (leafAt? · rest) := leafAt?_table s.entries key rest

/-- A later section decides about all keys that it has, whatever is under them. -/
theorem leafIn?_extend (s later : FileSection) (key : String) (rest : List String) :
    leafIn? (extend s later) (key :: rest) =
      if (later.get? key).isSome then leafIn? later (key :: rest) else leafIn? s (key :: rest) := by
  rw [leafIn?_cons, leafIn?_cons, leafIn?_cons, get?_extend]
  cases later.get? key <;> rfl

theorem ordered_extend (hs : Ordered (.table s.entries)) (hlater : Ordered (.table later.entries)) :
    Ordered (.table (extend s later).entries) := by
  refine .table (extend s later).sorted ?_
  rintro ⟨k, t⟩ he
  have hk : (extend s later).get? k = some t := lookup_of_mem (extend s later).sorted he
  rw [get?_extend] at hk
  rcases Option.or_eq_some_iff.1 hk with hk | ⟨-, hk⟩
  · exact hlater.lookup hk
  · exact hs.lookup hk

/-! ### Reading -/

/-- Which section of the spellings of a name decides about a key. -/
def deciding? (n key : String) (vs : List (String × FileSection)) : Option String :=
  let same := vs.map (·.1)
  let others := same.filter (· != Text.lower n)
  (found? n (if others.isEmpty then same else others)).map fun k =>
    if others.head? == some k && (vs.lookup (Text.lower n)).any fun s => (s.get? key).isSome
    then Text.lower n else k

/-- After folding, the section that decides about a key is found. -/
theorem leafIn?_folded (hvs : Entries.Sorted vs) (n key : String) (rest : List String) :
    (pick? n (folded (Text.lower n) vs)).bind (leafIn? · (key :: rest)) =
      (deciding? n key vs).bind fun k => (vs.lookup k).bind (leafIn? · (key :: rest)) := by
  have hothers : (vs.map (·.1)).filter (· != Text.lower n) = (Entries.keep (· != Text.lower n) vs).map (·.1) :=
    List.filter_map
  unfold deciding? folded
  simp only [hothers]
  cases hkeep : Entries.keep (· != Text.lower n) vs with
  | nil =>
    rw [pick?_eq hvs]
    simp only [List.map_nil, List.isEmpty_nil, if_true, List.head?_nil]
    cases found? n (vs.map (·.1)) <;> simp
  | cons e others =>
    obtain ⟨first, s⟩ := e
    have hnames (s : FileSection) : ((first, s) :: others).map (·.1) = first :: others.map (·.1) := rfl
    cases hlower : vs.lookup (Text.lower n) with
    | none =>
      have hall : Entries.keep (· != Text.lower n) vs = vs := by
        apply List.filter_eq_self.2
        intro e he
        have hnone := List.lookup_eq_none_iff.1 hlower e he
        rw [bne_iff_ne]
        intro heq
        simp [heq] at hnone
      rw [hkeep] at hall
      rw [pick?_eq hvs, ← hall, hnames]
      simp only [List.isEmpty_cons, Option.any_none, Bool.and_false, Bool.false_eq_true, if_false]
      generalize found? n (first :: others.map (·.1)) = found
      cases found <;> simp
    | some later =>
      have hsorted : Entries.Sorted ((first, s) :: others) := hkeep ▸ Entries.sorted_keep hvs _
      have hextended : Entries.Sorted ((first, extend s later) :: others) :=
        List.pairwise_cons.2 (List.pairwise_cons.1 hsorted)
      have hlookup {k : String} (hk : k ∈ first :: others.map (·.1)) :
          vs.lookup k = ((first, s) :: others).lookup k := by
        obtain ⟨e, he, rfl⟩ := List.mem_map.1 (show k ∈ ((first, s) :: others).map (·.1) from hk)
        rw [← hkeep] at he ⊢
        rw [Entries.lookup_keep (p := (· != Text.lower n)) (Entries.mem_keep.1 he).2]
      rw [pick?_eq hextended, hnames, hnames]
      simp only [List.isEmpty_cons, List.head?_cons, Option.any_some, Bool.false_eq_true, if_false]
      cases hfound : found? n (first :: others.map (·.1)) with
      | none => simp
      | some k =>
        have hk := hlookup (found?_mem hfound)
        by_cases heq : first = k
        · subst heq
          have hfirst : vs.lookup first = some s := by simpa using hk
          by_cases hhas : (later.get? key).isSome = true
          · simp [leafIn?_extend, hhas, hlower]
          · simp [leafIn?_extend, hhas, hfirst]
        · have hne : (k == first) = false := beq_false_of_ne (Ne.symm heq)
          rw [List.lookup_cons, hne] at hk
          simp [heq, hne, List.lookup_cons, hk]

/-- No other path leads, under any spelling of the name, to a leaf with the same dotted key. -/
def Unambiguous (layers : List ConfigLayer) (n : String) (path : List String) : Prop :=
  ∀ l ∈ layers, ∀ p ∈ leavesOf l, Text.sameIgnoringCase (p.1.headD "") n = true →
    dotted p.1.tail = dotted path → p.1.tail = path

instance (layers : List ConfigLayer) (n : String) (path : List String) :
    Decidable (Unambiguous layers n path) := by
  unfold Unambiguous
  infer_instance

/-- The section has its keys in order, and no leaf of it is taken for that at a path. -/
def Plain (path : List String) (s : FileSection) : Prop :=
  Ordered (.table s.entries) ∧ ∀ q a, leafIn? s q = some a → dotted q = dotted path → q = path

theorem read?_eq_leafIn? (h : ∀ s, c.find? n = some s → Plain path s) :
    c.read? n path = ((c.find? n).bind (leafIn? · path)).map Scalar.text := by
  unfold read? keyValues?
  cases hfind : c.find? n with
  | none => rfl
  | some s =>
    obtain ⟨hordered, hunique⟩ := h s hfind
    exact get?_flatten hordered hunique

theorem plain_extend (hs : Plain path s) (hlater : Plain path later) : Plain path (extend s later) := by
  refine ⟨ordered_extend hs.1 hlater.1, ?_⟩
  intro q a ha
  cases q with
  | nil => cases ha
  | cons k q =>
    rw [leafIn?_extend] at ha
    split at ha
    · exact hlater.2 _ _ ha
    · exact hs.2 _ _ ha

theorem pick?_mem (h : pick? n vs = some s) : ∃ k, (k, s) ∈ vs := by
  unfold pick? at h
  rcases Option.or_eq_some_iff.1 h with h | ⟨-, h⟩
  · exact ⟨n, mem_of_lookup h⟩
  · obtain ⟨e, he, rfl⟩ := Option.map_eq_some_iff.1 h
    exact ⟨e.1, List.mem_of_mem_head? he⟩

theorem plain_folded {l : String} (h : ∀ e ∈ vs, Plain path e.2) : ∀ e ∈ folded l vs, Plain path e.2 := by
  unfold folded
  split
  · rename_i name s rest later hkeep hlower
    have hkept : ∀ e ∈ (name, s) :: rest, Plain path e.2 := by
      intro e he
      rw [← hkeep] at he
      exact h e (Entries.mem_keep.1 he).1
    obtain ⟨hfirst, hrest⟩ := List.forall_mem_cons.1 hkept
    exact List.forall_mem_cons.2 ⟨plain_extend hfirst (h _ (mem_of_lookup hlower)), hrest⟩
  · exact h

theorem mem_variants {k l : String} : (k, s) ∈ variants l c ↔ c.sections.get? k = some s ∧ Text.lower k = l := by
  unfold variants
  rw [Entries.mem_keep, beq_iff_eq]
  exact and_congr_left fun _ => ⟨lookup_of_mem c.sections.sorted, mem_of_lookup⟩

theorem value?_eq_some_iff {l : ConfigLayer} (hl : Ordered (.table l)) {k : String} {v : Scalar} :
    l.value? k path = some v ↔ (k :: path, some v) ∈ leavesOf l := by
  have hleaves : (k :: path, some v) ∈ leavesOf l ↔ (Tree.table l).leafAt? (k :: path) = some (some v) :=
    mem_leaves_iff hl
  rw [hleaves, value?, Option.join_eq_some_iff]

theorem Holds.plain (h : Holds layers c) (hlayers : ∀ l ∈ layers, Ordered (.table l))
    (hclear : Unambiguous layers n path) :
    ∀ e ∈ variants (Text.lower n) c, Plain path e.2 := by
  rintro ⟨k, s⟩ he
  obtain ⟨hs, hk⟩ := mem_variants.1 he
  refine ⟨h.ordered hs, ?_⟩
  intro q a ha
  have hprevails : prevailing? layers k q = some a := by
    rw [← h.leafIn?, hs]
    exact ha
  obtain ⟨l, hl, hvalue⟩ := List.exists_of_findSome?_eq_some hprevails
  have hl := List.mem_reverse.1 hl
  apply hclear l hl (k :: q, some a) ((value?_eq_some_iff (hlayers l hl)).1 hvalue)
  simpa [Text.sameIgnoringCase] using hk

theorem map_variants (c : FileConfig) (n : String) :
    (variants (Text.lower n) c).map (·.1) = spellings c.names n := by
  unfold spellings names Dict.keys
  rw [List.filter_map]
  rfl

theorem Holds.spellings (h : Holds layers c) (n : String) :
    (variants (Text.lower n) c).map (·.1) = FileConfig.spellings ((merged layers).map (·.1)) n := by
  rw [map_variants, h.names]

theorem Holds.lookup (h : Holds layers c) {k : String} (hk : Text.lower k = Text.lower n) :
    ((variants (Text.lower n) c).lookup k).bind (FileConfig.leafIn? · path) = prevailing? layers k path := by
  rw [lookup_variants hk, h.leafIn?]

theorem Holds.deciding (h : Holds layers c) (n key : String) :
    deciding? n key (variants (Text.lower n) c) = decider? layers n key := by
  unfold deciding? decider?
  rw [h.spellings, lookup_variants (Text.lower_lower n), h.contains]

theorem lower_of_mem_spellings {names : List String} {k : String} (h : k ∈ FileConfig.spellings names n) :
    Text.lower k = Text.lower n := by
  have hsame := (List.mem_filter.1 h).2
  exact beq_iff_eq.1 hsame

theorem sorted_variants (l : String) (c : FileConfig) : Entries.Sorted (variants l c) :=
  Entries.sorted_keep c.sections.sorted _

/-- What is read of a configuration as it has been merged. -/
theorem Holds.read? (h : Holds layers c) (hlayers : ∀ l ∈ layers, Ordered (.table l))
    (hclear : Unambiguous layers n path) :
    c.read? n path = ((found? n (FileConfig.spellings ((merged layers).map (·.1)) n)).bind
      (prevailing? layers · path)).map Scalar.text := by
  have hfind := find?_eq_pick? c n
  rw [read?_eq_leafIn?, hfind, pick?_eq (sorted_variants _ _), h.spellings]
  · cases hfound : found? n (FileConfig.spellings ((merged layers).map (·.1)) n) with
    | none => rfl
    | some k =>
      have hk := lower_of_mem_spellings (found?_mem hfound)
      rw [Option.bind_some, h.lookup hk]
      rfl
  · intro s hs
    rw [hfind] at hs
    obtain ⟨k, hmem⟩ := pick?_mem hs
    exact h.plain hlayers hclear _ hmem

theorem decider?_lower {k : String} (h : decider? layers n key = some k) : Text.lower k = Text.lower n := by
  obtain ⟨k', hk', rfl⟩ := Option.map_eq_some_iff.1 h
  split
  · exact Text.lower_lower n
  · have hmem := found?_mem hk'
    split at hmem
    · exact lower_of_mem_spellings hmem
    · exact lower_of_mem_spellings (List.mem_filter.1 hmem).1

/-- What is read after folding. -/
theorem Holds.read?_foldCase (h : Holds layers c) (hlayers : ∀ l ∈ layers, Ordered (.table l))
    {rest : List String} (hclear : Unambiguous layers n (key :: rest)) :
    c.foldCase.read? n (key :: rest) =
      ((decider? layers n key).bind (prevailing? layers · (key :: rest))).map Scalar.text := by
  have hfind : c.foldCase.find? n = pick? n (folded (Text.lower n) (variants (Text.lower n) c)) := by
    rw [find?_eq_pick?, variants_foldCase (Text.lower_lower n)]
  rw [read?_eq_leafIn?, hfind, leafIn?_folded (sorted_variants _ _), h.deciding]
  · cases hdecider : decider? layers n key with
    | none => rfl
    | some k => rw [Option.bind_some, h.lookup (decider?_lower hdecider), Option.bind_some]
  · intro s hs
    rw [hfind] at hs
    obtain ⟨k, hmem⟩ := pick?_mem hs
    exact plain_folded (h.plain hlayers hclear) _ hmem

/-! ### Strength -/

/-- A layer gives a key a value, under some spelling of the section's name. -/
def Defines (l : ConfigLayer) (n : String) (path : List String) (v : Scalar) : Prop :=
  ∃ k, Text.sameIgnoringCase k n = true ∧ l.value? k path = some v

/-- The first of the layers that defines a key gives it a value. -/
def FirstDefines (n : String) (path : List String) (v : Scalar) : List ConfigLayer → Prop
  | [] => False
  | l :: weaker => Defines l n path v ∨ (∀ w, ¬ Defines l n path w) ∧ FirstDefines n path v weaker

/-- The strongest of the layers that define a key gives it a value. -/
def Prevails (layers : List ConfigLayer) (n : String) (path : List String) (v : Scalar) : Prop :=
  FirstDefines n path v layers.reverse

/-- A key is read as its sources say by their strength. -/
def ReadByStrength (layers : List ConfigLayer) (n : String) (path : List String) : Option String → Prop
  | some t => ∃ v, Prevails layers n path v ∧ v.text = t
  | none => ∀ v, ¬ Prevails layers n path v

/-- All layers spell the name of a section alike. -/
def SpelledAlike (layers : List ConfigLayer) (n : String) : Prop :=
  ∃ m, ∀ l ∈ layers, ∀ k, Text.sameIgnoringCase k n = true → (l.lookup k).isSome → k = m

/-- With one spelling, the strongest layer that defines a key under it is the strongest of all. -/
theorem firstDefines_iff {m : String} {v : Scalar} (ls : List ConfigLayer)
    (hm : ∀ l ∈ ls, ∀ k, Text.sameIgnoringCase k n = true → (l.value? k path).isSome → k = m)
    (hsame : Text.sameIgnoringCase m n = true) :
    FirstDefines n path v ls ↔ ls.findSome? (·.value? m path) = some v := by
  induction ls with
  | nil => simp [FirstDefines]
  | cons l ls ih =>
    obtain ⟨hl, hrest⟩ := List.forall_mem_cons.1 hm
    have hdefines (w : Scalar) : Defines l n path w ↔ l.value? m path = some w := by
      constructor
      · rintro ⟨k, hk, hvalue⟩
        rw [← hl k hk (by rw [hvalue]; rfl)]
        exact hvalue
      · intro hvalue
        exact ⟨m, hsame, hvalue⟩
    unfold FirstDefines
    rw [ih hrest, List.findSome?_cons, hdefines]
    cases hvalue : l.value? m path with
    | none => simp [hdefines, hvalue]
    | some w => simp [hdefines, hvalue]

theorem value?_isSome {l : ConfigLayer} {k : String} (h : (l.value? k path).isSome) : (l.lookup k).isSome := by
  unfold value? at h
  rw [leafAt?_table] at h
  cases hk : l.lookup k with
  | none => simp [hk] at h
  | some t => rfl

theorem firstDefines_exists {v : Scalar} {ls : List ConfigLayer} (h : FirstDefines n path v ls) :
    ∃ l ∈ ls, Defines l n path v := by
  induction ls with
  | nil => cases h
  | cons l ls ih =>
    rcases h with h | ⟨-, h⟩
    · exact ⟨l, List.mem_cons_self, h⟩
    · obtain ⟨m, hm, h⟩ := ih h
      exact ⟨m, List.mem_cons_of_mem _ hm, h⟩

/-- Whichever spelling is chosen among those that there are, it is the right one if there is only one. -/
theorem readByStrength_of_chosen (h : SpelledAlike layers n) {chosen : Option String}
    (hsome : ∀ k, chosen = some k → Text.sameIgnoringCase k n = true ∧ ∃ l ∈ layers, (l.lookup k).isSome)
    (hnone : chosen = none → ∀ l ∈ layers, ∀ k, Text.sameIgnoringCase k n = true → l.lookup k = none) :
    ReadByStrength layers n path ((chosen.bind (prevailing? layers · path)).map Scalar.text) := by
  obtain ⟨m, hm⟩ := h
  cases chosen with
  | none =>
    intro v hv
    obtain ⟨l, hl, k, hk, hvalue⟩ := firstDefines_exists hv
    have hlookup := value?_isSome (l := l) (by rw [hvalue]; rfl)
    rw [hnone rfl l (List.mem_reverse.1 hl) k hk] at hlookup
    cases hlookup
  | some k =>
    obtain ⟨hk, l, hl, hlookup⟩ := hsome k rfl
    have hkm := hm l hl k hk hlookup
    subst hkm
    have hiff (v : Scalar) : Prevails layers n path v ↔ prevailing? layers k path = some v := by
      apply firstDefines_iff _ _ hk
      intro l hl k' hk' hvalue
      exact hm l (List.mem_reverse.1 hl) k' hk' (value?_isSome hvalue)
    rw [Option.bind_some]
    cases hprevails : prevailing? layers k path with
    | none =>
      intro v hv
      rw [hiff, hprevails] at hv
      cases hv
    | some v => exact ⟨v, (hiff v).2 hprevails, rfl⟩

theorem mem_names_iff (h : Consistent layers) (k : String) :
    k ∈ (merged layers).map (·.1) ↔ ∃ l ∈ layers, (l.lookup k).isSome := by
  have hsome (es : List (String × RawTree)) : ((Tree.table es).at? [k]).isSome = (es.lookup k).isSome := by
    rw [at?_table]
    cases es.lookup k <;> rfl
  have hmerged := (merges h).isSome_at? [k]
  have hnil : (([] : List (String × RawTree)).lookup k).isSome = false := rfl
  simp only [hsome, hnil, Bool.or_false] at hmerged
  rw [← List.any_eq_true, ← hmerged]
  constructor
  · intro hk
    obtain ⟨e, he, rfl⟩ := List.mem_map.1 hk
    cases (merges h).ordered with
    | table hsorted _ => rw [lookup_of_mem hsorted he, Option.isSome_some]
  · intro hk
    obtain ⟨t, ht⟩ := Option.isSome_iff_exists.1 hk
    exact List.mem_map_of_mem (mem_of_lookup ht)

theorem found?_eq_none {same : List String} (h : found? n same = none) : same = [] := by
  unfold found? at h
  split at h
  · cases h
  · exact List.head?_eq_none_iff.1 h

theorem lookup_of_spellings_nil (hlayers : Consistent layers)
    (hnil : spellings ((merged layers).map (·.1)) n = []) :
    ∀ l ∈ layers, ∀ k, Text.sameIgnoringCase k n = true → l.lookup k = none := by
  intro l hl k hk
  cases hlookup : l.lookup k with
  | none => rfl
  | some t =>
    have hname := (mem_names_iff hlayers k).2 ⟨l, hl, by rw [hlookup]; rfl⟩
    have hmem : k ∈ spellings ((merged layers).map (·.1)) n := List.mem_filter.2 ⟨hname, hk⟩
    rw [hnil] at hmem
    cases hmem

/-- A name that is looked up is read by strength, if all layers spell it alike. -/
theorem found_readByStrength (hlayers : Consistent layers) (h : SpelledAlike layers n) :
    ReadByStrength layers n path (((found? n (spellings ((merged layers).map (·.1)) n)).bind
      (prevailing? layers · path)).map Scalar.text) := by
  apply readByStrength_of_chosen h
  · intro k hk
    obtain ⟨hmem, hsame⟩ := List.mem_filter.1 (found?_mem hk)
    exact ⟨hsame, (mem_names_iff hlayers k).1 hmem⟩
  · intro hnone
    exact lookup_of_spellings_nil hlayers (found?_eq_none hnone)

/-- So it is after folding. -/
theorem decider_readByStrength (hlayers : Consistent layers) (h : SpelledAlike layers n) (key : String) :
    ReadByStrength layers n path (((decider? layers n key).bind
      (prevailing? layers · path)).map Scalar.text) := by
  apply readByStrength_of_chosen h
  · intro k hk
    obtain ⟨k', hk', rfl⟩ := Option.map_eq_some_iff.1 hk
    split
    · rename_i hcond
      obtain ⟨l, hl, hhas⟩ := List.any_eq_true.1 (Bool.and_eq_true_iff.1 hcond).2
      refine ⟨by simp [Text.sameIgnoringCase, Text.lower_lower], l, hl, ?_⟩
      unfold has at hhas
      rw [at?_table] at hhas
      cases hlookup : l.lookup (Text.lower n) with
      | none => simp [hlookup] at hhas
      | some t => rfl
    · have hmem : k' ∈ spellings ((merged layers).map (·.1)) n := by
        have hmem := found?_mem hk'
        split at hmem
        · exact hmem
        · exact (List.mem_filter.1 hmem).1
      obtain ⟨hname, hsame⟩ := List.mem_filter.1 hmem
      exact ⟨hsame, (mem_names_iff hlayers k').1 hname⟩
  · intro hnone
    have hfound := found?_eq_none (Option.map_eq_none_iff.1 hnone)
    apply lookup_of_spellings_nil hlayers
    split at hfound
    · exact hfound
    · rename_i hothers
      rw [hfound] at hothers
      exact absurd rfl hothers

/-! ### Loading -/

/-- No key is a table in one layer and a scalar in another. -/
def Agreeing (layers : List ConfigLayer) : Prop :=
  layers.Pairwise fun l m => agreeEntries l m = true

instance (layers : List ConfigLayer) : Decidable (Agreeing layers) := by
  unfold Agreeing
  infer_instance

theorem consistent_of_agreeing (hlayers : ∀ l ∈ layers, Ordered (.table l)) (h : Agreeing layers) :
    Consistent layers := by
  refine ⟨hlayers, h.imp ?_⟩
  intro l m hlm
  apply agree_sound
  rwa [agree]

theorem load_eq_ok {i : ConfigInputs} (hlayers : i.layers? = some layers) (h : load i = .ok c) :
    ∃ c', ofEntries? (merged layers) = some c' ∧ c = c'.foldCase := by
  unfold load at h
  rw [hlayers] at h
  split at h
  · cases h
  · split at h
    · rename_i c' hc'
      cases h
      exact ⟨c', hc', rfl⟩
    · cases h

theorem loadFile_eq_ok {name : String} {file : FileText} {l : ConfigLayer} (hl : ofFile? file = some l)
    (h : loadFile name file = .ok c) : ofEntries? (merged [defaults, l]) = some c := by
  unfold loadFile at h
  rw [hl] at h
  split at h
  · cases h
  · split at h
    · rename_i c' hc'
      cases h
      exact hc'
    · cases h

/-- What is read of a configuration, at every path whose dotted key no other path has. What all sources
together say is what the strongest of them says under the spelling that decides; a single file and the
defaults are not folded. Strength decides between all sources if they spell the section alike. -/
theorem read?_loaded (n key : String) (rest : List String) :
    (∀ i layers c, i.layers? = some layers → Agreeing layers → Unambiguous layers n (key :: rest) →
      load i = .ok c →
        c.read? n (key :: rest) =
          ((decider? layers n key).bind (prevailing? layers · (key :: rest))).map Scalar.text ∧
        (SpelledAlike layers n → ReadByStrength layers n (key :: rest) (c.read? n (key :: rest)))) ∧
    (∀ name file l c, ofFile? file = some l → Agreeing [defaults, l] →
      Unambiguous [defaults, l] n (key :: rest) → loadFile name file = .ok c →
        c.read? n (key :: rest) =
          ((found? n (spellings ((merged [defaults, l]).map (·.1)) n)).bind
            (prevailing? [defaults, l] · (key :: rest))).map Scalar.text ∧
        (SpelledAlike [defaults, l] n →
          ReadByStrength [defaults, l] n (key :: rest) (c.read? n (key :: rest)))) := by
  constructor
  · intro i layers c hlayers hagree hclear hload
    have hordered := i.ordered_layers? hlayers
    have hconsistent := consistent_of_agreeing hordered hagree
    obtain ⟨c', hc', rfl⟩ := load_eq_ok hlayers hload
    have hread := (holds_ofEntries? hconsistent hc').read?_foldCase hordered hclear
    refine ⟨hread, ?_⟩
    intro halike
    rw [hread]
    exact decider_readByStrength hconsistent halike key
  · intro name file l c hl hagree hclear hload
    have hordered : ∀ m ∈ [defaults, l], Ordered (.table m) := by
      refine List.forall_mem_cons.2 ⟨ordered_defaults, ?_⟩
      intro m hm
      rw [List.mem_singleton.1 hm]
      exact ordered_ofFile? hl
    have hconsistent := consistent_of_agreeing hordered hagree
    have hread := (holds_ofEntries? hconsistent (loadFile_eq_ok hl hload)).read? hordered hclear
    refine ⟨hread, ?_⟩
    intro halike
    rw [hread]
    exact found_readByStrength hconsistent halike

theorem eq_ok_of_toOption {ε α : Type} {r : Except ε α} {a : α} (h : r.toOption = some a) : r = .ok a := by
  cases r with
  | error e => cases h
  | ok b =>
    cases h
    rfl

/-- Two files that spell a section alike: the stronger one counts. -/
theorem read?_loaded_alike :
    let i : ConfigInputs := ⟨.error .missing, .ok "[s]\nk=1", some ("f", .ok "[s]\nk=2"), []⟩
    ∃ layers c, i.layers? = some layers ∧ Agreeing layers ∧ Unambiguous layers "s" ["k"] ∧
      load i = .ok c ∧ SpelledAlike layers "s" ∧
      ReadByStrength layers "s" ["k"] (c.read? "s" ["k"]) ∧ c.read? "s" ["k"] = some "2" := by
  intro i
  have hread : (load i).toOption.bind (·.read? "s" ["k"]) = some "2" := by decide +kernel
  have hchecks : i.layers?.any (fun ls => Agreeing ls && Unambiguous ls "s" ["k"] &&
      ls.all fun l => l.all fun e => !Text.sameIgnoringCase e.1 "s" || e.1 == "s") = true := by
    decide +kernel
  obtain ⟨c, hc, hread⟩ := Option.bind_eq_some_iff.1 hread
  have hload := eq_ok_of_toOption hc
  cases hlayers : i.layers? with
  | none =>
    rw [hlayers] at hchecks
    cases hchecks
  | some layers =>
    rw [hlayers] at hchecks
    simp only [Option.any_some, Bool.and_eq_true, decide_eq_true_eq, List.all_eq_true] at hchecks
    obtain ⟨⟨hagree, hclear⟩, hnames⟩ := hchecks
    have halike : SpelledAlike layers "s" := by
      refine ⟨"s", ?_⟩
      intro l hl k hk hlookup
      obtain ⟨t, ht⟩ := Option.isSome_iff_exists.1 hlookup
      simpa [hk] using hnames l hl (k, t) (mem_of_lookup ht)
    have hloaded := (read?_loaded "s" "k" []).1 i layers c hlayers hagree hclear hload
    exact ⟨layers, c, rfl, hagree, hclear, hload, halike, hloaded.2 halike, hread⟩

/-- The leaves of a layer, as texts. -/
def texts (l : ConfigLayer) : List (List String × Option String) :=
  (leavesOf l).map fun p => (p.1, p.2.map Scalar.text)

theorem Defines.texts {l : ConfigLayer} {v : Scalar} (h : Defines l n path v) (hl : Ordered (.table l)) :
    ∃ k, (k :: path, some v.text) ∈ FileConfig.texts l := by
  obtain ⟨k, -, hvalue⟩ := h
  have hmem := (value?_eq_some_iff hl).1 hvalue
  exact ⟨k, List.mem_map.2 ⟨_, hmem, rfl⟩⟩

/-- The file that the command line names is stronger than that of the user, but is not read, since the
latter spells the section in lower case. -/
theorem stronger_file_not_read :
    let i : ConfigInputs := ⟨.ok "[startup]\nscript_engine = \"a\"\n", .error .missing,
      some ("explicit.toml", .ok "[Startup]\nscript_engine = \"b\"\n"), []⟩
    ∃ layers c, i.layers? = some layers ∧ load i = .ok c ∧
      c.read? "Startup" ["script_engine"] = some "a" ∧
      ¬ ReadByStrength layers "Startup" ["script_engine"] (c.read? "Startup" ["script_engine"]) := by
  intro i
  have hread : (load i).toOption.bind (·.read? "Startup" ["script_engine"]) = some "a" := by decide +kernel
  have htexts : i.layers?.map (fun ls => ls.reverse.map texts) = some
      [[], [(["Startup", "script_engine"], some "b")], [], [(["startup", "script_engine"], some "a")],
        [(["Startup", "script_engine"], some "lua"), (["Startup", "scripting_enabled"], some "true")]] := by
    decide +kernel
  obtain ⟨c, hc, hread⟩ := Option.bind_eq_some_iff.1 hread
  have hload := eq_ok_of_toOption hc
  obtain ⟨layers, hlayers, htexts⟩ := Option.map_eq_some_iff.1 htexts
  refine ⟨layers, c, hlayers, hload, hread, ?_⟩
  have hordered : ∀ l ∈ layers.reverse, Ordered (.table l) :=
    fun l hl => i.ordered_layers? hlayers l (List.mem_reverse.1 hl)
  obtain ⟨env, rest, heq, henv, hrest⟩ := List.map_eq_cons_iff.1 htexts
  obtain ⟨named, rest, rfl, hnamed, -⟩ := List.map_eq_cons_iff.1 hrest
  rw [heq] at hordered
  have hnone (v : Scalar) : ¬ Defines env "Startup" ["script_engine"] v := by
    intro hv
    obtain ⟨k, hk⟩ := hv.texts (hordered env List.mem_cons_self)
    rw [henv] at hk
    cases hk
  have hb (v : Scalar) (hv : Defines named "Startup" ["script_engine"] v) : v.text = "b" := by
    obtain ⟨k, hk⟩ := hv.texts (hordered named (by simp))
    rw [hnamed] at hk
    simp at hk
    exact hk.2
  have hdefines : ∃ v, Defines named "Startup" ["script_engine"] v := by
    have hmem : (["Startup", "script_engine"], some "b") ∈ texts named := by simp [hnamed]
    obtain ⟨⟨q, a⟩, ha, heq⟩ := List.mem_map.1 hmem
    obtain ⟨rfl, ha'⟩ := Prod.mk.inj heq
    obtain ⟨w, rfl, -⟩ := Option.map_eq_some_iff.1 ha'
    have hvalue := (value?_eq_some_iff (hordered named (by simp))).2 ha
    exact ⟨w, "Startup", beq_self_eq_true _, hvalue⟩
  rw [hread]
  rintro ⟨v, hv, htext⟩
  unfold Prevails at hv
  rw [heq] at hv
  rcases hv with hv | ⟨-, hv | ⟨hnot, -⟩⟩
  · exact hnone v hv
  · rw [hb v hv] at htext
    exact absurd htext (by decide)
  · obtain ⟨w, hw⟩ := hdefines
    exact hnot w hw

end FileConfig

end ScriptHost
