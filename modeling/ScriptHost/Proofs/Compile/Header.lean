import ScriptHost.Compile.Chain
import ScriptHost.Proofs.Slang.Scanning

/-! Headers of sources. A first line names a language when, but for blanks at its ends, it is two
slashes and the tag of that language in letters of either case. `Selects` says from this alone which
language a source is in and which part of it is compiled, and compilers resolve sources so. -/

namespace ScriptHost.Compile

open Slang (LineEnd lineEnd_dropWhile span_line isAlphanum_iff isUpper_iff isLower_iff)

variable {line source first rest w : String} {l : Language} {c : Char} {cs : List Char}

/-! ### Tags -/

theorem isTagChar_iff : isTagChar c = true ↔
    c.isAlphanum = true ∨ c.toNat = 45 ∨ c.toNat = 95 ∨ c.toNat = 35 := by
  have hnat (d : Char) : c = d ↔ c.toNat = d.toNat := ⟨fun h => h ▸ rfl, Char.toNat_inj.1⟩
  simp only [isTagChar, Bool.or_eq_true, beq_iff_eq, hnat]
  exact or_assoc.trans or_assoc

theorem isBlank_of_isTagChar (h : isTagChar c = true) : Text.isBlank c = false := by
  rw [isTagChar_iff, isAlphanum_iff] at h
  simp only [Text.isBlank, Bool.or_eq_false_iff, Bool.and_eq_false_iff, beq_eq_false_iff_ne,
    decide_eq_false_iff_not]
  omega

/-- A text without blanks is as it is without the blanks at its ends. -/
theorem trim_of_not_blank (h : ∀ c ∈ w.toList, Text.isBlank c = false) : Text.trim w = w := by
  have hdrop (cs : List Char) (hcs : ∀ c ∈ cs, Text.isBlank c = false) :
      cs.dropWhile Text.isBlank = cs := by
    cases cs with
    | nil => rfl
    | cons c cs => rw [List.dropWhile_cons_of_neg (by simp [hcs c])]
  rw [Text.trim, Text.dropBlankEnd, hdrop _ h, hdrop _ fun c hc => h c (List.mem_reverse.1 hc),
    List.reverse_reverse, String.ofList_toList]

/-- What is a small letter in lower case is a letter of one byte. -/
theorem letter_of_toLower (h : c.toLower.isLower = true) :
    c.isAlphanum = true ∧ c.utf8Size = 1 := by
  have hletter : (65 ≤ c.toNat ∧ c.toNat ≤ 90) ∨ (97 ≤ c.toNat ∧ c.toNat ≤ 122) := by
    by_cases hu : c.isUpper = true
    · exact .inl (isUpper_iff.1 hu)
    · have hsame : c.toLower = c := dif_neg fun hc => hu (decide_eq_true hc)
      rw [hsame] at h
      exact .inr (isLower_iff.1 h)
  refine ⟨isAlphanum_iff.2 (.inl hletter), Char.utf8Size_eq_one_iff.2 ?_⟩
  show c.val ≤ 127
  rw [UInt32.le_iff_toNat_le]
  show c.toNat ≤ 127
  omega

theorem size_ofList (h : ∀ c ∈ cs, c.utf8Size = 1) :
    (String.ofList cs).utf8ByteSize = cs.length := by
  induction cs with
  | nil => rfl
  | cons c cs ih =>
    rw [List.forall_mem_cons] at h
    rw [String.ofList_cons, String.utf8ByteSize_append, String.utf8ByteSize_singleton, h.1, ih h.2,
      List.length_cons, Nat.add_comm]

theorem tag_letters (l : Language) :
    l.tag.toList ≠ [] ∧ l.tag.toList.length ≤ 16 ∧ ∀ c ∈ l.tag.toList, c.isLower = true := by
  have hlower : l.tag.toList.all Char.isLower = true := by cases l <;> decide
  refine ⟨?_, ?_, List.all_eq_true.1 hlower⟩ <;> cases l <;> decide

theorem parse_eq_ok_iff : Language.parse w = .ok l ↔ Text.lower (Text.trim w) = l.tag := by
  unfold Language.parse
  generalize Text.lower (Text.trim w) = name
  constructor
  · intro h
    cases hfind : Language.all.find? (·.tag == name) with
    | none => simp only [hfind, reduceCtorEq] at h
    | some l' =>
      have hl : l' = l := by simpa only [hfind, Except.ok.injEq] using h
      have htag : l'.tag = name := by simpa using List.find?_some hfind
      rw [← htag, hl]
  · rintro rfl
    have hfind : Language.all.find? (·.tag == l.tag) = some l := by cases l <;> rfl
    simp only [hfind]

/-- A tag after the slashes is that of a language in letters of either case. -/
theorem tagLanguage?_eq_some_iff : tagLanguage? w = some l ↔ Text.lower w = l.tag := by
  have hletters := tag_letters l
  unfold tagLanguage?
  constructor
  · intro h
    split at h
    · rename_i htag
      simp only [Bool.and_eq_true, List.all_eq_true] at htag
      have hparse : Language.parse w = .ok l := by
        cases hp : Language.parse w with
        | ok l' => rw [hp] at h; cases h; rfl
        | error e => rw [hp] at h; cases h
      rw [parse_eq_ok_iff, trim_of_not_blank fun c hc => isBlank_of_isTagChar (htag.2 c hc)] at hparse
      exact hparse
    · cases h
  · intro h
    have hmap : w.toList.map Char.toLower = l.tag.toList := by
      rw [← h, Text.lower, String.toList_map]
    have hchar (c : Char) (hc : c ∈ w.toList) : c.isAlphanum = true ∧ c.utf8Size = 1 :=
      letter_of_toLower (hletters.2.2 _ (hmap ▸ List.mem_map_of_mem hc))
    have htag (c : Char) (hc : c ∈ w.toList) : isTagChar c = true :=
      isTagChar_iff.2 (.inl (hchar c hc).1)
    have hsize : w.utf8ByteSize ≤ 16 := by
      have := size_ofList fun c hc => (hchar c hc).2
      rw [String.ofList_toList] at this
      rw [this, ← List.length_map Char.toLower, hmap]
      exact hletters.2.1
    have hempty : w.isEmpty = false := by
      rw [Bool.eq_false_iff, Ne, String.isEmpty_iff]
      rintro rfl
      exact hletters.1 hmap.symm
    have hparse : Language.parse w = .ok l :=
      parse_eq_ok_iff.2 (by rwa [trim_of_not_blank fun c hc => isBlank_of_isTagChar (htag c hc)])
    rw [if_pos (by simpa [hempty, hsize] using htag), hparse]
    rfl

/-! ### First lines -/

/-- Blanks at its ends apart, a line is two slashes and the tag of a language in letters of either
case. -/
def Names (line : String) (l : Language) : Prop :=
  ∃ w, Text.trim line = "//" ++ w ∧ Text.lower w = l.tag

theorem headerLanguage?_eq_some_iff : headerLanguage? line = some l ↔ Names line l := by
  unfold headerLanguage?
  constructor
  · intro h
    split at h
    · rename_i tag htrim
      refine ⟨String.ofList tag, ?_, tagLanguage?_eq_some_iff.1 h⟩
      rw [← String.toList_inj, htrim, String.toList_append, String.toList_ofList]
      simp
    · cases h
  · rintro ⟨w, htrim, hw⟩
    have hlist : (Text.trim line).toList = '/' :: '/' :: w.toList := by
      rw [htrim, String.toList_append]
      rfl
    simp only [hlist, String.ofList_toList]
    exact tagLanguage?_eq_some_iff.2 hw

/-- A source is its first line and the rest, from the end of that line on. -/
structure FirstLine (source first rest : String) : Prop where
  eq : source = first ++ rest
  line : '\n' ∉ first.toList
  ends : LineEnd rest.toList

/-- The language that a source is in, and the part of it to compile: the source with an empty line in
place of one that names the language, or else all of it. -/
inductive Selects (default : Language) (source : String) : Language → String → Prop
  | header {first rest : String} {l : Language} : FirstLine source first rest → Names first l →
      Selects default source l rest
  | plain {first rest : String} : FirstLine source first rest → (∀ l, ¬ Names first l) →
      Selects default source default source

theorem cutFirstLine_eq_iff : cutFirstLine source = (first, rest) ↔ FirstLine source first rest := by
  constructor
  · intro h
    cases h
    refine ⟨?_, ?_, ?_⟩
    · rw [← String.ofList_append, List.takeWhile_append_dropWhile, String.ofList_toList]
    · rw [String.toList_ofList]
      intro hmem
      simpa using List.all_eq_true.1 List.all_takeWhile _ hmem
    · rw [String.toList_ofList]
      exact lineEnd_dropWhile _
  · rintro ⟨rfl, hline, hends⟩
    obtain ⟨htake, hdrop⟩ := span_line hline hends
    simp only [cutFirstLine, String.toList_append, htake, hdrop, String.ofList_toList]

theorem splitHeader_eq (h : FirstLine source first rest) :
    splitHeader source = match headerLanguage? first with
      | some l => (some l, rest)
      | none => (none, source) := by
  unfold splitHeader
  cases hlanguage : headerLanguage? first with
  | none => simp only [cutFirstLine_eq_iff.2 h, hlanguage]
  | some l => simp only [cutFirstLine_eq_iff.2 h, hlanguage]

/-- A compiler takes a source for what its first line says it is. -/
theorem Compiler.resolve_eq_iff {c : Compiler} {body : String} :
    c.resolve source = (l, body) ↔ Selects c.default source l body := by
  have hline : FirstLine source (cutFirstLine source).1 (cutFirstLine source).2 :=
    cutFirstLine_eq_iff.1 rfl
  unfold resolve
  constructor
  · intro h
    rw [splitHeader_eq hline] at h
    cases hheader : headerLanguage? (cutFirstLine source).1 with
    | some l' =>
      rw [hheader] at h
      cases h
      exact .header hline (headerLanguage?_eq_some_iff.1 hheader)
    | none =>
      rw [hheader] at h
      cases h
      refine .plain hline fun l' hl' => ?_
      rw [headerLanguage?_eq_some_iff.2 hl'] at hheader
      cases hheader
  · intro h
    cases h with
    | header hfirst hnames =>
      rw [splitHeader_eq hfirst, headerLanguage?_eq_some_iff.2 hnames]
      rfl
    | plain hfirst hnone =>
      have hheader := Option.eq_none_iff_forall_ne_some.2 fun l' hl' =>
        hnone l' (headerLanguage?_eq_some_iff.1 hl')
      rw [splitHeader_eq hfirst, hheader]
      rfl

end ScriptHost.Compile
