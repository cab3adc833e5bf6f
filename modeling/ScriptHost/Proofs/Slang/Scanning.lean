import ScriptHost.Proofs.Slang.LongBracket
import ScriptHost.Proofs.Slang.Lowering

/-! What a reader of Lua takes of a source and of its translation. Names, numerals and signs are made
of characters that no operator of Slang begins with, and behind one of them no word stands without
a space, so both texts give the same characters and stay in step. -/

namespace ScriptHost.Compile.Slang

open Lua (isSpace)
open Lua.Lexer (isBreak isNameChar isNameStart numeralChars)

variable {before : Option Char} {c : Char} {cs out : List Char}

/-! ### First characters -/

/-- Characters of which tokens of more than one are made, quotes and brackets apart. -/
structure Solid (c : Char) : Prop where
  unmarked : c ∉ marks
  tilde : c ≠ '~'
  apart : spaceBefore (some c) = [' ']

theorem Solid.of_toNat (hlow : 33 ≤ c.toNat) (hhigh : c.toNat ≤ 125) (hmark : c ∉ marks)
    (hparen : c ≠ '(') : Solid c where
  unmarked := hmark
  tilde := by
    rintro rfl
    exact absurd hhigh (by decide)
  apart := by
    have hblank : Text.isBlank c = false := by
      simp only [Text.isBlank, Bool.or_eq_false_iff, Bool.and_eq_false_iff, decide_eq_false_iff_not,
        beq_eq_false_iff_ne]
      omega
    simp [spaceBefore, hblank, hparen]

theorem isUpper_iff : c.isUpper = true ↔ 65 ≤ c.toNat ∧ c.toNat ≤ 90 := by
  show decide (c.val ≥ 'A'.val ∧ c.val ≤ 'Z'.val) = true ↔ _
  rw [decide_eq_true_iff]
  exact Iff.rfl

theorem isLower_iff : c.isLower = true ↔ 97 ≤ c.toNat ∧ c.toNat ≤ 122 := by
  show (decide (c.val ≥ 'a'.val) && decide (c.val ≤ 'z'.val)) = true ↔ _
  rw [Bool.and_eq_true, decide_eq_true_iff, decide_eq_true_iff]
  exact Iff.rfl

theorem isDigit_iff : c.isDigit = true ↔ 48 ≤ c.toNat ∧ c.toNat ≤ 57 := by
  show (decide (c.val ≥ '0'.val) && decide (c.val ≤ '9'.val)) = true ↔ _
  rw [Bool.and_eq_true, decide_eq_true_iff, decide_eq_true_iff]
  exact Iff.rfl

theorem isAlpha_iff : c.isAlpha = true ↔
    (65 ≤ c.toNat ∧ c.toNat ≤ 90) ∨ (97 ≤ c.toNat ∧ c.toNat ≤ 122) := by
  show (c.isUpper || c.isLower) = true ↔ _
  rw [Bool.or_eq_true, isUpper_iff, isLower_iff]

theorem isAlphanum_iff : c.isAlphanum = true ↔
    ((65 ≤ c.toNat ∧ c.toNat ≤ 90) ∨ (97 ≤ c.toNat ∧ c.toNat ≤ 122)) ∨
      (48 ≤ c.toNat ∧ c.toNat ≤ 57) := by
  show (c.isAlpha || c.isDigit) = true ↔ _
  rw [Bool.or_eq_true, isAlpha_iff, isDigit_iff]

theorem Solid.of_isAlphanum (h : c.isAlphanum = true) : Solid c := by
  have hne {d : Char} (hd : d.isAlphanum = false) : c ≠ d := by
    rintro rfl
    cases h.symm.trans hd
  have hbounds := isAlphanum_iff.1 h
  exact .of_toNat (by omega) (by omega) (by simp [marks, hne]) (hne rfl)

theorem Solid.of_isNameChar (h : isNameChar c = true) : Solid c := by
  simp only [isNameChar, Bool.or_eq_true, beq_iff_eq] at h
  rcases h with h | rfl
  · exact .of_isAlphanum h
  · exact .of_toNat (by decide) (by decide) (by decide) (by decide)

theorem isNameChar_of_isNameStart (h : isNameStart c = true) : isNameChar c = true := by
  simp only [isNameStart, Bool.or_eq_true] at h
  rcases h with h | h <;> simp [isNameChar, Char.isAlphanum, h]

theorem Solid.of_hexDigit? (h : (Text.hexDigit? c).isSome = true) : Solid c := by
  refine .of_isAlphanum (isAlphanum_iff.2 ?_)
  simp only [Text.hexDigit?, Char.isDigit, Bool.and_eq_true, decide_eq_true_eq, Char.le_def,
    UInt32.le_iff_toNat_le, ge_iff_le] at h
  simp at h
  split at h
  · omega
  · split at h
    · omega
    · split at h
      · omega
      · cases h

theorem Solid.not_mem (h : Solid c) : c ∉ ['!', '&', '|', ' ', '~'] := by
  obtain ⟨hmark, htilde, hapart⟩ := h
  intro hmem
  simp only [List.mem_cons, List.not_mem_nil, or_false] at hmem
  rcases hmem with rfl | rfl | rfl | rfl | rfl
  · exact hmark (by decide)
  · exact hmark (by decide)
  · exact hmark (by decide)
  · cases hapart
  · exact htilde rfl

/-- The two texts begin with the same character, unless an operator is next. -/
theorem Lowers.head?_cases (h : Lowers before cs out) :
    out.head? = cs.head? ∨
      (∃ c, cs.head? = some c ∧ (c = '!' ∨ c = '&' ∨ c = '|')) ∧
        ∃ d, out.head? = some d ∧ (d = ' ' ∨ d = '~' ∨
          (spaceBefore before = [] ∧ (d = 'a' ∨ d = 'o' ∨ d = 'n'))) := by
  cases h with
  | operator op =>
    refine .inr ?_
    cases op with
    | notEqual => exact ⟨⟨'!', rfl, .inl rfl⟩, '~', rfl, .inr (.inl rfl)⟩
    | word op =>
      rcases spaceBefore_cases before with hb | hb <;> cases op <;>
        simp [Operator.sign, Operator.lua, Operator.element, Element.lua, Element.source,
          WordOp.sign, WordOp.word, hb]
  | _ => exact .inl rfl

theorem Lowers.head?_ne (h : Lowers before cs out) {d : Char} (hd : d ∉ [' ', '~', 'a', 'o', 'n'])
    (hne : cs.head? ≠ some d) : out.head? ≠ some d := by
  simp only [List.mem_cons, List.not_mem_nil, or_false, not_or] at hd
  obtain ⟨hspace, htilde, ha, ho, hn⟩ := hd
  rcases h.head?_cases with h | ⟨-, d', hd', h⟩
  · rwa [h]
  · rw [hd']
    rintro heq
    cases heq
    rcases h with h | h | ⟨-, h | h | h⟩
    · exact hspace h
    · exact htilde h
    · exact ha h
    · exact ho h
    · exact hn h

/-- Behind a character that keeps words away, the two texts agree on whether a solid character of a
kind is next. -/
theorem Lowers.any_head? (h : Lowers before cs out) (hb : spaceBefore before = [' '])
    {p : Char → Bool} (hp : ∀ c, p c = true → Solid c) : out.head?.any p = cs.head?.any p := by
  have hnot {c : Char} (hc : c ∈ ['!', '&', '|', ' ', '~']) : p c = false :=
    Bool.eq_false_iff.2 fun h => (hp c h).not_mem hc
  rcases h.head?_cases with h | ⟨⟨c, hc, hsign⟩, d, hd, hword⟩
  · rw [h]
  · have hcp : p c = false := hnot (by rcases hsign with rfl | rfl | rfl <;> simp)
    have hdp : p d = false := hnot (by rcases hword with rfl | rfl | ⟨hnil, -⟩ <;> simp_all)
    simp [hc, hd, hcp, hdp]

/-! ### Runs of characters -/

theorem span_of_any_head? {p : Char → Bool} (h : cs.head?.any p = false) :
    cs.takeWhile p = [] ∧ cs.dropWhile p = cs := by
  cases cs with
  | nil => exact ⟨rfl, rfl⟩
  | cons c cs =>
    have hc : ¬ p c = true := by simpa using h
    exact ⟨List.takeWhile_cons_of_neg hc, List.dropWhile_cons_of_neg hc⟩

/-- A run of solid characters is the same in both texts. -/
theorem Lowers.span (h : Lowers before cs out) (hb : spaceBefore before = [' ']) {p : Char → Bool}
    (hp : ∀ c, p c = true → Solid c) :
    out.takeWhile p = cs.takeWhile p ∧
      ∃ last, spaceBefore last = [' '] ∧ Lowers last (cs.dropWhile p) (out.dropWhile p) := by
  induction cs generalizing before out with
  | nil =>
    obtain rfl := h.nil_left
    exact ⟨rfl, before, hb, h⟩
  | cons c cs ih =>
    by_cases hc : p c = true
    · obtain ⟨out, rfl, hrest⟩ := h.uncons (hp c hc).unmarked
      obtain ⟨htake, last, hlast, hdrop⟩ := ih hrest (hp c hc).apart
      exact ⟨by simp [hc, htake], last, hlast, by simpa [hc] using hdrop⟩
    · have hcs : (c :: cs).head?.any p = false := by simpa using hc
      have hout := (h.any_head? hb hp).trans hcs
      rw [(span_of_any_head? hcs).1, (span_of_any_head? hcs).2, (span_of_any_head? hout).1,
        (span_of_any_head? hout).2]
      exact ⟨rfl, before, hb, h⟩

theorem equals_solid (c : Char) (hc : (c == '=') = true) : Solid c := by
  obtain rfl := beq_iff_eq.1 hc
  exact .of_toNat (by decide) (by decide) (by decide) (by decide)

/-- A character that stands for itself in a source does so in the translation. -/
theorem Lowers.stands (h : Lowers (some c) cs out) (hs : Stands c cs) : Stands c out where
  quote := hs.quote
  bang := hs.bang
  slash hc := ⟨h.head?_ne (by decide) (hs.slash hc).1, h.head?_ne (by decide) (hs.slash hc).2⟩
  hyphen hc := h.head?_ne (by decide) (hs.hyphen hc)
  ampersand hc := h.head?_ne (by decide) (hs.ampersand hc)
  bar hc := h.head?_ne (by decide) (hs.bar hc)
  bracket hc := by
    subst hc
    obtain ⟨-, last, -, hdrop⟩ := h.span rfl equals_solid
    have hcs := bracketLevel?_eq_none_iff.1 (hs.bracket rfl)
    exact bracketLevel?_eq_none_iff.2 (hdrop.head?_ne (by decide) hcs)

/-- A lead of solid characters stands at the start of both texts, or of neither. -/
theorem Lowers.after? (h : Lowers before cs out) (hb : spaceBefore before = [' '])
    {lead : List Char} (hlead : ∀ c ∈ lead, Solid c) :
    (Text.after? lead cs = none ∧ Text.after? lead out = none) ∨
      ∃ last cs' out', spaceBefore last = [' '] ∧ Text.after? lead cs = some cs' ∧
        Text.after? lead out = some out' ∧ Lowers last cs' out' := by
  induction lead generalizing before cs out with
  | nil => exact .inr ⟨before, cs, out, hb, rfl, rfl, h⟩
  | cons c lead ih =>
    rw [List.forall_mem_cons] at hlead
    have hany := h.any_head? hb (p := (· == c)) fun d hd => by
      rw [beq_iff_eq] at hd
      exact hd ▸ hlead.1
    by_cases hc : cs.head? = some c
    · obtain ⟨tail, rfl⟩ := List.head?_eq_some_iff.1 hc
      obtain ⟨out, rfl, hrest⟩ := h.uncons hlead.1.unmarked
      simpa [Text.after?] using ih hrest hlead.1.apart hlead.2
    · have hnone {text : List Char} (ht : text.head? ≠ some c) :
          Text.after? (c :: lead) text = none := by
        cases text with
        | nil => rfl
        | cons d text =>
          have hd : ¬ c = d := fun hd => ht (by simp [hd])
          simp [Text.after?, hd]
      refine .inl ⟨hnone hc, hnone fun hout => hc ?_⟩
      rw [hout] at hany
      cases hhead : cs.head? with
      | none => simp [hhead] at hany
      | some d =>
        have : d = c := by simpa [hhead] using hany.symm
        rw [this]

/-! ### Numerals -/

section Numerals

variable {mark : Char → Bool}

/-- The characters that a numeral goes on with. -/
def goesOn (mark : Char → Bool) (c : Char) : Bool :=
  mark c || (Text.hexDigit? c).isSome || c == '.'

theorem numeralChars_sign (hc : mark c = true) {s : Char} (hs : s = '+' ∨ s = '-')
    (cs : List Char) :
    numeralChars mark (c :: s :: cs) =
      (c :: s :: (numeralChars mark cs).1, (numeralChars mark cs).2) := by
  rcases hs with rfl | rfl <;> simp [numeralChars, hc]

theorem numeralChars_go (hc : goesOn mark c = true)
    (hs : mark c = true → cs.head? ≠ some '+' ∧ cs.head? ≠ some '-') :
    numeralChars mark (c :: cs) = (c :: (numeralChars mark cs).1, (numeralChars mark cs).2) := by
  by_cases hm : mark c = true
  · cases cs with
    | nil => simp [numeralChars, hm]
    | cons s cs =>
      have hne := hs hm
      simp only [List.head?_cons, ne_eq, Option.some.injEq] at hne
      rw [numeralChars]
      simp [hm, hne]
  · have hdigit : ((Text.hexDigit? c).isSome || c == '.') = true := by
      simpa [goesOn, hm] using hc
    rw [numeralChars.eq_def]
    simp [hm, hdigit]

theorem numeralChars_stop (h : cs.head?.any (goesOn mark) = false) :
    numeralChars mark cs = ([], cs) := by
  cases cs with
  | nil => simp [numeralChars]
  | cons c cs =>
    simp only [List.head?_cons, Option.any_some, goesOn, Bool.or_eq_false_iff] at h
    rw [numeralChars.eq_def]
    simp [h]

/-- How the readings of a numeral in the two texts compare. It is the same numeral, and the rests
are in step, unless the hyphen behind an exponent mark is one of the two that open a comment. -/
inductive SameNumeral : List Char × List Char → List Char × List Char → Prop
  | inStep {taken cs out : List Char} {last : Option Char} : spaceBefore last = [' '] →
      Lowers last cs out → SameNumeral (taken, cs) (taken, out)
  | comment {taken cs out : List Char} :
      SameNumeral (taken ++ ['-'], '-' :: cs) (taken ++ ['-'], '-' :: out)

theorem SameNumeral.append {a b : List Char × List Char} (h : SameNumeral a b) (lead : List Char) :
    SameNumeral (lead ++ a.1, a.2) (lead ++ b.1, b.2) := by
  cases h with
  | inStep hlast h => exact .inStep hlast h
  | @comment taken cs out =>
    rw [← List.append_assoc]
    exact .comment

/-- A hyphen that does not stand for itself opens a comment. -/
theorem Lowers.hyphen (h : Lowers before ('-' :: cs) out) :
    (∃ out', out = '-' :: out' ∧ Lowers (some '-') cs out') ∨
      ∃ cs' out', cs = '-' :: cs' ∧ out = '-' :: '-' :: out' := by
  generalize htext : '-' :: cs = text at h
  cases h with
  | nil => cases htext
  | plain _ hrest =>
    cases htext
    exact .inl ⟨_, rfl, hrest⟩
  | operator op => cases op with
    | notEqual => cases htext
    | word op => cases op <;> cases htext
  | quoted hq => rcases hq with rfl | rfl <;> cases htext
  | note | comment =>
    cases htext
    exact .inr ⟨_, _, rfl, rfl⟩
  | string => cases htext

theorem Lowers.sameNumeral {before : Option Char} {cs out : List Char} (h : Lowers before cs out)
    (hb : spaceBefore before = [' ']) (hp : ∀ c, goesOn mark c = true → Solid c) :
    SameNumeral (numeralChars mark cs) (numeralChars mark out) := by
  by_cases hgo : cs.head?.any (goesOn mark) = true
  · obtain ⟨c, cs, rfl⟩ : ∃ c tail, cs = c :: tail := by
      cases cs with
      | nil => cases hgo
      | cons c tail => exact ⟨c, tail, rfl⟩
    have hc : goesOn mark c = true := hgo
    obtain ⟨out, rfl, hrest⟩ := h.uncons (hp c hc).unmarked
    by_cases hsign : mark c = true ∧ (cs.head? = some '+' ∨ cs.head? = some '-')
    · obtain ⟨hm, hplus | hminus⟩ := hsign
      · obtain ⟨cs, rfl⟩ := List.head?_eq_some_iff.1 hplus
        obtain ⟨out, rfl, hnext⟩ := hrest.uncons (by decide)
        rw [numeralChars_sign hm (.inl rfl), numeralChars_sign hm (.inl rfl)]
        exact (hnext.sameNumeral rfl hp).append [c, '+']
      · obtain ⟨cs, rfl⟩ := List.head?_eq_some_iff.1 hminus
        rcases hrest.hyphen with ⟨out, rfl, hnext⟩ | ⟨cs, out, rfl, rfl⟩
        · rw [numeralChars_sign hm (.inr rfl), numeralChars_sign hm (.inr rfl)]
          exact (hnext.sameNumeral rfl hp).append [c, '-']
        · have hstop (text : List Char) : numeralChars mark ('-' :: text) = ([], '-' :: text) := by
            refine numeralChars_stop (Bool.eq_false_iff.2 fun hgo => ?_)
            exact (hp '-' hgo).unmarked (by decide)
          rw [numeralChars_sign hm (.inr rfl), numeralChars_sign hm (.inr rfl), hstop, hstop]
          exact @SameNumeral.comment [c] _ _
    · have hne : mark c = true → cs.head? ≠ some '+' ∧ cs.head? ≠ some '-' := fun hm =>
        ⟨fun h => hsign ⟨hm, .inl h⟩, fun h => hsign ⟨hm, .inr h⟩⟩
      have hne' : mark c = true → out.head? ≠ some '+' ∧ out.head? ≠ some '-' := fun hm =>
        ⟨hrest.head?_ne (by decide) (hne hm).1, hrest.head?_ne (by decide) (hne hm).2⟩
      rw [numeralChars_go hc hne, numeralChars_go hc hne']
      exact (hrest.sameNumeral (hp c hc).apart hp).append [c]
  · rw [Bool.not_eq_true] at hgo
    have hout := (h.any_head? hb hp).trans hgo
    rw [numeralChars_stop hgo, numeralChars_stop hout]
    exact .inStep hb h
termination_by cs.length

end Numerals

end ScriptHost.Compile.Slang
