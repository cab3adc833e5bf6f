import ScriptHost.Proofs.Lua.Numeral
import ScriptHost.Proofs.Lua.Pieces
import ScriptHost.Proofs.Slang.QuotedString
import ScriptHost.Proofs.Slang.Scanning

/-! The tokens of a source and of its translation. -/

namespace ScriptHost.Compile.Slang

open Lua (LexError Lexeme isSpace)
open Lua.Lexer

variable {before : Option Char} {c : Char} {cs out : List Char} {line : Nat}

/-- Two readings with the same result, or the same error. What they leave is in step. -/
inductive InStep {α : Type} :
    Except LexError (α × List Char) → Except LexError (α × List Char) → Prop
  | error (e : LexError) : InStep (.error e) (.error e)
  | ok (a : α) {last : Option Char} {cs out : List Char} : Lowers last cs out →
      InStep (.ok (a, cs)) (.ok (a, out))

/-! ### Tokens of plain characters -/

/-- The first of some texts that both texts begin with is the same. -/
theorem Lowers.firstM {α : Type} (h : Lowers (some c) cs out) (hc : spaceBefore (some c) = [' '])
    (text : α → List Char) (l : List α)
    (hl : ∀ a ∈ l, ∃ d tail, text a = d :: tail ∧ ∀ x ∈ tail, Solid x) :
    let find (cs : List Char) := l.firstM fun a => (Text.after? (text a) (c :: cs)).map (a, ·)
    (find cs = none ∧ find out = none) ∨
      ∃ a last cs' out', spaceBefore last = [' '] ∧ find cs = some (a, cs') ∧
        find out = some (a, out') ∧ Lowers last cs' out' := by
  induction l with
  | nil => exact .inl ⟨rfl, rfl⟩
  | cons a l ih =>
    rw [List.forall_mem_cons] at hl
    obtain ⟨⟨d, tail, htext, htail⟩, hl⟩ := hl
    by_cases hd : d = c
    · subst hd
      rcases h.after? hc htail with ⟨hnone, hnone'⟩ | ⟨last, cs', out', hlast, hsome, hsome', hrest⟩
      · simpa [htext, Text.after?, hnone, hnone'] using ih hl
      · exact .inr ⟨a, last, cs', out', hlast, by simp [htext, Text.after?, hsome],
          by simp [htext, Text.after?, hsome'], hrest⟩
    · simpa [htext, Text.after?, hd] using ih hl

theorem numeralToken_apart (hcs : cs.head?.any isNameStart = false) (line : Nat)
    (taken : List Char) : numeralToken line taken cs = numeralOf line taken cs := by
  cases cs with
  | nil => rfl
  | cons c cs =>
    have hc : ¬ isNameStart c = true := Bool.eq_false_iff.1 hcs
    rw [numeralToken, if_neg hc]

theorem numeralOf_inStep (h : Lowers before cs out) (line : Nat) (spelling : List Char) :
    InStep (numeralOf line spelling cs) (numeralOf line spelling out) := by
  unfold numeralOf
  cases Lua.Number.parse? spelling with
  | none => exact .error _
  | some n => exact .ok _ h

theorem numeralToken_inStep (h : Lowers before cs out) (hb : spaceBefore before = [' '])
    (line : Nat) (taken : List Char) :
    InStep (numeralToken line taken cs) (numeralToken line taken out) := by
  have hsolid (c : Char) (hc : isNameStart c = true) : Solid c :=
    .of_isNameChar (isNameChar_of_isNameStart hc)
  by_cases hstart : cs.head?.any isNameStart = true
  · cases cs with
    | nil => cases hstart
    | cons c cs =>
      have hc : isNameStart c = true := hstart
      obtain ⟨out, rfl, hrest⟩ := h.uncons (hsolid c hc).unmarked
      rw [numeralToken, if_pos hc, numeralToken, if_pos hc]
      exact numeralOf_inStep hrest line (taken ++ [c])
  · rw [Bool.not_eq_true] at hstart
    rw [numeralToken_apart hstart, numeralToken_apart ((h.any_head? hb hsolid).trans hstart)]
    exact numeralOf_inStep h line taken

/-- A numeral that takes the first hyphen of a comment along is malformed. -/
theorem numeralToken_comment (line : Nat) (lead taken cs out : List Char) :
    InStep (numeralToken line (lead ++ (taken ++ ['-'])) ('-' :: cs))
      (numeralToken line (lead ++ (taken ++ ['-'])) ('-' :: out)) := by
  rw [numeralToken_apart rfl, numeralToken_apart rfl, ← List.append_assoc, numeralOf, numeralOf,
    Lua.parse?_hyphen]
  exact .error _

theorem goesOn_solid {hex : Bool} (h : goesOn (exponentMark hex) c = true) : Solid c := by
  simp only [goesOn, exponentMark, Bool.or_eq_true, beq_iff_eq] at h
  rcases h with (h | h) | rfl
  · cases hex <;> simp at h <;> rcases h with rfl | rfl <;> exact .of_isAlphanum (by decide)
  · exact .of_hexDigit? h
  · exact .of_toNat (by decide) (by decide) (by decide) (by decide)

theorem hexLeads_solid :
    ∀ lead ∈ hexLeads, ∃ d tail, id lead = d :: tail ∧ ∀ x ∈ tail, Solid x := by
  intro lead hlead
  simp only [hexLeads, List.mem_cons, List.not_mem_nil, or_false] at hlead
  have hx : Solid 'x' := .of_isAlphanum (by decide)
  have hX : Solid 'X' := .of_isAlphanum (by decide)
  have h0 : Solid '0' := .of_isAlphanum (by decide)
  rcases hlead with rfl | rfl | rfl | rfl <;> exact ⟨_, _, rfl, by simp [hx, hX, h0]⟩

theorem numeral_inStep (h : Lowers (some c) cs out) (hc : Solid c) (line : Nat) :
    InStep (numeral line (c :: cs)) (numeral line (c :: out)) := by
  -- Behind what stands before its digits, the rest of a numeral is read in the same way.
  have hread {last : Option Char} {cs out : List Char} (h : Lowers last cs out)
      (hlast : spaceBefore last = [' ']) (hex : Bool) (start : List Char) :
      InStep (numeralToken line (start ++ (numeralChars (exponentMark hex) cs).1)
          (numeralChars (exponentMark hex) cs).2)
        (numeralToken line (start ++ (numeralChars (exponentMark hex) out).1)
          (numeralChars (exponentMark hex) out).2) := by
    have hsame := h.sameNumeral hlast fun c (hc : goesOn (exponentMark hex) c = true) =>
      goesOn_solid hc
    generalize numeralChars (exponentMark hex) cs = a at hsame ⊢
    generalize numeralChars (exponentMark hex) out = b at hsame ⊢
    cases hsame with
    | inStep hlast h => exact numeralToken_inStep h hlast line _
    | comment => exact numeralToken_comment line start _ _ _
  rcases h.firstM hc.apart id hexLeads hexLeads_solid with
    ⟨hnone, hnone'⟩ | ⟨lead, last, cs', out', hlast, hsome, hsome', hrest⟩
  · have hwhole : Lowers (some c) (c :: cs) (c :: out) :=
      .plain (.of_not_mem hc.unmarked cs) h
    simp only [id_eq] at hnone hnone'
    simp only [numeral, hnone, hnone', Option.getD_none]
    exact hread hwhole hc.apart _ []
  · simp only [id_eq] at hsome hsome'
    simp only [numeral, hsome, hsome', Option.getD_some]
    exact hread hrest hlast _ lead

/-- Signs are made of solid characters behind their first one, but for two slashes. -/
theorem signs_solid {s : Lua.Sign} (hs : s ∈ signs c) (hc : c ≠ '/') :
    ∃ d tail, s.text.toList = d :: tail ∧ ∀ x ∈ tail, Solid x := by
  have hslash : s ≠ .floorDivide := by
    rintro rfl
    unfold signs at hs
    split at hs <;> simp_all
  have htext : s.text.toList ≠ [] ∧
      s.text.toList.tail.all (['.', '=', '>', '<', ':'].contains ·) = true := by
    cases s <;> first | exact absurd rfl hslash | decide
  obtain ⟨d, tail, htail⟩ := List.exists_cons_of_ne_nil htext.1
  refine ⟨d, tail, htail, fun x hx => ?_⟩
  have hmem := List.all_eq_true.1 htext.2 x (by rwa [htail])
  simp only [List.contains_iff_mem, List.mem_cons, List.not_mem_nil, or_false] at hmem
  rcases hmem with rfl | rfl | rfl | rfl | rfl <;>
    exact .of_toNat (by decide) (by decide) (by decide) (by decide)

theorem sign?_slash (h : cs.head? ≠ some '/') : sign? '/' cs = none := by
  cases cs with
  | nil => rfl
  | cons c cs =>
    have hnone : Text.after? Lua.Sign.floorDivide.text.toList ('/' :: c :: cs) = none := by
      have hc : ¬ '/' = c := fun hc => h (by simp [← hc])
      simp [Lua.Sign.text, Text.after?, hc]
    simp only [sign?, signs, List.firstM, hnone, Option.map_none]
    rfl

/-- The two texts begin with the same sign behind a plain character, or with none. -/
theorem Lowers.sign? (h : Lowers (some c) cs out) (hs : Stands c cs)
    (hc : spaceBefore (some c) = [' ']) :
    (sign? c cs = none ∧ sign? c out = none) ∨
      ∃ s last cs' out', sign? c cs = some (s, cs') ∧ sign? c out = some (s, out') ∧
        Lowers last cs' out' := by
  by_cases hslash : c = '/'
  · subst hslash
    exact .inl ⟨sign?_slash (hs.slash rfl).1, sign?_slash ((h.stands hs).slash rfl).1⟩
  · rcases h.firstM hc (fun s => s.text.toList) (signs c) (fun s hs => signs_solid hs hslash) with
      h | ⟨s, last, cs', out', -, h⟩
    · exact .inl h
    · exact .inr ⟨s, last, cs', out', h⟩

theorem bracketToken_of_stands (hs : Stands '[' cs) (line : Nat) :
    bracketToken line cs = if (cs.takeWhile (· == '=')).length == 0 then
        .ok (⟨.char '[', line, .empty⟩, cs)
      else .error ⟨"invalid long string delimiter", line, .ofString
        ("'[" ++ String.ofList (List.replicate (cs.takeWhile (· == '=')).length '=') ++ "'")⟩ := by
  have hcs := bracketLevel?_eq_none_iff.1 (hs.bracket rfl)
  unfold bracketToken
  simp only [equalsSigns]
  split
  · rename_i hdrop
    exact absurd (by rw [hdrop]; rfl) hcs
  · rfl

theorem bracketToken_inStep (hs : Stands '[' cs) (h : Lowers (some '[') cs out) (line : Nat) :
    InStep (bracketToken line cs) (bracketToken line out) := by
  obtain ⟨htake, -⟩ := h.span rfl equals_solid
  rw [bracketToken_of_stands hs, bracketToken_of_stands (h.stands hs), htake]
  split
  · exact .ok _ h
  · exact .error _

theorem spaceBefore_of_signs (h : signs c ≠ []) : spaceBefore (some c) = [' '] := by
  unfold signs at h
  split at h
  case h_8 => exact absurd rfl h
  all_goals rfl

theorem signToken_inStep (h : Lowers (some c) cs out) (hs : Stands c cs) (line : Nat) :
    InStep (.ok (signToken line c cs)) (.ok (signToken line c out)) := by
  by_cases hsigns : signs c = []
  · have hnone (text : List Char) : sign? c text = none := by
      rw [sign?, hsigns]
      rfl
    simpa only [signToken, hnone] using .ok _ h
  · rcases h.sign? hs (spaceBefore_of_signs hsigns) with
      ⟨hnone, hnone'⟩ | ⟨s, last, cs', out', hsome, hsome', hrest⟩
    · simpa only [signToken, hnone, hnone'] using .ok _ h
    · simpa only [signToken, hsome, hsome'] using .ok _ hrest

theorem word_inStep (h : Lowers (some c) cs out) (hc : isNameStart c = true) (line : Nat) :
    InStep
      (.ok (wordLexeme line (String.ofList (c :: cs.takeWhile isNameChar)),
        cs.dropWhile isNameChar))
      (.ok (wordLexeme line (String.ofList (c :: out.takeWhile isNameChar)),
        out.dropWhile isNameChar)) := by
  have hsolid : Solid c := .of_isNameChar (isNameChar_of_isNameStart hc)
  obtain ⟨htake, last, -, hdrop⟩ := h.span (p := isNameChar) hsolid.apart fun _ => .of_isNameChar
  rw [htake]
  exact .ok _ hdrop

/-- A plain character begins the same token in both texts. -/
theorem digit_or_point {b : Bool} (h : (c.isDigit || (c == '.' && b)) = true) :
    c = '.' ∨ c.isDigit = true := by
  rcases Bool.or_eq_true_iff.1 h with hc | hc
  · exact .inr hc
  · exact .inl (beq_iff_eq.1 (Bool.and_eq_true_iff.1 hc).1)

theorem token_inStep (hs : Stands c cs) (h : Lowers (some c) cs out) (fuel fuel' line : Nat) :
    InStep (token fuel line c cs) (token fuel' line c out) := by
  have hquote : ¬ (c == '"' || c == '\'') = true := by simp [hs.quote]
  have hdigit (d : Char) (hd : d.isDigit = true) : Solid d :=
    .of_isAlphanum (by simp [Char.isAlphanum, hd])
  have hpoint : (c == '.' && out.head?.any Char.isDigit) =
      (c == '.' && cs.head?.any Char.isDigit) := by
    by_cases hc : c = '.'
    · subst hc
      rw [h.any_head? (by rfl) hdigit]
    · rw [beq_eq_false_iff_ne.2 hc, Bool.false_and, Bool.false_and]
  unfold token
  rw [if_neg hquote, if_neg hquote, hpoint]
  by_cases hbracket : (c == '[') = true
  · obtain rfl := beq_iff_eq.1 hbracket
    exact bracketToken_inStep hs h line
  rw [if_neg hbracket, if_neg hbracket]
  by_cases hnum : (c.isDigit || (c == '.' && cs.head?.any Char.isDigit)) = true
  · have hsolid : Solid c := by
      rcases digit_or_point hnum with rfl | hc
      · exact .of_toNat (by decide) (by decide) (by decide) (by decide)
      · exact hdigit c hc
    rw [if_pos hnum, if_pos hnum]
    exact numeral_inStep h hsolid line
  rw [if_neg hnum, if_neg hnum]
  by_cases hname : isNameStart c = true
  · rw [if_pos hname, if_pos hname]
    exact word_inStep h hname line
  rw [if_neg hname, if_neg hname]
  exact signToken_inStep h hs line

/-! ### What a token leaves -/

theorem length_after? {lead rest : List Char} (h : Text.after? lead cs = some rest) :
    lead.length + rest.length = cs.length := by
  rw [Text.after?_eq_some_iff.1 h, List.length_append]

theorem exists_of_firstM {α β : Type} {f : α → Option β} {l : List α} {b : β}
    (h : l.firstM f = some b) : ∃ a ∈ l, f a = some b := by
  induction l with
  | nil => cases h
  | cons a l ih =>
    cases ha : f a with
    | some b' =>
      rw [List.firstM, ha] at h
      cases h
      exact ⟨a, List.mem_cons_self, ha⟩
    | none =>
      rw [List.firstM, ha] at h
      obtain ⟨a', ha', hf⟩ := ih h
      exact ⟨a', List.mem_cons_of_mem _ ha', hf⟩

theorem length_signToken {l : Lexeme} {rest : List Char} (h : signToken line c cs = (l, rest)) :
    rest.length ≤ cs.length := by
  unfold signToken at h
  split at h
  · rename_i s rest' hsign
    cases h
    obtain ⟨s', -, hafter⟩ := exists_of_firstM hsign
    obtain ⟨rest', hrest, heq⟩ := Option.map_eq_some_iff.1 hafter
    cases heq
    have hlen := length_after? hrest
    have htext : 0 < s.text.toList.length := by cases s <;> decide
    rw [List.length_cons] at hlen
    omega
  · cases h
    exact Nat.le_refl _

theorem length_numeralChars (mark : Char → Bool) (cs : List Char) :
    (numeralChars mark cs).2.length ≤ cs.length := by
  fun_induction numeralChars mark cs <;> simp_all <;> omega

theorem length_numeralToken {taken rest : List Char} {l : Lexeme}
    (h : numeralToken line taken cs = .ok (l, rest)) : rest.length ≤ cs.length := by
  have hof {taken cs : List Char} (h : numeralOf line taken cs = .ok (l, rest)) : rest = cs := by
    unfold numeralOf at h
    split at h
    · cases h
      rfl
    · cases h
  unfold numeralToken at h
  split at h
  · split at h
    · exact Nat.le_succ_of_le (Nat.le_of_eq (congrArg List.length (hof h)))
    · exact Nat.le_of_eq (congrArg List.length (hof h))
  · exact Nat.le_of_eq (congrArg List.length (hof h))

theorem length_numeralChars_cons {mark : Char → Bool} (hc : goesOn mark c = true) (cs : List Char) :
    (numeralChars mark (c :: cs)).2.length ≤ cs.length := by
  have hsign {s : Char} (hm : mark c = true) (hs : s = '+' ∨ s = '-') (cs : List Char) :
      (numeralChars mark (c :: s :: cs)).2.length ≤ (s :: cs).length := by
    rw [numeralChars_sign hm hs]
    exact Nat.le_succ_of_le (length_numeralChars mark cs)
  by_cases hsigned : mark c = true ∧ (cs.head? = some '+' ∨ cs.head? = some '-')
  · obtain ⟨hm, h | h⟩ := hsigned <;> obtain ⟨cs, rfl⟩ := List.head?_eq_some_iff.1 h
    · exact hsign hm (.inl rfl) cs
    · exact hsign hm (.inr rfl) cs
  · rw [numeralChars_go hc fun hm => ⟨fun h => hsigned ⟨hm, .inl h⟩, fun h => hsigned ⟨hm, .inr h⟩⟩]
    exact length_numeralChars mark cs

theorem length_numeral {rest : List Char} {l : Lexeme} (hc : c = '.' ∨ c.isDigit = true)
    (h : numeral line (c :: cs) = .ok (l, rest)) : rest.length ≤ cs.length := by
  have hgo (hex : Bool) : goesOn (exponentMark hex) c = true := by
    rcases hc with rfl | hc
    · simp [goesOn]
    · simp [goesOn, Text.hexDigit?, hc]
  unfold numeral at h
  cases hlead : hexLeads.firstM fun lead => (Text.after? lead (c :: cs)).map (lead, ·) with
  | none =>
    rw [hlead] at h
    exact Nat.le_trans (length_numeralToken h) (length_numeralChars_cons (hgo _) cs)
  | some found =>
    rw [hlead] at h
    obtain ⟨lead, hmem, hafter⟩ := exists_of_firstM hlead
    obtain ⟨after, hrest, rfl⟩ := Option.map_eq_some_iff.1 hafter
    have hlen := length_after? hrest
    have hpos : 0 < lead.length := by
      obtain ⟨d, tail, htail, -⟩ := hexLeads_solid lead hmem
      rw [show lead = d :: tail from htail]
      exact Nat.succ_pos _
    have htoken := length_numeralToken h
    have hchars := length_numeralChars (exponentMark true) after
    simp only [Option.isSome_some] at htoken
    rw [List.length_cons] at hlen
    omega

theorem length_token {l : Lexeme} {rest : List Char} {fuel : Nat} (hs : Stands c cs)
    (h : token fuel line c cs = .ok (l, rest)) : rest.length ≤ cs.length := by
  have hquote : ¬ (c == '"' || c == '\'') = true := by simp [hs.quote]
  unfold token at h
  rw [if_neg hquote] at h
  split at h
  · obtain rfl := beq_iff_eq.1 ‹(c == '[') = true›
    rw [bracketToken_of_stands hs] at h
    split at h
    · cases h
      exact Nat.le_refl _
    · cases h
  split at h
  · rename_i hnum
    exact length_numeral (digit_or_point hnum) h
  split at h
  · cases h
    exact (List.dropWhile_suffix isNameChar).length_le
  · exact length_signToken (Except.ok.inj h)

end ScriptHost.Compile.Slang
