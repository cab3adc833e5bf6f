import ScriptHost.Lua.Number

/-! Spellings of numbers. None ends with a character that is no digit of it: behind a sign or the mark of
an exponent digits stand. -/

namespace ScriptHost.Lua

variable {x : Char} {cs : List Char}

/-- A text is empty or ends with the character. -/
def EndsOpen (x : Char) (cs : List Char) : Prop := cs = [] ∨ ∃ lead, cs = lead ++ [x]

theorem EndsOpen.tail {c : Char} (h : EndsOpen x (c :: cs)) : EndsOpen x cs := by
  rcases h with h | ⟨lead, h⟩
  · cases h
  · cases lead with
    | nil => exact .inl (List.cons.inj h).2
    | cons d lead => exact .inr ⟨lead, (List.cons.inj h).2⟩

theorem EndsOpen.natOf?_eq_none (h : EndsOpen x cs) (digit : Char → Option Nat) (base : Nat)
    (hx : digit x = none) : Text.natOf? digit base cs = none := by
  rcases h with rfl | ⟨lead, rfl⟩
  · rfl
  · rw [Text.natOf?]
    · rw [List.foldl_append, List.foldl_cons, hx]
      cases lead.foldl _ (some 0) <;> rfl
    · simp

theorem EndsOpen.numeralSign (h : EndsOpen x cs) : EndsOpen x (numeralSign cs).2 := by
  unfold Lua.numeralSign
  split
  · exact h.tail
  · exact h.tail
  · exact h

theorem EndsOpen.sign (h : EndsOpen x cs) : EndsOpen x (Decimal.sign cs).2 := by
  unfold Decimal.sign
  split
  · exact h.tail
  · exact h.tail
  · exact h

theorem digit?_eq_none (h : Text.hexDigit? x = none) : Text.digit? x = none := by
  unfold Text.hexDigit? at h
  unfold Text.digit?
  split at h
  · cases h
  · rw [if_neg ‹_›]

theorem isDigit_eq_false (h : Text.digit? x = none) : x.isDigit = false := by
  simpa [Text.digit?] using h

/-- Dropping characters of another kind leaves the last character. -/
theorem dropWhile_open {p : Char → Bool} (hp : p x = false) (lead : List Char) :
    ∃ lead', (lead ++ [x]).dropWhile p = lead' ++ [x] := by
  induction lead with
  | nil => exact ⟨[], by simp [hp]⟩
  | cons c lead ih =>
    by_cases hc : p c = true
    · simpa [hc] using ih
    · exact ⟨c :: lead, by simp [hc]⟩

theorem binaryExponent?_open (hx : Text.digit? x = none) (lead : List Char) :
    binaryExponent? (lead ++ [x]) = none := by
  have hopen : EndsOpen x (lead ++ [x]) := .inr ⟨lead, rfl⟩
  generalize hcs : lead ++ [x] = cs at hopen
  cases cs with
  | nil => simp at hcs
  | cons c cs =>
    rw [binaryExponent?]
    split
    · simp [hopen.tail.numeralSign.natOf?_eq_none Text.digit? 10 hx]
    · rfl

theorem exponent?_open (hx : Text.digit? x = none) (lead : List Char) :
    Decimal.exponent? (lead ++ [x]) = none := by
  have hopen : EndsOpen x (lead ++ [x]) := .inr ⟨lead, rfl⟩
  generalize hcs : lead ++ [x] = cs at hopen
  cases cs with
  | nil => simp at hcs
  | cons c cs =>
    rw [Decimal.exponent?]
    split
    · simp [hopen.tail.sign.natOf?_eq_none Text.digit? 10 hx]
    · rfl

theorem hexFloat?_open (hx : Text.hexDigit? x = none) (hpoint : x ≠ '.') (lead : List Char) :
    hexFloat? (lead ++ [x]) = none := by
  have hp : (Text.hexDigit? x).isSome = false := by rw [hx]; rfl
  have hdigit := digit?_eq_none hx
  obtain ⟨rest, hrest⟩ := dropWhile_open (p := fun c => (Text.hexDigit? c).isSome) hp lead
  rw [hexFloat?, hrest]
  cases rest with
  | nil => simpa [hpoint] using fun _ => binaryExponent?_open hdigit []
  | cons c rest =>
    by_cases hc : c = '.'
    · subst hc
      obtain ⟨rest', hrest'⟩ := dropWhile_open (p := fun c => (Text.hexDigit? c).isSome) hp rest
      simp [hrest', binaryExponent?_open hdigit]
    · have hexponent := binaryExponent?_open hdigit (c :: rest)
      simp [hc] at hexponent ⊢
      simp [hexponent]

theorem EndsOpen.hexFloat?_eq_none (h : EndsOpen x cs) (hx : Text.hexDigit? x = none)
    (hpoint : x ≠ '.') : hexFloat? cs = none := by
  rcases h with rfl | ⟨lead, rfl⟩
  · rfl
  · exact hexFloat?_open hx hpoint lead

theorem EndsOpen.ofChars?_eq_none (h : EndsOpen x cs) (hx : Text.digit? x = none)
    (hpoint : x ≠ '.') : Decimal.Spelling.ofChars? cs = none := by
  have hsign := h.sign
  have hp := isDigit_eq_false hx
  obtain ⟨⟨negative, digits⟩, hcs⟩ : ∃ s, Decimal.sign cs = s := ⟨_, rfl⟩
  rw [hcs] at hsign
  change EndsOpen x digits at hsign
  rw [Decimal.Spelling.ofChars?, hcs]
  rcases hsign with rfl | ⟨lead, rfl⟩
  · rfl
  · obtain ⟨rest, hrest⟩ := dropWhile_open (p := Char.isDigit) hp lead
    simp only [hrest]
    cases rest with
    | nil => simpa [hpoint] using fun _ => exponent?_open hx []
    | cons c rest =>
      by_cases hc : c = '.'
      · subst hc
        obtain ⟨rest', hrest'⟩ := dropWhile_open (p := Char.isDigit) hp rest
        simp [hrest', exponent?_open hx]
      · have hexponent := exponent?_open hx (c :: rest)
        simp [hc] at hexponent ⊢
        simp [hexponent]

theorem EndsOpen.floatNumeral?_eq_none (h : EndsOpen x cs) (hx : Text.hexDigit? x = none)
    (hpoint : x ≠ '.') : floatNumeral? cs = none := by
  unfold floatNumeral?
  split
  · exact h.tail.tail.hexFloat?_eq_none hx hpoint
  · exact h.tail.tail.hexFloat?_eq_none hx hpoint
  · split
    · rw [h.ofChars?_eq_none (digit?_eq_none hx) hpoint]
      rfl
    · rfl
  · rfl

theorem EndsOpen.integerNumeral?_eq_none (h : EndsOpen x cs) (hx : Text.hexDigit? x = none)
    (negative : Bool) : integerNumeral? negative cs = none := by
  unfold integerNumeral?
  split
  · rw [h.tail.tail.natOf?_eq_none _ _ hx]
    rfl
  · rw [h.tail.tail.natOf?_eq_none _ _ hx]
    rfl
  · rw [h.natOf?_eq_none _ _ (digit?_eq_none hx)]
    rfl

/-- A numeral that ends with a character that is no digit is malformed. -/
theorem parse?_open (hx : Text.hexDigit? x = none) (hpoint : x ≠ '.') (hspace : isSpace x = false)
    (lead : List Char) : Number.parse? (lead ++ [x]) = none := by
  obtain ⟨rest, hrest⟩ := dropWhile_open (p := isSpace) hspace lead
  have htrim : (((lead ++ [x]).dropWhile isSpace).reverse.dropWhile isSpace).reverse =
      rest ++ [x] := by
    simp [hrest, hspace]
  have hopen : EndsOpen x (Lua.numeralSign (rest ++ [x])).2 :=
    EndsOpen.numeralSign (.inr ⟨rest, rfl⟩)
  simp [Number.parse?, htrim, hopen.integerNumeral?_eq_none hx,
    hopen.floatNumeral?_eq_none hx hpoint]

/-- A numeral that ends with a hyphen is malformed. -/
theorem parse?_hyphen (lead : List Char) : Number.parse? (lead ++ ['-']) = none :=
  parse?_open rfl (by decide) rfl lead

/-- A decimal numeral that ends with a letter is malformed, also if the letter is a hexadecimal
digit. -/
theorem parse?_decimal_open {c : Char} {tail lead : List Char} (hc : c.isDigit = true ∨ c = '.')
    (hhex : c = '0' → tail.head? ≠ some 'x' ∧ tail.head? ≠ some 'X')
    (hx : Text.digit? x = none) (hpoint : x ≠ '.') (hspace : isSpace x = false)
    (h : c :: tail = lead ++ [x]) : Number.parse? (c :: tail) = none := by
  have hne {d : Char} (hd : d.isDigit = false) (hd' : d ≠ '.') : c ≠ d := by
    rintro rfl
    exact hc.elim (fun hc => by cases hd.symm.trans hc) hd'
  have hfirst : isSpace c = false := by
    simp [isSpace, hne (d := ' ') rfl, hne (d := '\t') rfl, hne (d := '\n') rfl,
      hne (d := '\r') rfl, hne (d := '\x0b') rfl, hne (d := '\x0c') rfl]
  have htrim : (((c :: tail).dropWhile isSpace).reverse.dropWhile isSpace).reverse = c :: tail := by
    rw [List.dropWhile_cons_of_neg (by simp [hfirst]), h]
    simp [hspace]
  have hsign : Lua.numeralSign (c :: tail) = (false, c :: tail) := by
    unfold Lua.numeralSign
    split
    · exact absurd (List.cons.inj ‹_›).1 (hne rfl (by decide))
    · exact absurd (List.cons.inj ‹_›).1 (hne rfl (by decide))
    · rfl
  have hopen : EndsOpen x (c :: tail) := .inr ⟨lead, h⟩
  have hinteger : integerNumeral? false (c :: tail) = none := by
    unfold integerNumeral?
    split
    · cases ‹c :: tail = _›
      exact absurd rfl (hhex rfl).1
    · cases ‹c :: tail = _›
      exact absurd rfl (hhex rfl).2
    · rw [hopen.natOf?_eq_none _ _ hx]
      rfl
  have hfloat : floatNumeral? (c :: tail) = none := by
    unfold floatNumeral?
    split
    · cases ‹c :: tail = _›
      exact absurd rfl (hhex rfl).1
    · cases ‹c :: tail = _›
      exact absurd rfl (hhex rfl).2
    · rw [hopen.ofChars?_eq_none hx hpoint]
      split <;> rfl
    · rfl
  simp only [Number.parse?, htrim, hsign, hinteger, hfloat, Option.map_none]

end ScriptHost.Lua
