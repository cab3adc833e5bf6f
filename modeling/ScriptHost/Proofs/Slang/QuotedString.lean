import ScriptHost.Lua.Lexer
import ScriptHost.Proofs.Slang.Elements

/-! Quoted strings as Lua reads them. Whatever escapes stand in a string, Lua does not look behind
the first quote that no backslash escapes: the string is read up to it, or refused, in the same way
before any rest. -/

namespace ScriptHost.Lua.Lexer

open Compile.Slang (Quotable)

variable {quote c : Char} {inside : List Char} {line : Nat} {seen : List UInt8}

/-- What may stand between two quotes of Lua: the quote itself only behind a backslash. -/
inductive Guarded (quote : Char) : List Char → Prop
  | nil : Guarded quote []
  | escaped {cs : List Char} (c : Char) : Guarded quote cs → Guarded quote ('\\' :: c :: cs)
  | char {c : Char} {cs : List Char} : c ≠ '\\' → c ≠ quote → Guarded quote cs →
      Guarded quote (c :: cs)

theorem guarded_of_quotable (h : Quotable quote inside) : Guarded quote inside := by
  induction h with
  | nil => exact .nil
  | escaped c _ ih => exact .escaped c ih
  | char _ hb hc _ ih => exact .char hb hc ih

theorem Guarded.tail (h : Guarded quote (c :: inside)) (hc : c ≠ '\\') :
    Guarded quote inside := by
  cases h with
  | escaped => exact absurd rfl hc
  | char _ _ h => exact h

/-- The quote that ends a string is the first that no backslash escapes. -/
theorem Guarded.det {inside' rest rest' : List Char} (h : Guarded quote inside)
    (h' : Guarded quote inside') (hq : quote ≠ '\\')
    (heq : inside ++ quote :: rest = inside' ++ quote :: rest') : inside = inside' := by
  induction h generalizing inside' with
  | nil =>
    cases h' with
    | nil => rfl
    | escaped => exact absurd (List.cons.inj heq).1 hq
    | char _ hne => exact absurd (List.cons.inj heq).1.symm hne
  | escaped c _ ih =>
    cases h' with
    | nil => exact absurd (List.cons.inj heq).1.symm hq
    | escaped c' h' =>
      obtain ⟨rfl, htail⟩ := List.cons.inj (List.cons.inj heq).2
      rw [ih h' htail]
    | char hne => exact absurd (List.cons.inj heq).1.symm hne
  | char hback hne _ ih =>
    cases h' with
    | nil => exact absurd (List.cons.inj heq).1 hne
    | escaped => exact absurd (List.cons.inj heq).1 hback
    | char _ _ h' =>
      obtain ⟨rfl, htail⟩ := List.cons.inj heq
      rw [ih h' htail]

/-- A place in a string, with what is left of its inside, and what follows its quote. -/
def within (quote : Char) (inside : List Char) (line : Nat) (seen : List UInt8)
    (rest : List Char) : Cursor := ⟨inside ++ quote :: rest, line, seen⟩

/-- A reading in a string: what follows the quote has no say in it and is left as it is. It ends in
an error, or with at most `n` characters left before the quote. -/
inductive Confined {α : Type} (quote : Char) (n : Nat)
    (read : List Char → Except LexError (α × Cursor)) : Prop
  | error (e : LexError) : (∀ rest, read rest = .error e) → Confined quote n read
  | ok (a : α) (inside : List Char) (line : Nat) (seen : List UInt8) : Guarded quote inside →
      inside.length ≤ n → (∀ rest, read rest = .ok (a, within quote inside line seen rest)) →
      Confined quote n read

theorem failEscape_within {α : Type} (quote : Char) (inside : List Char) (line : Nat)
    (seen : List UInt8) (message : String) :
    ∃ e, ∀ rest, (within quote inside line seen rest).failEscape message =
      (.error e : Except LexError α) := by
  -- The message names the text read so far and one character more, which may be the quote.
  refine ⟨⟨message, line, .ofString "'" ++
    (Bytes.ofList (Cursor.encode (inside.headD quote) ++ seen).reverse).untilZero ++
      .ofString "'"⟩, fun rest => ?_⟩
  cases inside <;> rfl

theorem save_within (quote c : Char) (inside : List Char) (line : Nat) (seen : List UInt8)
    (rest : List Char) :
    (within quote (c :: inside) line seen rest).save =
      within quote inside line (Cursor.encode c ++ seen) rest := rfl

theorem hexDigit?_quote (hq : quote = '"' ∨ quote = '\'') : Text.hexDigit? quote = none := by
  rcases hq with rfl | rfl <;> rfl

theorem hexDigit?_ne {d : Nat} (h : Text.hexDigit? c = some d) : c ≠ '\\' := by
  rintro rfl
  cases h

theorem hexEscapeDigit_within (hq : quote = '"' ∨ quote = '\'') (hi : Guarded quote inside)
    (first : Char) (line : Nat) (seen : List UInt8) :
    (∃ e, ∀ rest, hexEscapeDigit (within quote (first :: inside) line seen rest) = .error e) ∨
      ∃ d c tail seen', inside = c :: tail ∧ Guarded quote tail ∧
        ∀ rest, hexEscapeDigit (within quote (first :: inside) line seen rest) =
          .ok (d, within quote (c :: tail) line seen' rest) := by
  cases inside with
  | nil =>
    obtain ⟨e, he⟩ := failEscape_within (α := Nat × Cursor) quote [] line
      (Cursor.encode first ++ seen) "hexadecimal digit expected"
    refine .inl ⟨e, fun rest => ?_⟩
    rw [hexEscapeDigit, save_within]
    simpa [within, hexDigit?_quote hq] using he rest
  | cons c tail =>
    cases hd : Text.hexDigit? c with
    | none =>
      obtain ⟨e, he⟩ := failEscape_within (α := Nat × Cursor) quote (c :: tail) line
        (Cursor.encode first ++ seen) "hexadecimal digit expected"
      refine .inl ⟨e, fun rest => ?_⟩
      rw [hexEscapeDigit, save_within]
      simpa [within, hd] using he rest
    | some d =>
      refine .inr ⟨d, c, tail, Cursor.encode first ++ seen, rfl,
        Guarded.tail hi (hexDigit?_ne hd), fun rest => ?_⟩
      rw [hexEscapeDigit, save_within]
      simp [within, hd]

theorem hexEscape_within (hq : quote = '"' ∨ quote = '\'') (hi : Guarded quote inside)
    (first : Char) (line : Nat) (seen : List UInt8) :
    Confined quote (first :: inside).length fun rest =>
      hexEscape (within quote (first :: inside) line seen rest) := by
  rcases hexEscapeDigit_within hq hi first line seen with
    ⟨e, he⟩ | ⟨high, c, tail, seen', rfl, htail, hhigh⟩
  · exact .error e fun rest => by simp [hexEscape, he, bind, Except.bind]
  · rcases hexEscapeDigit_within hq htail c line seen' with
      ⟨e, he⟩ | ⟨low, d, tail', seen'', rfl, htail', hlow⟩
    · exact .error e fun rest => by simp [hexEscape, hhigh, he, bind, Except.bind]
    · refine .ok (high * 16 + low).toUInt8 tail' line (seen''.drop 3) htail' (by simp; omega)
        fun rest => ?_
      simp only [hexEscape, hhigh, hlow, bind, Except.bind, pure, Except.pure]
      rfl

theorem unicodeDigits_within (hq : quote = '"' ∨ quote = '\'') (hi : Guarded quote inside)
    (value : Nat) (line : Nat) (seen : List UInt8) (here : List Char → List Char) :
    Confined quote inside.length fun rest =>
      unicodeDigits value ⟨here rest, line, seen⟩ (inside ++ quote :: rest) := by
  induction inside generalizing value seen with
  | nil =>
    exact .ok value [] line seen .nil (Nat.le_refl _) fun rest => by
      simp [unicodeDigits, hexDigit?_quote hq, within]
  | cons c inside ih =>
    cases hd : Text.hexDigit? c with
    | none =>
      exact .ok value (c :: inside) line seen hi (Nat.le_refl _) fun rest => by
        simp [unicodeDigits, hd, within]
    | some d =>
      by_cases hlarge : value > 0x7FFFFFF
      · obtain ⟨e, he⟩ := failEscape_within (α := Nat × Cursor) quote (c :: inside) line seen
          "UTF-8 value too large"
        refine .error e fun rest => ?_
        simpa [unicodeDigits, hd, hlarge, within] using he rest
      · have hstep (rest : List Char) :
            unicodeDigits value ⟨here rest, line, seen⟩ (c :: (inside ++ quote :: rest)) =
              unicodeDigits (value * 16 + d) ⟨here rest, line, Cursor.encode c ++ seen⟩
                (inside ++ quote :: rest) := by
          simp [unicodeDigits, hd, hlarge, Cursor.see]
        cases ih (Guarded.tail hi (hexDigit?_ne hd)) (value * 16 + d) (Cursor.encode c ++ seen)
          with
        | error e he => exact .error e fun rest => (hstep rest).trans (he rest)
        | ok a inside' line' seen' hi' hlen hok =>
          exact .ok a inside' line' seen' hi' (Nat.le_succ_of_le hlen) fun rest =>
            (hstep rest).trans (hok rest)

theorem closeUnicode_within (hq : quote = '"' ∨ quote = '\'') (hi : Guarded quote inside)
    (start value line : Nat) (seen : List UInt8) :
    Confined quote inside.length fun rest =>
      closeUnicode start value (within quote inside line seen rest) := by
  obtain ⟨e, he⟩ := failEscape_within (α := List UInt8 × Cursor) quote inside line seen
    "missing '\x7d'"
  cases inside with
  | nil =>
    refine .error e fun rest => ?_
    rcases hq with rfl | rfl <;> exact he rest
  | cons c tail =>
    by_cases hc : c = '\x7d'
    · subst hc
      exact .ok (encodeNumber value) tail line (seen.drop (seen.length - start))
        (Guarded.tail hi (by decide)) (Nat.le_succ _) fun rest => rfl
    · refine .error e fun rest => ?_
      rw [← he rest, closeUnicode]
      simp only [within, List.cons_append]
      split
      · exact absurd (List.cons.inj ‹_›).1 hc
      · rfl

theorem unicodeEscape_brace (quote : Char) (tail : List Char) (line : Nat) (seen : List UInt8)
    (rest : List Char) :
    unicodeEscape (within quote ('u' :: '\x7b' :: tail) line seen rest) =
      (hexEscapeDigit (within quote ('\x7b' :: tail) line (Cursor.encode 'u' ++ seen) rest)).bind
        fun (first, cur) => (unicodeDigits first cur.save cur.save.rest).bind
          fun (value, cur) => closeUnicode (seen.length - 1) value cur := rfl

theorem unicodeEscape_within (hq : quote = '"' ∨ quote = '\'') (hi : Guarded quote inside)
    (line : Nat) (seen : List UInt8) :
    Confined quote ('u' :: inside).length fun rest =>
      unicodeEscape (within quote ('u' :: inside) line seen rest) := by
  obtain ⟨e, he⟩ := failEscape_within (α := List UInt8 × Cursor) quote inside line
    (Cursor.encode 'u' ++ seen) "missing '\x7b'"
  cases inside with
  | nil =>
    refine .error e fun rest => ?_
    rcases hq with rfl | rfl <;> exact he rest
  | cons c tail =>
    by_cases hc : c = '\x7b'
    · subst hc
      rcases hexEscapeDigit_within hq (Guarded.tail hi (by decide)) '\x7b' line
          (Cursor.encode 'u' ++ seen) with ⟨e, he⟩ | ⟨first, d, tail', seen', rfl, htail, hfirst⟩
      · exact .error e fun rest => by rw [unicodeEscape_brace, he]; rfl
      · have hread (rest : List Char) :
            unicodeEscape (within quote ('u' :: '\x7b' :: d :: tail') line seen rest) =
              (unicodeDigits first (within quote tail' line (Cursor.encode d ++ seen') rest)
                (tail' ++ quote :: rest)).bind
                  fun (value, cur) => closeUnicode (seen.length - 1) value cur := by
          rw [unicodeEscape_brace, hfirst]
          rfl
        cases unicodeDigits_within hq htail first line (Cursor.encode d ++ seen')
            (fun rest => tail' ++ quote :: rest) with
        | error e he => exact .error e fun rest => by rw [hread, within, he]; rfl
        | ok value inside' line' digits hi' hlen hok =>
          have hclosed (rest : List Char) :
              unicodeEscape (within quote ('u' :: '\x7b' :: d :: tail') line seen rest) =
                closeUnicode (seen.length - 1) value (within quote inside' line' digits rest) := by
            rw [hread, within, hok]
            rfl
          cases closeUnicode_within hq hi' (seen.length - 1) value line' digits with
          | error e he => exact .error e fun rest => (hclosed rest).trans (he rest)
          | ok a left line'' taken hi'' hlen' hok' =>
            exact .ok a left line'' taken hi'' (by simp; omega) fun rest =>
              (hclosed rest).trans (hok' rest)
    · refine .error e fun rest => ?_
      rw [← he rest, unicodeEscape, save_within]
      simp only [within, List.cons_append]
      split
      · exact absurd (List.cons.inj ‹_›).1 hc
      · rfl

theorem digit?_quote (hq : quote = '"' ∨ quote = '\'') : Text.digit? quote = none := by
  rcases hq with rfl | rfl <;> rfl

theorem decimalDigits_within (hq : quote = '"' ∨ quote = '\'') (hi : Guarded quote inside)
    (n value line : Nat) (seen : List UInt8) :
    ∃ value' inside' seen', Guarded quote inside' ∧ inside'.length ≤ inside.length ∧
      ∀ rest, decimalDigits n value (within quote inside line seen rest) =
        (value', within quote inside' line seen' rest) := by
  induction n generalizing value inside seen with
  | zero => exact ⟨value, inside, seen, hi, Nat.le_refl _, fun rest => rfl⟩
  | succ n ih =>
    cases inside with
    | nil =>
      exact ⟨value, [], seen, .nil, Nat.le_refl _, fun rest => by
        simp [decimalDigits, within, digit?_quote hq]⟩
    | cons c tail =>
      cases hd : Text.digit? c with
      | none =>
        exact ⟨value, c :: tail, seen, hi, Nat.le_refl _, fun rest => by
          simp [decimalDigits, within, hd]⟩
      | some d =>
        have hc : c ≠ '\\' := by
          rintro rfl
          cases hd
        obtain ⟨value', inside', seen', hi', hlen, hread⟩ :=
          ih (Guarded.tail hi hc) (value * 10 + d) (Cursor.encode c ++ seen)
        refine ⟨value', inside', seen', hi', Nat.le_succ_of_le hlen, fun rest => ?_⟩
        rw [← hread rest, ← save_within]
        simp [decimalDigits, within, hd]

theorem decimalEscape_within (hq : quote = '"' ∨ quote = '\'') (hi : Guarded quote inside)
    (line : Nat) (seen : List UInt8) :
    Confined quote inside.length fun rest =>
      decimalEscape (within quote inside line seen rest) := by
  obtain ⟨value, inside', seen', hi', hlen, hread⟩ := decimalDigits_within hq hi 3 0 line seen
  by_cases hlarge : value > 255
  · obtain ⟨e, he⟩ := failEscape_within (α := UInt8 × Cursor) quote inside' line seen'
      "decimal escape too large"
    exact .error e fun rest => by simp [decimalEscape, hread, hlarge, he]
  · refine .ok value.toUInt8 inside' line (seen'.drop (seen'.length - (seen.length - 1))) hi' hlen
      fun rest => ?_
    simp only [decimalEscape, hread, hlarge, if_false]
    rfl

/-! ### Spaces and line breaks -/

theorem isBreak_ne_backslash (h : isBreak c = true) : c ≠ '\\' := by
  rintro rfl
  cases h

theorem isBreak_quote (hq : quote = '"' ∨ quote = '\'') : isBreak quote = false := by
  rcases hq with rfl | rfl <;> rfl

theorem afterBreak_within (hq : quote = '"' ∨ quote = '\'') (hi : Guarded quote inside)
    (c : Char) :
    ∃ inside', Guarded quote inside' ∧ inside'.length ≤ inside.length ∧
      ∀ rest, afterBreak c (inside ++ quote :: rest) = inside' ++ quote :: rest := by
  cases inside with
  | nil => exact ⟨[], .nil, Nat.le_refl _, fun rest => by simp [afterBreak, isBreak_quote hq]⟩
  | cons d tail =>
    by_cases hd : isBreak d = true ∧ d ≠ c
    · exact ⟨tail, Guarded.tail hi (isBreak_ne_backslash hd.1), Nat.le_succ _, fun rest => by
        simp [afterBreak, hd]⟩
    · refine ⟨d :: tail, hi, Nat.le_refl _, fun rest => ?_⟩
      simp only [not_and, Decidable.not_not] at hd
      simp only [afterBreak, List.cons_append]
      rw [if_neg (by simpa using hd)]

theorem skipSpaces_within {inside : List Char} (hq : quote = '"' ∨ quote = '\'')
    (hi : Guarded quote inside) (line : Nat) (seen : List UInt8) :
    ∃ inside' line', Guarded quote inside' ∧ inside'.length ≤ inside.length ∧
      ∀ fuel rest, inside.length < fuel →
        skipSpaces fuel (within quote inside line seen rest) =
          within quote inside' line' seen rest := by
  match inside, hi with
  | [], _ =>
    refine ⟨[], line, .nil, Nat.le_refl _, fun fuel rest hfuel => ?_⟩
    obtain ⟨fuel, rfl⟩ := Nat.exists_eq_succ_of_ne_zero (Nat.ne_of_gt hfuel)
    rcases hq with rfl | rfl <;> rfl
  | c :: tail, hi =>
    by_cases hbreak : isBreak c = true
    · obtain ⟨mid, hmid, hmidlen, hafter⟩ :=
        afterBreak_within hq (Guarded.tail hi (isBreak_ne_backslash hbreak)) c
      obtain ⟨inside', line', hi', hlen, hread⟩ := skipSpaces_within hq hmid (line + 1) seen
      refine ⟨inside', line', hi', by simp; omega, fun fuel rest hfuel => ?_⟩
      obtain ⟨fuel, rfl⟩ := Nat.exists_eq_succ_of_ne_zero (Nat.ne_of_gt (Nat.zero_lt_of_lt hfuel))
      rw [← hread fuel rest (by simp at hfuel; omega)]
      simp [skipSpaces, within, hbreak, hafter]
    · by_cases hspace : isSpace c = true
      · have hc : c ≠ '\\' := by
          rintro rfl
          cases hspace
        obtain ⟨inside', line', hi', hlen, hread⟩ :=
          skipSpaces_within hq (Guarded.tail hi hc) line seen
        refine ⟨inside', line', hi', Nat.le_succ_of_le hlen, fun fuel rest hfuel => ?_⟩
        obtain ⟨fuel, rfl⟩ :=
          Nat.exists_eq_succ_of_ne_zero (Nat.ne_of_gt (Nat.zero_lt_of_lt hfuel))
        rw [← hread fuel rest (by simpa using hfuel)]
        simp [skipSpaces, within, hbreak, hspace]
      · refine ⟨c :: tail, line, hi, Nat.le_refl _, fun fuel rest hfuel => ?_⟩
        obtain ⟨fuel, rfl⟩ :=
          Nat.exists_eq_succ_of_ne_zero (Nat.ne_of_gt (Nat.zero_lt_of_lt hfuel))
        simp [skipSpaces, within, hbreak, hspace]
termination_by inside.length
decreasing_by all_goals simp_all <;> omega

/-! ### Escapes and strings -/

/-- A reading in a string like `Confined`, with fuel for the characters left before the quote. -/
inductive Continues (quote : Char) (n : Nat)
    (read : Nat → List Char → Except LexError Cursor) : Prop
  | error (e : LexError) : (∀ fuel rest, n < fuel → read fuel rest = .error e) →
      Continues quote n read
  | ok (inside : List Char) (line : Nat) (seen : List UInt8) : Guarded quote inside →
      inside.length ≤ n →
      (∀ fuel rest, n < fuel → read fuel rest = .ok (within quote inside line seen rest)) →
      Continues quote n read

/-- What an escape stands for is put into the spelling. -/
theorem Confined.continues {α : Type} {n : Nat} {read : List Char → Except LexError (α × Cursor)}
    (h : Confined quote n read) (see : α → Cursor → Cursor)
    (hsee : ∀ a inside line seen, ∃ seen', ∀ rest,
      see a (within quote inside line seen rest) = within quote inside line seen' rest) :
    Continues quote n fun _ rest => (read rest).map fun (a, cur) => see a cur := by
  cases h with
  | error e he => exact .error e fun _ rest _ => by rw [he]; rfl
  | ok a inside line seen hi hlen hok =>
    obtain ⟨seen', hseen⟩ := hsee a inside line seen
    exact .ok inside line seen' hi hlen fun _ rest _ => by
      rw [hok, ← hseen]
      rfl

theorem seeBytes_within (bs : List UInt8) (quote : Char) (inside : List Char) (line : Nat)
    (seen : List UInt8) :
    ∃ seen', ∀ rest, bs.foldl Cursor.seeByte (within quote inside line seen rest) =
      within quote inside line seen' rest := by
  induction bs generalizing seen with
  | nil => exact ⟨seen, fun rest => rfl⟩
  | cons b bs ih => exact ih (b :: seen)

theorem escape_hex (fuel : Nat) (cur : Cursor) (h : cur.rest.head? = some 'x') :
    escape fuel cur = (hexEscape cur).map fun (b, cur) => cur.seeByte b := by
  obtain ⟨tail, htail⟩ := List.head?_eq_some_iff.1 h
  rw [escape, htail]
  cases hexEscape cur <;> rfl

theorem escape_unicode (fuel : Nat) (cur : Cursor) (h : cur.rest.head? = some 'u') :
    escape fuel cur = (unicodeEscape cur).map fun (bs, cur) => bs.foldl Cursor.seeByte cur := by
  obtain ⟨tail, htail⟩ := List.head?_eq_some_iff.1 h
  rw [escape, htail]
  cases unicodeEscape cur <;> rfl

theorem escape_decimal (fuel : Nat) (cur : Cursor) (h : cur.rest.head? = some c)
    (hc : c.isDigit = true) :
    escape fuel cur = (decimalEscape cur).map fun (b, cur) => cur.seeByte b := by
  obtain ⟨tail, htail⟩ := List.head?_eq_some_iff.1 h
  have hne {d : Char} (hd : d.isDigit = false) : (c == d) = false := by
    refine beq_eq_false_iff_ne.2 ?_
    rintro rfl
    cases hc.symm.trans hd
  have hlookup : simpleEscapes.lookup c = none := by
    simp [simpleEscapes, List.lookup_cons, hne]
  have hx : (c == 'x') = false := hne rfl
  have hu : (c == 'u') = false := hne rfl
  have hn : (c == '\n') = false := hne rfl
  have hr : (c == '\r') = false := hne rfl
  have hz : (c == 'z') = false := hne rfl
  simp only [escape, htail, hlookup, isBreak, hx, hu, hn, hr, hz, hc, Bool.or_self,
    Bool.false_eq_true, if_false, if_true]
  cases decimalEscape cur <;> rfl

theorem escape_within (hq : quote = '"' ∨ quote = '\'') (hi : Guarded quote inside) (c : Char)
    (line : Nat) (seen : List UInt8) :
    Continues quote (c :: inside).length fun fuel rest =>
      escape fuel (within quote (c :: inside) line seen rest) := by
  have hsee (b : UInt8) (inside : List Char) (line : Nat) (seen : List UInt8) :
      ∃ seen', ∀ rest, (within quote inside line seen rest).seeByte b =
        within quote inside line seen' rest := ⟨b :: seen, fun rest => rfl⟩
  by_cases hx : c = 'x'
  · subst hx
    simp only [escape_hex _ (within quote ('x' :: inside) line seen _) rfl]
    exact (hexEscape_within hq hi 'x' line seen).continues (fun b cur => cur.seeByte b) hsee
  by_cases hu : c = 'u'
  · subst hu
    simp only [escape_unicode _ (within quote ('u' :: inside) line seen _) rfl]
    exact (unicodeEscape_within hq hi line seen).continues
      (fun bs cur => bs.foldl Cursor.seeByte cur) fun bs => seeBytes_within bs quote
  by_cases hdigit : c.isDigit = true
  · have hc : c ≠ '\\' ∧ c ≠ quote := by
      refine ⟨?_, ?_⟩ <;> rintro rfl
      · cases hdigit
      · rcases hq with rfl | rfl <;> cases hdigit
    simp only [escape_decimal _ (within quote (c :: inside) line seen _) rfl hdigit]
    exact (decimalEscape_within hq (.char hc.1 hc.2 hi) line seen).continues
      (fun b cur => cur.seeByte b) hsee
  cases hsimple : simpleEscapes.lookup c with
  | some b =>
    exact .ok inside line (b :: seen.drop 1) hi (Nat.le_succ _) fun fuel rest _ => by
      simp [escape, within, hsimple, Cursor.seeByte, Cursor.unsee]
  | none =>
    by_cases hbreak : isBreak c = true
    · obtain ⟨inside', hi', hlen, hafter⟩ := afterBreak_within hq hi c
      exact .ok inside' (line + 1) (10 :: seen.drop 1) hi' (Nat.le_succ_of_le hlen)
        fun fuel rest _ => by
          simp [escape, within, hsimple, hx, hu, hbreak, hafter, Cursor.seeByte, Cursor.unsee]
    · by_cases hz : c = 'z'
      · subst hz
        obtain ⟨inside', line', hi', hlen, hread⟩ := skipSpaces_within hq hi line (seen.drop 1)
        refine .ok inside' line' (seen.drop 1) hi' (Nat.le_succ_of_le hlen)
          fun fuel rest hfuel => ?_
        rw [← hread fuel rest (Nat.lt_of_succ_lt hfuel)]
        simp [escape, within, simpleEscapes, List.lookup_cons, isBreak, Cursor.unsee]
      · obtain ⟨e, he⟩ := failEscape_within (α := Cursor) quote (c :: inside) line seen
          "invalid escape sequence"
        refine .error e fun fuel rest _ => ?_
        rw [← he rest]
        simp [escape, within, hsimple, hx, hu, hbreak, hz, hdigit]

theorem quoted_escape (hq : quote = '"' ∨ quote = '\'') (fuel : Nat) (inside : List Char)
    (line : Nat) (seen : List UInt8) (rest : List Char) :
    quoted quote (fuel + 1) (within quote ('\\' :: c :: inside) line seen rest) =
      (escape fuel (within quote (c :: inside) line (Cursor.encode '\\' ++ seen) rest)).bind
        (quoted quote fuel) := by
  have hne : ('\\' == quote) = false := by rcases hq with rfl | rfl <;> rfl
  rw [quoted, save_within]
  simp only [within, List.cons_append, hne, isBreak]
  cases escape fuel _ <;> rfl

theorem quoted_char (hc : c ≠ quote) (hbreak : ¬ isBreak c = true) (hback : c ≠ '\\') (fuel : Nat)
    (inside : List Char) (line : Nat) (seen : List UInt8) (rest : List Char) :
    quoted quote (fuel + 1) (within quote (c :: inside) line seen rest) =
      quoted quote fuel (within quote inside line (Cursor.encode c ++ seen) rest) := by
  rw [quoted, save_within]
  simp [within, hc, hbreak, hback]

/-- From this place on, Lua reads a string up to its quote, or refuses it, whatever follows. -/
def Decided (quote : Char) (inside : List Char) (line : Nat) (seen : List UInt8) : Prop :=
  (∃ e, ∀ fuel rest, inside.length < fuel →
    quoted quote fuel (within quote inside line seen rest) = .error e) ∨
  ∃ line' seen', ∀ fuel rest, inside.length < fuel →
    quoted quote fuel (within quote inside line seen rest) = .ok ⟨rest, line', seen'⟩

theorem Decided.of_step {mid : List Char} {line' : Nat} {seen' : List UInt8}
    (h : Decided quote mid line' seen') (hlen : mid.length < inside.length)
    (hread : ∀ fuel rest, inside.length ≤ fuel →
      quoted quote (fuel + 1) (within quote inside line seen rest) =
        quoted quote fuel (within quote mid line' seen' rest)) :
    Decided quote inside line seen := by
  have hstep {read : List Char → Except LexError Cursor}
      (hmid : ∀ fuel rest, mid.length < fuel →
        quoted quote fuel (within quote mid line' seen' rest) = read rest) (fuel : Nat)
      (rest : List Char) (hfuel : inside.length < fuel) :
      quoted quote fuel (within quote inside line seen rest) = read rest := by
    cases fuel with
    | zero => cases hfuel
    | succ fuel =>
      rw [hread fuel rest (Nat.le_of_lt_succ hfuel)]
      exact hmid fuel rest (by omega)
  rcases h with ⟨e, he⟩ | ⟨last, taken, hok⟩
  · exact .inl ⟨e, hstep he⟩
  · exact .inr ⟨last, taken, hstep hok⟩

/-- A string is read by Lua up to the first quote that no backslash escapes, or refused, and what
follows the quote has no say in it. -/
theorem decided_of_guarded {inside : List Char} (hq : quote = '"' ∨ quote = '\'')
    (hi : Guarded quote inside) (line : Nat) (seen : List UInt8) :
    Decided quote inside line seen := by
  match inside, hi with
  | [], _ =>
    refine .inr ⟨line, Cursor.encode quote ++ seen, fun fuel rest hfuel => ?_⟩
    cases fuel with
    | zero => cases hfuel
    | succ fuel => simp [quoted, within, Cursor.save, Cursor.see]
  | _, @Guarded.escaped _ cs c hcs =>
    cases escape_within hq hcs c line (Cursor.encode '\\' ++ seen) with
    | error e he =>
      refine .inl ⟨e, fun fuel rest hfuel => ?_⟩
      cases fuel with
      | zero => cases hfuel
      | succ fuel =>
        rw [quoted_escape hq, he fuel rest (Nat.lt_of_succ_lt_succ hfuel)]
        rfl
    | ok mid line' seen' hmid hlen hok =>
      refine (decided_of_guarded hq hmid line' seen').of_step (Nat.lt_succ_of_le hlen)
        fun fuel rest hfuel => ?_
      rw [quoted_escape hq, hok fuel rest hfuel]
      rfl
  | c :: cs, .char hback hc hcs =>
    by_cases hbreak : isBreak c = true
    · refine .inl ⟨⟨"unfinished string", line, .ofString "'" ++
        (Bytes.ofList seen.reverse).untilZero ++ .ofString "'"⟩, fun fuel rest hfuel => ?_⟩
      cases fuel with
      | zero => cases hfuel
      | succ fuel =>
        simp [quoted, within, hc, hbreak, Cursor.failAt, Cursor.spelling]
    · exact (decided_of_guarded hq hcs line (Cursor.encode c ++ seen)).of_step (Nat.lt_succ_self _)
        fun fuel rest _ => quoted_char hc hbreak hback fuel cs line seen rest
termination_by inside.length
decreasing_by
  · exact Nat.lt_succ_of_le hlen
  · exact Nat.lt_succ_self _

/-- A string that is closed in Slang is read by Lua up to the same quote, or refused. -/
theorem decided_of_quotable (hq : quote = '"' ∨ quote = '\'') (hi : Quotable quote inside)
    (line : Nat) (seen : List UInt8) : Decided quote inside line seen :=
  decided_of_guarded hq (guarded_of_quotable hi) line seen

/-! ### What a string takes -/

/-- Characters that have no meaning of their own in a string. -/
def Bland (c : Char) : Prop := c ≠ '"' ∧ c ≠ '\'' ∧ c ≠ '\\'
deriving Decidable

theorem bland_of_hexDigit? (h : (Text.hexDigit? c).isSome = true) : Bland c := by
  refine ⟨?_, ?_, ?_⟩ <;> rintro rfl <;> cases h

theorem bland_of_digit? {d : Nat} (h : Text.digit? c = some d) : Bland c := by
  refine ⟨?_, ?_, ?_⟩ <;> rintro rfl <;> cases h

theorem bland_of_isBreak (h : isBreak c = true) : Bland c := by
  refine ⟨?_, ?_, ?_⟩ <;> rintro rfl <;> cases h

theorem bland_of_isSpace (h : isSpace c = true) : Bland c := by
  refine ⟨?_, ?_, ?_⟩ <;> rintro rfl <;> cases h

theorem Guarded.bland_append (hq : quote = '"' ∨ quote = '\'') {text : List Char}
    (ht : ∀ c ∈ text, Bland c) (h : Guarded quote inside) : Guarded quote (text ++ inside) := by
  induction text with
  | nil => exact h
  | cons c text ih =>
    rw [List.forall_mem_cons] at ht
    refine .char ht.1.2.2 ?_ (ih ht.2)
    rcases hq with rfl | rfl
    · exact ht.1.1
    · exact ht.1.2.1

/-- From one place to the next a reading takes characters without meaning. -/
def Passes (cs rest : List Char) : Prop := ∃ text, cs = text ++ rest ∧ ∀ c ∈ text, Bland c

theorem hexEscapeDigit_ok {cur cur' : Cursor} {d : Nat}
    (h : hexEscapeDigit cur = .ok (d, cur')) :
    ∃ first c tail, cur.rest = first :: c :: tail ∧ cur'.rest = c :: tail ∧ Bland c := by
  obtain ⟨rest, line, seen⟩ := cur
  cases rest with
  | nil => cases h
  | cons first rest =>
    cases rest with
    | nil => cases h
    | cons c tail =>
      rw [hexEscapeDigit] at h
      simp only [Cursor.save] at h
      split at h
      · rename_i d' hd
        cases h
        exact ⟨first, c, tail, rfl, rfl, bland_of_hexDigit? (by rw [hd]; rfl)⟩
      · cases h

theorem hexEscape_ok {cur cur' : Cursor} {b : UInt8} (h : hexEscape cur = .ok (b, cur')) :
    ∃ first tail, cur.rest = first :: tail ∧ Passes tail cur'.rest := by
  simp only [hexEscape, bind, Except.bind] at h
  split at h
  · cases h
  rename_i high hhigh
  split at h
  · cases h
  rename_i low hlow
  cases h
  obtain ⟨first, c, tail, hcur, hmid, hc⟩ := hexEscapeDigit_ok hhigh
  obtain ⟨c', d, tail', hmid', hlast, hd⟩ := hexEscapeDigit_ok hlow
  obtain ⟨rfl, rfl⟩ := List.cons.inj (hmid.symm.trans hmid')
  exact ⟨first, c :: d :: tail', hcur, [c, d], by simp [hlast], by simp [hc, hd]⟩

theorem unicodeDigits_ok {value value' : Nat} {cur cur' : Cursor} {cs : List Char}
    (h : unicodeDigits value cur cs = .ok (value', cur')) :
    Passes cs cur'.rest := by
  fun_induction unicodeDigits value cur cs with
  | case1 =>
    cases h
    exact ⟨[], rfl, nofun⟩
  | case2 =>
    cases h
    exact ⟨[], rfl, nofun⟩
  | case3 => cases h
  | case4 value cur c rest d hd _ ih =>
    obtain ⟨text, hrest, htext⟩ := ih h
    have hc : Bland c := bland_of_hexDigit? (by rw [hd]; rfl)
    exact ⟨c :: text, by simpa using hrest, by simpa [hc] using htext⟩

theorem closeUnicode_ok {start value : Nat} {cur cur' : Cursor} {bs : List UInt8}
    (h : closeUnicode start value cur = .ok (bs, cur')) : cur.rest = '\x7d' :: cur'.rest := by
  unfold closeUnicode at h
  split at h
  · rename_i hrest
    cases h
    exact hrest
  · cases h

theorem save_rest (cur : Cursor) : cur.save.rest = cur.rest.tail := by
  obtain ⟨rest, line, seen⟩ := cur
  cases rest <;> rfl

theorem unicodeEscape_ok {cur cur' : Cursor} {bs : List UInt8}
    (h : unicodeEscape cur = .ok (bs, cur')) :
    ∃ first tail, cur.rest = first :: tail ∧ Passes tail cur'.rest := by
  obtain ⟨rest, line, seen⟩ := cur
  cases rest with
  | nil => cases h
  | cons first tail =>
    refine ⟨first, tail, rfl, ?_⟩
    have hsave : Cursor.save ⟨first :: tail, line, seen⟩ =
        ⟨tail, line, Cursor.encode first ++ seen⟩ := rfl
    simp only [unicodeEscape, hsave] at h
    split at h
    · rename_i tail'
      simp only [bind, Except.bind] at h
      split at h
      · cases h
      rename_i digit hdigit
      split at h
      · cases h
      rename_i digits hdigits
      obtain ⟨_, c, after, hcur, hmid, hc⟩ := hexEscapeDigit_ok hdigit
      obtain ⟨text, hrest, htext⟩ := unicodeDigits_ok hdigits
      rw [save_rest, hmid, List.tail_cons] at hrest
      refine ⟨'\x7b' :: c :: (text ++ ['\x7d']), ?_, ?_⟩
      · simp only [List.cons.injEq] at hcur
        simp [hcur.2, hrest, closeUnicode_ok h]
      · have hbrace : Bland '\x7b' ∧ Bland '\x7d' := by decide
        simpa [hc, hbrace, or_imp, forall_and] using htext
    · cases h

theorem decimalDigits_ok (n value : Nat) (cur : Cursor) :
    Passes cur.rest (decimalDigits n value cur).2.rest := by
  induction n generalizing value cur with
  | zero => exact ⟨[], rfl, nofun⟩
  | succ n ih =>
    obtain ⟨rest, line, seen⟩ := cur
    cases rest with
    | nil => exact ⟨[], rfl, nofun⟩
    | cons c rest =>
      cases hd : Text.digit? c with
      | none => exact ⟨[], by simp [decimalDigits, hd], nofun⟩
      | some d =>
        obtain ⟨text, hrest, htext⟩ := ih (value * 10 + d) (Cursor.save ⟨c :: rest, line, seen⟩)
        refine ⟨c :: text, ?_, ?_⟩
        · simpa [decimalDigits, hd, Cursor.save, Cursor.see] using hrest
        · simpa [bland_of_digit? hd] using htext

theorem decimalEscape_ok {cur cur' : Cursor} {b : UInt8} (hc : cur.rest.head? = some c)
    (hdigit : c.isDigit = true) (h : decimalEscape cur = .ok (b, cur')) :
    ∃ first tail, cur.rest = first :: tail ∧ Passes tail cur'.rest := by
  obtain ⟨tail, htail⟩ := List.head?_eq_some_iff.1 hc
  obtain ⟨d, hd⟩ : ∃ d, Text.digit? c = some d := by
    simp [Text.digit?, hdigit]
  have hfirst : decimalDigits 3 0 cur = decimalDigits 2 d cur.save := by
    simp [decimalDigits, htail, hd]
  obtain ⟨text, hrest, htext⟩ := decimalDigits_ok 2 d cur.save
  rw [save_rest, htail, List.tail_cons] at hrest
  refine ⟨c, tail, htail, text, ?_, htext⟩
  rw [decimalEscape, hfirst] at h
  split at h
  rename_i value last hlast
  rw [hlast] at hrest
  split at h
  · cases h
  · cases h
    exact hrest

theorem afterBreak_passes (c : Char) (cs : List Char) :
    Passes cs (afterBreak c cs) := by
  cases cs with
  | nil => exact ⟨[], rfl, nofun⟩
  | cons d cs =>
    rw [afterBreak]
    split
    · rename_i hd
      have hd : Bland d := bland_of_isBreak (Bool.and_eq_true_iff.1 hd).1
      exact ⟨[d], rfl, by simpa using hd⟩
    · exact ⟨[], rfl, nofun⟩

theorem skipSpaces_passes (fuel : Nat) (cur : Cursor) : Passes cur.rest (skipSpaces fuel cur).rest := by
  induction fuel generalizing cur with
  | zero => exact ⟨[], rfl, nofun⟩
  | succ fuel ih =>
    obtain ⟨rest, line, seen⟩ := cur
    cases rest with
    | nil => exact ⟨[], rfl, nofun⟩
    | cons c rest =>
      rw [skipSpaces]
      simp only
      split
      · rename_i hbreak
        obtain ⟨before, hbefore, hbland⟩ := afterBreak_passes c rest
        obtain ⟨text, hrest, htext⟩ := ih ⟨afterBreak c rest, line + 1, seen⟩
        refine ⟨c :: (before ++ text), ?_, ?_⟩
        · simp only at hrest
          rw [List.cons_append, List.append_assoc, ← hrest, ← hbefore]
        · simp only [List.mem_cons, List.mem_append, or_imp, forall_and, forall_eq]
          exact ⟨bland_of_isBreak hbreak, hbland, htext⟩
      · split
        · rename_i hspace
          obtain ⟨text, hrest, htext⟩ := ih ⟨rest, line, seen⟩
          refine ⟨c :: text, ?_, ?_⟩
          · simp only at hrest
            rw [List.cons_append, ← hrest]
          · simpa [bland_of_isSpace hspace] using htext
        · exact ⟨[], rfl, nofun⟩

theorem exists_of_map_eq_ok {ε α β : Type} {x : Except ε α} {f : α → β} {b : β}
    (h : x.map f = .ok b) : ∃ a, x = .ok a ∧ f a = b := by
  cases x with
  | error e => cases h
  | ok a => exact ⟨a, rfl, Except.ok.inj h⟩

theorem seeBytes_rest (bs : List UInt8) (cur : Cursor) :
    (bs.foldl Cursor.seeByte cur).rest = cur.rest := by
  induction bs generalizing cur with
  | nil => rfl
  | cons b bs ih => exact ih _

/-- An escape takes one character behind the backslash, whatever it is, and others without meaning. -/
theorem escape_ok {fuel : Nat} {cur cur' : Cursor} (h : escape fuel cur = .ok cur')
    (hne : cur.rest ≠ []) :
    ∃ first tail, cur.rest = first :: tail ∧ Passes tail cur'.rest := by
  obtain ⟨first, tail, hcur⟩ := List.exists_cons_of_ne_nil hne
  have hhead : cur.rest.head? = some first := by rw [hcur]; rfl
  by_cases hx : first = 'x'
  · rw [escape_hex _ _ (hx ▸ hhead)] at h
    obtain ⟨⟨b, mid⟩, hread, rfl⟩ := exists_of_map_eq_ok h
    have hpasses := hexEscape_ok hread
    exact hpasses
  by_cases hu : first = 'u'
  · rw [escape_unicode _ _ (hu ▸ hhead)] at h
    obtain ⟨⟨bs, mid⟩, hread, rfl⟩ := exists_of_map_eq_ok h
    rw [seeBytes_rest]
    exact unicodeEscape_ok hread
  by_cases hdigit : first.isDigit = true
  · rw [escape_decimal _ _ hhead hdigit] at h
    obtain ⟨⟨b, mid⟩, hread, rfl⟩ := exists_of_map_eq_ok h
    have hpasses := decimalEscape_ok hhead hdigit hread
    exact hpasses
  refine ⟨first, tail, hcur, ?_⟩
  simp only [escape, hcur] at h
  split at h
  · cases h
    exact ⟨[], rfl, nofun⟩
  · rw [if_neg (by simpa using hx), if_neg (by simpa using hu)] at h
    split at h
    · cases h
      exact afterBreak_passes first tail
    · split at h
      · cases h
        exact skipSpaces_passes fuel { cur.unsee 1 with rest := tail }
      · cases h

/-- What has been read of a string begins with an inside and the quote that ends it. -/
theorem quoted_ok (hq : quote = '"' ∨ quote = '\'') {fuel : Nat} {cur cur' : Cursor}
    (h : quoted quote fuel cur = .ok cur') :
    ∃ inside, Guarded quote inside ∧ cur.rest = inside ++ quote :: cur'.rest := by
  induction fuel generalizing cur with
  | zero => cases h
  | succ fuel ih =>
    obtain ⟨rest, line, seen⟩ := cur
    cases rest with
    | nil => cases h
    | cons c rest =>
      simp only [quoted] at h
      split at h
      · rename_i hc
        cases h
        exact ⟨[], .nil, by simp [save_rest, beq_iff_eq.1 hc]⟩
      rename_i hc
      split at h
      · cases h
      split at h
      · rename_i hback
        obtain rfl := beq_iff_eq.1 hback
        split at h
        · cases h
        rename_i mid hescape
        obtain ⟨inside, hi, hrest⟩ := ih h
        by_cases hne : rest = []
        · subst hne
          cases hescape
          cases inside <;> cases hrest
        · obtain ⟨first, tail, hfirst, text, htail, htext⟩ :=
            escape_ok hescape (by rwa [save_rest])
          rw [save_rest, List.tail_cons] at hfirst
          exact ⟨'\\' :: first :: (text ++ inside), .escaped first (hi.bland_append hq htext),
            by simp [hfirst, htail, hrest]⟩
      · rename_i hback
        obtain ⟨inside, hi, hrest⟩ := ih h
        refine ⟨c :: inside, .char (by simpa using hback) (by simpa using hc) hi, ?_⟩
        rw [save_rest, List.tail_cons] at hrest
        simp [hrest]

end ScriptHost.Lua.Lexer
