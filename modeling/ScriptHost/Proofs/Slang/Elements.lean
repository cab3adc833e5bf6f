import ScriptHost.Compile.Slang

/-! The elements of a Slang source as a grammar. What begins a text and what is left behind it is a
judgment with one rule for each kind of element, and reading an element decides it. A cut of a text
is a run of such steps. -/

namespace ScriptHost.Compile.Slang

/-! ### Insides of strings and comments -/

/-- What may stand between two quotes: a line break and the quote itself only behind a
backslash. -/
inductive Quotable (quote : Char) : List Char → Prop
  | nil : Quotable quote []
  | escaped {cs : List Char} (c : Char) : Quotable quote cs → Quotable quote ('\\' :: c :: cs)
  | char {c : Char} {cs : List Char} : c ≠ '\n' → c ≠ '\\' → c ≠ quote → Quotable quote cs →
      Quotable quote (c :: cs)

theorem Quotable.quotedBody {quote : Char} {inside : List Char} (hi : Quotable quote inside)
    (hq : quote = '"' ∨ quote = '\'') (done rest : List Char) :
    quotedBody quote done (inside ++ quote :: rest) = some (inside.reverse ++ done, rest) := by
  induction hi generalizing done with
  | nil => rcases hq with rfl | rfl <;> simp [Slang.quotedBody.eq_def]
  | escaped c _ ih =>
    rw [List.cons_append, List.cons_append, Slang.quotedBody.eq_def]
    simpa using ih _
  | char hn hb hc _ ih =>
    rw [List.cons_append, Slang.quotedBody.eq_def]
    simpa [hn, hb, hc] using ih _

theorem quotable_of_quotedBody {quote : Char} {done cs body rest : List Char}
    (h : quotedBody quote done cs = some (body, rest)) :
    ∃ inside, Quotable quote inside ∧ body = inside.reverse ++ done ∧
      cs = inside ++ quote :: rest := by
  fun_induction quotedBody quote done cs with
  | case1 => cases h
  | case2 => cases h
  | case3 => cases h
  | case4 done d ds _ ih =>
    obtain ⟨inside, hi, rfl, rfl⟩ := ih h
    exact ⟨'\\' :: d :: inside, .escaped d hi, by simp, rfl⟩
  | case5 =>
    cases h
    exact ⟨[], .nil, rfl, rfl⟩
  | case6 done c cs hn hb hc ih =>
    obtain ⟨inside, hi, rfl, rfl⟩ := ih h
    exact ⟨c :: inside, .char hn hb hc hi, by simp, rfl⟩

theorem quotedBody_eq_none_iff {quote : Char} (hq : quote = '"' ∨ quote = '\'')
    {done cs : List Char} :
    quotedBody quote done cs = none ↔
      ¬ ∃ inside rest, Quotable quote inside ∧ cs = inside ++ quote :: rest := by
  constructor
  · rintro hnone ⟨inside, rest, hi, rfl⟩
    cases hnone.symm.trans (hi.quotedBody hq done rest)
  · intro hno
    refine Option.eq_none_iff_forall_ne_some.2 fun ⟨body, rest⟩ hread => hno ?_
    obtain ⟨inside, hi, -, rfl⟩ := quotable_of_quotedBody hread
    exact ⟨inside, rest, hi, rfl⟩

/-- No occurrence of `stop` begins in a text that has one right behind it. -/
inductive FreeOf (stop : List Char) : List Char → Prop
  | nil : FreeOf stop []
  | cons {c : Char} {cs : List Char} : ¬ stop <+: c :: cs ++ stop → FreeOf stop cs →
      FreeOf stop (c :: cs)

theorem upTo_of_after? {stop cs rest : List Char} (h : Text.after? stop cs = some rest)
    (done : List Char) : upTo stop done cs = some (done, rest) := by
  cases cs with
  | nil => simp [upTo, h]
  | cons c cs => simp [upTo, h]

theorem FreeOf.upTo {stop inside : List Char} (hi : FreeOf stop inside) (done rest : List Char) :
    upTo stop done (inside ++ (stop ++ rest)) = some (inside.reverse ++ done, rest) := by
  induction hi generalizing done with
  | nil => exact upTo_of_after? (Text.after?_append stop rest) done
  | @cons c cs hs _ ih =>
    have hnone : Text.after? stop (c :: (cs ++ (stop ++ rest))) = none := by
      refine Option.eq_none_iff_forall_ne_some.2 fun left hleft => hs ?_
      have hpre : stop <+: (c :: cs ++ stop) ++ rest := ⟨left, by
        simpa using (Text.after?_eq_some_iff.1 hleft).symm⟩
      exact List.prefix_of_prefix_length_le hpre (List.prefix_append _ _)
        (by simp; omega)
    rw [List.cons_append, Slang.upTo, hnone]
    simpa using ih (c :: done)

theorem freeOf_of_upTo {stop done cs body rest : List Char}
    (h : upTo stop done cs = some (body, rest)) :
    ∃ inside, FreeOf stop inside ∧ body = inside.reverse ++ done ∧
      cs = inside ++ (stop ++ rest) := by
  induction cs generalizing done with
  | nil =>
    obtain ⟨left, hleft, h⟩ := Option.map_eq_some_iff.1 h
    cases h
    exact ⟨[], .nil, rfl, by simpa using Text.after?_eq_some_iff.1 hleft⟩
  | cons c cs ih =>
    unfold upTo at h
    split at h
    · rename_i hleft
      cases h
      exact ⟨[], .nil, rfl, by simpa using Text.after?_eq_some_iff.1 hleft⟩
    · rename_i hnone
      obtain ⟨inside, hi, rfl, rfl⟩ := ih h
      refine ⟨c :: inside, .cons (fun ⟨left, hleft⟩ => ?_) hi, by simp, rfl⟩
      have hsome : Text.after? stop (c :: (inside ++ (stop ++ rest))) = some (left ++ rest) := by
        refine Text.after?_eq_some_iff.2 ?_
        rw [← List.append_assoc stop, hleft]
        simp
      cases hnone.symm.trans hsome

/-- Where a text occurs, it has a first occurrence. -/
theorem exists_freeOf_of_infix {stop cs : List Char} (h : stop <:+: cs) :
    ∃ inside rest, FreeOf stop inside ∧ cs = inside ++ (stop ++ rest) := by
  induction cs with
  | nil =>
    obtain rfl := List.infix_nil.1 h
    exact ⟨[], [], .nil, rfl⟩
  | cons c cs ih =>
    by_cases hpre : stop <+: c :: cs
    · obtain ⟨rest, hrest⟩ := hpre
      exact ⟨[], rest, .nil, hrest.symm⟩
    · obtain ⟨inside, rest, hi, rfl⟩ := ih ((List.infix_cons_iff.1 h).resolve_left hpre)
      refine ⟨c :: inside, rest, .cons (fun hstop => hpre (hstop.trans ⟨rest, ?_⟩)) hi, rfl⟩
      simp

theorem upTo_eq_none_iff {stop done cs : List Char} : upTo stop done cs = none ↔ ¬ stop <:+: cs := by
  constructor
  · intro hnone hin
    obtain ⟨inside, rest, hi, rfl⟩ := exists_freeOf_of_infix hin
    cases hnone.symm.trans (hi.upTo done rest)
  · intro hno
    refine Option.eq_none_iff_forall_ne_some.2 fun ⟨body, rest⟩ hread => hno ?_
    obtain ⟨inside, -, -, rfl⟩ := freeOf_of_upTo hread
    exact ⟨inside, rest, by simp⟩

/-! ### Long brackets -/

@[simp] theorem bracketLevel?_opener (level : Nat) (cs : List Char) :
    bracketLevel? (opener level ++ cs) = some (level, cs) := by
  have htake : (equals level ++ '[' :: cs).takeWhile (· == '=') = equals level := by
    rw [List.takeWhile_append_of_pos (by simp [equals])]
    simp
  have hdrop : (equals level ++ '[' :: cs).dropWhile (· == '=') = '[' :: cs := by
    rw [List.dropWhile_append_of_pos (by simp [equals])]
    simp
  have hopen : opener level ++ cs = '[' :: (equals level ++ '[' :: cs) := by simp [opener]
  rw [hopen, bracketLevel?, hdrop, htake]
  simp [equals]

theorem bracketElement_eq_ok_iff {comment : Bool} {level : Nat} {cs rest : List Char}
    {e : Element} :
    bracketElement comment level cs = .ok (e, rest) ↔
      ∃ body, FreeOf (closer level) body ∧ e = .bracket comment level body ∧
        cs = body ++ (closer level ++ rest) := by
  constructor
  · intro h
    unfold bracketElement at h
    split at h
    · rename_i hu
      cases h
      obtain ⟨inside, hi, rfl, rfl⟩ := freeOf_of_upTo hu
      exact ⟨inside, hi, by simp, rfl⟩
    · cases h
  · rintro ⟨body, hf, rfl, rfl⟩
    simp [bracketElement, hf.upTo]

/-! ### One element -/

/-- The end of a source, or of a line of it. -/
def LineEnd (cs : List Char) : Prop := cs = [] ∨ ∃ rest, cs = '\n' :: rest

/-- No element of more than one character, and no operator, begins with a character before such a
rest. -/
structure Stands (c : Char) (rest : List Char) : Prop where
  quote : c ≠ '"' ∧ c ≠ '\''
  bang : c ≠ '!'
  slash : c = '/' → rest.head? ≠ some '/' ∧ rest.head? ≠ some '*'
  hyphen : c = '-' → rest.head? ≠ some '-'
  ampersand : c = '&' → rest.head? ≠ some '&'
  bar : c = '|' → rest.head? ≠ some '|'
  bracket : c = '[' → bracketLevel? ('[' :: rest) = none

/-- The characters with which an element begins that is no plain character. -/
def marks : List Char := ['"', '\'', '!', '/', '-', '&', '|', '[']

theorem Stands.of_not_mem {c : Char} (h : c ∉ marks) (rest : List Char) : Stands c rest := by
  simp only [marks, List.mem_cons, List.not_mem_nil, or_false, not_or] at h
  obtain ⟨hq, hq', hbang, hslash, hhyphen, hand, hor, hopen⟩ := h
  exact ⟨⟨hq, hq'⟩, hbang, (absurd · hslash), (absurd · hhyphen), (absurd · hand), (absurd · hor),
    (absurd · hopen)⟩

theorem stands_hyphen {rest : List Char} (h : rest.head? ≠ some '-') : Stands '-' rest where
  quote := by decide
  bang := by decide
  slash := (absurd · (by decide))
  hyphen _ := h
  ampersand := (absurd · (by decide))
  bar := (absurd · (by decide))
  bracket := (absurd · (by decide))

theorem stands_bracket {rest : List Char} (h : bracketLevel? ('[' :: rest) = none) :
    Stands '[' rest where
  quote := by decide
  bang := by decide
  slash := (absurd · (by decide))
  hyphen := (absurd · (by decide))
  ampersand := (absurd · (by decide))
  bar := (absurd · (by decide))
  bracket _ := h

/-- A text begins with an element, and the rest follows it. -/
inductive Begins : List Char → Element → List Char → Prop
  | plain {c : Char} {rest : List Char} : Stands c rest → Begins (c :: rest) (.plain c) rest
  | and {rest : List Char} : Begins ('&' :: '&' :: rest) (.word .and) rest
  | or {rest : List Char} : Begins ('|' :: '|' :: rest) (.word .or) rest
  | not {rest : List Char} : rest.head? ≠ some '=' → Begins ('!' :: rest) (.word .not) rest
  | notEqual {rest : List Char} : Begins ('!' :: '=' :: rest) .notEqual rest
  | slashes {rest : List Char} : Begins ('/' :: '/' :: rest) .slashes rest
  | block {body rest : List Char} : FreeOf ['*', '/'] body →
      Begins ('/' :: '*' :: (body ++ (['*', '/'] ++ rest))) (.block body) rest
  | quoted {quote : Char} {body rest : List Char} : quote = '"' ∨ quote = '\'' →
      Quotable quote body → Begins (quote :: (body ++ quote :: rest)) (.quoted quote body) rest
  | note {body rest : List Char} : bracketLevel? (body ++ rest) = none → '\n' ∉ body →
      LineEnd rest → Begins ('-' :: '-' :: (body ++ rest)) (.note body) rest
  | comment {level : Nat} {body rest : List Char} : FreeOf (closer level) body →
      Begins ('-' :: '-' :: (opener level ++ (body ++ (closer level ++ rest))))
        (.bracket true level body) rest
  | string {level : Nat} {body rest : List Char} : FreeOf (closer level) body →
      Begins (opener level ++ (body ++ (closer level ++ rest))) (.bracket false level body) rest

theorem Begins.source_append {cs rest : List Char} {e : Element} (h : Begins cs e rest) :
    e.source ++ rest = cs := by
  cases h <;> simp [Element.source, WordOp.sign]

theorem lineEnd_dropWhile (cs : List Char) : LineEnd (cs.dropWhile (· != '\n')) := by
  induction cs with
  | nil => exact .inl rfl
  | cons c cs ih =>
    by_cases hc : c = '\n'
    · subst hc
      exact .inr ⟨cs, rfl⟩
    · rw [List.dropWhile_cons_of_pos (by simpa using hc)]
      exact ih

/-- A line of a text that has no line break in it is what stands before the end of the line. -/
theorem span_line {body rest : List Char} (hb : '\n' ∉ body) (hr : LineEnd rest) :
    (body ++ rest).takeWhile (· != '\n') = body ∧ (body ++ rest).dropWhile (· != '\n') = rest := by
  have hpos : ∀ c ∈ body, (c != '\n') = true := fun c hc => by
    simpa using fun h : c = '\n' => hb (h ▸ hc)
  rw [List.takeWhile_append_of_pos hpos, List.dropWhile_append_of_pos hpos]
  rcases hr with rfl | ⟨rest, rfl⟩ <;> simp

theorem begins_note {cs : List Char} (h : bracketLevel? cs = none) :
    Begins ('-' :: '-' :: cs) (.note (cs.takeWhile (· != '\n'))) (cs.dropWhile (· != '\n')) := by
  have hcs := List.takeWhile_append_dropWhile (p := (· != '\n')) (l := cs)
  have hbody : '\n' ∉ cs.takeWhile (· != '\n') := fun hmem => by
    simpa using List.all_eq_true.1 List.all_takeWhile _ hmem
  have hnote := Begins.note (hcs.symm ▸ h) hbody (lineEnd_dropWhile cs)
  rwa [hcs] at hnote

theorem begins_of_nextElement {c : Char} {cs rest : List Char} {e : Element}
    (h : nextElement c cs = .ok (e, rest)) : Begins (c :: cs) e rest := by
  unfold nextElement at h
  split at h
  · rename_i hq
    split at h
    · rename_i hbody
      cases h
      obtain ⟨inside, hi, rfl, rfl⟩ := quotable_of_quotedBody hbody
      simpa using Begins.quoted hq hi
    · cases h
  · rename_i hq
    split at h
    · cases h
      exact .slashes
    · split at h
      · rename_i hu
        cases h
        obtain ⟨inside, hi, rfl, rfl⟩ := freeOf_of_upTo hu
        simpa using Begins.block hi
      · cases h
    · split at h
      · rename_i hl
        obtain ⟨body, hf, rfl, rfl⟩ := bracketElement_eq_ok_iff.1 h
        rw [bracketLevel?_eq hl]
        exact .comment hf
      · rename_i after _ _ hl
        cases h
        exact begins_note hl
    · cases h
      exact .notEqual
    · cases h
      exact .and
    · cases h
      exact .or
    · rename_i hne
      cases h
      refine .not fun heq => ?_
      obtain ⟨tail, rfl⟩ := List.head?_eq_some_iff.1 heq
      exact hne _ rfl
    · split at h
      · rename_i hl
        obtain ⟨body, hf, rfl, rfl⟩ := bracketElement_eq_ok_iff.1 h
        rw [bracketLevel?_eq hl]
        exact .string hf
      · cases h
        exact .plain ⟨by decide, by decide, nofun, nofun, nofun, nofun, fun _ => ‹_›⟩
    · cases h
      rename_i hbang hopen hslash hblock hhyphen _ hand hor
      have head_ne {x : Char} (hx : ∀ tail, cs = x :: tail → False) : cs.head? ≠ some x :=
        fun heq => (List.head?_eq_some_iff.1 heq).elim hx
      exact .plain ⟨not_or.1 hq, hbang, fun hc => ⟨head_ne (hslash · hc), head_ne (hblock · hc)⟩,
        fun hc => head_ne (hhyphen · hc), fun hc => head_ne (hand · hc),
        fun hc => head_ne (hor · hc), fun hc => (hopen hc).elim⟩

theorem nextElement_plain {c : Char} {rest : List Char} (h : Stands c rest) :
    nextElement c rest = .ok (.plain c, rest) := by
  obtain ⟨⟨hq, hq'⟩, hbang, hslash, hhyphen, hand, hor, hopen⟩ := h
  unfold nextElement
  rw [if_neg (not_or.2 ⟨hq, hq'⟩)]
  split
  · exact absurd rfl (hslash rfl).1
  · exact absurd rfl (hslash rfl).2
  · exact absurd rfl (hhyphen rfl)
  · exact absurd rfl hbang
  · exact absurd rfl (hand rfl)
  · exact absurd rfl (hor rfl)
  · exact absurd rfl hbang
  · simp [hopen rfl]
  · rfl

/-- Reading an element decides how a text begins. -/
theorem nextElement_eq_ok_iff {c : Char} {cs rest : List Char} {e : Element} :
    nextElement c cs = .ok (e, rest) ↔ Begins (c :: cs) e rest := by
  refine ⟨begins_of_nextElement, fun h => ?_⟩
  generalize htext : c :: cs = text at h
  cases h with
  | plain hs =>
    cases htext
    exact nextElement_plain hs
  | and => cases htext; rfl
  | or => cases htext; rfl
  | not hne =>
    cases htext
    unfold nextElement
    rw [if_neg (by decide)]
    split <;> simp_all
  | notEqual => cases htext; rfl
  | slashes => cases htext; rfl
  | @block body rest hf =>
    cases htext
    have hu := hf.upTo [] rest
    simp only [List.cons_append, List.nil_append] at hu
    simp [nextElement, hu]
  | quoted hq hi =>
    cases htext
    simp [nextElement, hq, hi.quotedBody hq]
  | note hl hn hr =>
    cases htext
    simp [nextElement, hl, span_line hn hr]
  | comment hf =>
    cases htext
    simp [nextElement, bracketElement_eq_ok_iff, hf]
  | @string level body rest hf =>
    have hl := bracketLevel?_opener level (body ++ (closer level ++ rest))
    simp only [opener, List.cons_append] at hl htext
    cases htext
    rw [nextElement, if_neg (by decide)]
    simp only [hl]
    exact bracketElement_eq_ok_iff.2 ⟨body, hf, rfl, rfl⟩

end ScriptHost.Compile.Slang
