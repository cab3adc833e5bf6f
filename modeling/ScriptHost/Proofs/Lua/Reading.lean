import ScriptHost.Proofs.Lua.Spelling

/-! Reading a Lua source piece by piece. What Lua has read at a point does not change with what comes
later, as long as the last piece could not have been longer. -/

namespace ScriptHost.Lua.Lexer

variable {text rest mid T T' cs : List Char} {line line' stop stop' fuel : Nat}
  {ps qs : List (Piece Empty)}

/-! ### One piece -/

/-- Lua takes the pieces of a text that begin on a line, up to another line, and leaves the rest. -/
def Takes (line : Nat) (cs : List Char) (ps : List (Piece Empty)) (stop : Nat)
    (rest : List Char) : Prop :=
  ∃ c tail, cs = c :: tail ∧
    ∀ fuel, tail.length < fuel → piece noOperators fuel line c tail = .ok (ps, stop, rest)

theorem takes_iff :
    Takes line cs ps stop rest ↔ ∃ text, cs = text ++ rest ∧ Spells line ps stop text rest := by
  constructor
  · rintro ⟨c, tail, rfl, h⟩
    exact spells_of_piece (Nat.lt_succ_self _) (h _ (Nat.lt_succ_self _))
  · rintro ⟨text, rfl, h⟩
    exact h.piece

theorem Spells.takes (h : Spells line ps stop text rest) :
    Takes line (text ++ rest) ps stop rest := h.piece

theorem Takes.det {rest' : List Char} (h : Takes line cs ps stop rest)
    (h' : Takes line cs qs stop' rest') : ps = qs ∧ stop = stop' ∧ rest = rest' := by
  obtain ⟨c, tail, rfl, hread⟩ := h
  obtain ⟨c', tail', heq, hread'⟩ := h'
  obtain ⟨rfl, rfl⟩ := List.cons.inj heq
  have hok := Except.ok.inj
    ((hread _ (Nat.lt_succ_self _)).symm.trans (hread' _ (Nat.lt_succ_self _)))
  exact ⟨congrArg Prod.fst hok, congrArg (·.2.1) hok, congrArg (·.2.2) hok⟩

theorem Spells.ne_nil (h : Spells line ps stop text rest) : text ≠ [] := by
  cases h <;> simp [Compile.Slang.opener]

/-! ### Many pieces -/

/-- Lua reads some pieces, one after the other, and comes to the rest. -/
inductive Reads : (line : Nat) → List Char → List (Piece Empty) → (stop : Nat) →
    (rest : List Char) → Prop
  | nil {line : Nat} {rest : List Char} : Reads line rest [] line rest
  | cons {line between stop : Nat} {cs mid rest : List Char} {ps qs : List (Piece Empty)} :
      Takes line cs ps between mid → Reads between mid qs stop rest →
      Reads line cs (ps ++ qs) stop rest

theorem Reads.one (h : Takes line cs ps stop rest) : Reads line cs ps stop rest := by
  simpa using Reads.cons h .nil

theorem Reads.suffix (h : Reads line cs ps stop rest) : rest <:+ cs := by
  induction h with
  | nil => exact List.suffix_rfl
  | cons h _ ih =>
    obtain ⟨text, rfl, -⟩ := takes_iff.1 h
    exact ih.trans (List.suffix_append _ _)

/-- What is read before a space is read before a hyphen, unless it ends with a hyphen. -/
theorem Reads.abuts (h : Reads line (text ++ T) ps stop T) (hT : Abuts T T')
    (hhyphen : T = [' '] → text.getLast? ≠ some '-') : Reads line (text ++ T') ps stop T' := by
  have hne : T ≠ [] := by cases hT <;> simp
  generalize hcs : text ++ T = cs at h
  generalize hend : T = last at h
  induction h generalizing text with
  | nil =>
    subst hend
    obtain rfl : text = [] := by simpa using hcs
    exact .nil
  | @cons line between stop cs mid last ps qs htakes hrest ih =>
    subst hend
    obtain ⟨used, rfl, hspells⟩ := takes_iff.1 htakes
    obtain ⟨more, rfl⟩ := hrest.suffix
    rw [← List.append_assoc, List.append_cancel_right_eq] at hcs
    subst hcs
    -- what follows the first piece is the rest of the text and `T`, so the hyphen counts for the last
    have hmore : T = [' '] → more.getLast? ≠ some '-' := by
      intro hspace hlast
      refine hhyphen hspace ?_
      rw [List.getLast?_append, hlast]
      rfl
    have hused : more ++ T = [' '] → used.getLast? ≠ some '-' := by
      intro hspace
      have hnil : more = [] := by
        cases more with
        | nil => rfl
        | cons c more => exact absurd (List.append_eq_nil_iff.1 (List.cons.inj hspace).2).2 hne
      subst hnil
      simpa using hhyphen hspace
    rw [List.append_assoc]
    exact .cons (hspells.abuts (hT.append more) hused).takes (ih hmore rfl rfl)

/-- Before a hyphen, no hyphen has been read. -/
theorem Reads.getLast?_ne_hyphen (h : Reads line (text ++ rest) ps stop rest)
    (hrest : rest.head? = some '-') : text.getLast? ≠ some '-' := by
  generalize hcs : text ++ rest = cs at h
  induction h generalizing text with
  | nil =>
    obtain rfl : text = [] := by simpa using hcs
    simp
  | @cons line between stop cs mid last ps qs htakes hread ih =>
    obtain ⟨used, rfl, hspells⟩ := takes_iff.1 htakes
    obtain ⟨more, rfl⟩ := hread.suffix
    rw [← List.append_assoc, List.append_cancel_right_eq] at hcs
    subst hcs
    have hlast := ih hrest rfl
    rw [List.getLast?_append]
    cases hmore : more.getLast? with
    | some c =>
      rw [hmore] at hlast
      simpa using hlast
    | none =>
      obtain rfl := List.getLast?_eq_none_iff.1 hmore
      exact hspells.getLast?_ne_hyphen hrest

/-- What holds of the text that follows each place to which Lua comes, piece by piece. -/
def Throughout (P : List Char → Prop) (line : Nat) (cs : List Char) : Prop :=
  ∀ ps stop rest, Reads line cs ps stop rest → P rest

theorem throughout_iff {P : List Char → Prop} (h : Takes line cs ps between mid) :
    Throughout P line cs ↔ P cs ∧ Throughout P between mid := by
  constructor
  · intro hall
    exact ⟨hall _ _ _ .nil, fun qs stop rest hrest => hall _ _ _ (.cons h hrest)⟩
  · rintro ⟨hcs, hmid⟩ _ _ _ hreads
    cases hreads with
    | nil => exact hcs
    | cons h' hrest =>
      obtain ⟨rfl, rfl, rfl⟩ := h.det h'
      exact hmid _ _ _ hrest

/-! ### The whole source -/

theorem quoted_ne_eof {quote : Char} {l : Lexeme} (hq : quote = '"' ∨ quote = '\'')
    (h : token fuel line quote cs = .ok (l, rest)) : l.token ≠ .eof := by
  have hcond : (quote == '"' || quote == '\'') = true := by simpa using hq
  rw [token, if_pos hcond] at h
  obtain ⟨cur, -, heq⟩ := exists_of_map_eq_ok h
  cases heq
  rintro ⟨⟩

theorem bracketToken_ne_eof {l : Lexeme} (h : bracketToken line cs = .ok (l, rest)) :
    l.token ≠ .eof := by
  unfold bracketToken at h
  split at h
  simp only [bind, Except.bind, pure, Except.pure] at h
  split at h
  · split at h <;> cases h
    rintro ⟨⟩
  · split at h <;> cases h
    rintro ⟨⟩

/-- No piece is the end of a source. -/
theorem Spells.ne_eof (h : Spells line ps stop text rest) {l : Lexeme} (hl : .token l ∈ ps) :
    l.token ≠ .eof := by
  cases h with
  | lineBreak | pair | space => cases hl
  | note | comment => simp at hl
  | wide =>
    obtain ⟨b, hb, heq⟩ := List.mem_map.1 hl
    cases heq
    obtain ⟨_, -, rfl⟩ := List.mem_map.1 hb
    rintro ⟨⟩
  | quoted hq _ hread =>
    cases List.mem_singleton.1 hl
    exact quoted_ne_eof hq (hread _ [] (Nat.lt_succ_self _))
  | string _ hread =>
    cases List.mem_singleton.1 hl
    exact bracketToken_ne_eof (hread [])
  | numeral _ hn =>
    cases List.mem_singleton.1 hl
    exact hn.ne_eof
  | word =>
    cases List.mem_singleton.1 hl
    unfold wordLexeme
    split <;> rintro ⟨⟩
  | bracket | sign | char =>
    cases List.mem_singleton.1 hl
    rintro ⟨⟩

theorem Reads.ne_eof (h : Reads line cs ps stop rest) {l : Lexeme} (hl : .token l ∈ ps) :
    l.token ≠ .eof := by
  induction h with
  | nil => cases hl
  | cons htakes _ ih =>
    obtain ⟨text, -, hspells⟩ := takes_iff.1 htakes
    exact (List.mem_append.1 hl).elim hspells.ne_eof ih

/-- A source is read to its end, or up to an error. -/
theorem exists_reads (hfuel : cs.length < fuel) (line : Nat) :
    ∃ ps stop rest, Reads line cs ps stop rest ∧
      (rest = [] ∧
          piecesFrom noOperators fuel line cs = (ps ++ [.token ⟨.eof, stop, .empty⟩], none) ∨
        ∃ e, piecesFrom noOperators fuel line cs = (ps, some e)) := by
  induction fuel generalizing line cs with
  | zero => cases hfuel
  | succ fuel ih =>
    cases cs with
    | nil => exact ⟨[], line, [], .nil, .inl ⟨rfl, rfl⟩⟩
    | cons c cs =>
      rw [List.length_cons] at hfuel
      cases hread : piece noOperators fuel line c cs with
      | error e => exact ⟨[], line, _, .nil, .inr ⟨e, piecesFrom_of_error hread⟩⟩
      | ok read =>
        obtain ⟨ps, between, mid⟩ := read
        obtain ⟨text, htext, hspells⟩ := spells_of_piece (by omega) hread
        have hlen := congrArg List.length htext
        have hpos := List.length_pos_iff.2 hspells.ne_nil
        simp only [List.length_cons, List.length_append] at hlen
        obtain ⟨qs, stop, rest, hqs, hend⟩ := ih (show mid.length < fuel by omega) between
        refine ⟨ps ++ qs, stop, rest, .cons (takes_iff.2 ⟨text, htext, hspells⟩) hqs, ?_⟩
        rw [piecesFrom_of_ok hread]
        rcases hend with ⟨rfl, heq⟩ | ⟨e, heq⟩ <;> rw [heq]
        · exact .inl ⟨rfl, by rw [List.append_assoc]⟩
        · exact .inr ⟨e, rfl⟩

/-- The tokens among some pieces. -/
def tokens (ps : List (Piece Empty)) : List Token := (ps.filterMap Piece.lexeme?).map Lexeme.token

theorem tokens_append (ps qs : List (Piece Empty)) : tokens (ps ++ qs) = tokens ps ++ tokens qs := by
  simp [tokens]

/-- The signs that only a binary operator has are tokens of their own. -/
theorem head?_tokens (h : Reads line (c :: cs) ps stop []) (hc : c ∈ ['&', '|', '*']) :
    (tokens ps).head? = some (.char c) := by
  have hordinary : ∀ c ∈ ['&', '|', '*'], Ordinary c := by
    simp only [List.forall_mem_cons]
    exact ⟨by constructor <;> decide, by constructor <;> decide, by constructor <;> decide, by simp⟩
  have hne : c ≠ '.' ∧ c ≠ '-' ∧ sign? c cs = none := by
    simp only [List.mem_cons, List.not_mem_nil, or_false] at hc
    rcases hc with rfl | rfl | rfl <;> exact ⟨by decide, by decide, rfl⟩
  have hchar : Takes line (c :: cs) [.token ⟨.char c, line, .empty⟩] line cs :=
    (Spells.char (hordinary c hc) (absurd · hne.1) (absurd · hne.2.1) hne.2.2).takes
  cases h with
  | cons htakes =>
    obtain ⟨rfl, -, -⟩ := htakes.det hchar
    rfl

theorem Reads.eof_notMem_tokens (h : Reads line cs ps stop rest) : .eof ∉ tokens ps := by
  simp only [tokens, List.mem_map, List.mem_filterMap, not_exists, not_and]
  rintro l ⟨p, hp, hl⟩
  cases p with
  | token l' =>
    cases hl
    exact h.ne_eof hp
  | operator | comment => cases hl

/-- The tokens of a source are those of the pieces that are read, and the end of the source where they
reach it. -/
theorem exists_reads_lexemes (source : String) :
    ∃ ps stop rest, Reads 1 source.toList ps stop rest ∧
      (rest = [] ∧ (lexemes source).2 = none ∧
          (lexemes source).1.map Lexeme.token = tokens ps ++ [.eof] ∨
        (lexemes source).2 ≠ none ∧ (lexemes source).1.map Lexeme.token = tokens ps) := by
  obtain ⟨ps, stop, rest, hreads, hend⟩ := exists_reads (Nat.lt_succ_self source.toList.length) 1
  refine ⟨ps, stop, rest, hreads, ?_⟩
  rw [lexemes_eq]
  rcases hend with ⟨hrest, heq⟩ | ⟨e, heq⟩
  · exact .inl ⟨hrest, by simp [pieces, heq], by simp [pieces, heq, tokens, Piece.lexeme?]⟩
  · exact .inr ⟨by simp [pieces, heq], by simp [pieces, heq, tokens]⟩

end ScriptHost.Lua.Lexer
