import Mathlib.Data.List.Chain
import ScriptHost.Lua.Parser
import ScriptHost.Proofs.Lua.Reading

/-! A token that no chunk has, and pairs of tokens that are never neighbours in one. The parser goes
past a token only when it has seen that it may stand there, and past a binary operator only to an
operand, so the tokens between its first state and the end of a source are free of both. -/

namespace ScriptHost.Lua.Parser

/-- Two tokens of which the second never comes right after the first: an operand follows the first,
and none begins with the second. -/
def Clash (t u : Token) : Prop :=
  t = .char '&' ∧ u = .char '&' ∨ t = .char '|' ∧ u = .char '|' ∨ t = .char '/' ∧ u = .char '*'

/-- A token that may stand anywhere and before any other. -/
def Plain (t : Token) : Prop := t ∉ [Token.char '!', .char '&', .char '|', .char '/']

instance (t : Token) : Decidable (Plain t) := inferInstanceAs (Decidable (t ∉ _))

@[simp] theorem plain_name (n : String) : Plain (.name n) := by simp [Plain, Token.char]

@[simp] theorem plain_string (s : Bytes) : Plain (.string s) := by simp [Plain, Token.char]

@[simp] theorem plain_number (n : Number) : Plain (.number n) := by simp [Plain, Token.char]

@[simp] theorem plain_keyword (k : Keyword) : Plain (.keyword k) := by simp [Plain, Token.char]

@[simp] theorem plain_sign (s : Sign) : Plain (.sign s) := by simp [Plain, Token.char]

theorem Plain.not_clash {t : Token} (ht : Plain t) (u : Token) : ¬ Clash t u := by
  rintro (⟨rfl, -⟩ | ⟨rfl, -⟩ | ⟨rfl, -⟩) <;> simp [Plain] at ht

/-! ### Going past tokens -/

/-- The tokens from the current one on. -/
def ahead (s : ParserState) : List Token := s.current.token :: s.rest.map Lexeme.token

/-- From a state to a later one: of the tokens gone past none is a `!`, and none clashes with the one
after it. -/
def Passes (s s' : ParserState) : Prop :=
  ∃ ts, ahead s = ts ++ ahead s' ∧ .char '!' ∉ ts ∧
    (ts ++ [s'.current.token]).IsChain fun t u => ¬ Clash t u

variable {α β : Type} {s s' s'' : ParserState} {t u : Token} {p : Parser α} {f : α → Parser β}

theorem current_eq (h : ahead s' = ahead s) : s'.current.token = s.current.token :=
  List.head_eq_of_cons_eq h

theorem Passes.of_ahead_eq (h : ahead s' = ahead s) : Passes s s' :=
  ⟨[], h.symm, List.not_mem_nil, by simp⟩

theorem Passes.trans (h : Passes s s') (h' : Passes s' s'') : Passes s s'' := by
  obtain ⟨ts, hts, hmem, hchain⟩ := h
  obtain ⟨us, hus, hmem', hchain'⟩ := h'
  refine ⟨ts ++ us, by rw [hts, hus, List.append_assoc], by simp [hmem, hmem'], ?_⟩
  cases us with
  | nil =>
    have heq : s'.current.token = s''.current.token := List.head_eq_of_cons_eq hus
    rwa [List.append_nil, ← heq]
  | cons u us =>
    have heq : s'.current.token = u := List.head_eq_of_cons_eq hus
    rw [heq] at hchain
    simpa using hchain.append_overlap hchain' (by simp)

theorem bind_ok {b : β} (h : (p >>= f) s = .ok (b, s'')) :
    ∃ a s', p s = .ok (a, s') ∧ f a s' = .ok (b, s'') := by
  change (p s >>= fun r => f r.1 r.2) = _ at h
  cases hp : p s with
  | error e =>
    rw [hp] at h
    cases h
  | ok r =>
    rw [hp] at h
    exact ⟨r.1, r.2, rfl, h⟩

theorem advance_ok {a : Unit} (h : advance s = .ok (a, s')) :
    ahead s = s.current.token :: ahead s' ∨ ahead s' = ahead s := by
  obtain ⟨_, _, ⟨⟩, h⟩ := bind_ok h
  cases hrest : s.rest with
  | cons l rest =>
    rw [hrest] at h
    cases h
    exact .inl (by simp [ahead, hrest])
  | nil =>
    rw [hrest] at h
    cases he : s.lexError with
    | some e =>
      rw [he] at h
      cases h
    | none =>
      rw [he] at h
      cases h
      exact .inr (by simp [ahead, hrest])

theorem advance_cons {a : Unit} {l : Lexeme} {rest : List Lexeme} (hrest : s.rest = l :: rest)
    (h : advance s = .ok (a, s')) : s'.current = l := by
  obtain ⟨_, _, ⟨⟩, h⟩ := bind_ok h
  rw [hrest] at h
  cases h
  rfl

theorem peekNext_ok (h : peekNext s = .ok (t, s')) :
    s' = s ∧ (t = .eof ∨ ∃ l rest, s.rest = l :: rest ∧ l.token = t) := by
  obtain ⟨_, _, ⟨⟩, h⟩ := bind_ok h
  cases hrest : s.rest with
  | cons l rest =>
    rw [hrest] at h
    cases h
    exact ⟨rfl, .inr ⟨l, rest, rfl, rfl⟩⟩
  | nil =>
    rw [hrest] at h
    cases he : s.lexError with
    | some e =>
      rw [he] at h
      cases h
    | none =>
      rw [he] at h
      cases h
      exact ⟨rfl, .inl rfl⟩

/-- Past one token to one that it does not clash with. -/
theorem Passes.advance {a : Unit} (ht : s.current.token ≠ .char '!')
    (hclash : ¬ Clash s.current.token s'.current.token) (h : advance s = .ok (a, s')) :
    Passes s s' := by
  rcases advance_ok h with heq | heq
  · exact ⟨[s.current.token], heq, by simpa using ht.symm, by simpa using hclash⟩
  · exact .of_ahead_eq heq

/-! ### Rules -/

/-- What a parser goes past has no `!` and no clash. -/
def Keeps (p : Parser α) : Prop := ∀ s a s', p s = .ok (a, s') → Passes s s'

/-- As `Keeps`, from a state with this current token. -/
def KeepsAt (t : Token) (p : Parser α) : Prop :=
  ∀ s a s', s.current.token = t → p s = .ok (a, s') → Passes s s'

/-- A parser that goes past nothing. -/
def Still (p : Parser α) : Prop := ∀ s a s', p s = .ok (a, s') → ahead s' = ahead s

/-- A parser that fails at a token. -/
def Refuses (t : Token) (p : Parser α) : Prop :=
  ∀ s a s', s.current.token = t → p s ≠ .ok (a, s')

theorem Still.pure (a : α) : Still (pure a) := by
  rintro s _ _ ⟨⟩
  rfl

theorem Still.bind (hp : Still p) (hf : ∀ a, Still (f a)) : Still (p >>= f) := by
  intro s b s'' h
  obtain ⟨a, s', ha, hb⟩ := bind_ok h
  exact (hf a s' b s'' hb).trans (hp s a s' ha)

theorem Still.modify {g : ParserState → ParserState} (hg : ∀ s, ahead (g s) = ahead s) :
    Still (modify g) := by
  rintro s _ _ ⟨⟩
  exact hg s

theorem Still.forIn {γ : Type} (r : Std.Legacy.Range) {a : γ} {g : Nat → γ → Parser (ForInStep γ)}
    (hg : ∀ i a, Still (g i a)) : Still (forIn r a g) := by
  rw [Std.Legacy.Range.forIn_eq_forIn_range']
  generalize List.range' _ _ _ = is
  induction is generalizing a with
  | nil => exact .pure a
  | cons i is ih =>
    rw [List.forIn_cons]
    refine (hg i a).bind fun step => ?_
    cases step with
    | done a => exact .pure a
    | yield a => exact ih

theorem Still.keeps (hp : Still p) : Keeps p := fun s a s' h => .of_ahead_eq (hp s a s' h)

theorem Keeps.pure (a : α) : Keeps (pure a) := (Still.pure a).keeps

theorem Keeps.bind (hp : Keeps p) (hf : ∀ a, Keeps (f a)) : Keeps (p >>= f) := by
  intro s b s'' h
  obtain ⟨a, s', ha, hb⟩ := bind_ok h
  exact (hp s a s' ha).trans (hf a s' b s'' hb)

theorem Keeps.ite {c : Prop} [Decidable c] {q : Parser α} (hp : Keeps p) (hq : Keeps q) :
    Keeps (if c then p else q) := by
  split
  · exact hp
  · exact hq

/-- A part that may be left out, for which `a` stands then. -/
theorem Keeps.optional {c : Prop} [Decidable c] {a : α} (hp : Keeps p) (hf : ∀ a, Keeps (f a)) :
    Keeps (if c then p >>= f else Pure.pure a >>= f) := .ite (hp.bind hf) ((Keeps.pure a).bind hf)

theorem Still.then (hp : Still p) (hf : ∀ a, Keeps (f a)) : Keeps (p >>= f) := hp.keeps.bind hf

/-- A look at the current token. -/
theorem Keeps.peek {f : Token → Parser β} (hf : ∀ t, KeepsAt t (f t)) : Keeps (peek >>= f) :=
  fun s b s' h => hf s.current.token s b s' rfl h

theorem Keeps.at (hp : Keeps p) : KeepsAt t p := fun s a s' _ h => hp s a s' h

theorem KeepsAt.still (hp : Still p) (hf : ∀ a, KeepsAt t (f a)) : KeepsAt t (p >>= f) := by
  intro s b s'' ht h
  obtain ⟨a, s', ha, hb⟩ := bind_ok h
  have heq := hp s a s' ha
  exact (Passes.of_ahead_eq heq).trans (hf a s' b s'' ((current_eq heq).trans ht) hb)

theorem KeepsAt.bind (hp : KeepsAt t p) (hf : ∀ a, Keeps (f a)) : KeepsAt t (p >>= f) := by
  intro s b s'' ht h
  obtain ⟨a, s', ha, hb⟩ := bind_ok h
  exact (hp s a s' ht ha).trans (hf a s' b s'' hb)

/-- One way for a token, another for all others. -/
theorem KeepsAt.ite {q : Parser α} (hp : t = u → KeepsAt u p) (hq : KeepsAt t q) :
    KeepsAt t (if t = u then p else q) := by
  split
  next h => exact h ▸ hp h
  next => exact hq

theorem KeepsAt.advance {f : Unit → Parser β} (ht : Plain t) (hf : ∀ u, Keeps (f u)) :
    KeepsAt t (advance >>= f) := by
  rintro s b s'' rfl h
  obtain ⟨a, s', ha, hb⟩ := bind_ok h
  have hne : s.current.token ≠ .char '!' := fun heq => ht (by simp [heq])
  exact (Passes.advance hne (ht.not_clash _) ha).trans (hf a s' b s'' hb)

/-- Past a binary operator to an operand. -/
theorem KeepsAt.operator {f : Unit → Parser β} (ht : t ≠ .char '!') (hf : ∀ u, Keeps (f u))
    (hrefuses : ∀ u a, Clash t u → Refuses u (f a)) : KeepsAt t (Parser.advance >>= f) := by
  rintro s b s'' rfl h
  obtain ⟨a, s', ha, hb⟩ := bind_ok h
  have hclash : ¬ Clash s.current.token s'.current.token :=
    fun hclash => hrefuses _ a hclash s' b s'' rfl hb
  exact (Passes.advance ht hclash ha).trans (hf a s' b s'' hb)

/-! ### Parsers without recursion -/

theorem still_fail (e : SyntaxFault) : Still (fail e : Parser α) := by rintro s a s' ⟨⟩

theorem still_failBare (e : SyntaxFault) : Still (failBare e : Parser α) := by rintro s a s' ⟨⟩

theorem still_exhausted : Still (exhausted : Parser α) := by rintro s a s' ⟨⟩

theorem still_failLimit (g : FunctionScope) (what : String) (limit : Nat) :
    Still (failLimit g what limit : Parser α) := still_fail _

/-- Nothing comes after a fault. -/
theorem keeps_fail_bind (e : SyntaxFault) (f : α → Parser β) : Keeps (fail e >>= f) := by
  rintro s a s' ⟨⟩

theorem keeps_failBare_bind (e : SyntaxFault) (f : α → Parser β) : Keeps (failBare e >>= f) := by
  rintro s a s' ⟨⟩

theorem still_peek : Still peek := by rintro s _ _ ⟨⟩; rfl

theorem still_line : Still line := by rintro s _ _ ⟨⟩; rfl

theorem still_lastLine : Still lastLine := by rintro s _ _ ⟨⟩; rfl

theorem still_scope : Still scope := by rintro s _ _ ⟨⟩; rfl

theorem still_shallower : Still shallower := .modify fun _ => rfl

theorem still_deeper : Still deeper := by
  intro s a s' h
  unfold deeper at h
  obtain ⟨_, _, ⟨⟩, h⟩ := bind_ok h
  split at h
  · cases h
  · cases h
    rfl

theorem still_functions (g : List FunctionScope → List FunctionScope) :
    Still (modify fun s => { s with functions := g s.functions }) := .modify fun _ => rfl

theorem still_modifyScope (g : FunctionScope → FunctionScope) : Still (modifyScope g) :=
  .modify fun s => by cases hs : s.functions <;> simp [ahead]

theorem still_declare (v : Variable) : Still (declare v) := by
  refine still_scope.bind fun _ => ?_
  dsimp only
  split
  · exact (still_failLimit _ _ _).bind fun _ => still_modifyScope _
  · exact still_modifyScope _

theorem still_resolve (n : String) : Still (resolve n) := by
  intro s a s' h
  unfold resolve at h
  obtain ⟨_, _, ⟨⟩, h⟩ := bind_ok h
  cases hr : resolveName n s.functions with
  | error g =>
    rw [hr] at h
    cases h
  | ok r =>
    rw [hr] at h
    cases h
    rfl

theorem still_variableExpr (n : String) : Still (variableExpr n) := by
  refine (still_resolve n).bind fun r => ?_
  split
  · exact .pure _
  · exact .pure _
  · refine still_lastLine.bind fun _ => (still_resolve _).bind fun r => ?_
    split <;> exact .pure _

theorem still_leaveBlock : Still leaveBlock := by
  refine still_scope.bind fun g => (still_modifyScope _).bind fun _ => ?_
  split
  · exact .pure _
  · split <;> exact still_failBare _

theorem still_gotoStatement (n : String) (opened : Nat) : Still (gotoStatement n opened) := by
  refine still_scope.bind fun g => ?_
  dsimp only
  split
  · exact (still_modifyScope _).bind fun _ => .pure _
  · exact .pure _

theorem keeps_accept (ht : Plain t) : Keeps (accept t) :=
  .peek fun _ => .ite (fun _ => .advance ht fun _ => .pure _) (Keeps.pure _).at

theorem check_ok {a : Unit} (h : check t s = .ok (a, s')) : s.current.token = t ∧ s' = s := by
  unfold check at h
  obtain ⟨_, _, ⟨⟩, h⟩ := bind_ok h
  split at h
  case isTrue => cases h
  case isFalse heq =>
    cases h
    exact ⟨not_not.1 heq, rfl⟩

theorem keeps_expect (ht : Plain t) : Keeps (expect t) := by
  intro s a s' h
  obtain ⟨_, _, hcheck, hadvance⟩ := bind_ok h
  obtain ⟨rfl, rfl⟩ := check_ok hcheck
  exact .advance (fun heq => ht (by simp [heq])) (ht.not_clash _) hadvance

theorem keeps_expectMatch (ht : Plain t) (opener : Token) (opened : Nat) :
    Keeps (expectMatch t opener opened) := by
  refine (keeps_accept ht).bind fun b => ?_
  cases b
  · exact still_line.then fun _ => (still_fail _).keeps.ite (still_fail _).keeps
  · exact .pure _

theorem keeps_name : Keeps name := by
  refine .peek fun t => ?_
  split
  · exact .advance (plain_name _) fun _ => .pure _
  · exact (still_fail _).keeps.at

/-- A field's name with the sign that shows it to be one. -/
theorem keepsAt_fieldName {n : String} {f : Unit → Parser β} {q : Parser β} (hf : ∀ u, Keeps (f u))
    (hq : Keeps q) :
    KeepsAt (.name n) (peekNext >>= fun t =>
      if t = .char '=' then advance >>= fun _ => advance >>= f else q) := by
  intro s b s'' ht h
  obtain ⟨t, s', hnext, hrest⟩ := bind_ok h
  obtain ⟨rfl, hnext⟩ := peekNext_ok hnext
  clear h
  split at hrest
  case isFalse => exact hq _ _ _ hrest
  case isTrue heq =>
    obtain ⟨l, rest, hcons, hl⟩ := hnext.resolve_left (by simp [heq, Token.char])
    obtain ⟨_, s₁, hfirst, hsecond⟩ := bind_ok hrest
    have hpast : Passes s' s₁ := by
      refine .advance ?_ (ht ▸ (plain_name n).not_clash _) hfirst
      simp [ht, Token.char]
    have heq' : s₁.current.token = .char '=' := by rw [advance_cons hcons hfirst, hl, heq]
    exact hpast.trans (KeepsAt.advance (by decide) hf _ _ _ heq' hsecond)

theorem keeps_constant (ht : Plain t) (c : Const) : KeepsAt t (constant c) :=
  .advance ht fun _ => .pure _

theorem keeps_localKind : Keeps localKind := by
  refine (keeps_accept (by decide)).bind fun b => ?_
  refine .ite (keeps_name.bind fun a => (keeps_expect (by decide)).bind fun _ => ?_) (.pure _)
  exact .ite (.pure _) (.ite (.pure _) (still_failBare _).keeps)

/-! ### Where an operand may begin -/

theorem Refuses.bind (hp : Refuses t p) (f : α → Parser β) : Refuses t (p >>= f) := by
  intro s b s'' ht h
  obtain ⟨a, s', ha, -⟩ := bind_ok h
  exact hp s a s' ht ha

theorem Refuses.still (hp : Still p) (hf : ∀ a, Refuses t (f a)) : Refuses t (p >>= f) := by
  intro s b s'' ht h
  obtain ⟨a, s', ha, hb⟩ := bind_ok h
  exact hf a s' b s'' ((current_eq (hp s a s' ha)).trans ht) hb

theorem Refuses.peek {f : Token → Parser β} (hf : Refuses t (f t)) : Refuses t (peek >>= f) := by
  rintro s b s' rfl h
  exact hf s b s' rfl h

theorem refuses_fail (t : Token) (e : SyntaxFault) : Refuses t (fail e : Parser α) := by
  rintro s a s' - ⟨⟩

theorem refuses_exhausted (t : Token) : Refuses t (exhausted : Parser α) := by
  rintro s a s' - ⟨⟩

/-- The signs of operators that are only binary. -/
def isInfix (t : Token) : Prop := t = .char '&' ∨ t = .char '|' ∨ t = .char '*'

theorem Clash.isInfix (h : Clash t u) : isInfix u := by
  rcases h with ⟨-, rfl⟩ | ⟨-, rfl⟩ | ⟨-, rfl⟩ <;> simp [Parser.isInfix]

theorem primaryExpr_refuses (ht : isInfix t) (fuel : Nat) : Refuses t (primaryExpr fuel) := by
  cases fuel with
  | zero => exact refuses_exhausted t
  | succ fuel =>
    rw [primaryExpr]
    refine .peek ?_
    obtain rfl | rfl | rfl := ht <;> exact refuses_fail _ _

theorem simpleExpr_refuses (ht : isInfix t) (fuel : Nat) : Refuses t (simpleExpr fuel) := by
  have hsuffixed : Refuses t (suffixedExpr (fuel - 1)) := by
    cases fuel - 1 with
    | zero => exact refuses_exhausted t
    | succ fuel => exact (primaryExpr_refuses ht fuel).bind _
  cases fuel with
  | zero => exact refuses_exhausted t
  | succ fuel =>
    rw [simpleExpr]
    refine .peek ?_
    obtain rfl | rfl | rfl := ht <;> exact hsuffixed.bind _

/-- No operand begins with the sign of an operator that is only binary. -/
theorem subExpr_refuses (ht : isInfix t) (limit fuel : Nat) : Refuses t (subExpr limit fuel) := by
  cases fuel with
  | zero => exact refuses_exhausted t
  | succ fuel =>
    have hsimple := simpleExpr_refuses ht fuel
    rw [subExpr]
    refine .still still_deeper fun _ => .peek ?_
    obtain rfl | rfl | rfl := ht <;> exact hsimple.bind _

/-! ### The grammar -/

/-- What the functions of the grammar go past, within a bound on the depth of their calls. -/
structure AllKeep (fuel : Nat) : Prop where
  primaryExpr : Keeps (primaryExpr fuel)
  callArgs : Keeps (callArgs fuel)
  suffixes (e : Suffixed) : Keeps (suffixes e fuel)
  suffixedExpr : Keeps (suffixedExpr fuel)
  simpleExpr : Keeps (simpleExpr fuel)
  subExpr (limit : Nat) : Keeps (subExpr limit fuel)
  operators (limit : Nat) (e : Expr) : Keeps (operators limit e fuel)
  expr : Keeps (expr fuel)
  exprList : Keeps (exprList fuel)
  tableExpr : Keeps (tableExpr fuel)
  tableItems : Keeps (tableItems fuel)
  tableItem : Keeps (tableItem fuel)
  parameters : Keeps (parameters fuel)
  functionBody (isMethod : Bool) (opened : Nat) : Keeps (functionBody isMethod opened fuel)
  statements : Keeps (statements fuel)
  block : Keeps (block fuel)
  statement : Keeps (statement fuel)
  ifStatement (k : Keyword) (opened : Nat) : KeepsAt (.keyword k) (ifStatement opened fuel)
  forStatement (k : Keyword) (opened : Nat) : KeepsAt (.keyword k) (forStatement opened fuel)
  numericFor (n : String) (opened : Nat) : Keeps (numericFor n opened fuel)
  genericFor (n : String) : Keeps (genericFor n fuel)
  moreNames : Keeps (moreNames fuel)
  forBody (count : Nat) : Keeps (forBody count fuel)
  functionStatement (k : Keyword) (opened : Nat) :
    KeepsAt (.keyword k) (functionStatement opened fuel)
  functionName (e : Expr) : Keeps (functionName e fuel)
  localStatement : Keeps (localStatement fuel)
  localNames (slot : Nat) (closing : Option Nat) : Keeps (localNames slot closing fuel)
  labelStatement (n : String) (opened : Nat) : Keeps (labelStatement n opened fuel)
  noOps : Keeps (noOps fuel)
  exprStatement : Keeps (exprStatement fuel)
  assignment (e : Suffixed) : Keeps (assignment e fuel)

section

variable {fuel : Nat} (h : AllKeep fuel)

include h

theorem keeps_primaryExpr : Keeps (primaryExpr (fuel + 1)) := by
  rw [primaryExpr]
  refine .peek fun t => ?_
  split
  · exact .advance (plain_name _) fun _ => (still_variableExpr _).then fun _ => .pure _
  · refine .ite (fun _ => .still still_line fun _ => ?_) (still_fail _).keeps.at
    exact .advance (by decide) fun _ => h.expr.bind fun _ =>
      (keeps_expectMatch (by decide) _ _).bind fun _ => .pure _
  · exact (still_fail _).keeps.at

theorem keeps_callArgs : Keeps (callArgs (fuel + 1)) := by
  rw [callArgs]
  refine .peek fun t => ?_
  split
  · exact .advance (plain_string _) fun _ => .pure _
  · refine .ite (fun _ => (h.tableExpr.bind fun _ => .pure _).at) ?_
    refine .ite (fun _ => .still still_line fun _ => ?_) (still_fail _).keeps.at
    exact .advance (by decide) fun _ => (keeps_accept (by decide)).bind fun _ =>
      .ite (.pure _) (h.exprList.bind fun _ =>
        (keeps_expectMatch (by decide) _ _).bind fun _ => .pure _)

theorem keeps_suffixes (e : Suffixed) : Keeps (suffixes e (fuel + 1)) := by
  have hcall (after : List Expr → Nat → Suffixed) :
      Keeps (line >>= fun line => Parser.callArgs fuel >>= fun args =>
        Parser.suffixes (after args line) fuel) :=
    still_line.then fun _ => h.callArgs.bind fun _ => h.suffixes _
  rw [suffixes]
  refine .peek fun t => ?_
  refine .ite (fun _ => .advance (by decide) fun _ => ?_) ?_
  · exact keeps_name.bind fun _ => still_lastLine.then fun _ => h.suffixes _
  refine .ite (fun _ => .advance (by decide) fun _ => ?_) ?_
  · exact h.expr.bind fun _ => (keeps_expect (by decide)).bind fun _ =>
      still_lastLine.then fun _ => h.suffixes _
  refine .ite (fun _ => .advance (by decide) fun _ => ?_) ?_
  · exact keeps_name.bind fun _ => hcall fun _ _ => _
  split
  · exact (hcall fun _ _ => _).at
  · exact (Keeps.ite (hcall fun _ _ => _) (.pure _)).at

theorem keeps_suffixedExpr : Keeps (suffixedExpr (fuel + 1)) :=
  h.primaryExpr.bind fun _ => h.suffixes _

theorem keeps_simpleExpr : Keeps (simpleExpr (fuel + 1)) := by
  rw [simpleExpr]
  refine .peek fun t => ?_
  split
  iterate 5 exact keeps_constant (by simp) _
  · refine .still still_scope fun g => ?_
    dsimp only
    split
    · exact (keeps_fail_bind _ _).at
    · exact .advance (plain_sign _) fun _ => .pure _
  · exact .advance (plain_keyword _) fun _ => still_line.then fun _ =>
      (h.functionBody _ _).bind fun _ => .pure _
  · exact .ite (fun _ => h.tableExpr.at) (h.suffixedExpr.bind fun _ => .pure _).at

theorem keeps_subExpr (limit : Nat) : Keeps (subExpr limit (fuel + 1)) := by
  have hafter (first : Expr) : Keeps (Parser.operators limit first fuel >>= fun e =>
      shallower >>= fun _ => Pure.pure e) :=
    (h.operators _ _).bind fun _ => still_shallower.then fun _ => .pure _
  rw [subExpr]
  refine still_deeper.then fun _ => .peek fun t => ?_
  dsimp only
  split
  case h_1 op hop =>
    have ht : Plain t := by
      intro hmem
      simp only [List.mem_cons, List.not_mem_nil, or_false] at hmem
      obtain rfl | rfl | rfl | rfl := hmem
      all_goals simp [unaryOp?, Token.char] at hop
    exact .still still_line fun _ => .advance ht fun _ => (h.subExpr _).bind fun _ => hafter _
  case h_2 => exact (h.simpleExpr.bind hafter).at

theorem keeps_operators (limit : Nat) (e : Expr) : Keeps (operators limit e (fuel + 1)) := by
  rw [operators]
  refine .peek fun t => ?_
  split
  case h_1 op left right hop =>
    split
    · have ht : t ≠ .char '!' := by
        rintro rfl
        cases (rfl : binaryOp? (.char '!') = none).symm.trans hop
      refine .still still_line fun _ => .operator ht (fun _ => ?_) fun u _ hclash => ?_
      · exact (h.subExpr _).bind fun _ => h.operators _ _
      · exact (subExpr_refuses hclash.isInfix _ _).bind _
    · exact (Keeps.pure _).at
  case h_2 => exact (Keeps.pure _).at

theorem keeps_expr : Keeps (expr (fuel + 1)) := h.subExpr 0

theorem keeps_exprList : Keeps (exprList (fuel + 1)) :=
  h.expr.bind fun _ => (keeps_accept (by decide)).bind fun _ =>
    .ite (h.exprList.bind fun _ => .pure _) (.pure _)

theorem keeps_tableExpr : Keeps (tableExpr (fuel + 1)) :=
  still_line.then fun _ => (keeps_expect (by decide)).bind fun _ => h.tableItems.bind fun _ =>
    (keeps_expectMatch (by decide) _ _).bind fun _ => .pure _

theorem keeps_tableItems : Keeps (tableItems (fuel + 1)) := by
  have hmore (item : Item) :
      Keeps (Parser.tableItems fuel >>= fun items => Pure.pure (item :: items)) :=
    h.tableItems.bind fun _ => .pure _
  refine still_peek.then fun _ => .ite (.pure _) (h.tableItem.bind fun item => ?_)
  exact (keeps_accept (by decide)).bind fun _ => .ite (hmore item)
    ((keeps_accept (by decide)).bind fun _ => .ite (hmore item) (.pure _))

theorem keeps_tableItem : Keeps (tableItem (fuel + 1)) := by
  have hpositional : Keeps (Parser.expr fuel >>= fun e => Pure.pure (Item.positional e)) :=
    h.expr.bind fun _ => .pure _
  rw [tableItem]
  refine .peek fun t => ?_
  split
  · exact keepsAt_fieldName (fun _ => h.expr.bind fun _ => still_lastLine.then fun _ => .pure _)
      hpositional
  · refine .ite (fun _ => .advance (by decide) fun _ => ?_) hpositional.at
    exact h.expr.bind fun _ => (keeps_expect (by decide)).bind fun _ =>
      (keeps_expect (by decide)).bind fun _ => h.expr.bind fun _ =>
        still_lastLine.then fun _ => .pure _

theorem keeps_parameters : Keeps (parameters (fuel + 1)) := by
  rw [parameters]
  refine .peek fun t => ?_
  split
  · refine .advance (plain_name _) fun _ => (still_declare _).then fun _ => ?_
    exact (keeps_accept (by decide)).bind fun _ =>
      .ite (h.parameters.bind fun _ => .pure _) (.pure _)
  · exact .advance (plain_sign _) fun _ => .pure _
  · exact (still_fail _).keeps.at

theorem keeps_functionBody (isMethod : Bool) (opened : Nat) :
    Keeps (functionBody isMethod opened (fuel + 1)) := by
  rw [functionBody]
  refine (still_functions (FunctionScope.start opened :: ·)).then fun _ => ?_
  refine (keeps_expect (by decide)).bind fun _ => ?_
  -- With a receiver or without one, with parameters or without any: what follows is the same.
  refine .ite ((still_declare _).then fun _ => (still_modifyScope _).then fun _ => ?_) ?_
  all_goals
    refine still_peek.then fun _ =>
      .ite ((Keeps.pure _).bind fun _ => ?_) (h.parameters.bind fun _ => ?_)
    all_goals
      refine (still_modifyScope _).then fun _ => (still_modifyScope _).then fun _ => ?_
      refine (keeps_expect (by decide)).bind fun _ => h.statements.bind fun _ => ?_
      refine still_line.then fun _ => (keeps_expectMatch (by simp) _ _).bind fun _ => ?_
      exact still_leaveBlock.then fun _ => still_scope.then fun _ =>
        (still_functions (List.drop 1)).then fun _ => .pure _

theorem keeps_statements : Keeps (statements (fuel + 1)) :=
  still_peek.then fun _ => .ite (.pure _) (h.statement.bind fun _ => .ite (.pure _)
    (h.statements.bind fun _ => .pure _))

theorem keeps_block : Keeps (block (fuel + 1)) :=
  (still_modifyScope _).then fun _ => h.statements.bind fun _ =>
    still_leaveBlock.then fun _ => .pure _

theorem keeps_ifStatement (k : Keyword) (opened : Nat) :
    KeepsAt (.keyword k) (ifStatement opened (fuel + 1)) := by
  rw [ifStatement]
  refine .advance (plain_keyword k) fun _ => h.expr.bind fun _ => ?_
  refine (keeps_expect (plain_keyword _)).bind fun _ => h.block.bind fun _ => .peek fun t => ?_
  split
  · exact (h.ifStatement _ _).bind fun _ => .pure _
  · exact .advance (plain_keyword _) fun _ => h.block.bind fun _ =>
      (keeps_expectMatch (plain_keyword _) _ _).bind fun _ => .pure _
  · exact ((keeps_expectMatch (plain_keyword _) _ _).bind fun _ => .pure _).at

theorem keeps_forStatement (k : Keyword) (opened : Nat) :
    KeepsAt (.keyword k) (forStatement opened (fuel + 1)) := by
  have hafter (s : Stat) : Keeps (expectMatch (.keyword .end) (.keyword .for) opened >>= fun _ =>
      leaveBlock >>= fun _ => Pure.pure [s]) :=
    (keeps_expectMatch (plain_keyword _) _ _).bind fun _ => still_leaveBlock.then fun _ => .pure _
  rw [forStatement]
  refine .still (still_modifyScope _) fun _ => .advance (plain_keyword k) fun _ => ?_
  refine keeps_name.bind fun n => .peek fun t => ?_
  dsimp only
  split
  · exact ((h.genericFor n).bind hafter).at
  · refine .ite (fun _ => ((h.genericFor n).bind hafter).at) ?_
    exact .ite (fun _ => ((h.numericFor n opened).bind hafter).at) (keeps_fail_bind _ _).at

theorem keeps_numericFor (n : String) (opened : Nat) : Keeps (numericFor n opened (fuel + 1)) := by
  rw [numericFor]
  refine (Still.forIn _ fun _ _ => (still_declare _).bind fun _ => .pure _).then fun _ => ?_
  refine (still_declare _).then fun _ => (keeps_expect (by decide)).bind fun _ => ?_
  refine h.expr.bind fun _ => (keeps_expect (by decide)).bind fun _ => h.expr.bind fun _ => ?_
  refine (keeps_accept (by decide)).bind fun _ => ?_
  exact .optional h.expr fun _ => (still_modifyScope _).then fun _ => (h.forBody _).bind fun _ =>
    .pure _

theorem keeps_genericFor (n : String) : Keeps (genericFor n (fuel + 1)) := by
  rw [genericFor]
  refine (Still.forIn _ fun _ _ => (still_declare _).bind fun _ => .pure _).then fun _ => ?_
  refine (still_declare _).then fun _ => h.moreNames.bind fun _ => ?_
  refine (keeps_expect (plain_keyword _)).bind fun _ => still_line.then fun _ => ?_
  exact h.exprList.bind fun _ => (still_modifyScope _).then fun _ =>
    (h.forBody _).bind fun _ => .pure _

theorem keeps_moreNames : Keeps (moreNames (fuel + 1)) :=
  (keeps_accept (by decide)).bind fun _ => .ite
    (keeps_name.bind fun _ => (still_declare _).then fun _ => h.moreNames.bind fun _ => .pure _)
    (.pure _)

theorem keeps_forBody (count : Nat) : Keeps (forBody count (fuel + 1)) :=
  (keeps_expect (plain_keyword _)).bind fun _ => (still_modifyScope _).then fun _ =>
    (still_modifyScope _).then fun _ => h.block.bind fun _ => still_leaveBlock.then fun _ => .pure _

theorem keeps_functionStatement (k : Keyword) (opened : Nat) :
    KeepsAt (.keyword k) (functionStatement opened (fuel + 1)) :=
  .advance (plain_keyword k) fun _ => keeps_name.bind fun _ => (still_variableExpr _).then fun _ =>
    (h.functionName _).bind fun _ => (h.functionBody _ _).bind fun _ =>
      .ite (keeps_failBare_bind _ _) (.pure _)

theorem keeps_functionName (e : Expr) : Keeps (functionName e (fuel + 1)) := by
  refine (keeps_accept (by decide)).bind fun _ => .ite ?_ ?_
  · exact keeps_name.bind fun _ => still_lastLine.then fun _ =>
      (h.functionName _).bind fun _ => .pure _
  · refine (keeps_accept (by decide)).bind fun _ => .ite ?_ (.pure _)
    exact keeps_name.bind fun _ => still_lastLine.then fun _ => .pure _

theorem keeps_localStatement : Keeps (localStatement (fuel + 1)) := by
  rw [localStatement]
  refine still_scope.then fun _ => (h.localNames _ _).bind fun r => ?_
  refine (keeps_accept (by decide)).bind fun b => ?_
  refine .optional h.exprList fun values => still_scope.then fun g => ?_
  dsimp only
  split
  · exact (still_modifyScope _).then fun _ => (still_modifyScope _).then fun _ =>
      still_lastLine.then fun _ => .pure _
  · exact (still_modifyScope _).then fun _ => still_lastLine.then fun _ => .pure _

theorem keeps_localNames (slot : Nat) (closing : Option Nat) :
    Keeps (localNames slot closing (fuel + 1)) := by
  have hafter (n : String) (closing : Option Nat) : Keeps (accept (.char ',') >>= fun b =>
      if b then Parser.localNames (slot + 1) closing fuel >>= fun r => Pure.pure (n :: r.1, r.2)
      else Pure.pure ([n], closing)) :=
    (keeps_accept (by decide)).bind fun _ =>
      .ite ((h.localNames _ _).bind fun _ => .pure _) (.pure _)
  rw [localNames]
  refine keeps_name.bind fun n => (still_declare _).then fun _ => ?_
  refine keeps_localKind.bind fun kind => ?_
  refine (still_modifyScope _).then fun _ => ?_
  dsimp only
  split
  · exact keeps_failBare_bind _ _
  · exact hafter n _
  · exact hafter n _

theorem keeps_labelStatement (n : String) (opened : Nat) :
    Keeps (labelStatement n opened (fuel + 1)) := by
  rw [labelStatement]
  refine (keeps_expect (plain_sign _)).bind fun _ => h.noOps.bind fun _ => ?_
  refine still_scope.then fun _ => ?_
  split
  · exact (still_failBare _).keeps
  · refine still_peek.then fun _ => still_scope.then fun _ => ?_
    dsimp only
    split
    · exact (still_failBare _).keeps
    · exact (still_modifyScope _).then fun _ => .pure _

theorem keeps_noOps : Keeps (noOps (fuel + 1)) :=
  still_peek.then fun _ => .ite (h.statement.bind fun _ => h.noOps.bind fun _ => .pure _) (.pure _)

theorem keeps_exprStatement : Keeps (exprStatement (fuel + 1)) :=
  h.suffixedExpr.bind fun _ => still_peek.then fun _ => .ite
    ((h.assignment _).bind fun _ => still_lastLine.then fun _ => .pure _)
    (.ite (.pure _) (still_fail _).keeps)

theorem keeps_assignment (e : Suffixed) : Keeps (assignment e (fuel + 1)) := by
  rw [assignment]
  refine .ite (keeps_fail_bind _ _) ?_
  dsimp only
  split
  · exact keeps_failBare_bind _ _
  · refine (keeps_accept (by decide)).bind fun _ => .ite ?_ ?_
    · refine h.suffixedExpr.bind fun _ => still_deeper.then fun _ => ?_
      exact (h.assignment _).bind fun _ => still_shallower.then fun _ => .pure _
    · exact (keeps_expect (by decide)).bind fun _ => h.exprList.bind fun _ => .pure _

theorem keeps_statement : Keeps (statement (fuel + 1)) := by
  have hafter (s : List Stat) : Keeps (shallower >>= fun _ => Pure.pure s) :=
    still_shallower.then fun _ => .pure s
  rw [statement]
  refine still_line.then fun opened => still_deeper.then fun _ => .peek fun t => ?_
  dsimp only
  split
  case h_1 => exact (h.ifStatement _ _).bind hafter
  case h_2 =>
    refine .advance (plain_keyword _) fun _ => h.expr.bind fun _ => ?_
    refine (still_modifyScope _).then fun _ => ?_
    exact (keeps_expect (plain_keyword _)).bind fun _ => h.block.bind fun _ =>
      (keeps_expectMatch (plain_keyword _) _ _).bind fun _ => still_leaveBlock.then fun _ => hafter _
  case h_3 =>
    exact .advance (plain_keyword _) fun _ => h.block.bind fun _ =>
      (keeps_expectMatch (plain_keyword _) _ _).bind fun _ => hafter _
  case h_4 => exact (h.forStatement _ _).bind hafter
  case h_5 =>
    refine .still (still_modifyScope _) fun _ => .still (still_modifyScope _) fun _ => ?_
    refine .advance (plain_keyword _) fun _ => h.statements.bind fun _ => ?_
    exact (keeps_expectMatch (plain_keyword _) _ _).bind fun _ => h.expr.bind fun _ =>
      still_leaveBlock.then fun _ => still_leaveBlock.then fun _ => hafter _
  case h_6 => exact (h.functionStatement _ _).bind hafter
  case h_7 =>
    refine .advance (plain_keyword _) fun _ => (keeps_accept (plain_keyword _)).bind fun _ => ?_
    refine .ite ?_ (h.localStatement.bind hafter)
    refine keeps_name.bind fun _ => (still_declare _).then fun _ => ?_
    exact (still_modifyScope _).then fun _ => still_line.then fun _ =>
      (h.functionBody _ _).bind fun _ => hafter _
  case h_8 =>
    exact .advance (plain_sign _) fun _ => keeps_name.bind fun _ =>
      (h.labelStatement _ _).bind hafter
  case h_9 =>
    have hreturn (values : List Expr) : Keeps (lastLine >>= fun line =>
        discard (accept (.char ';')) >>= fun _ => shallower >>= fun _ =>
          Pure.pure [Stat.return values line]) :=
      still_lastLine.then fun _ =>
        ((keeps_accept (by decide)).bind fun _ => .pure _).bind fun _ => hafter _
    exact .advance (plain_keyword _) fun _ => still_peek.then fun _ => still_peek.then fun _ =>
      .ite (hreturn []) (h.exprList.bind hreturn)
  case h_10 =>
    exact .advance (plain_keyword _) fun _ => still_scope.then fun _ =>
      (still_modifyScope _).then fun _ => hafter _
  case h_11 =>
    exact .advance (plain_keyword _) fun _ => keeps_name.bind fun _ =>
      (still_gotoStatement _ _).then hafter
  case h_12 =>
    exact .ite (fun _ => .advance (by decide) fun _ => hafter _) (h.exprStatement.bind hafter).at

end

theorem allKeep (fuel : Nat) : AllKeep fuel := by
  induction fuel with
  | zero =>
    constructor <;> intros
    all_goals first | exact still_exhausted.keeps | exact still_exhausted.keeps.at
  | succ fuel ih =>
    exact {
      primaryExpr := keeps_primaryExpr ih
      callArgs := keeps_callArgs ih
      suffixes := keeps_suffixes ih
      suffixedExpr := keeps_suffixedExpr ih
      simpleExpr := keeps_simpleExpr ih
      subExpr := keeps_subExpr ih
      operators := keeps_operators ih
      expr := keeps_expr ih
      exprList := keeps_exprList ih
      tableExpr := keeps_tableExpr ih
      tableItems := keeps_tableItems ih
      tableItem := keeps_tableItem ih
      parameters := keeps_parameters ih
      functionBody := keeps_functionBody ih
      statements := keeps_statements ih
      block := keeps_block ih
      statement := keeps_statement ih
      ifStatement := keeps_ifStatement ih
      forStatement := keeps_forStatement ih
      numericFor := keeps_numericFor ih
      genericFor := keeps_genericFor ih
      moreNames := keeps_moreNames ih
      forBody := keeps_forBody ih
      functionStatement := keeps_functionStatement ih
      functionName := keeps_functionName ih
      localStatement := keeps_localStatement ih
      localNames := keeps_localNames ih
      labelStatement := keeps_labelStatement ih
      noOps := keeps_noOps ih
      exprStatement := keeps_exprStatement ih
      assignment := keeps_assignment ih }

/-! ### Chunks -/

/-- A chunk ends where its tokens end. -/
theorem chunk_ok {fuel : Nat} {b : FunctionBody} (h : chunk fuel s = .ok (b, s')) :
    ∃ s'', Passes s s'' ∧ s''.current.token = .eof := by
  obtain ⟨body, s'', hbody, h⟩ := bind_ok h
  obtain ⟨_, _, hcheck, -⟩ := bind_ok h
  exact ⟨s'', (allKeep fuel).statements s body s'' hbody, (check_ok hcheck).1⟩

/-- Tokens of which none is a `!`, and none clashes with the one after it. -/
structure Sound (ts : List Token) : Prop where
  bang : .char '!' ∉ ts
  chain : ts.IsChain fun t u => ¬ Clash t u

theorem Passes.sound (h : Passes s s') (hs' : ahead s' = [.eof]) : Sound (ahead s) := by
  obtain ⟨ts, hts, hmem, hchain⟩ := h
  obtain ⟨hcurrent, -⟩ := List.cons.inj hs'
  rw [hcurrent] at hchain
  rw [hts, hs']
  exact ⟨by simpa [Token.char] using hmem, hchain⟩

/-- Parsing a source with tokens is parsing a chunk. -/
theorem exists_chunk_of_parse {source : String} {b : FunctionBody} {l : Lexeme} {ls : List Lexeme}
    (h : parse source = .ok b) (hlex : (Lexer.lexemes source).1 = l :: ls) :
    ∃ s fuel s', ahead s = (l :: ls).map Lexeme.token ∧ chunk fuel s = .ok (b, s') := by
  generalize hread : Lexer.lexemes source = read at h hlex
  obtain ⟨_, e⟩ := read
  subst hlex
  simp only [parse, hread] at h
  cases hchunk : (chunk (20 * (l :: ls).length + 200)).run ⟨l, ls, e, 1, 0, [chunkScope]⟩ with
  | error e =>
    rw [hchunk] at h
    cases h
  | ok r =>
    rw [hchunk] at h
    cases h
    exact ⟨_, _, _, rfl, hchunk⟩

theorem lexemes_ne_nil_of_parse {source : String} {b : FunctionBody} (h : parse source = .ok b)
    (he : (Lexer.lexemes source).2 ≠ none) : (Lexer.lexemes source).1 ≠ [] := by
  intro hnil
  generalize hread : Lexer.lexemes source = read at h he hnil
  obtain ⟨_, e⟩ := read
  obtain ⟨e, rfl⟩ := Option.ne_none_iff_exists'.1 he
  subst hnil
  simp only [parse, hread] at h
  cases h

/-- A source that is a chunk is read to its end, and its tokens are sound. -/
theorem reads_of_parse {source : String} {b : FunctionBody} (h : parse source = .ok b) :
    ∃ ps stop, Lexer.Reads 1 source.toList ps stop [] ∧
      (Lexer.lexemes source).1.map Lexeme.token = Lexer.tokens ps ++ [.eof] ∧
      Sound (Lexer.tokens ps ++ [.eof]) := by
  obtain ⟨ps, stop, rest, hreads, hend⟩ := Lexer.exists_reads_lexemes source
  have heof := hreads.eof_notMem_tokens
  have hne : (Lexer.lexemes source).1 ≠ [] := by
    rcases hend with ⟨-, -, htokens⟩ | ⟨he, -⟩
    · intro hnil
      simp [hnil] at htokens
    · exact lexemes_ne_nil_of_parse h he
  obtain ⟨l, ls, hlex⟩ := List.exists_cons_of_ne_nil hne
  obtain ⟨s, fuel, _, hs, hchunk⟩ := exists_chunk_of_parse h hlex
  obtain ⟨s', hpasses, hcurrent⟩ := chunk_ok hchunk
  obtain ⟨ts, hts, -, -⟩ := id hpasses
  rw [← hlex] at hs
  -- the end of the source is only the last token, and none where an error ends the tokens
  rcases hend with ⟨rfl, -, htokens⟩ | ⟨-, htokens⟩
  · refine ⟨ps, stop, hreads, htokens, ?_⟩
    rw [← htokens, ← hs]
    refine hpasses.sound ?_
    rw [hs, htokens] at hts
    rw [ahead, hcurrent] at hts ⊢
    rcases List.eq_nil_or_concat (s'.rest.map Lexeme.token) with hnil | ⟨more, t, hmore⟩
    · rw [hnil]
    · rw [hmore, List.concat_eq_append, ← List.cons_append, ← List.append_assoc] at hts
      refine absurd ?_ heof
      rw [List.append_inj_left' hts rfl]
      simp
  · refine absurd ?_ heof
    rw [← htokens, ← hs, hts, ahead, hcurrent]
    simp

end ScriptHost.Lua.Parser
