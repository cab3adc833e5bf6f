import ScriptHost.Lua.Scope

/-! Parsing Lua chunks. The parser looks at one token and, inside table constructors, at the one after
it. Variables, labels and limits are checked as the tokens come, so that of several faults in a
source the first one is reported. Every function takes a bound on the depth of its calls, which the
length of the source sets. -/

namespace ScriptHost.Lua

/-- What the parser knows at a point of a source. -/
structure ParserState where
  current : Lexeme
  rest : List Lexeme
  lexError : Option LexError
  /-- The line on which the token before the current one ended. -/
  lastLine : Nat
  /-- How deeply statements and expressions are nested here. -/
  depth : Nat
  functions : List FunctionScope

/-- Computations of the parser. -/
abbrev Parser := StateT ParserState (Except SyntaxError)

namespace Parser

/-! ### Tokens -/

/-- A fault at the current token. -/
def fail {α : Type} (fault : SyntaxFault) : Parser α := do
  let s ← get
  throw ⟨fault, s.current.line, some s.current.text⟩

/-- A fault whose message names no token. -/
def failBare {α : Type} (fault : SyntaxFault) : Parser α := do
  let s ← get
  throw ⟨fault, s.current.line, none⟩

/-- The current token. -/
def peek : Parser Token := do return (← get).current.token

def line : Parser Nat := do return (← get).current.line

def lastLine : Parser Nat := do return (← get).lastLine

/-- Goes on to the next token. -/
def advance : Parser Unit := do
  let s ← get
  match s.rest, s.lexError with
  | l :: rest, _ => set { s with current := l, rest, lastLine := s.current.line }
  | [], some e => throw (.ofLexError e)
  | [], none => set { s with lastLine := s.current.line }

/-- The token after the current one. -/
def peekNext : Parser Token := do
  let s ← get
  match s.rest, s.lexError with
  | l :: _, _ => return l.token
  | [], some e => throw (.ofLexError e)
  | [], none => return .eof

/-- Passes a token if it is the current one. -/
def accept (t : Token) : Parser Bool := do
  if (← peek) = t then
    advance
    return true
  else return false

def check (t : Token) : Parser Unit := do
  if (← peek) ≠ t then fail (.expected t.kind)

def expect (t : Token) : Parser Unit := do
  check t
  advance

/-- Passes the token that closes what `opener` opened on a line. -/
def expectMatch (t opener : Token) (opened : Nat) : Parser Unit := do
  unless (← accept t) do
    if opened == (← line) then fail (.expected t.kind)
    else fail (.unclosed t.kind opener.kind opened)

def name : Parser String := do
  match ← peek with
  | .name s =>
    advance
    return s
  | _ => fail (.expected "<name>")

/-! ### Depth -/

/-- How deeply statements and expressions may be nested. -/
def maxDepth : Nat := 200

def deeper : Parser Unit := do
  let s ← get
  if s.depth + 1 == maxDepth then throw ⟨.tooDeep, s.current.line, none⟩
  set { s with depth := s.depth + 1 }

def shallower : Parser Unit := modify fun s => { s with depth := s.depth - 1 }

/-! ### Scopes -/

/-- The innermost function. -/
def scope : Parser FunctionScope := do return (← get).functions.headD default

def modifyScope (f : FunctionScope → FunctionScope) : Parser Unit :=
  modify fun s =>
    match s.functions with
    | g :: gs => { s with functions := f g :: gs }
    | [] => s

def failLimit {α : Type} (f : FunctionScope) (what : String) (limit : Nat) : Parser α :=
  fail (.tooMany what limit f.place)

/-- Declares a variable, which is not active yet. -/
def declare (v : Variable) : Parser Unit := do
  let f ← scope
  if f.locals.length + 1 > FunctionScope.maxVariables then
    failLimit f "local variables" FunctionScope.maxVariables
  modifyScope fun f => { f with locals := v :: f.locals }

def declareRegular (name : String) : Parser Unit := declare ⟨name, .regular⟩

/-- The name of the locals that a loop keeps for itself. -/
def hiddenName : String := "(for state)"

def activate (n : Nat) : Parser Unit := modifyScope fun f => { f with active := f.active + n }

def setNewestKind (kind : VarKind) : Parser Unit :=
  modifyScope fun f =>
    match f.locals with
    | v :: vs => { f with locals := { v with kind } :: vs }
    | [] => f

def enterBlock (isLoop : Bool) : Parser Unit := modifyScope (·.enterBlock isLoop)

/-- Leaves a block. A jump that nothing around it can answer any more has no label. -/
def leaveBlock : Parser Unit := do
  let (f, missing) := (← scope).leaveBlock
  modifyScope fun _ => f
  match missing with
  | [] => return
  | j :: _ =>
    if j.name == FunctionScope.breakName then failBare (.breakOutside j.line)
    else failBare (.labelMissing j.name j.line)

/-- The name of the table of globals. -/
def envName : String := "_ENV"

/-- Finds a variable. -/
def resolve (n : String) : Parser Resolution := do
  match resolveName n (← get).functions with
  | .error f => failLimit f "upvalues" FunctionScope.maxUpvalues
  | .ok (functions, r) =>
    modify ({ · with functions })
    return r

/-- The expression of a variable, and whether it may be assigned to. -/
def variableExpr (n : String) : Parser (Expr × Bool) := do
  match ← resolve n with
  | .place _ (.known c) => return (.const c, false)
  | .place p kind => return (.var p n, kind.isAssignable)
  | .global =>
    let line ← lastLine
    let key := Expr.const (.string (.ofString n))
    match ← resolve envName with
    | .place _ (.known c) => return (.index (.const c) key line, true)
    | .place p _ => return (.index (.var p envName) key line, true)
    | .global => return (.const .nil, true)

/-! ### Operators -/

def unaryOp? : Token → Option UnaryOp
  | .keyword .not => some .not
  | .byte b =>
    if b == '-'.toNat.toUInt8 then some .minus
    else if b == '#'.toNat.toUInt8 then some .length
    else if b == '~'.toNat.toUInt8 then some .complement
    else none
  | _ => none

/-- A binary operator with its precedence on the left and on the right. -/
def binaryOp? : Token → Option (BinaryOp × Nat × Nat)
  | .byte b =>
    match Char.ofNat b.toNat with
    | '+' => some (.arith .add, 10, 10)
    | '-' => some (.arith .sub, 10, 10)
    | '*' => some (.arith .mul, 11, 11)
    | '%' => some (.arith .mod, 11, 11)
    | '^' => some (.arith .pow, 14, 13)
    | '/' => some (.arith .div, 11, 11)
    | '&' => some (.arith .band, 6, 6)
    | '|' => some (.arith .bor, 4, 4)
    | '~' => some (.arith .bxor, 5, 5)
    | '<' => some (.compare .less, 3, 3)
    | '>' => some (.compare .greater, 3, 3)
    | _ => none
  | .sign s =>
    match s with
    | .floorDivide => some (.arith .floorDiv, 11, 11)
    | .shiftLeft => some (.arith .shiftLeft, 7, 7)
    | .shiftRight => some (.arith .shiftRight, 7, 7)
    | .concat => some (.concat, 9, 8)
    | .equal => some (.compare .equal, 3, 3)
    | .notEqual => some (.compare .notEqual, 3, 3)
    | .lessEqual => some (.compare .lessEqual, 3, 3)
    | .greaterEqual => some (.compare .greaterEqual, 3, 3)
    | _ => none
  | .keyword .and => some (.and, 2, 2)
  | .keyword .or => some (.or, 1, 1)
  | _ => none

/-- The precedence of the unary operators. -/
def unaryPriority : Nat := 12

/-- Whether a token ends a block. -/
def endsBlock (t : Token) (withUntil : Bool) : Bool :=
  match t with
  | .keyword .else | .keyword .elseif | .keyword .end | .eof => true
  | .keyword .until => withUntil
  | _ => false

/-- An expression with what an assignment to it needs to know. -/
structure Suffixed where
  expr : Expr
  /-- Whether the expression is a variable or a field. -/
  isVariable : Bool
  /-- The name of the variable if it may not be assigned to. -/
  readOnly : Option String

def isCall : Expr → Bool
  | .call _ _ _ | .method _ _ _ _ => true
  | _ => false

/-- An attribute of a local. -/
def localKind : Parser VarKind := do
  if ← accept (.char '<') then
    let a ← name
    expect (.char '>')
    if a == "const" then return .constant
    else if a == "close" then return .toClose
    else failBare (.unknownAttribute a)
  else return .regular

/-- Passes the current token, which spells a value. -/
def constant (c : Const) : Parser Expr := do
  advance
  return .const c

def gotoStatement (n : String) (opened : Nat) : Parser (List Stat) := do
  let f ← scope
  if (f.findLabel? n).isNone then modifyScope (·.addJump ⟨n, opened, f.active⟩)
  return [.goto n]

/-- Where the depth bound ends, which no source reaches. -/
def exhausted {α : Type} : Parser α := throw ⟨.tooDeep, 0, none⟩

/-! ### Expressions and statements -/

mutual

def primaryExpr : Nat → Parser Suffixed
  | 0 => exhausted
  | fuel + 1 => do
    match ← peek with
    | .name n =>
      advance
      let (e, assignable) ← variableExpr n
      return ⟨e, true, if assignable then none else some n⟩
    | .byte b =>
      if Token.byte b = .char '(' then
        let opened ← line
        advance
        let e ← expr fuel
        expectMatch (.char ')') (.char '(') opened
        return ⟨.paren e, false, none⟩
      else fail .unexpectedSymbol
    | _ => fail .unexpectedSymbol
termination_by structural fuel => fuel

/-- The arguments of a call. -/
def callArgs : Nat → Parser (List Expr)
  | 0 => exhausted
  | fuel + 1 => do
    match ← peek with
    | .string s =>
      advance
      return [.const (.string s)]
    | t =>
      if t = .char '\x7b' then return [← tableExpr fuel]
      else if t = .char '(' then
        let opened ← line
        advance
        if ← accept (.char ')') then return []
        let args ← exprList fuel
        expectMatch (.char ')') (.char '(') opened
        return args
      else fail .noArguments
termination_by structural fuel => fuel

/-- What may follow an expression: fields, indices, methods and arguments. -/
def suffixes (e : Suffixed) : Nat → Parser Suffixed
  | 0 => exhausted
  | fuel + 1 => do
    let t ← peek
    if t = .char '.' then
      advance
      let key ← name
      suffixes ⟨.index e.expr (.const (.string (.ofString key))) (← lastLine), true, none⟩ fuel
    else if t = .char '[' then
      advance
      let key ← expr fuel
      expect (.char ']')
      suffixes ⟨.index e.expr key (← lastLine), true, none⟩ fuel
    else if t = .char ':' then
      advance
      let method ← name
      let line ← line
      let args ← callArgs fuel
      suffixes ⟨.method e.expr method args line, false, none⟩ fuel
    else
      match t with
      | .string _ =>
        let line ← line
        let args ← callArgs fuel
        suffixes ⟨.call e.expr args line, false, none⟩ fuel
      | t =>
        if t = .char '(' ∨ t = .char '\x7b' then
          let line ← line
          let args ← callArgs fuel
          suffixes ⟨.call e.expr args line, false, none⟩ fuel
        else return e
termination_by structural fuel => fuel

def suffixedExpr : Nat → Parser Suffixed
  | 0 => exhausted
  | fuel + 1 => do suffixes (← primaryExpr fuel) fuel
termination_by structural fuel => fuel

def simpleExpr : Nat → Parser Expr
  | 0 => exhausted
  | fuel + 1 => do
    match ← peek with
    | .number n => constant (.number n)
    | .string s => constant (.string s)
    | .keyword .nil => constant .nil
    | .keyword .true => constant (.boolean true)
    | .keyword .false => constant (.boolean false)
    | .sign .dots =>
      if !(← scope).isVararg then fail .varargOutside
      advance
      return .vararg
    | .keyword .function =>
      advance
      return .closure (← functionBody false (← line) fuel)
    | t =>
      if t = .char '\x7b' then tableExpr fuel
      else return (← suffixedExpr fuel).expr
termination_by structural fuel => fuel

/-- An expression whose operators bind more strongly than `limit`. -/
def subExpr (limit : Nat) : Nat → Parser Expr
  | 0 => exhausted
  | fuel + 1 => do
    deeper
    let first ← match unaryOp? (← peek) with
      | some op =>
        let line ← line
        advance
        let e ← subExpr unaryPriority fuel
        pure (Expr.unary op e line)
      | none => simpleExpr fuel
    let e ← operators limit first fuel
    shallower
    return e
termination_by structural fuel => fuel

/-- The binary operators after an expression. -/
def operators (limit : Nat) (e : Expr) : Nat → Parser Expr
  | 0 => exhausted
  | fuel + 1 => do
    match binaryOp? (← peek) with
    | some (op, left, right) =>
      if left > limit then
        let line ← line
        advance
        let e2 ← subExpr right fuel
        operators limit (.binary op e e2 line) fuel
      else return e
    | none => return e
termination_by structural fuel => fuel

def expr : Nat → Parser Expr
  | 0 => exhausted
  | fuel + 1 => subExpr 0 fuel
termination_by structural fuel => fuel

/-- Expressions with commas between them. -/
def exprList : Nat → Parser (List Expr)
  | 0 => exhausted
  | fuel + 1 => do
    let e ← expr fuel
    if ← accept (.char ',') then return e :: (← exprList fuel)
    else return [e]
termination_by structural fuel => fuel

def tableExpr : Nat → Parser Expr
  | 0 => exhausted
  | fuel + 1 => do
    let opened ← line
    expect (.char '\x7b')
    let items ← tableItems fuel
    expectMatch (.char '\x7d') (.char '\x7b') opened
    return .table items opened
termination_by structural fuel => fuel

def tableItems : Nat → Parser (List Item)
  | 0 => exhausted
  | fuel + 1 => do
    if (← peek) = .char '\x7d' then return []
    let item ← tableItem fuel
    if ← accept (.char ',') then return item :: (← tableItems fuel)
    else if ← accept (.char ';') then return item :: (← tableItems fuel)
    else return [item]
termination_by structural fuel => fuel

def tableItem : Nat → Parser Item
  | 0 => exhausted
  | fuel + 1 => do
    match ← peek with
    | .name n =>
      if (← peekNext) = .char '=' then
        advance
        advance
        let v ← expr fuel
        return .keyed (.const (.string (.ofString n))) v (← lastLine)
      else return .positional (← expr fuel)
    | t =>
      if t = .char '[' then
        advance
        let k ← expr fuel
        expect (.char ']')
        expect (.char '=')
        let v ← expr fuel
        return .keyed k v (← lastLine)
      else return .positional (← expr fuel)
termination_by structural fuel => fuel

/-- The parameters of a function. -/
def parameters : Nat → Parser (Nat × Bool)
  | 0 => exhausted
  | fuel + 1 => do
    match ← peek with
    | .name n =>
      advance
      declareRegular n
      if ← accept (.char ',') then
        let (count, isVararg) ← parameters fuel
        return (count + 1, isVararg)
      else return (1, false)
    | .sign .dots =>
      advance
      return (0, true)
    | _ => fail .noParameter
termination_by structural fuel => fuel

/-- A function from its parameters on. A method has a first parameter of its own. -/
def functionBody (isMethod : Bool) (opened : Nat) : Nat → Parser FunctionBody
  | 0 => exhausted
  | fuel + 1 => do
    modify fun s => { s with functions := .start opened :: s.functions }
    expect (.char '(')
    if isMethod then
      declareRegular "self"
      activate 1
    let (count, isVararg) ← if (← peek) = .char ')' then pure (0, false) else parameters fuel
    activate count
    modifyScope fun f => { f with isVararg }
    expect (.char ')')
    let body ← statements fuel
    let last ← line
    expectMatch (.keyword .end) (.keyword .function) opened
    leaveBlock
    let f ← scope
    modify fun s => { s with functions := s.functions.drop 1 }
    return .mk (count + if isMethod then 1 else 0) isVararg (f.upvalues.map (·.capture))
      (f.upvalues.map (·.name)) body opened last
termination_by structural fuel => fuel

/-- The statements of a block. -/
def statements : Nat → Parser (List Stat)
  | 0 => exhausted
  | fuel + 1 => do
    let t ← peek
    if endsBlock t true then return []
    let s ← statement fuel
    if t = .keyword .return then return s
    return s ++ (← statements fuel)
termination_by structural fuel => fuel

/-- A block with a scope of its own. -/
def block : Nat → Parser (List Stat)
  | 0 => exhausted
  | fuel + 1 => do
    enterBlock false
    let body ← statements fuel
    leaveBlock
    return body
termination_by structural fuel => fuel

/-- A statement; an empty one is none. -/
def statement : Nat → Parser (List Stat)
  | 0 => exhausted
  | fuel + 1 => do
    let opened ← line
    deeper
    let s ← match ← peek with
      | .keyword .if => ifStatement opened fuel
      | .keyword .while => do
        advance
        let c ← expr fuel
        enterBlock true
        expect (.keyword .do)
        let body ← block fuel
        expectMatch (.keyword .end) (.keyword .while) opened
        leaveBlock
        pure [Stat.while c body]
      | .keyword .do => do
        advance
        let body ← block fuel
        expectMatch (.keyword .end) (.keyword .do) opened
        pure [Stat.block body]
      | .keyword .for => forStatement opened fuel
      | .keyword .repeat => do
        enterBlock true
        enterBlock false
        advance
        let body ← statements fuel
        expectMatch (.keyword .until) (.keyword .repeat) opened
        let c ← expr fuel
        leaveBlock
        leaveBlock
        pure [Stat.repeat body c]
      | .keyword .function => functionStatement opened fuel
      | .keyword .local => do
        advance
        if ← accept (.keyword .function) then
          let n ← name
          declareRegular n
          activate 1
          let f ← functionBody false (← line) fuel
          pure [Stat.localFunction f]
        else localStatement fuel
      | .sign .doubleColon => do
        advance
        let n ← name
        labelStatement n opened fuel
      | .keyword .return => do
        advance
        let values ← if endsBlock (← peek) true || (← peek) == .char ';' then pure [] else exprList fuel
        let line ← lastLine
        discard (accept (.char ';'))
        pure [Stat.return values line]
      | .keyword .break => do
        advance
        modifyScope (·.addJump ⟨FunctionScope.breakName, opened, (← scope).active⟩)
        pure [Stat.break]
      | .keyword .goto => do
        advance
        let n ← name
        gotoStatement n opened
      | t =>
        if t = .char ';' then do
          advance
          pure []
        else exprStatement fuel
    shallower
    return s
termination_by structural fuel => fuel

def ifStatement (opened : Nat) : Nat → Parser (List Stat)
  | 0 => exhausted
  | fuel + 1 => do
    advance
    let c ← expr fuel
    expect (.keyword .then)
    let body ← block fuel
    match ← peek with
    | .keyword .elseif => return [.if c body (← ifStatement opened fuel)]
    | .keyword .else =>
      advance
      let rest ← block fuel
      expectMatch (.keyword .end) (.keyword .if) opened
      return [.if c body rest]
    | _ =>
      expectMatch (.keyword .end) (.keyword .if) opened
      return [.if c body []]
termination_by structural fuel => fuel

def forStatement (opened : Nat) : Nat → Parser (List Stat)
  | 0 => exhausted
  | fuel + 1 => do
    enterBlock true
    advance
    let n ← name
    let s ← match ← peek with
      | .keyword .in => genericFor n fuel
      | t =>
        if t = .char ',' then genericFor n fuel
        else if t = .char '=' then numericFor n opened fuel
        else fail .noForHeader
    expectMatch (.keyword .end) (.keyword .for) opened
    leaveBlock
    return [s]
termination_by structural fuel => fuel

def numericFor (n : String) (opened : Nat) : Nat → Parser Stat
  | 0 => exhausted
  | fuel + 1 => do
    for _ in [0:3] do declareRegular hiddenName
    declareRegular n
    expect (.char '=')
    let start ← expr fuel
    expect (.char ',')
    let stop ← expr fuel
    let step ← if ← accept (.char ',') then expr fuel else pure (.const (.number (.int 1)))
    activate 3
    let body ← forBody 1 fuel
    return .numericFor start stop step body opened
termination_by structural fuel => fuel

def genericFor (n : String) : Nat → Parser Stat
  | 0 => exhausted
  | fuel + 1 => do
    for _ in [0:4] do declareRegular hiddenName
    declareRegular n
    let more ← moreNames fuel
    expect (.keyword .in)
    let line ← line
    let values ← exprList fuel
    activate 4
    let body ← forBody (more + 1) fuel
    return .genericFor (more + 1) values body line
termination_by structural fuel => fuel

/-- More variables of a loop: how many. -/
def moreNames : Nat → Parser Nat
  | 0 => exhausted
  | fuel + 1 => do
    if ← accept (.char ',') then
      declareRegular (← name)
      return (← moreNames fuel) + 1
    else return 0
termination_by structural fuel => fuel

/-- The body of a loop with so many variables. -/
def forBody (count : Nat) : Nat → Parser (List Stat)
  | 0 => exhausted
  | fuel + 1 => do
    expect (.keyword .do)
    enterBlock false
    activate count
    let body ← block fuel
    leaveBlock
    return body
termination_by structural fuel => fuel

def functionStatement (opened : Nat) : Nat → Parser (List Stat)
  | 0 => exhausted
  | fuel + 1 => do
    advance
    let n ← name
    let (e, assignable) ← variableExpr n
    let (target, isMethod, plain) ← functionName e fuel
    let f ← functionBody isMethod opened fuel
    if plain && !assignable then failBare (.constAssigned n)
    return [.assign [target] [.closure f] opened]
termination_by structural fuel => fuel

/-- The fields and the method after the name of a function: the target, whether it is a method, and
whether there are none. -/
def functionName (e : Expr) : Nat → Parser (Expr × Bool × Bool)
  | 0 => exhausted
  | fuel + 1 => do
    if ← accept (.char '.') then
      let key ← name
      let (t, m, _) ← functionName (.index e (.const (.string (.ofString key))) (← lastLine)) fuel
      return (t, m, false)
    else if ← accept (.char ':') then
      let key ← name
      return (.index e (.const (.string (.ofString key))) (← lastLine), true, false)
    else return (e, false, true)
termination_by structural fuel => fuel

def localStatement : Nat → Parser (List Stat)
  | 0 => exhausted
  | fuel + 1 => do
    let base := (← scope).active
    let (names, closing) ← localNames base none fuel
    let values ← if ← accept (.char '=') then exprList fuel else pure []
    match (← scope).locals, names.length == values.length, values.getLast? with
    | ⟨_, .constant⟩ :: _, true, some (.const c) => setNewestKind (.known c)
    | _, _, _ => pure ()
    activate names.length
    return [.locals names closing values (← lastLine)]
termination_by structural fuel => fuel

/-- The names of new locals with their attributes, and the slot of the one to be closed. -/
def localNames (slot : Nat) (closing : Option Nat) : Nat → Parser (List String × Option Nat)
  | 0 => exhausted
  | fuel + 1 => do
    let n ← name
    declareRegular n
    let kind ← localKind
    setNewestKind kind
    let closing ← match kind, closing with
      | .toClose, some _ => failBare .manyToClose
      | .toClose, none => pure (some slot)
      | _, c => pure c
    if ← accept (.char ',') then
      let (names, closing) ← localNames (slot + 1) closing fuel
      return (n :: names, closing)
    else return ([n], closing)
termination_by structural fuel => fuel

/-- A label. Empty statements and labels right after it count as part of it. -/
def labelStatement (n : String) (opened : Nat) : Nat → Parser (List Stat)
  | 0 => exhausted
  | fuel + 1 => do
    expect (.sign .doubleColon)
    let skipped ← noOps fuel
    match (← scope).findLabel? n with
    | some l => failBare (.labelRepeated n l.line)
    | none =>
      let last := endsBlock (← peek) false
      let (f, entering) := (← scope).addLabel n opened last
      match entering with
      | some j =>
        let var := (f.actives.reverse[j.active]?.map (·.name)).getD ""
        failBare (.jumpIntoScope n j.line var)
      | none =>
        modifyScope fun _ => f
        return .label n :: skipped
termination_by structural fuel => fuel

def noOps : Nat → Parser (List Stat)
  | 0 => exhausted
  | fuel + 1 => do
    let t ← peek
    if t = .char ';' ∨ t = .sign .doubleColon then
      let s ← statement fuel
      return s ++ (← noOps fuel)
    else return []
termination_by structural fuel => fuel

/-- An assignment or a call. -/
def exprStatement : Nat → Parser (List Stat)
  | 0 => exhausted
  | fuel + 1 => do
    let e ← suffixedExpr fuel
    let t ← peek
    if t = .char '=' ∨ t = .char ',' then
      let (targets, values) ← assignment e fuel
      return [.assign targets values (← lastLine)]
    else if isCall e.expr then return [.call e.expr]
    else fail .noStatement
termination_by structural fuel => fuel

/-- The rest of an assignment after its first target. -/
def assignment (e : Suffixed) : Nat → Parser (List Expr × List Expr)
  | 0 => exhausted
  | fuel + 1 => do
    if !e.isVariable then fail .noStatement
    if let some n := e.readOnly then failBare (.constAssigned n)
    if ← accept (.char ',') then
      let e2 ← suffixedExpr fuel
      deeper
      let (targets, values) ← assignment e2 fuel
      shallower
      return (e.expr :: targets, values)
    else
      expect (.char '=')
      return ([e.expr], ← exprList fuel)
termination_by structural fuel => fuel

end

/-! ### Chunks -/

/-- A chunk, which is a function with any number of parameters whose only upvalue is the table of
globals. -/
def chunk (fuel : Nat) : Parser FunctionBody := do
  let body ← statements fuel
  check .eof
  leaveBlock
  return .mk 0 true [⟨true, 0⟩] [envName] body 0 (← line)

/-- The scope of a chunk. -/
def chunkScope : FunctionScope :=
  { FunctionScope.start 0 with upvalues := [⟨envName, ⟨true, 0⟩, .regular⟩], isVararg := true }

end Parser

/-- The chunk that a source spells. -/
def parse (source : String) : Except SyntaxError FunctionBody :=
  let (lexemes, lexError) := Lexer.lexemes source
  match lexemes, lexError with
  | [], some e => .error (.ofLexError e)
  | [], none => .ok default
  | l :: rest, _ =>
    let state : ParserState := ⟨l, rest, lexError, 1, 0, [Parser.chunkScope]⟩
    match (Parser.chunk (20 * lexemes.length + 200)).run state with
    | .ok (f, _) => .ok f
    | .error e => .error e

end ScriptHost.Lua
