import ElleFrontEnd.Grammar.Expr

/-!
# Reading statements

Most statements open with a word of their own.  Any other begins with a declaration or an expression, and only
reading on tells which: where a type and a name can be read, it is a declaration.

A statement that fails within a block is recorded, and the block goes on behind it, so that one bad statement does
not hide the rest.  Without recovery the first failure ends the parse.
-/

namespace ElleFrontEnd

/-- How a parse is limited and whether it goes on after a failure. -/
structure ParseOptions where
  /-- how deep expressions, types and blocks may nest -/
  maxDepth : Nat := 256
  /-- whether to go on after a failure -/
  recover : Bool := true
deriving DecidableEq

namespace Parser

/-! ### Declarations of variables, and assignments -/

/-- A declaration in a statement or a loop header, without the semicolon behind it. -/
inductive BindingForm
  | variable (binding : Binding) (type : Option TypeExpr) (name : String) (init : Option Expr)
  | buffer (type : TypeExpr) (name : String) (size : Expr)

/-- The statement that a declaration is. -/
def BindingForm.stmt (span : Span) : BindingForm → Stmt
  | .variable binding type name init => .varDecl span binding type name init
  | .buffer type name size => .buffer span type name size

/-- The value behind `=`, if there is one. -/
def initializer (g : Inner) (header : Bool) : Parser (Option Expr) := do
  if ← acceptOperator .eq then
    let e ← g.expression header
    pure (some e)
  else pure none

/-- A type and the name behind it. -/
def typeAndName (g : Inner) : Parser (TypeExpr × String) := do
  let type ← g.type 0
  let name ← identifier
  pure (type, name)

/-- What follows the type and name of a declaration: a size in brackets, or a value. -/
def typedBinding (g : Inner) (header : Bool) (type : TypeExpr) (name : String) : Parser BindingForm := do
  if ← atMark .lBracket then
    let opened ← skip
    let size ← g.expression false
    closing .rBracket opened
    pure (.buffer type name size)
  else
    let init ← initializer g header
    pure (.variable .typed (some type) name init)

/-- A declaration, if one comes next; otherwise nothing is read. -/
def binding? (g : Inner) (header : Bool) : Parser (Option BindingForm) := do
  if ← acceptKeyword .letKw then
    let name ← identifier
    let init ← initializer g header
    pure (some (.variable .letBound none name init))
  else if (← atIdent) && (← isAhead 1 (.operator .colonEq)) then
    let name ← identifier
    let _ ← skip
    let e ← g.expression header
    pure (some (.variable .walrus none name (some e)))
  else if (← atKeyword .fn) && (← isAhead 1 (.punctuation .lParen)) then pure none
  else
    match ← attempt (typeAndName g) with
    | none => pure none
    | some (type, name) => do
      let form ← typedBinding g header type name
      pure (some form)

/-- An assignment operator and its value behind a target, if there is one. -/
def assignment? (g : Inner) (header : Bool) : Parser (Option (AssignOp × Expr)) := do
  match (← nextKind).operator? with
  | none => pure none
  | some op =>
    match AssignOp.ofOperator? op with
    | none => pure none
    | some form => do
      let _ ← skip
      requireOperand op
      let value ← g.expression header
      pure (some (form, value))

/-- A declaration, an assignment or an expression, which makes a statement once its stretch is known. -/
def simpleStatement (g : Inner) : Parser (Span → Stmt) := do
  match ← binding? g false with
  | some form => pure form.stmt
  | none => do
    let target ← g.expression false
    match ← assignment? g false with
    | some (op, value) => pure (.assign · target op value)
    | none => pure (.expr · target)

/-! ### Control flow -/

/-- The condition of an `if` or `while`.  Parentheses around all of it do not belong to it. -/
def headerCondition (g : Inner) : Parser Expr := do
  let e ← g.expression true
  pure e.unparenthesized

/-- What follows the block of an `if`. -/
def elsePart (g : Inner) : Parser Else := do
  if ← acceptKeyword .elseKw then
    if ← atKeyword .ifKw then
      let start ← nextStart
      let parts ← g.elseIf
      pure (.elseIf (← spanFrom start) parts.condition parts.body parts.otherwise)
    else
      let body ← g.block
      pure (.block body)
  else pure .absent

/-- An `if` with all its branches. -/
def ifBody (g : Inner) : Parser IfParts := do
  let _ ← expectKeyword .ifKw
  let condition ← headerCondition g
  let body ← g.block
  let otherwise ← elsePart g
  pure { condition, body, otherwise }

/-- What a `for` loop starts with. -/
def forInit (g : Inner) (header : Bool) : Parser ForInit := do
  let start ← nextStart
  match ← binding? g header with
  | some (.variable binding type name init) => pure (.varDecl (← spanFrom start) binding type name init)
  | some (.buffer _ _ _) => fail { cause := .bufferInLoopHeader, span := ← spanFrom start }
  | none => do
    let e ← g.expression header
    pure (.expr e)

/-- What a `for` loop does after each round. -/
def forStep (g : Inner) (header : Bool) : Parser ForStep := do
  let start ← nextStart
  let target ← g.expression header
  match ← assignment? g header with
  | some (op, value) => pure (.assign (← spanFrom start) target op value)
  | none => pure (.expr target)

/-- The three parts of a `for` header. -/
def forHeader (g : Inner) (header : Bool) : Parser (ForInit × Expr × ForStep) := do
  let init ← forInit g header
  semicolon
  let condition ← g.expression header
  semicolon
  let step ← forStep g header
  pure (init, condition, step)

/-- A loop over the elements of a value, behind `for`. -/
def forEachRest (g : Inner) : Parser (Span → Stmt) := do
  let name ← identifier
  let _ ← skip
  let iterable ← g.expression true
  let body ← g.block
  pure (.forEach · name iterable body)

/-- A loop with a three-part header, behind `for`.  Without parentheses the header runs right into the body. -/
def forLoopRest (g : Inner) : Parser (Span → Stmt) := do
  if ← atMark .lParen then
    let opened ← skip
    let (init, condition, step) ← forHeader g false
    closing .rParen opened
    let body ← g.block
    pure (.forLoop · init condition step body)
  else
    let (init, condition, step) ← forHeader g true
    let body ← g.block
    pure (.forLoop · init condition step body)

/-- A `for` loop of either form. -/
def forStatement (g : Inner) : Parser (Span → Stmt) := do
  let _ ← expectKeyword .forKw
  if (← atIdent) && (← isAhead 1 (.keyword .inKw)) then forEachRest g else forLoopRest g

/-- A `return`, with a value or without. -/
def returnStatement (g : Inner) : Parser (Span → Stmt) := do
  let _ ← skip
  if ← atMark .semicolon then
    semicolon
    pure (.returnValue · none)
  else
    let e ← g.expression false
    semicolon
    pure (.returnValue · (some e))

/-- A statement without its stretch. -/
def statementForm (g : Inner) : Parser (Span → Stmt) := do
  match ← nextKind with
  | .keyword .ifKw => do
    let parts ← ifBody g
    pure (.ifElse · parts.condition parts.body parts.otherwise)
  | .keyword .whileKw => do
    let _ ← skip
    let condition ← headerCondition g
    let body ← g.block
    pure (.whileLoop · condition body)
  | .keyword .forKw => forStatement g
  | .keyword .deferKw => do
    let _ ← skip
    let e ← g.expression false
    semicolon
    pure (.defer · e)
  | .keyword .returnKw => returnStatement g
  | .keyword .breakKw => do
    let _ ← skip
    semicolon
    pure .breakLoop
  | .keyword .continueKw => do
    let _ ← skip
    semicolon
    pure .continueLoop
  | .punctuation .lBrace => do
    let body ← g.block
    pure (.block · body.statements)
  | _ => do
    let form ← simpleStatement g
    semicolon
    pure form

/-- A statement. -/
def statement (g : Inner) : Parser Stmt := do
  let start ← nextStart
  let form ← statementForm g
  pure (form (← spanFrom start))

/-! ### Blocks -/

/-- The tokens behind the end of a statement that failed: behind a semicolon outside of all groups opened since, or
before a brace that closes none of them. -/
def skipStatement (depth : Nat) (last : Option Token) : List Token → Option Token × List Token
  | [] => (last, [])
  | t :: ts =>
    match t.kind with
    | .eof => (last, t :: ts)
    | .punctuation .rBrace => if depth = 0 then (last, t :: ts) else skipStatement (depth - 1) (some t) ts
    | .punctuation .lBrace | .punctuation .lParen | .punctuation .lBracket => skipStatement (depth + 1) (some t) ts
    | .punctuation .rParen | .punctuation .rBracket => skipStatement (depth - 1) (some t) ts
    | .punctuation .semicolon => if depth = 0 then (some t, ts) else skipStatement depth (some t) ts
    | _ => skipStatement depth (some t) ts

/-- Goes on behind a statement that failed. -/
def toNextStatement (s : ParseState) : ParseState :=
  let (last, rest) := skipStatement 0 s.last s.rest
  { s with last, rest }

/-- Records a diagnostic. -/
def record (e : Diagnostic) : Parser Unit := change fun s => { s with errors := s.errors ++ [e] }

/-- One round of a block that was opened at `opened`: its end, a stray semicolon, or a statement. -/
def blockRound (o : ParseOptions) (g : Inner) (opened : Span) : Parser (Round Stmt) := do
  if ← acceptMark .rBrace then pure .stop
  else if ← atEnd then
    fail
      { cause := .unclosed .lBrace .eof
        span := ← nextSpan
        notes := [.openedAt opened.start]
        hints := [.insert .rBrace] }
  else if ← acceptMark .semicolon then pure .none
  else
    match ← outcome (statement g) with
    | .ok s => pure (.more s)
    | .error e =>
      if o.recover then do
        record e
        change toNextStatement
        pure .none
      else fail e

/-- A block. -/
def blockBody (o : ParseOptions) (g : Inner) : Parser Block := do
  let opened ← expectMark .lBrace
  let statements ← collect (blockRound o g opened)
  pure (.mk (← spanFrom opened.start) statements)

end Parser

/-- The parsers of nested constructs where `room` more levels are allowed. -/
def Inner.ofRoom (o : ParseOptions) : (room : Nat) → Inner
  | 0 =>
    { type := fun _ => Parser.tooDeep o.maxDepth
      expression := fun _ => Parser.tooDeep o.maxDepth
      chain := fun _ _ => Parser.tooDeep o.maxDepth
      unary := fun _ => Parser.tooDeep o.maxDepth
      block := Parser.tooDeep o.maxDepth
      elseIf := Parser.tooDeep o.maxDepth }
  | room + 1 =>
    { type := Parser.typeExpr o.maxDepth (room + 1)
      expression := fun header s => Parser.expressionBody (Inner.ofRoom o room) header s
      chain := fun header level s => Parser.chainBody (Inner.ofRoom o room) header level s
      unary := fun header s => Parser.unaryBody (Inner.ofRoom o room) header s
      block := fun s => Parser.blockBody o (Inner.ofRoom o room) s
      elseIf := fun s => Parser.ifBody (Inner.ofRoom o room) s }

end ElleFrontEnd
