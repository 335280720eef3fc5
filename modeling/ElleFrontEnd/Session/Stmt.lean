import ElleFrontEnd.Session.Expr

/-!
# Statements in a session

The methods that read statements and blocks, in the way of the parsers of `Grammar.Stmt`.  A statement reads its parts
under the header flag that it finds set, except for what stands in a header of its own.
-/

namespace ElleFrontEnd

namespace Session

open Method (register withHeader underAngle)
open ElleFrontEnd.Parser hiding grow collect commaList attempt outcome onError

variable (k : Methods)

/-! ### Declarations of variables, and assignments -/

/-- The value behind `=`, if there is one. -/
def initializer : Method (Option Expr) := do
  if ← acceptOperator .eq then
    let e ← k.expression
    pure (some e)
  else pure none

/-- A type and the name behind it. -/
def typeAndName : Method (TypeExpr × String) := do
  let type ← k.type
  let name ← identifier
  pure (type, name)

/-- What follows the type and name of a declaration: a size in brackets, or a value. -/
def typedBinding (type : TypeExpr) (name : String) : Method BindingForm := do
  if ← atMark .lBracket then
    let opened ← skip
    let size ← withHeader false k.expression
    closing .rBracket opened
    pure (.buffer type name size)
  else
    let init ← initializer k
    pure (.variable .typed (some type) name init)

/-- A declaration, if one comes next; otherwise nothing is read. -/
def binding? : Method (Option BindingForm) := do
  if ← acceptKeyword .letKw then
    let name ← identifier
    let init ← initializer k
    pure (some (.variable .letBound none name init))
  else if (← atIdent) && (← isAhead 1 (.operator .colonEq)) then
    let name ← identifier
    let _ ← skip
    let e ← k.expression
    pure (some (.variable .walrus none name (some e)))
  else if (← atKeyword .fn) && (← isAhead 1 (.punctuation .lParen)) then pure none
  else
    match ← Method.attempt (typeAndName k) with
    | none => pure none
    | some (type, name) => do
      let form ← typedBinding k type name
      pure (some form)

/-- An assignment operator and its value behind a target, if there is one. -/
def assignment? : Method (Option (AssignOp × Expr)) := do
  match (← nextKind).operator? with
  | none => pure none
  | some op =>
    match AssignOp.ofOperator? op with
    | none => pure none
    | some form => do
      let _ ← skip
      requireOperand op
      let value ← k.expression
      pure (some (form, value))

/-- A declaration, an assignment or an expression, which makes a statement once its stretch is known. -/
def simpleStatement : Method (Span → Stmt) := do
  match ← binding? k with
  | some form => pure form.stmt
  | none => do
    let target ← k.expression
    match ← assignment? k with
    | some (op, value) => pure (.assign · target op value)
    | none => pure (.expr · target)

/-! ### Control flow -/

/-- The condition of an `if` or `while`.  Parentheses around all of it do not belong to it. -/
def headerCondition : Method Expr := do
  let e ← withHeader true k.expression
  pure e.unparenthesized

/-- What follows the block of an `if`. -/
def elsePart : Method Else := do
  if ← acceptKeyword .elseKw then
    if ← atKeyword .ifKw then
      let start ← nextStart
      let parts ← k.elseIf
      pure (.elseIf (← spanFrom start) parts.condition parts.body parts.otherwise)
    else
      let body ← k.block
      pure (.block body)
  else pure .absent

/-- An `if` with all its branches. -/
def ifBody : Method IfParts := do
  let _ ← expectKeyword .ifKw
  let condition ← headerCondition k
  let body ← k.block
  let otherwise ← elsePart k
  pure { condition, body, otherwise }

/-- A `while` loop; its keyword comes next. -/
def whileStatement : Method (Span → Stmt) := do
  let _ ← skip
  let condition ← headerCondition k
  let body ← k.block
  pure (.whileLoop · condition body)

/-- What a `for` loop starts with. -/
def forInit : Method ForInit := do
  let start ← nextStart
  match ← binding? k with
  | some (.variable binding type name init) => pure (.varDecl (← spanFrom start) binding type name init)
  | some (.buffer _ _ _) => fail { cause := .bufferInLoopHeader, span := ← spanFrom start }
  | none => do
    let e ← k.expression
    pure (.expr e)

/-- What a `for` loop does after each round. -/
def forStep : Method ForStep := do
  let start ← nextStart
  let target ← k.expression
  match ← assignment? k with
  | some (op, value) => pure (.assign (← spanFrom start) target op value)
  | none => pure (.expr target)

/-- The three parts of a `for` header. -/
def forHeader : Method (ForInit × Expr × ForStep) := do
  let init ← forInit k
  semicolon
  let condition ← k.expression
  semicolon
  let step ← forStep k
  pure (init, condition, step)

/-- A loop over the elements of a value, behind `for`. -/
def forEachRest : Method (Span → Stmt) := do
  let name ← identifier
  let _ ← skip
  let iterable ← withHeader true k.expression
  let body ← k.block
  pure (.forEach · name iterable body)

/-- A loop with a three-part header, behind `for`.  Without parentheses the header runs right into the body. -/
def forLoopRest : Method (Span → Stmt) := do
  if ← atMark .lParen then
    let opened ← skip
    let (init, condition, step) ← withHeader false (forHeader k)
    closing .rParen opened
    let body ← k.block
    pure (.forLoop · init condition step body)
  else
    let (init, condition, step) ← withHeader true (forHeader k)
    let body ← k.block
    pure (.forLoop · init condition step body)

/-- A `for` loop of either form. -/
def forStatement : Method (Span → Stmt) := do
  let _ ← expectKeyword .forKw
  if (← atIdent) && (← isAhead 1 (.keyword .inKw)) then forEachRest k else forLoopRest k

/-- A `return`, with a value or without. -/
def returnStatement : Method (Span → Stmt) := do
  let _ ← skip
  if ← atMark .semicolon then
    semicolon
    pure (.returnValue · none)
  else
    let e ← k.expression
    semicolon
    pure (.returnValue · (some e))

/-- A statement without its stretch. -/
def statementForm : Method (Span → Stmt) := do
  match ← nextKind with
  | .keyword .ifKw => do
    let parts ← ifBody k
    pure (.ifElse · parts.condition parts.body parts.otherwise)
  | .keyword .whileKw => whileStatement k
  | .keyword .forKw => forStatement k
  | .keyword .deferKw => do
    let _ ← skip
    let e ← k.expression
    semicolon
    pure (.defer · e)
  | .keyword .returnKw => returnStatement k
  | .keyword .breakKw => do
    let _ ← skip
    semicolon
    pure .breakLoop
  | .keyword .continueKw => do
    let _ ← skip
    semicolon
    pure .continueLoop
  | .punctuation .lBrace => do
    let body ← k.block
    pure (.block · body.statements)
  | _ => do
    let form ← simpleStatement k
    semicolon
    pure form

/-- A statement. -/
def statement : Method Stmt := do
  let start ← nextStart
  let form ← statementForm k
  pure (form (← spanFrom start))

/-! ### Blocks -/

/-- Records a diagnostic, or fails with it where the parse does not go on after failures. -/
def recoverFrom (e : Diagnostic) : Method Unit := do
  if (← register Registers.options).recover then record e else fail e

/-- One round of a block that was opened at `opened`: its end, a stray semicolon, or a statement. -/
def blockRound (opened : Span) : Method (Round Stmt) := do
  if ← acceptMark .rBrace then pure .stop
  else if ← atEnd then
    fail
      { cause := .unclosed .lBrace .eof
        span := ← Parser.nextSpan
        notes := [.openedAt opened.start]
        hints := [.insert .rBrace] }
  else if ← acceptMark .semicolon then pure .none
  else
    match ← Method.outcome (statement k) with
    | .ok s => pure (.more s)
    | .error e => do
      recoverFrom e
      change toNextStatement
      pure .none

/-- The braces of a block and what stands in them. -/
def blockInner : Method Block := do
  let opened ← expectMark .lBrace
  let statements ← Method.collect (blockRound k opened)
  pure (.mk (← spanFrom opened.start) statements)

/-- A block. -/
def blockBody : Method Block := withHeader false (blockInner k)

end Session

/-- The methods for nested constructs.  A method that opens more levels than its fuel allows for fails as at the
limit; with more fuel than the limit has levels, that never happens. -/
def Methods.ofFuel : (fuel : Nat) → Methods
  | 0 =>
    let tooDeep {α : Type} : Method α := do
      Parser.tooDeep (← Method.register Registers.options).maxDepth
    { type := tooDeep
      expression := tooDeep
      chain := fun _ => tooDeep
      unary := tooDeep
      block := tooDeep
      elseIf := tooDeep }
  | fuel + 1 =>
    let k := Methods.ofFuel fuel
    { type := .nested (Session.typeBody k.type)
      expression := .nested (Session.expressionBody k)
      chain := fun level => .nested (Session.chainBody k level)
      unary := .nested (Session.unaryBody k)
      block := .nested (Session.blockBody k)
      elseIf := .nested (Session.ifBody k) }

end ElleFrontEnd
