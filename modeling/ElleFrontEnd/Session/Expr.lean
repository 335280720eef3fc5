import ElleFrontEnd.Session.Type
import ElleFrontEnd.Grammar.Expr

/-!
# Expressions in a session

The methods that read expressions, in the way of the parsers of `Grammar.Expr`.  Whether the header of a statement is
read is kept in a register, which whatever stands in brackets clears.
-/

namespace ElleFrontEnd

/-- The methods for the constructs that nest in others. -/
structure Methods where
  type : Method TypeExpr
  expression : Method Expr
  /-- a chain of operators of at least a level -/
  chain : (level : Nat) → Method Expr
  /-- an operand with the operators before it -/
  unary : Method Expr
  block : Method Block
  /-- an `if` that follows an `else` -/
  elseIf : Method IfParts

namespace Parser

/-- The fields of a struct literal whose brace was opened at `opened`, with the brace behind them. -/
def fieldInits (g : Inner) (opened : Span) : Parser (List FieldInit) := do
  let fields ← commaList .rBrace (fieldInit g)
  closing .rBrace opened
  pure fields

end Parser

namespace Session

open Method (register withHeader underAngle)
open ElleFrontEnd.Parser hiding grow collect commaList attempt outcome onError

variable (k : Methods)

/-! ### Lists, parameters and lambdas -/

/-- Expressions between commas, up to the closer of a group opened at `opened`. -/
def exprList (close : Punctuation) (opened : Span) : Method (List Expr) := do
  let items ← Method.commaList close k.expression
  closing close opened
  pure items

/-- Arguments in parentheses. -/
def arguments : Method (List Expr) := do
  let opened ← expectMark .lParen
  withHeader false (exprList k .rParen opened)

/-- One parameter. -/
def param : Method Param := do
  let start ← nextStart
  if ← acceptMark .ellipsis then
    if ← atIdent then
      let name ← identifier
      pure (.variadic (← spanFrom start) (some name))
    else pure (.variadic (← spanFrom start) none)
  else if (← atMark .atSign) && (← isAhead 1 (.ident noFormatMarker)) then
    let _ ← skip
    let _ ← skip
    let type ← k.type
    let name ← identifier
    pure (.noFormat (← spanFrom start) type name)
  else
    let type ← k.type
    if ← atIdent then
      let name ← identifier
      pure (.named (← spanFrom start) type name)
    else pure (.unnamed (← spanFrom start) type)

/-- A parameter list in parentheses. -/
def paramList : Method ParamList := do
  let opened ← expectMark .lParen
  let metaName ← metaBinding
  let params ← Method.commaList .rParen (param k)
  closing .rParen opened
  pure { metaName, params }

/-- A lambda, with a block or an expression for its body. -/
def lambda : Method Expr := do
  let opened ← expectKeyword .fn
  let params ← paramList k
  if ← atMark .lBrace then
    let body ← k.block
    pure (.blockLambda (← spanFrom opened.start) params body)
  else
    let body ← k.expression
    pure (.lambda (← spanFrom opened.start) params body)

/-! ### Struct literals, arrays, and the forms of `#` and `$` -/

/-- `name = value` in a struct literal. -/
def fieldInit : Method FieldInit := do
  let start ← nextStart
  let name ← identifier
  let _ ← expectOperator .eq
  let value ← k.expression
  pure (.mk (← spanFrom start) name value)

/-- The fields of a struct literal whose brace was opened at `opened`, with the brace behind them. -/
def fieldInits (opened : Span) : Method (List FieldInit) := do
  let fields ← Method.commaList .rBrace (fieldInit k)
  closing .rBrace opened
  pure fields

/-- The type arguments of a struct literal.  The outer option is empty where `<` opens no such list. -/
def structTypeArgs : Method (Option (Option (List TypeExpr))) := do
  if (← atOperator .lt) && (← isAdjacent) then
    match ← Method.attempt (typeArgs k.type) with
    | some args => if (← owed) = 0 then pure (some (some args)) else pure none
    | none => pure none
  else pure (some none)

/-- The rest of a struct literal behind its name, which begins at `start`; nothing is read if there is none. -/
def structLiteral? (start : Nat) (name : String) : Method (Option Expr) := do
  let saved ← look id
  match ← structTypeArgs k with
  | none => do
    change (·.rewindTo saved)
    pure none
  | some generics => do
    if ← atStructBody then
      let opened ← skip
      let fields ← withHeader false (fieldInits k opened)
      pure (some (.structLit (← spanFrom start) name generics fields))
    else
      change (·.rewindTo saved)
      pure none

/-- An expression that opens with a name: the name itself, a path, or a struct literal. -/
def nameExpr : Method Expr := do
  let start ← nextStart
  let name ← identifier
  if ← atMark .colonColon then
    let tail ← pathTail
    pure (.qualified (← spanFrom start) (name :: tail))
  else if ← register Registers.header then pure (.ident (← spanFrom start) name)
  else
    match ← structLiteral? k start name with
    | some literal => pure literal
    | none => pure (.ident (← spanFrom start) name)

/-- The type at the head of an array literal, with the semicolon behind it. -/
def elementType : Method TypeExpr := do
  let type ← k.type
  let _ ← expectMark .semicolon
  pure type

/-- An array literal, whose source begins at `start`; the bracket comes next. -/
def arrayLiteral (start : Nat) (isStatic : Bool) : Method Expr := do
  let opened ← expectMark .lBracket
  let element ← Method.attempt (elementType k)
  let elements ← withHeader false (exprList k .rBracket opened)
  pure (.array (← spanFrom start) element isStatic elements)

/-- One operand of a directive, behind a comma unless it is the first. -/
def operand {α : Type} (d : DirectiveName) (isFirst : Bool) (m : Method α) : Method α := do
  let separated ← if isFirst then pure true else acceptMark .comma
  if !separated then wrongOperands d
  else if ← atMark .rParen then wrongOperands d
  else m

/-- A last operand that may be left out together with its comma. -/
def optionalOperand : Method (Option Expr) := do
  if ← acceptMark .comma then
    let e ← withHeader false k.expression
    pure (some e)
  else pure none

/-- A type as an operand; where it fails, the usage of the directive is a further hint. -/
def typeOperand (d : DirectiveName) : Method TypeExpr := Method.onError (·.withHint (.usage d)) k.type

/-- The operands of a directive in their parentheses. -/
def operandList {α : Type} (d : DirectiveName) (operands : Method α) : Method α := do
  let opened ← Parser.onError (·.withHint (.usage d)) (expectMark .lParen)
  let result ← operands
  if !(← atMark .rParen) && !(← atEnd) then wrongOperands d
  else
    closing .rParen opened
    pure result

/-- What follows the name of a directive. -/
def directiveOf (d : DirectiveName) : Method Directive :=
  match d with
  | .len => operandList d do
    let e ← operand d true (withHeader false k.expression)
    pure (.len e)
  | .size => operandList d do
    let t ← operand d true (typeOperand k d)
    pure (.size t)
  | .ident => operandList d do
    let name ← operand d true identifier
    pure (.ident name)
  | .env => do if ← atMark .lParen then wrongOperands d else pure .env
  | .alloc => operandList d do
    let t ← operand d true (typeOperand k d)
    let count ← optionalOperand k
    pure (.alloc t count)
  | .realloc => operandList d do
    let e ← operand d true (withHeader false k.expression)
    let t ← operand d false (typeOperand k d)
    let count ← optionalOperand k
    pure (.realloc e t count)
  | .free => operandList d do
    let e ← operand d true (withHeader false k.expression)
    pure (.free e)
  | .setAllocator => operandList d do
    let e ← operand d true (withHeader false k.expression)
    pure (.setAllocator e)
  | .resetAllocator => operandList d (pure .resetAllocator)

/-- A static array or a directive; the `#` comes next. -/
def hashExpr : Method Expr := do
  let opened ← expectMark .hash
  if ← atMark .lBracket then arrayLiteral k opened.start true
  else
    match ← nextKind with
    | .ident name => do
      let nameSpan ← skip
      match DirectiveName.ofSpelling? name with
      | none =>
        fail { cause := .unknownDirective name, span := ⟨opened.start, nameSpan.stop⟩, hints := [.knownDirectives] }
      | some d => do
        let directive ← directiveOf k d
        pure (.directive (← spanFrom opened.start) directive)
    | _ => unexpected .directiveName

/-- A tuple, a triple or a sigil; the `$` comes next, and what follows it has to touch it. -/
def dollarExpr : Method Expr := do
  let opened ← expectMark .dollar
  let start := opened.start
  let touching ← isAdjacent
  if touching && (← atMark .dollar) && (← isAhead 1 (.punctuation .lParen)) && (← look ParseState.nextIsAdjacent) then
    let _ ← skip
    match ← arguments k with
    | [a, b, c] => pure (.triple (← spanFrom start) a b c)
    | items => wrongSize .triple items.length start
  else if touching && (← atMark .lParen) then
    match ← arguments k with
    | [a, b] => pure (.tuple (← spanFrom start) a b)
    | items => wrongSize .tuple items.length start
  else if touching && (← atIdent) then
    let name ← identifier
    if (← atMark .lParen) && (← isAdjacent) then
      let args ← arguments k
      pure (.sigil (← spanFrom start) name (some args))
    else pure (.sigil (← spanFrom start) name none)
  else unexpected .dollarForm

/-! ### Primary expressions and what follows them -/

/-- An expression in parentheses. -/
def parenthesized (start : Nat) : Method Expr := do
  let opened ← skip
  let inner ← withHeader false k.expression
  closing .rParen opened
  pure (.paren (← spanFrom start) inner)

/-- A literal, a name, or a group. -/
def primary : Method Expr := do
  let start ← nextStart
  match ← nextKind with
  | .number n => literal start (.number · n)
  | .str parts => literal start (.str · parts)
  | .char part => literal start (.char · part)
  | .rawName raw => literal start (.rawName · raw)
  | .keyword (.boolean value) => literal start (.bool · value)
  | .keyword (.primitive .fn) => lambda k
  | .ident _ => nameExpr k
  | .punctuation .lParen => parenthesized k start
  | .punctuation .lBracket => arrayLiteral k start false
  | .punctuation .hash => hashExpr k
  | .punctuation .dollar => dollarExpr k
  | _ => noExpression

/-- Type arguments with the parenthesis of a call right behind them; the parenthesis is not passed. -/
def callTypeArgs : Method (List TypeExpr) := do
  let args ← typeArgs k.type
  if 0 < (← owed) then unexpected (.punctuation .lParen)
  else if ← atMark .lParen then pure args
  else unexpected (.punctuation .lParen)

/-- A call with type arguments, if `<` opens such a list and touches what it follows. -/
def genericCall? (start : Nat) (callee : Expr) : Method (Option Expr) := do
  match ← Method.attempt (callTypeArgs k) with
  | none => pure none
  | some generics => do
    let args ← arguments k
    pure (some (.call (← spanFrom start) callee (some generics) args))

/-- One call, member or subscript behind an expression that begins at `start`. -/
def suffixStep (start : Nat) (e : Expr) : Method (Option Expr) := do
  if ← atMark .lParen then
    let args ← arguments k
    pure (some (.call (← spanFrom start) e none args))
  else if (← atOperator .lt) && (← isAdjacent) && e.takesGenerics then genericCall? k start e
  else if ← acceptMark .dot then
    let name ← identifier
    pure (some (.member (← spanFrom start) e name))
  else if ← atMark .lBracket then
    let opened ← skip
    let index ← withHeader false k.expression
    closing .rBracket opened
    pure (some (.subscript (← spanFrom start) e index))
  else pure none

/-- A primary expression with the calls, members and subscripts behind it. -/
def operandExpr : Method Expr := do
  let start ← nextStart
  let e ← primary k
  Method.grow (suffixStep k start) e

/-! ### Operators and casts -/

/-- A type in parentheses. -/
def castType : Method TypeExpr := do
  let type ← k.type
  let _ ← expectMark .rParen
  pure type

/-- A cast; the parenthesis comes next.  Nothing is read if the parentheses hold no type, or if no operand follows
them. -/
def cast? : Method (Option Expr) := do
  let saved ← look id
  let opened ← skip
  match ← Method.attempt (castType k) with
  | none => do
    change (·.rewindTo saved)
    pure none
  | some type => do
    if opensOperand (!type.isNamed) (← nextKind) then
      let e ← k.unary
      pure (some (.cast (← spanFrom opened.start) type e))
    else
      change (·.rewindTo saved)
      pure none

/-- An operand behind two `&` that are written as one token. -/
def doubleAddress (start : Nat) : Method Expr := do
  let _ ← skip
  requireOperand .andAnd
  let e ← k.unary
  pure (.unary (← spanFrom start) .addrOf (.unary ⟨start + 1, e.span.stop⟩ .addrOf e))

/-- An operand with the operators before it. -/
def unaryBody : Method Expr := do
  let start ← nextStart
  match ← nextKind with
  | .operator op =>
    match UnaryOp.ofOperator? op with
    | some unary => do
      let _ ← skip
      requireOperand op
      let e ← k.unary
      pure (.unary (← spanFrom start) unary e)
    | none => if op = .andAnd then doubleAddress k start else operandExpr k
  | .punctuation .lParen => do
    match ← cast? k with
    | some e => pure e
    | none => operandExpr k
  | _ => operandExpr k

/-- One operator of at least a level, with its right operand. -/
def chainStep (level : Nat) (left : Expr) : Method (Option Expr) := do
  match (← nextKind).operator? with
  | none => pure none
  | some op =>
    match op.binaryPower? with
    | none => pure none
    | some (precedence, associativity) =>
      if precedence < level then pure none
      else do
        let _ ← skip
        requireOperand op
        let right ← k.chain (rightLevel precedence associativity)
        pure (joined? op left right)

/-- A chain of operators of at least a level. -/
def chainBody (level : Nat) : Method Expr := do
  let left ← unaryBody k
  Method.grow (chainStep k level) left

/-- The consequence of a conditional, unless it is left out. -/
def consequence : Method (Option Expr) := do
  if ← atMark .colon then pure none
  else
    let e ← k.expression
    pure (some e)

/-- A whole expression. -/
def expressionBody : Method Expr := do
  let condition ← chainBody k 1
  if ← acceptMark .question then
    let chosen ← consequence k
    let _ ← expectMark .colon
    let alternative ← k.expression
    pure (.conditional (condition.span.merge alternative.span) condition chosen alternative)
  else pure condition

end Session

end ElleFrontEnd
