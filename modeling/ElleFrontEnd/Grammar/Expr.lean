import ElleFrontEnd.Grammar.Type
import ElleFrontEnd.Tree.Declaration

/-!
# Reading expressions

From the loosest form to the tightest: conditionals, chains of operators between operands, operators before an
operand and casts, then calls, members and subscripts behind a primary expression.

What nests in a construct is read by the parsers of an `Inner`, which stand one nesting level further in.  So no
function here calls itself through another: the levels are tied together once, in `Inner.ofRoom`.

The flag `header` is set while the header of a statement is read, where `Name {` opens the body of the statement and
no struct literal.  Brackets of any kind clear it.
-/

namespace ElleFrontEnd

/-- What is read of an `if` behind its keyword. -/
structure IfParts where
  condition : Expr
  body : Block
  otherwise : Else

/-- The parsers of the constructs that nest in others, one level further in than the construct that holds them. -/
structure Inner where
  /-- a type, inside a number of open argument lists -/
  type : Nat → Parser TypeExpr
  /-- a whole expression, in a statement header or not -/
  expression : (header : Bool) → Parser Expr
  /-- a chain of operators of at least a level -/
  chain : (header : Bool) → (level : Nat) → Parser Expr
  /-- an operand with the operators before it -/
  unary : (header : Bool) → Parser Expr
  block : Parser Block
  /-- an `if` that follows an `else` -/
  elseIf : Parser IfParts

namespace Parser

/-- Fails at the next token, because it opens no expression. -/
def noExpression {α : Type} : Parser α := fun s =>
  (.error { cause := .noExpression s.peek.kind, span := s.peek.span }, s)

/-- Whether a token can open an operand.  Unless `evenInChain` is set, tokens that could also go on with an expression
after an operand do not count. -/
def opensOperand (evenInChain : Bool) : TokenKind → Bool
  | .ident _ | .number _ | .str _ | .char _ | .rawName _ => true
  | .keyword (.boolean _) | .keyword (.primitive .fn) => true
  | .punctuation .lParen | .punctuation .hash | .punctuation .dollar => true
  | .punctuation .lBracket => evenInChain
  | .operator .bang | .operator .tilde => true
  | .operator .minus | .operator .plus | .operator .star | .operator .amp | .operator .andAnd => evenInChain
  | _ => false

/-- Requires that the next token can open the operand of `op`. -/
def requireOperand (op : Operator) : Parser Unit := fun s =>
  if opensOperand true s.peek.kind then (.ok (), s)
  else (.error { cause := .noOperand op s.peek.kind, span := s.peek.span }, s)

/-! ### Lists and names -/

/-- Expressions between commas, up to the closer of a group opened at `opened`. -/
def exprList (g : Inner) (close : Punctuation) (opened : Span) : Parser (List Expr) := do
  let items ← commaList close (g.expression false)
  closing close opened
  pure items

/-- Arguments in parentheses. -/
def arguments (g : Inner) : Parser (List Expr) := do
  let opened ← expectMark .lParen
  exprList g .rParen opened

/-- The further segments of a name, each after a `::`. -/
def pathTail : Parser (List String) :=
  collect do
    if ← acceptMark .colonColon then
      let segment ← identifier
      pure (.more segment)
    else pure .stop

/-! ### Parameter lists and lambdas -/

/-- The name that opens a parameter list with a meta binding. -/
def metaMarker : String := "ElleMeta"

/-- The attribute of a parameter that is not to be formatted. -/
def noFormatMarker : String := "nofmt"

/-- One parameter. -/
def param (g : Inner) : Parser Param := do
  let start ← nextStart
  if ← acceptMark .ellipsis then
    if ← atIdent then
      let name ← identifier
      pure (.variadic (← spanFrom start) (some name))
    else pure (.variadic (← spanFrom start) none)
  else if (← atMark .atSign) && (← isAhead 1 (.ident noFormatMarker)) then
    let _ ← skip
    let _ ← skip
    let type ← g.type 0
    let name ← identifier
    pure (.noFormat (← spanFrom start) type name)
  else
    let type ← g.type 0
    if ← atIdent then
      let name ← identifier
      pure (.named (← spanFrom start) type name)
    else pure (.unnamed (← spanFrom start) type)

/-- The meta binding at the head of a parameter list, with the comma behind it. -/
def metaBinding : Parser (Option String) := do
  if (← isAt (.ident metaMarker)) && (← look fun s => (s.kindAt 1).ident?.isSome) then
    let _ ← skip
    let name ← identifier
    if ← atMark .rParen then pure (some name)
    else
      let _ ← expectMark .comma
      pure (some name)
  else pure none

/-- A parameter list in parentheses. -/
def paramList (g : Inner) : Parser ParamList := do
  let opened ← expectMark .lParen
  let metaName ← metaBinding
  let params ← commaList .rParen (param g)
  closing .rParen opened
  pure { metaName, params }

/-- A lambda, with a block or an expression for its body. -/
def lambda (g : Inner) (header : Bool) : Parser Expr := do
  let opened ← expectKeyword .fn
  let params ← paramList g
  if ← atMark .lBrace then
    let body ← g.block
    pure (.blockLambda (← spanFrom opened.start) params body)
  else
    let body ← g.expression header
    pure (.lambda (← spanFrom opened.start) params body)

/-! ### Struct literals, arrays, and the forms of `#` and `$` -/

/-- Whether a brace comes next that opens the fields of a struct literal: an empty pair, or `name =`. -/
def atStructBody : Parser Bool :=
  look fun s =>
    s.peek.kind = .punctuation .lBrace &&
      (s.kindAt 1 = .punctuation .rBrace || (s.kindAt 1).ident?.isSome && s.kindAt 2 = .operator .eq)

/-- `name = value` in a struct literal. -/
def fieldInit (g : Inner) : Parser FieldInit := do
  let start ← nextStart
  let name ← identifier
  let _ ← expectOperator .eq
  let value ← g.expression false
  pure (.mk (← spanFrom start) name value)

/-- The type arguments of a struct literal.  The outer option is empty where `<` opens no such list. -/
def structTypeArgs (g : Inner) : Parser (Option (Option (List TypeExpr))) := do
  if (← atOperator .lt) && (← isAdjacent) then
    match ← attempt (typeArgs g.type 0) with
    | some args => if (← owed) = 0 then pure (some (some args)) else pure none
    | none => pure none
  else pure (some none)

/-- The rest of a struct literal behind its name, which begins at `start`; nothing is read if there is none. -/
def structLiteral? (g : Inner) (start : Nat) (name : String) : Parser (Option Expr) := do
  let saved ← look id
  match ← structTypeArgs g with
  | none => do
    change (·.rewindTo saved)
    pure none
  | some generics => do
    if ← atStructBody then
      let opened ← skip
      let fields ← commaList .rBrace (fieldInit g)
      closing .rBrace opened
      pure (some (.structLit (← spanFrom start) name generics fields))
    else
      change (·.rewindTo saved)
      pure none

/-- An expression that opens with a name: the name itself, a path, or a struct literal. -/
def nameExpr (g : Inner) (header : Bool) : Parser Expr := do
  let start ← nextStart
  let name ← identifier
  if ← atMark .colonColon then
    let tail ← pathTail
    pure (.qualified (← spanFrom start) (name :: tail))
  else if header then pure (.ident (← spanFrom start) name)
  else
    match ← structLiteral? g start name with
    | some literal => pure literal
    | none => pure (.ident (← spanFrom start) name)

/-- An array literal, whose source begins at `start`; the bracket comes next. -/
def arrayLiteral (g : Inner) (start : Nat) (isStatic : Bool) : Parser Expr := do
  let opened ← expectMark .lBracket
  let element ← attempt do
    let type ← g.type 0
    let _ ← expectMark .semicolon
    pure type
  let elements ← exprList g .rBracket opened
  pure (.array (← spanFrom start) element isStatic elements)

/-- Fails at the next token, because the operands of a directive have another shape. -/
def wrongOperands {α : Type} (d : DirectiveName) : Parser α := fun s =>
  (.error { cause := .wrongOperands d s.peek.kind, span := s.peek.span, hints := [.usage d] }, s)

/-- One operand of a directive, behind a comma unless it is the first. -/
def operand {α : Type} (d : DirectiveName) (isFirst : Bool) (p : Parser α) : Parser α := do
  let separated ← if isFirst then pure true else acceptMark .comma
  if !separated then wrongOperands d
  else if ← atMark .rParen then wrongOperands d
  else p

/-- A last operand that may be left out together with its comma. -/
def optionalOperand (g : Inner) : Parser (Option Expr) := do
  if ← acceptMark .comma then
    let e ← g.expression false
    pure (some e)
  else pure none

/-- A type as an operand; where it fails, the usage of the directive is a further hint. -/
def typeOperand (g : Inner) (d : DirectiveName) : Parser TypeExpr := onError (·.withHint (.usage d)) (g.type 0)

/-- The operands of a directive in their parentheses. -/
def operandList {α : Type} (d : DirectiveName) (operands : Parser α) : Parser α := do
  let opened ← onError (·.withHint (.usage d)) (expectMark .lParen)
  let result ← operands
  if !(← atMark .rParen) && !(← atEnd) then wrongOperands d
  else
    closing .rParen opened
    pure result

/-- What follows the name of a directive. -/
def directiveOf (g : Inner) (d : DirectiveName) : Parser Directive :=
  match d with
  | .len => operandList d do
    let e ← operand d true (g.expression false)
    pure (.len e)
  | .size => operandList d do
    let t ← operand d true (typeOperand g d)
    pure (.size t)
  | .ident => operandList d do
    let name ← operand d true identifier
    pure (.ident name)
  | .env => do if ← atMark .lParen then wrongOperands d else pure .env
  | .alloc => operandList d do
    let t ← operand d true (typeOperand g d)
    let count ← optionalOperand g
    pure (.alloc t count)
  | .realloc => operandList d do
    let e ← operand d true (g.expression false)
    let t ← operand d false (typeOperand g d)
    let count ← optionalOperand g
    pure (.realloc e t count)
  | .free => operandList d do
    let e ← operand d true (g.expression false)
    pure (.free e)
  | .setAllocator => operandList d do
    let e ← operand d true (g.expression false)
    pure (.setAllocator e)
  | .resetAllocator => operandList d (pure .resetAllocator)

/-- A static array or a directive; the `#` comes next. -/
def hashExpr (g : Inner) : Parser Expr := do
  let opened ← expectMark .hash
  if ← atMark .lBracket then arrayLiteral g opened.start true
  else
    match ← nextKind with
    | .ident name => do
      let nameSpan ← skip
      match DirectiveName.ofSpelling? name with
      | none =>
        fail { cause := .unknownDirective name, span := ⟨opened.start, nameSpan.stop⟩, hints := [.knownDirectives] }
      | some d => do
        let directive ← directiveOf g d
        pure (.directive (← spanFrom opened.start) directive)
    | _ => unexpected .directiveName

/-- Fails because a literal of fixed size, which begins at `start`, has `found` elements. -/
def wrongSize {α : Type} (form : FixedLiteral) (found start : Nat) : Parser α := do
  fail { cause := .literalSize form found, span := ← spanFrom start }

/-- A tuple, a triple or a sigil; the `$` comes next, and what follows it has to touch it. -/
def dollarExpr (g : Inner) : Parser Expr := do
  let opened ← expectMark .dollar
  let start := opened.start
  let touching ← isAdjacent
  if touching && (← atMark .dollar) && (← isAhead 1 (.punctuation .lParen)) && (← look ParseState.nextIsAdjacent) then
    let _ ← skip
    match ← arguments g with
    | [a, b, c] => pure (.triple (← spanFrom start) a b c)
    | items => wrongSize .triple items.length start
  else if touching && (← atMark .lParen) then
    match ← arguments g with
    | [a, b] => pure (.tuple (← spanFrom start) a b)
    | items => wrongSize .tuple items.length start
  else if touching && (← atIdent) then
    let name ← identifier
    if (← atMark .lParen) && (← isAdjacent) then
      let args ← arguments g
      pure (.sigil (← spanFrom start) name (some args))
    else pure (.sigil (← spanFrom start) name none)
  else unexpected .dollarForm

/-! ### Primary expressions and what follows them -/

/-- An expression in parentheses. -/
def parenthesized (g : Inner) (start : Nat) : Parser Expr := do
  let opened ← skip
  let inner ← g.expression false
  closing .rParen opened
  pure (.paren (← spanFrom start) inner)

/-- Passes the token of a literal that begins at `start`. -/
def literal (start : Nat) (build : Span → Expr) : Parser Expr := do
  let _ ← skip
  pure (build (← spanFrom start))

/-- A literal, a name, or a group. -/
def primary (g : Inner) (header : Bool) : Parser Expr := do
  let start ← nextStart
  match ← nextKind with
  | .number n => literal start (.number · n)
  | .str parts => literal start (.str · parts)
  | .char part => literal start (.char · part)
  | .rawName raw => literal start (.rawName · raw)
  | .keyword (.boolean value) => literal start (.bool · value)
  | .keyword (.primitive .fn) => lambda g header
  | .ident _ => nameExpr g header
  | .punctuation .lParen => parenthesized g start
  | .punctuation .lBracket => arrayLiteral g start false
  | .punctuation .hash => hashExpr g
  | .punctuation .dollar => dollarExpr g
  | _ => noExpression

/-- Type arguments with the parenthesis of a call right behind them; the parenthesis is not passed. -/
def callTypeArgs (g : Inner) : Parser (List TypeExpr) := do
  let args ← typeArgs g.type 0
  if 0 < (← owed) then unexpected (.punctuation .lParen)
  else if ← atMark .lParen then pure args
  else unexpected (.punctuation .lParen)

/-- A call with type arguments, if `<` opens such a list and touches what it follows. -/
def genericCall? (g : Inner) (start : Nat) (callee : Expr) : Parser (Option Expr) := do
  match ← attempt (callTypeArgs g) with
  | none => pure none
  | some generics => do
    let args ← arguments g
    pure (some (.call (← spanFrom start) callee (some generics) args))

/-- One call, member or subscript behind an expression that begins at `start`. -/
def suffixStep (g : Inner) (start : Nat) (e : Expr) : Parser (Option Expr) := do
  if ← atMark .lParen then
    let args ← arguments g
    pure (some (.call (← spanFrom start) e none args))
  else if (← atOperator .lt) && (← isAdjacent) && e.takesGenerics then genericCall? g start e
  else if ← acceptMark .dot then
    let name ← identifier
    pure (some (.member (← spanFrom start) e name))
  else if ← atMark .lBracket then
    let opened ← skip
    let index ← g.expression false
    closing .rBracket opened
    pure (some (.subscript (← spanFrom start) e index))
  else pure none

/-- A primary expression with the calls, members and subscripts behind it. -/
def operandExpr (g : Inner) (header : Bool) : Parser Expr := do
  let start ← nextStart
  let e ← primary g header
  grow (suffixStep g start) e

/-! ### Operators and casts -/

/-- A type in parentheses. -/
def castType (g : Inner) : Parser TypeExpr := do
  let type ← g.type 0
  let _ ← expectMark .rParen
  pure type

/-- A cast; the parenthesis comes next.  Nothing is read if the parentheses hold no type, or if no operand follows
them.  After a bare name, an operator that could also stand between two operands is taken as such. -/
def cast? (g : Inner) (header : Bool) : Parser (Option Expr) := do
  let saved ← look id
  let opened ← skip
  match ← attempt (castType g) with
  | none => do
    change (·.rewindTo saved)
    pure none
  | some type => do
    if opensOperand (!type.isNamed) (← nextKind) then
      let e ← g.unary header
      pure (some (.cast (← spanFrom opened.start) type e))
    else
      change (·.rewindTo saved)
      pure none

/-- An operand behind two `&` that are written as one token. -/
def doubleAddress (g : Inner) (header : Bool) (start : Nat) : Parser Expr := do
  let _ ← skip
  requireOperand .andAnd
  let e ← g.unary header
  pure (.unary (← spanFrom start) .addrOf (.unary ⟨start + 1, e.span.stop⟩ .addrOf e))

/-- An operand with the operators before it. -/
def unaryBody (g : Inner) (header : Bool) : Parser Expr := do
  let start ← nextStart
  match ← nextKind with
  | .operator op =>
    match UnaryOp.ofOperator? op with
    | some unary => do
      let _ ← skip
      requireOperand op
      let e ← g.unary header
      pure (.unary (← spanFrom start) unary e)
    | none => if op = .andAnd then doubleAddress g header start else operandExpr g header
  | .punctuation .lParen => do
    match ← cast? g header with
    | some e => pure e
    | none => operandExpr g header
  | _ => operandExpr g header

/-- The expression that an operator makes of its two operands. -/
def joined? (op : Operator) (left right : Expr) : Option Expr :=
  let span := left.span.merge right.span
  match op with
  | .dotDot => some (.range span left right false)
  | .dotDotEq => some (.range span left right true)
  | _ => (BinaryOp.ofOperator? op).map fun binary => .binary span left binary right

/-- The lowest level that the right operand of an operator may have. -/
def rightLevel (precedence : Nat) : Associativity → Nat
  | .right => precedence
  | .left | .none => precedence + 1

/-- One operator of at least a level, with its right operand. -/
def chainStep (g : Inner) (header : Bool) (level : Nat) (left : Expr) : Parser (Option Expr) := do
  match (← nextKind).operator? with
  | none => pure none
  | some op =>
    match op.binaryPower? with
    | none => pure none
    | some (precedence, associativity) =>
      if precedence < level then pure none
      else do
        let _ ← skip
        requireOperand op
        let right ← g.chain header (rightLevel precedence associativity)
        pure (joined? op left right)

/-- A chain of operators of at least a level. -/
def chainBody (g : Inner) (header : Bool) (level : Nat) : Parser Expr := do
  let left ← unaryBody g header
  grow (chainStep g header level) left

/-- The consequence of a conditional, unless it is left out. -/
def consequence (g : Inner) (header : Bool) : Parser (Option Expr) := do
  if ← atMark .colon then pure none
  else
    let e ← g.expression header
    pure (some e)

/-- A whole expression. -/
def expressionBody (g : Inner) (header : Bool) : Parser Expr := do
  let condition ← chainBody g header 1
  if ← acceptMark .question then
    let chosen ← consequence g header
    let _ ← expectMark .colon
    let alternative ← g.expression header
    pure (.conditional (condition.span.merge alternative.span) condition chosen alternative)
  else pure condition

end Parser

end ElleFrontEnd
