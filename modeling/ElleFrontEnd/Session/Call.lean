import ElleFrontEnd.Session.Declaration

/-!
# The calls of a session

All methods by which a session reads, and for each what it does (`method`), what parser it follows (`parser`), and of
which registers it may be said to follow it (`Fits`).  A call is made with fuel for as many levels as the limit allows
for.
-/

namespace ElleFrontEnd

namespace Session

open ElleFrontEnd.Parser (BindingForm)

/-- The calls that open no nested construct and go by no register. -/
inductive Simple : Type → Type
  | skip : Simple Span
  | accept (kind : TokenKind) : Simple Bool
  | expect (kind : TokenKind) (wanted : Expected) : Simple Span
  | closing (close : Punctuation) (opened : Span) : Simple Unit
  | identifier : Simple String
  | semicolon : Simple Unit
  | typeSuffixes (start : Nat) (type : TypeExpr) : Simple TypeExpr
  | typeParams : Simple (List String)
  | requireOperand (op : Operator) : Simple Unit
  | pathSegment : Simple String
  | importPath : Simple ModulePath
  | globalLine : Simple (List GlobalOption)
  | moduleLine : Simple String
  | modifierList : Simple (List Modifier)
  | declName : Simple DeclName
  | toNextStatement : Simple Unit
  | toNextDeclaration : Simple Unit

/-- The calls that may find nothing: what is tried and given up where it fails, and what goes back on what it has
tried. -/
inductive Offer : Type → Type
  | tryTypeArgs : Offer (List TypeExpr)
  | tryCallTypeArgs : Offer (List TypeExpr)
  | tryElementType : Offer TypeExpr
  | tryCastType : Offer TypeExpr
  | tryTypeAndName : Offer (TypeExpr × String)
  | structLiteral (start : Nat) (name : String) : Offer Expr
  | cast : Offer Expr
  | binding : Offer BindingForm

/-- The calls of a session.  Those of nested constructs open a level; the others do not. -/
inductive Call : Type → Type 1
  | simple {α : Type} (c : Simple α) : Call α
  | offer {α : Type} (c : Offer α) : Call (Option α)
  -- types
  | closeAngle : Call Unit
  | typeArgList : Call (List TypeExpr)
  | typeArgs : Call (List TypeExpr)
  | typeBody : Call TypeExpr
  -- expressions
  | exprList (close : Punctuation) (opened : Span) : Call (List Expr)
  | arguments : Call (List Expr)
  | param : Call Param
  | paramList : Call ParamList
  | lambda : Call Expr
  | fieldInits (opened : Span) : Call (List FieldInit)
  | nameExpr : Call Expr
  | arrayLiteral (start : Nat) (isStatic : Bool) : Call Expr
  | directive (d : DirectiveName) : Call Directive
  | hashExpr : Call Expr
  | dollarExpr : Call Expr
  | primary : Call Expr
  | callTypeArgs : Call (List TypeExpr)
  | operandExpr : Call Expr
  | unaryBody : Call Expr
  | chainBody (level : Nat) : Call Expr
  | expressionBody : Call Expr
  -- statements
  | initializer : Call (Option Expr)
  | assignment : Call (Option (AssignOp × Expr))
  | simpleStatement : Call (Span → Stmt)
  | headerCondition : Call Expr
  | ifBody : Call IfParts
  | whileStatement : Call (Span → Stmt)
  | forInit : Call ForInit
  | forStep : Call ForStep
  | forStatement : Call (Span → Stmt)
  | statement : Call Stmt
  | recoverFrom (e : Diagnostic) : Call Unit
  | blockInner : Call Block
  | blockBody : Call Block
  -- declarations
  | attributeList : Call (List Attribute)
  | functionDecl (modifiers : List Modifier) : Call FunctionDecl
  | constDecl (modifiers : List Modifier) : Call ConstDecl
  | structField : Call Field
  | structDecl (modifiers : List Modifier) : Call StructDecl
  | declaration : Call Declaration
  | program : Call (List Declaration)
  -- nested constructs
  | type : Call TypeExpr
  | expression : Call Expr
  | chain (level : Nat) : Call Expr
  | unary : Call Expr
  | block : Call Block
  | elseIf : Call IfParts

variable {α : Type}

/-- The parser that a simple call runs. -/
def Simple.parser : Simple α → Parser α
  | skip => Parser.skip
  | accept kind => Parser.accept kind
  | expect kind wanted => Parser.expect kind wanted
  | closing close opened => Parser.closing close opened
  | identifier => Parser.identifier
  | semicolon => Parser.semicolon
  | typeSuffixes start type => Parser.grow (Parser.typeSuffix start) type
  | typeParams => Parser.typeParams
  | requireOperand op => Parser.requireOperand op
  | pathSegment => Parser.pathSegment
  | importPath => Parser.importPath
  | globalLine => Parser.globalLine
  | moduleLine => Parser.moduleLine
  | modifierList => Parser.modifierList
  | declName => Parser.declName
  | toNextStatement => Parser.change Parser.toNextStatement
  | toNextDeclaration => Parser.change Parser.toNextDeclaration

/-- What an offer does, with methods for what nests in it. -/
def Offer.method (k : Methods) : Offer α → Method (Option α)
  | tryTypeArgs => Method.attempt (Session.typeArgs k.type)
  | tryCallTypeArgs => Method.attempt (Session.callTypeArgs k)
  | tryElementType => Method.attempt (Session.elementType k)
  | tryCastType => Method.attempt (Session.castType k)
  | tryTypeAndName => Method.attempt (Session.typeAndName k)
  | structLiteral start name => Session.structLiteral? k start name
  | cast => Session.cast? k
  | binding => Session.binding? k

/-- What a call does, with methods for what nests in it. -/
def Call.method (k : Methods) : Call α → Method α
  | simple c => liftM c.parser
  | offer c => c.method k
  | closeAngle => Session.closeAngle
  | typeArgList => Session.typeArgList k.type
  | typeArgs => Session.typeArgs k.type
  | typeBody => Session.typeBody k.type
  | exprList close opened => Session.exprList k close opened
  | arguments => Session.arguments k
  | param => Session.param k
  | paramList => Session.paramList k
  | lambda => Session.lambda k
  | fieldInits opened => Session.fieldInits k opened
  | nameExpr => Session.nameExpr k
  | arrayLiteral start isStatic => Session.arrayLiteral k start isStatic
  | directive d => Session.directiveOf k d
  | hashExpr => Session.hashExpr k
  | dollarExpr => Session.dollarExpr k
  | primary => Session.primary k
  | callTypeArgs => Session.callTypeArgs k
  | operandExpr => Session.operandExpr k
  | unaryBody => Session.unaryBody k
  | chainBody level => Session.chainBody k level
  | expressionBody => Session.expressionBody k
  | initializer => Session.initializer k
  | assignment => Session.assignment? k
  | simpleStatement => Session.simpleStatement k
  | headerCondition => Session.headerCondition k
  | ifBody => Session.ifBody k
  | whileStatement => Session.whileStatement k
  | forInit => Session.forInit k
  | forStep => Session.forStep k
  | forStatement => Session.forStatement k
  | statement => Session.statement k
  | recoverFrom e => Session.recoverFrom e
  | blockInner => Session.blockInner k
  | blockBody => Session.blockBody k
  | attributeList => Session.attributeList k
  | functionDecl modifiers => Session.functionDecl k modifiers
  | constDecl modifiers => Session.constDecl k modifiers
  | structField => Session.structField k
  | structDecl modifiers => Session.structDecl k modifiers
  | declaration => Session.declaration k
  | program => Session.program k
  | type => k.type
  | expression => k.expression
  | chain level => k.chain level
  | unary => k.unary
  | block => k.block
  | elseIf => k.elseIf

/-- The methods of nested constructs, with fuel for all levels that the limit allows for. -/
def methods (s : Session) : Methods := .ofFuel (s.registers.options.maxDepth + 1)

/-- A call in a session. -/
def Call.run (c : Call α) : Method α := fun s => c.method s.methods s

/-- An offer in a session. -/
def Offer.run (c : Offer α) : Method (Option α) := fun s => c.method s.methods s

/-! ### The parsers that are followed -/

/-- The parser that an offer follows from the registers `r`. -/
def Offer.parser (r : Registers) (c : Offer α) : Parser (Option α) :=
  let g := Inner.ofRoom r.options r.room
  match c with
  | tryTypeArgs => Parser.attempt (Parser.typeArgs g.type 0)
  | tryCallTypeArgs => Parser.attempt (Parser.callTypeArgs g)
  | tryElementType => Parser.attempt do
    let type ← g.type 0
    let _ ← Parser.expectMark .semicolon
    pure type
  | tryCastType => Parser.attempt (Parser.castType g)
  | tryTypeAndName => Parser.attempt (Parser.typeAndName g)
  | structLiteral start name => Parser.structLiteral? g start name
  | cast => Parser.cast? g r.header
  | binding => Parser.binding? g r.header

/-- The parser that a call follows from the registers `r`. -/
def Call.parser (r : Registers) (c : Call α) : Parser α :=
  let g := Inner.ofRoom r.options r.room
  match c with
  | simple c => c.parser
  | offer c => c.parser r
  | closeAngle => Parser.closeAngle r.angles
  | typeArgList => Parser.typeArgList g.type r.angles
  | typeArgs => Parser.typeArgs g.type r.angles
  | typeBody => Parser.typeBody g.type r.angles
  | exprList close opened => Parser.exprList g close opened
  | arguments => Parser.arguments g
  | param => Parser.param g
  | paramList => Parser.paramList g
  | lambda => Parser.lambda g r.header
  | fieldInits opened => Parser.fieldInits g opened
  | nameExpr => Parser.nameExpr g r.header
  | arrayLiteral start isStatic => Parser.arrayLiteral g start isStatic
  | directive d => Parser.directiveOf g d
  | hashExpr => Parser.hashExpr g
  | dollarExpr => Parser.dollarExpr g
  | primary => Parser.primary g r.header
  | callTypeArgs => Parser.callTypeArgs g
  | operandExpr => Parser.operandExpr g r.header
  | unaryBody => Parser.unaryBody g r.header
  | chainBody level => Parser.chainBody g r.header level
  | expressionBody => Parser.expressionBody g r.header
  | initializer => Parser.initializer g r.header
  | assignment => Parser.assignment? g r.header
  | simpleStatement => Parser.simpleStatement g
  | headerCondition => Parser.headerCondition g
  | ifBody => Parser.ifBody g
  | whileStatement => do
    let _ ← Parser.skip
    let condition ← Parser.headerCondition g
    let body ← g.block
    pure (.whileLoop · condition body)
  | forInit => Parser.forInit g r.header
  | forStep => Parser.forStep g r.header
  | forStatement => Parser.forStatement g
  | statement => Parser.statement g
  | recoverFrom e => if r.options.recover then Parser.record e else Parser.fail e
  | blockInner | blockBody => Parser.blockBody r.options g
  | attributeList => Parser.attributeList g
  | functionDecl modifiers => Parser.functionDecl g modifiers
  | constDecl modifiers => Parser.constDecl g modifiers
  | structField => Parser.structField g
  | structDecl modifiers => Parser.structDecl g modifiers
  | declaration => Parser.declaration g
  | program => Parser.program r.options
  | type => g.type r.angles
  | expression => g.expression r.header
  | chain level => g.chain r.header level
  | unary => g.unary r.header
  | block => g.block
  | elseIf => g.elseIf

/-- The registers from which a call is ever made: only types are read in argument lists, items out of headers, and
programs out of everything. -/
def Call.Fits (r : Registers) : Call α → Prop
  | simple _ | closeAngle | typeArgList | typeArgs | typeBody | type => True
  | exprList _ _ | fieldInits _ | simpleStatement | statement | blockInner | constDecl _ | declaration =>
    r.angles = 0 ∧ r.header = false
  | program => r.depth = 0 ∧ r.angles = 0 ∧ r.header = false
  | _ => r.angles = 0

end Session

end ElleFrontEnd
