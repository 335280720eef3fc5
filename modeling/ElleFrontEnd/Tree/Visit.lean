import ElleFrontEnd.Tree.Spans

/-!
# Visiting a tree

A visitor is told every stretch that a tree carries and answers with the one to put in its place; it may remember what
it has seen.  A tree is visited with a node before what it contains, and the parts of a node in the order in which they
are kept.
-/

namespace ElleFrontEnd

variable {m : Type → Type} [Monad m] (v : Span → m Span)

/-! ### Types and parameters -/

mutual

/-- Visits a type. -/
def TypeExpr.visit : TypeExpr → m TypeExpr
  | .primitive s type => do return .primitive (← v s) type
  | .named s name => do return .named (← v s) name
  | .array s element dims => do return .array (← v s) (← element.visit) dims
  | .pointer s base depth => do return .pointer (← v s) (← base.visit) depth
  | .generic s name args => do return .generic (← v s) name (← typeListVisit args)
  | .tuple s first second => do return .tuple (← v s) (← first.visit) (← second.visit)

/-- Visits types in order. -/
def typeListVisit : List TypeExpr → m (List TypeExpr)
  | [] => return []
  | t :: ts => do return (← t.visit) :: (← typeListVisit ts)

end

/-- Visits a type that may be absent. -/
def optTypeVisit : Option TypeExpr → m (Option TypeExpr)
  | none => return none
  | some t => do return some (← t.visit v)

/-- Visits type arguments that may be absent. -/
def optTypeListVisit : Option (List TypeExpr) → m (Option (List TypeExpr))
  | none => return none
  | some ts => do return some (← typeListVisit v ts)

/-- Visits a parameter. -/
def Param.visit : Param → m Param
  | .named s type name => do return .named (← v s) (← type.visit v) name
  | .unnamed s type => do return .unnamed (← v s) (← type.visit v)
  | .variadic s name => do return .variadic (← v s) name
  | .noFormat s type name => do return .noFormat (← v s) (← type.visit v) name

/-- Visits the parameters of a list. -/
def ParamList.visit (list : ParamList) : m ParamList := do
  return { list with params := ← list.params.mapM (Param.visit v) }

/-! ### Expressions and statements -/

mutual

/-- Visits an expression. -/
def Expr.visit : Expr → m Expr
  | .binary s left op right => do return .binary (← v s) (← left.visit) op (← right.visit)
  | .unary s op operand => do return .unary (← v s) op (← operand.visit)
  | .call s callee generics args => do
    return .call (← v s) (← callee.visit) (← optTypeListVisit v generics) (← exprListVisit args)
  | .member s object name => do return .member (← v s) (← object.visit) name
  | .subscript s object index => do return .subscript (← v s) (← object.visit) (← index.visit)
  | .conditional s condition none alternative => do
    return .conditional (← v s) (← condition.visit) none (← alternative.visit)
  | .conditional s condition (some consequence) alternative => do
    return .conditional (← v s) (← condition.visit) (some (← consequence.visit)) (← alternative.visit)
  | .cast s type operand => do return .cast (← v s) (← type.visit v) (← operand.visit)
  | .paren s inner => do return .paren (← v s) (← inner.visit)
  | .ident s name => do return .ident (← v s) name
  | .qualified s path => do return .qualified (← v s) path
  | .rawName s raw => do return .rawName (← v s) raw
  | .number s literal => do return .number (← v s) literal
  | .str s parts => do return .str (← v s) parts
  | .bool s value => do return .bool (← v s) value
  | .char s part => do return .char (← v s) part
  | .array s element isStatic elements => do
    return .array (← v s) (← optTypeVisit v element) isStatic (← exprListVisit elements)
  | .tuple s first second => do return .tuple (← v s) (← first.visit) (← second.visit)
  | .triple s first second third => do return .triple (← v s) (← first.visit) (← second.visit) (← third.visit)
  | .structLit s name generics fields => do
    return .structLit (← v s) name (← optTypeListVisit v generics) (← fieldInitListVisit fields)
  | .lambda s params body => do return .lambda (← v s) (← params.visit v) (← body.visit)
  | .blockLambda s params body => do return .blockLambda (← v s) (← params.visit v) (← body.visit)
  | .range s start stop inclusive => do return .range (← v s) (← start.visit) (← stop.visit) inclusive
  | .directive s directive => do return .directive (← v s) (← directive.visit)
  | .sigil s name none => do return .sigil (← v s) name none
  | .sigil s name (some args) => do return .sigil (← v s) name (some (← exprListVisit args))

/-- Visits expressions in order. -/
def exprListVisit : List Expr → m (List Expr)
  | [] => return []
  | e :: es => do return (← e.visit) :: (← exprListVisit es)

/-- Visits the fields of a struct literal in order. -/
def fieldInitListVisit : List FieldInit → m (List FieldInit)
  | [] => return []
  | .mk s name value :: fields => do return .mk (← v s) name (← value.visit) :: (← fieldInitListVisit fields)

/-- Visits what a directive contains. -/
def Directive.visit : Directive → m Directive
  | .len value => do return .len (← value.visit)
  | .size type => do return .size (← type.visit v)
  | .ident name => return .ident name
  | .env => return .env
  | .alloc type none => do return .alloc (← type.visit v) none
  | .alloc type (some count) => do return .alloc (← type.visit v) (some (← count.visit))
  | .realloc pointer type none => do return .realloc (← pointer.visit) (← type.visit v) none
  | .realloc pointer type (some count) => do
    return .realloc (← pointer.visit) (← type.visit v) (some (← count.visit))
  | .free value => do return .free (← value.visit)
  | .setAllocator value => do return .setAllocator (← value.visit)
  | .resetAllocator => return .resetAllocator

/-- Visits a block. -/
def Block.visit : Block → m Block
  | .mk s statements => do return .mk (← v s) (← stmtListVisit statements)

/-- Visits statements in order. -/
def stmtListVisit : List Stmt → m (List Stmt)
  | [] => return []
  | s :: ss => do return (← s.visit) :: (← stmtListVisit ss)

/-- Visits a statement. -/
def Stmt.visit : Stmt → m Stmt
  | .expr s value => do return .expr (← v s) (← value.visit)
  | .varDecl s binding type name none => do return .varDecl (← v s) binding (← optTypeVisit v type) name none
  | .varDecl s binding type name (some init) => do
    return .varDecl (← v s) binding (← optTypeVisit v type) name (some (← init.visit))
  | .assign s target op value => do return .assign (← v s) (← target.visit) op (← value.visit)
  | .ifElse s condition body otherwise => do
    return .ifElse (← v s) (← condition.visit) (← body.visit) (← otherwise.visit)
  | .whileLoop s condition body => do return .whileLoop (← v s) (← condition.visit) (← body.visit)
  | .forLoop s init condition step body => do
    return .forLoop (← v s) (← init.visit) (← condition.visit) (← step.visit) (← body.visit)
  | .forEach s name iterable body => do return .forEach (← v s) name (← iterable.visit) (← body.visit)
  | .defer s value => do return .defer (← v s) (← value.visit)
  | .returnValue s none => do return .returnValue (← v s) none
  | .returnValue s (some value) => do return .returnValue (← v s) (some (← value.visit))
  | .breakLoop s => do return .breakLoop (← v s)
  | .continueLoop s => do return .continueLoop (← v s)
  | .block s statements => do return .block (← v s) (← stmtListVisit statements)
  | .buffer s type name size => do return .buffer (← v s) (← type.visit v) name (← size.visit)

/-- Visits what follows the block of an `if`. -/
def Else.visit : Else → m Else
  | .absent => return .absent
  | .block body => do return .block (← body.visit)
  | .elseIf s condition body otherwise => do
    return .elseIf (← v s) (← condition.visit) (← body.visit) (← otherwise.visit)

/-- Visits what a `for` loop starts with. -/
def ForInit.visit : ForInit → m ForInit
  | .varDecl s binding type name none => do return .varDecl (← v s) binding (← optTypeVisit v type) name none
  | .varDecl s binding type name (some init) => do
    return .varDecl (← v s) binding (← optTypeVisit v type) name (some (← init.visit))
  | .expr value => do return .expr (← value.visit)

/-- Visits what a `for` loop does after each round. -/
def ForStep.visit : ForStep → m ForStep
  | .assign s target op value => do return .assign (← v s) (← target.visit) op (← value.visit)
  | .expr value => do return .expr (← value.visit)

end

/-! ### Declarations -/

/-- Visits a block that may be absent. -/
def optBlockVisit : Option Block → m (Option Block)
  | none => return none
  | some b => do return some (← b.visit v)

/-- Visits a declared name. -/
def DeclName.visit : DeclName → m DeclName
  | .plain s name => do return .plain (← v s) name
  | .qualified s path => do return .qualified (← v s) path
  | .rawName s raw => do return .rawName (← v s) raw

/-- Visits an attribute. -/
def Attribute.visit : Attribute → m Attribute
  | ⟨s, name, none⟩ => do return ⟨← v s, name, none⟩
  | ⟨s, name, some args⟩ => do return ⟨← v s, name, some (← exprListVisit v args)⟩

/-- Visits what a function contains. -/
def FunctionDecl.visit (d : FunctionDecl) : m FunctionDecl := do
  return { d with
    name := ← d.name.visit v
    params := ← d.params.visit v
    attributes := ← d.attributes.mapM (Attribute.visit v)
    returnType := ← optTypeVisit v d.returnType
    body := ← optBlockVisit v d.body }

/-- Visits what a constant contains. -/
def ConstDecl.visit (d : ConstDecl) : m ConstDecl := do
  return { d with type := ← optTypeVisit v d.type, value := ← d.value.visit v }

/-- Visits a field. -/
def Field.visit (d : Field) : m Field := do
  return { d with span := ← v d.span, type := ← d.type.visit v }

/-- Visits what a struct contains. -/
def StructDecl.visit (d : StructDecl) : m StructDecl := do
  return { d with attributes := ← d.attributes.mapM (Attribute.visit v), fields := ← d.fields.mapM (Field.visit v) }

/-- Visits a declaration. -/
def Declaration.visit : Declaration → m Declaration
  | .importModule s path => do return .importModule (← v s) path
  | .globalOptions s options => do return .globalOptions (← v s) options
  | .moduleName s name => do return .moduleName (← v s) name
  | .function s decl => do return .function (← v s) (← decl.visit v)
  | .externalFunction s decl => do return .externalFunction (← v s) (← decl.visit v)
  | .constant s decl => do return .constant (← v s) (← decl.visit v)
  | .struct s decl => do return .struct (← v s) (← decl.visit v)

/-- Visits a program. -/
def Program.visit (p : Program) : m Program := do return ⟨← p.declarations.mapM (Declaration.visit v)⟩

end ElleFrontEnd
