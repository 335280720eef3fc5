import ElleFrontEnd.Tree.Declaration

/-!
# The spans of a tree

`spans` lists every stretch that a tree carries, a node before what it contains and the parts of a node in source
order.  `mapSpans` replaces every stretch and nothing else, and `withoutSpans` resets them all, so that two readings
of one program from differently laid out sources become equal.
-/

namespace ElleFrontEnd

/-! ### Listing spans -/

mutual

/-- The spans of a type. -/
def TypeExpr.spans : TypeExpr → List Span
  | .primitive s _ | .named s _ => [s]
  | .array s element _ => s :: element.spans
  | .pointer s base _ => s :: base.spans
  | .generic s _ args => s :: typeListSpans args
  | .tuple s first second => s :: (first.spans ++ second.spans)

/-- The spans of a list of types. -/
def typeListSpans : List TypeExpr → List Span
  | [] => []
  | t :: ts => t.spans ++ typeListSpans ts

end

/-- The spans of a type that may be absent. -/
def optTypeSpans : Option TypeExpr → List Span
  | none => []
  | some t => t.spans

/-- The spans of type arguments that may be absent. -/
def optTypeListSpans : Option (List TypeExpr) → List Span
  | none => []
  | some ts => typeListSpans ts

/-- The spans of a parameter. -/
def Param.spans : Param → List Span
  | .named s type _ | .unnamed s type | .noFormat s type _ => s :: type.spans
  | .variadic s _ => [s]

/-- The spans of a parameter list. -/
def ParamList.spans (list : ParamList) : List Span := list.params.flatMap Param.spans

mutual

/-- The spans of an expression. -/
def Expr.spans : Expr → List Span
  | .binary s left _ right => s :: (left.spans ++ right.spans)
  | .unary s _ operand => s :: operand.spans
  | .call s callee generics args => s :: (callee.spans ++ optTypeListSpans generics ++ exprListSpans args)
  | .member s object _ => s :: object.spans
  | .subscript s object index => s :: (object.spans ++ index.spans)
  | .conditional s condition none alternative => s :: (condition.spans ++ alternative.spans)
  | .conditional s condition (some consequence) alternative =>
    s :: (condition.spans ++ consequence.spans ++ alternative.spans)
  | .cast s type operand => s :: (type.spans ++ operand.spans)
  | .paren s inner => s :: inner.spans
  | .ident s _ | .qualified s _ | .rawName s _ | .number s _ | .str s _ | .bool s _ | .char s _ => [s]
  | .array s element _ elements => s :: (optTypeSpans element ++ exprListSpans elements)
  | .tuple s first second => s :: (first.spans ++ second.spans)
  | .triple s first second third => s :: (first.spans ++ second.spans ++ third.spans)
  | .structLit s _ generics fields => s :: (optTypeListSpans generics ++ fieldInitListSpans fields)
  | .lambda s params body => s :: (params.spans ++ body.spans)
  | .blockLambda s params body => s :: (params.spans ++ body.spans)
  | .range s start stop _ => s :: (start.spans ++ stop.spans)
  | .directive s directive => s :: directive.spans
  | .sigil s _ none => [s]
  | .sigil s _ (some args) => s :: exprListSpans args

/-- The spans of a list of expressions. -/
def exprListSpans : List Expr → List Span
  | [] => []
  | e :: es => e.spans ++ exprListSpans es

/-- The spans of the fields of a struct literal. -/
def fieldInitListSpans : List FieldInit → List Span
  | [] => []
  | .mk s _ value :: fields => s :: (value.spans ++ fieldInitListSpans fields)

/-- The spans within a directive. -/
def Directive.spans : Directive → List Span
  | .len value | .free value | .setAllocator value => value.spans
  | .size type => type.spans
  | .ident _ | .env | .resetAllocator => []
  | .alloc type none => type.spans
  | .alloc type (some count) => type.spans ++ count.spans
  | .realloc pointer type none => pointer.spans ++ type.spans
  | .realloc pointer type (some count) => pointer.spans ++ type.spans ++ count.spans

/-- The spans of a block. -/
def Block.spans : Block → List Span
  | .mk s statements => s :: stmtListSpans statements

/-- The spans of a list of statements. -/
def stmtListSpans : List Stmt → List Span
  | [] => []
  | s :: ss => s.spans ++ stmtListSpans ss

/-- The spans of a statement. -/
def Stmt.spans : Stmt → List Span
  | .expr s value => s :: value.spans
  | .varDecl s _ type _ none => s :: optTypeSpans type
  | .varDecl s _ type _ (some init) => s :: (optTypeSpans type ++ init.spans)
  | .assign s target _ value => s :: (target.spans ++ value.spans)
  | .ifElse s condition body otherwise => s :: (condition.spans ++ body.spans ++ otherwise.spans)
  | .whileLoop s condition body => s :: (condition.spans ++ body.spans)
  | .forLoop s init condition step body => s :: (init.spans ++ condition.spans ++ step.spans ++ body.spans)
  | .forEach s _ iterable body => s :: (iterable.spans ++ body.spans)
  | .defer s value => s :: value.spans
  | .returnValue s none | .breakLoop s | .continueLoop s => [s]
  | .returnValue s (some value) => s :: value.spans
  | .block s statements => s :: stmtListSpans statements
  | .buffer s type _ size => s :: (type.spans ++ size.spans)

/-- The spans of what follows the block of an `if`. -/
def Else.spans : Else → List Span
  | .absent => []
  | .block body => body.spans
  | .elseIf s condition body otherwise => s :: (condition.spans ++ body.spans ++ otherwise.spans)

/-- The spans of what a `for` loop starts with. -/
def ForInit.spans : ForInit → List Span
  | .varDecl s _ type _ none => s :: optTypeSpans type
  | .varDecl s _ type _ (some init) => s :: (optTypeSpans type ++ init.spans)
  | .expr value => value.spans

/-- The spans of what a `for` loop does after each round. -/
def ForStep.spans : ForStep → List Span
  | .assign s target _ value => s :: (target.spans ++ value.spans)
  | .expr value => value.spans

end

/-- The spans of a block that may be absent. -/
def optBlockSpans : Option Block → List Span
  | none => []
  | some b => b.spans

/-- The spans of an attribute. -/
def Attribute.spans (a : Attribute) : List Span := a.span :: (a.args.map exprListSpans).getD []

/-- The spans within a function. -/
def FunctionDecl.spans (f : FunctionDecl) : List Span :=
  f.name.span :: (f.params.spans ++ f.attributes.flatMap Attribute.spans ++ optTypeSpans f.returnType ++
    optBlockSpans f.body)

/-- The spans within a constant. -/
def ConstDecl.spans (c : ConstDecl) : List Span := optTypeSpans c.type ++ c.value.spans

/-- The spans of a field. -/
def Field.spans (f : Field) : List Span := f.span :: f.type.spans

/-- The spans within a struct. -/
def StructDecl.spans (s : StructDecl) : List Span :=
  s.attributes.flatMap Attribute.spans ++ s.fields.flatMap Field.spans

/-- The spans of a declaration. -/
def Declaration.spans : Declaration → List Span
  | .importModule s _ | .globalOptions s _ | .moduleName s _ => [s]
  | .function s decl | .externalFunction s decl => s :: decl.spans
  | .constant s decl => s :: decl.spans
  | .struct s decl => s :: decl.spans

/-- The spans of a program. -/
def Program.spans (p : Program) : List Span := p.declarations.flatMap Declaration.spans

/-! ### Replacing spans -/

mutual

/-- A type with every span replaced by its image. -/
def TypeExpr.mapSpans (f : Span → Span) : TypeExpr → TypeExpr
  | .primitive s type => .primitive (f s) type
  | .named s name => .named (f s) name
  | .array s element dims => .array (f s) (element.mapSpans f) dims
  | .pointer s base depth => .pointer (f s) (base.mapSpans f) depth
  | .generic s name args => .generic (f s) name (typeListMapSpans f args)
  | .tuple s first second => .tuple (f s) (first.mapSpans f) (second.mapSpans f)

/-- Types with every span replaced by its image. -/
def typeListMapSpans (f : Span → Span) : List TypeExpr → List TypeExpr
  | [] => []
  | t :: ts => t.mapSpans f :: typeListMapSpans f ts

end

/-- A parameter with every span replaced by its image. -/
def Param.mapSpans (f : Span → Span) : Param → Param
  | .named s type name => .named (f s) (type.mapSpans f) name
  | .unnamed s type => .unnamed (f s) (type.mapSpans f)
  | .variadic s name => .variadic (f s) name
  | .noFormat s type name => .noFormat (f s) (type.mapSpans f) name

/-- A parameter list with every span replaced by its image. -/
def ParamList.mapSpans (f : Span → Span) (list : ParamList) : ParamList :=
  { list with params := list.params.map (Param.mapSpans f) }

mutual

/-- An expression with every span replaced by its image. -/
def Expr.mapSpans (f : Span → Span) : Expr → Expr
  | .binary s left op right => .binary (f s) (left.mapSpans f) op (right.mapSpans f)
  | .unary s op operand => .unary (f s) op (operand.mapSpans f)
  | .call s callee generics args =>
    .call (f s) (callee.mapSpans f) (generics.map (typeListMapSpans f)) (exprListMapSpans f args)
  | .member s object name => .member (f s) (object.mapSpans f) name
  | .subscript s object index => .subscript (f s) (object.mapSpans f) (index.mapSpans f)
  | .conditional s condition none alternative =>
    .conditional (f s) (condition.mapSpans f) none (alternative.mapSpans f)
  | .conditional s condition (some consequence) alternative =>
    .conditional (f s) (condition.mapSpans f) (some (consequence.mapSpans f)) (alternative.mapSpans f)
  | .cast s type operand => .cast (f s) (type.mapSpans f) (operand.mapSpans f)
  | .paren s inner => .paren (f s) (inner.mapSpans f)
  | .ident s name => .ident (f s) name
  | .qualified s path => .qualified (f s) path
  | .rawName s raw => .rawName (f s) raw
  | .number s literal => .number (f s) literal
  | .str s parts => .str (f s) parts
  | .bool s value => .bool (f s) value
  | .char s part => .char (f s) part
  | .array s element isStatic elements =>
    .array (f s) (element.map (TypeExpr.mapSpans f)) isStatic (exprListMapSpans f elements)
  | .tuple s first second => .tuple (f s) (first.mapSpans f) (second.mapSpans f)
  | .triple s first second third => .triple (f s) (first.mapSpans f) (second.mapSpans f) (third.mapSpans f)
  | .structLit s name generics fields =>
    .structLit (f s) name (generics.map (typeListMapSpans f)) (fieldInitListMapSpans f fields)
  | .lambda s params body => .lambda (f s) (params.mapSpans f) (body.mapSpans f)
  | .blockLambda s params body => .blockLambda (f s) (params.mapSpans f) (body.mapSpans f)
  | .range s start stop inclusive => .range (f s) (start.mapSpans f) (stop.mapSpans f) inclusive
  | .directive s directive => .directive (f s) (directive.mapSpans f)
  | .sigil s name none => .sigil (f s) name none
  | .sigil s name (some args) => .sigil (f s) name (some (exprListMapSpans f args))

/-- Expressions with every span replaced by its image. -/
def exprListMapSpans (f : Span → Span) : List Expr → List Expr
  | [] => []
  | e :: es => e.mapSpans f :: exprListMapSpans f es

/-- The fields of a struct literal with every span replaced by its image. -/
def fieldInitListMapSpans (f : Span → Span) : List FieldInit → List FieldInit
  | [] => []
  | .mk s name value :: fields => .mk (f s) name (value.mapSpans f) :: fieldInitListMapSpans f fields

/-- A directive with every span replaced by its image. -/
def Directive.mapSpans (f : Span → Span) : Directive → Directive
  | .len value => .len (value.mapSpans f)
  | .size type => .size (type.mapSpans f)
  | .ident name => .ident name
  | .env => .env
  | .alloc type none => .alloc (type.mapSpans f) none
  | .alloc type (some count) => .alloc (type.mapSpans f) (some (count.mapSpans f))
  | .realloc pointer type none => .realloc (pointer.mapSpans f) (type.mapSpans f) none
  | .realloc pointer type (some count) =>
    .realloc (pointer.mapSpans f) (type.mapSpans f) (some (count.mapSpans f))
  | .free value => .free (value.mapSpans f)
  | .setAllocator value => .setAllocator (value.mapSpans f)
  | .resetAllocator => .resetAllocator

/-- A block with every span replaced by its image. -/
def Block.mapSpans (f : Span → Span) : Block → Block
  | .mk s statements => .mk (f s) (stmtListMapSpans f statements)

/-- Statements with every span replaced by its image. -/
def stmtListMapSpans (f : Span → Span) : List Stmt → List Stmt
  | [] => []
  | s :: ss => s.mapSpans f :: stmtListMapSpans f ss

/-- A statement with every span replaced by its image. -/
def Stmt.mapSpans (f : Span → Span) : Stmt → Stmt
  | .expr s value => .expr (f s) (value.mapSpans f)
  | .varDecl s binding type name none => .varDecl (f s) binding (type.map (TypeExpr.mapSpans f)) name none
  | .varDecl s binding type name (some init) =>
    .varDecl (f s) binding (type.map (TypeExpr.mapSpans f)) name (some (init.mapSpans f))
  | .assign s target op value => .assign (f s) (target.mapSpans f) op (value.mapSpans f)
  | .ifElse s condition body otherwise =>
    .ifElse (f s) (condition.mapSpans f) (body.mapSpans f) (otherwise.mapSpans f)
  | .whileLoop s condition body => .whileLoop (f s) (condition.mapSpans f) (body.mapSpans f)
  | .forLoop s init condition step body =>
    .forLoop (f s) (init.mapSpans f) (condition.mapSpans f) (step.mapSpans f) (body.mapSpans f)
  | .forEach s name iterable body => .forEach (f s) name (iterable.mapSpans f) (body.mapSpans f)
  | .defer s value => .defer (f s) (value.mapSpans f)
  | .returnValue s none => .returnValue (f s) none
  | .returnValue s (some value) => .returnValue (f s) (some (value.mapSpans f))
  | .breakLoop s => .breakLoop (f s)
  | .continueLoop s => .continueLoop (f s)
  | .block s statements => .block (f s) (stmtListMapSpans f statements)
  | .buffer s type name size => .buffer (f s) (type.mapSpans f) name (size.mapSpans f)

/-- What follows the block of an `if`, with every span replaced by its image. -/
def Else.mapSpans (f : Span → Span) : Else → Else
  | .absent => .absent
  | .block body => .block (body.mapSpans f)
  | .elseIf s condition body otherwise =>
    .elseIf (f s) (condition.mapSpans f) (body.mapSpans f) (otherwise.mapSpans f)

/-- What a `for` loop starts with, with every span replaced by its image. -/
def ForInit.mapSpans (f : Span → Span) : ForInit → ForInit
  | .varDecl s binding type name none => .varDecl (f s) binding (type.map (TypeExpr.mapSpans f)) name none
  | .varDecl s binding type name (some init) =>
    .varDecl (f s) binding (type.map (TypeExpr.mapSpans f)) name (some (init.mapSpans f))
  | .expr value => .expr (value.mapSpans f)

/-- What a `for` loop does after each round, with every span replaced by its image. -/
def ForStep.mapSpans (f : Span → Span) : ForStep → ForStep
  | .assign s target op value => .assign (f s) (target.mapSpans f) op (value.mapSpans f)
  | .expr value => .expr (value.mapSpans f)

end

/-- A declared name with its span replaced by its image. -/
def DeclName.mapSpans (f : Span → Span) : DeclName → DeclName
  | .plain s name => .plain (f s) name
  | .qualified s path => .qualified (f s) path
  | .rawName s raw => .rawName (f s) raw

/-- An attribute with every span replaced by its image. -/
def Attribute.mapSpans (f : Span → Span) (a : Attribute) : Attribute :=
  { a with span := f a.span, args := a.args.map (exprListMapSpans f) }

/-- A function with every span replaced by its image. -/
def FunctionDecl.mapSpans (f : Span → Span) (d : FunctionDecl) : FunctionDecl :=
  { d with
    name := d.name.mapSpans f
    params := d.params.mapSpans f
    attributes := d.attributes.map (Attribute.mapSpans f)
    returnType := d.returnType.map (TypeExpr.mapSpans f)
    body := d.body.map (Block.mapSpans f) }

/-- A constant with every span replaced by its image. -/
def ConstDecl.mapSpans (f : Span → Span) (d : ConstDecl) : ConstDecl :=
  { d with type := d.type.map (TypeExpr.mapSpans f), value := d.value.mapSpans f }

/-- A field with every span replaced by its image. -/
def Field.mapSpans (f : Span → Span) (d : Field) : Field :=
  { d with span := f d.span, type := d.type.mapSpans f }

/-- A struct with every span replaced by its image. -/
def StructDecl.mapSpans (f : Span → Span) (d : StructDecl) : StructDecl :=
  { d with attributes := d.attributes.map (Attribute.mapSpans f), fields := d.fields.map (Field.mapSpans f) }

/-- A declaration with every span replaced by its image. -/
def Declaration.mapSpans (f : Span → Span) : Declaration → Declaration
  | .importModule s path => .importModule (f s) path
  | .globalOptions s options => .globalOptions (f s) options
  | .moduleName s name => .moduleName (f s) name
  | .function s decl => .function (f s) (decl.mapSpans f)
  | .externalFunction s decl => .externalFunction (f s) (decl.mapSpans f)
  | .constant s decl => .constant (f s) (decl.mapSpans f)
  | .struct s decl => .struct (f s) (decl.mapSpans f)

/-- A program with every span replaced by its image. -/
def Program.mapSpans (f : Span → Span) (p : Program) : Program :=
  ⟨p.declarations.map (Declaration.mapSpans f)⟩

/-- A program with every span reset. -/
def Program.withoutSpans (p : Program) : Program := p.mapSpans fun _ => .zero

/-- An expression with every span reset. -/
def Expr.withoutSpans (e : Expr) : Expr := e.mapSpans fun _ => .zero

/-- A type with every span reset. -/
def TypeExpr.withoutSpans (t : TypeExpr) : TypeExpr := t.mapSpans fun _ => .zero

end ElleFrontEnd
