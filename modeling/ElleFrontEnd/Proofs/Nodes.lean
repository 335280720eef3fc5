import ElleFrontEnd.Grammar.Expr

/-!
# The types and expressions of a tree

`nodes` lists the types and expressions of a tree, at every depth: each of them is in the list, and so are the types
and expressions that it holds.
-/

namespace ElleFrontEnd

/-- A type or an expression. -/
inductive Node
  | type (type : TypeExpr)
  | expr (expr : Expr)

/-- The stretch that a type or an expression was read from. -/
def Node.span : Node → Span
  | .type t => t.span
  | .expr e => e.span

mutual

/-- A type and the types in it. -/
def TypeExpr.nodes : TypeExpr → List Node
  | .primitive s p => [.type (.primitive s p)]
  | .named s n => [.type (.named s n)]
  | .array s element dims => .type (.array s element dims) :: element.nodes
  | .pointer s base depth => .type (.pointer s base depth) :: base.nodes
  | .generic s n args => .type (.generic s n args) :: typeListNodes args
  | .tuple s first second => .type (.tuple s first second) :: (first.nodes ++ second.nodes)

/-- Some types and the types in them. -/
def typeListNodes : List TypeExpr → List Node
  | [] => []
  | t :: ts => t.nodes ++ typeListNodes ts

end

mutual

/-- What is in a type are types. -/
theorem type_of_mem_nodes : (t : TypeExpr) → ∀ node ∈ t.nodes, ∃ t', node = .type t'
  | .primitive _ _ | .named _ _ => by simp [TypeExpr.nodes]
  | .array _ element _ => by simpa [TypeExpr.nodes] using type_of_mem_nodes element
  | .pointer _ base _ => by simpa [TypeExpr.nodes] using type_of_mem_nodes base
  | .generic _ _ args => by simpa [TypeExpr.nodes] using type_of_mem_typeListNodes args
  | .tuple _ first second => by
    rw [TypeExpr.nodes]
    exact List.forall_mem_cons.2 ⟨⟨_, rfl⟩,
      List.forall_mem_append.2 ⟨type_of_mem_nodes first, type_of_mem_nodes second⟩⟩

theorem type_of_mem_typeListNodes : (ts : List TypeExpr) → ∀ node ∈ typeListNodes ts, ∃ t', node = .type t'
  | [] => by simp [typeListNodes]
  | t :: ts => by
    rw [typeListNodes]
    exact List.forall_mem_append.2 ⟨type_of_mem_nodes t, type_of_mem_typeListNodes ts⟩

end

/-- The types in a type that may be left out. -/
def optTypeNodes : Option TypeExpr → List Node
  | none => []
  | some t => t.nodes

/-- The types in type arguments that may be left out. -/
def optTypeListNodes : Option (List TypeExpr) → List Node
  | none => []
  | some ts => typeListNodes ts

/-- The types in the type of a parameter. -/
def Param.nodes : Param → List Node
  | .named _ type _ | .unnamed _ type | .noFormat _ type _ => type.nodes
  | .variadic _ _ => []

/-- The types in a parameter list. -/
def ParamList.nodes (list : ParamList) : List Node := list.params.flatMap Param.nodes

mutual

/-- An expression and the types and expressions in it. -/
def Expr.nodes : Expr → List Node
  | .binary s left op right => .expr (.binary s left op right) :: (left.nodes ++ right.nodes)
  | .unary s op operand => .expr (.unary s op operand) :: operand.nodes
  | .call s callee generics args =>
    .expr (.call s callee generics args) :: (callee.nodes ++ optTypeListNodes generics ++ exprListNodes args)
  | .member s object n => .expr (.member s object n) :: object.nodes
  | .subscript s object index => .expr (.subscript s object index) :: (object.nodes ++ index.nodes)
  | .conditional s condition consequence alternative =>
    .expr (.conditional s condition consequence alternative) ::
      (condition.nodes ++ optExprNodes consequence ++ alternative.nodes)
  | .cast s type operand => .expr (.cast s type operand) :: (type.nodes ++ operand.nodes)
  | .paren s inner => .expr (.paren s inner) :: inner.nodes
  | .ident s n => [.expr (.ident s n)]
  | .qualified s path => [.expr (.qualified s path)]
  | .rawName s raw => [.expr (.rawName s raw)]
  | .number s literal => [.expr (.number s literal)]
  | .str s parts => [.expr (.str s parts)]
  | .bool s value => [.expr (.bool s value)]
  | .char s part => [.expr (.char s part)]
  | .array s element isStatic elements =>
    .expr (.array s element isStatic elements) :: (optTypeNodes element ++ exprListNodes elements)
  | .tuple s first second => .expr (.tuple s first second) :: (first.nodes ++ second.nodes)
  | .triple s first second third =>
    .expr (.triple s first second third) :: (first.nodes ++ second.nodes ++ third.nodes)
  | .structLit s n generics fields =>
    .expr (.structLit s n generics fields) :: (optTypeListNodes generics ++ fieldInitListNodes fields)
  | .lambda s params body => .expr (.lambda s params body) :: (params.nodes ++ body.nodes)
  | .blockLambda s params body => .expr (.blockLambda s params body) :: (params.nodes ++ body.nodes)
  | .range s start stop inclusive => .expr (.range s start stop inclusive) :: (start.nodes ++ stop.nodes)
  | .directive s directive => .expr (.directive s directive) :: directive.nodes
  | .sigil s n args => .expr (.sigil s n args) :: optExprListNodes args

/-- Some expressions and what is in them. -/
def exprListNodes : List Expr → List Node
  | [] => []
  | e :: es => e.nodes ++ exprListNodes es

/-- An expression that may be left out, and what is in it. -/
def optExprNodes : Option Expr → List Node
  | none => []
  | some e => e.nodes

/-- The expressions in arguments that may be left out. -/
def optExprListNodes : Option (List Expr) → List Node
  | none => []
  | some es => exprListNodes es

/-- The value of a field, and what is in it. -/
def FieldInit.nodes : FieldInit → List Node
  | .mk _ _ value => value.nodes

/-- The values of some fields, and what is in them. -/
def fieldInitListNodes : List FieldInit → List Node
  | [] => []
  | f :: fs => f.nodes ++ fieldInitListNodes fs

/-- The types and expressions in a directive. -/
def Directive.nodes : Directive → List Node
  | .len value | .free value | .setAllocator value => value.nodes
  | .size type => type.nodes
  | .ident _ | .env | .resetAllocator => []
  | .alloc type count => type.nodes ++ optExprNodes count
  | .realloc pointer type count => pointer.nodes ++ type.nodes ++ optExprNodes count

/-- The types and expressions in a block. -/
def Block.nodes : Block → List Node
  | .mk _ statements => stmtListNodes statements

/-- The types and expressions in some statements. -/
def stmtListNodes : List Stmt → List Node
  | [] => []
  | s :: ss => s.nodes ++ stmtListNodes ss

/-- The types and expressions in a statement. -/
def Stmt.nodes : Stmt → List Node
  | .expr _ value | .defer _ value => value.nodes
  | .varDecl _ _ type _ init => optTypeNodes type ++ optExprNodes init
  | .assign _ target _ value => target.nodes ++ value.nodes
  | .ifElse _ condition body otherwise => condition.nodes ++ body.nodes ++ otherwise.nodes
  | .whileLoop _ condition body => condition.nodes ++ body.nodes
  | .forLoop _ init condition step body => init.nodes ++ condition.nodes ++ step.nodes ++ body.nodes
  | .forEach _ _ iterable body => iterable.nodes ++ body.nodes
  | .returnValue _ value => optExprNodes value
  | .breakLoop _ | .continueLoop _ => []
  | .block _ statements => stmtListNodes statements
  | .buffer _ type _ size => type.nodes ++ size.nodes

/-- The types and expressions in what follows the block of an `if`. -/
def Else.nodes : Else → List Node
  | .absent => []
  | .block body => body.nodes
  | .elseIf _ condition body otherwise => condition.nodes ++ body.nodes ++ otherwise.nodes

/-- The types and expressions in what a `for` loop starts with. -/
def ForInit.nodes : ForInit → List Node
  | .varDecl _ _ type _ init => optTypeNodes type ++ optExprNodes init
  | .expr value => value.nodes

/-- The expressions in what a `for` loop does after each round. -/
def ForStep.nodes : ForStep → List Node
  | .assign _ target _ value => target.nodes ++ value.nodes
  | .expr value => value.nodes

end

/-- The types and expressions in an expression, without the expression itself. -/
def Expr.inner (e : Expr) : List Node := e.nodes.tail

theorem Expr.nodes_eq_cons (e : Expr) : e.nodes = .expr e :: e.inner := by
  cases e <;> simp [Expr.inner, Expr.nodes]

@[simp] theorem exprListNodes_eq_flatMap (es : List Expr) : exprListNodes es = es.flatMap Expr.nodes := by
  induction es with
  | nil => rfl
  | cons e es ih => rw [exprListNodes, ih, List.flatMap_cons]

@[simp] theorem fieldInitListNodes_eq_flatMap (fs : List FieldInit) :
    fieldInitListNodes fs = fs.flatMap FieldInit.nodes := by
  induction fs with
  | nil => rfl
  | cons f fs ih => rw [fieldInitListNodes, ih, List.flatMap_cons]

@[simp] theorem stmtListNodes_eq_flatMap (ss : List Stmt) : stmtListNodes ss = ss.flatMap Stmt.nodes := by
  induction ss with
  | nil => rfl
  | cons s ss ih => rw [stmtListNodes, ih, List.flatMap_cons]

/-- The types and expressions in the parts of an `if`. -/
def IfParts.nodes (parts : IfParts) : List Node :=
  parts.condition.nodes ++ parts.body.nodes ++ parts.otherwise.nodes

/-- The expressions in the arguments of an attribute. -/
def Attribute.nodes (a : Attribute) : List Node := optExprListNodes a.args

/-- The types and expressions in a function. -/
def FunctionDecl.nodes (f : FunctionDecl) : List Node :=
  f.params.nodes ++ f.attributes.flatMap Attribute.nodes ++ optTypeNodes f.returnType ++
    (f.body.map Block.nodes).getD []

/-- The types and expressions in a constant. -/
def ConstDecl.nodes (c : ConstDecl) : List Node := optTypeNodes c.type ++ c.value.nodes

/-- The types and expressions in a struct. -/
def StructDecl.nodes (s : StructDecl) : List Node :=
  s.attributes.flatMap Attribute.nodes ++ s.fields.flatMap fun field => field.type.nodes

/-- The types and expressions in a declaration. -/
def Declaration.nodes : Declaration → List Node
  | .importModule _ _ | .globalOptions _ _ | .moduleName _ _ => []
  | .function _ decl | .externalFunction _ decl => decl.nodes
  | .constant _ decl => decl.nodes
  | .struct _ decl => decl.nodes

/-- The types and expressions of a program. -/
def Program.nodes (p : Program) : List Node := p.declarations.flatMap Declaration.nodes

end ElleFrontEnd
