import ElleFrontEnd.Dump.Token
import ElleFrontEnd.Tree.Declaration

/-!
# Dumps of programs

Every node is shown together with its span, and every part of a node by its name.
-/

namespace ElleFrontEnd

/-- A node with its span. -/
def Dump.spanned (span : Span) (node : Dump) : Dump :=
  .record "Spanned" [("node", node), ("span", span.dump)]

mutual

/-- The dump of a type. -/
def TypeExpr.dump : TypeExpr → Dump
  | .primitive s type => .spanned s (.tuple "Primitive" [.atom type.label])
  | .named s name => .spanned s (.tuple "Named" [.text name])
  | .array s element dims => .spanned s (.record "Array" [("element", element.dump), ("dims", .nat dims)])
  | .pointer s base depth => .spanned s (.record "Pointer" [("base", base.dump), ("depth", .nat depth)])
  | .generic s name args =>
    .spanned s (.record "Generic" [("name", .text name), ("args", .list (typeListDump args))])
  | .tuple s first second => .spanned s (.tuple "Tuple" [first.dump, second.dump])

/-- The dumps of several types. -/
def typeListDump : List TypeExpr → List Dump
  | [] => []
  | t :: ts => t.dump :: typeListDump ts

end

/-- The dump of a type that may be absent. -/
def optTypeDump (t : Option TypeExpr) : Dump := .option (t.map TypeExpr.dump)

/-- The dump of type arguments that may be absent. -/
def optTypeListDump (ts : Option (List TypeExpr)) : Dump := .option (ts.map fun ts => .list (typeListDump ts))

/-- The dump of a parameter. -/
def Param.dump : Param → Dump
  | .named s type name => .spanned s (.record "Named" [("ty", type.dump), ("name", .text name)])
  | .unnamed s type => .spanned s (.record "Unnamed" [("ty", type.dump)])
  | .variadic s name => .spanned s (.record "Variadic" [("name", .option (name.map .text))])
  | .noFormat s type name => .spanned s (.record "NoFormat" [("ty", type.dump), ("name", .text name)])

/-- The dump of a parameter list. -/
def ParamList.dump (list : ParamList) : Dump :=
  .record "ParamList"
    [("meta", .option (list.metaName.map .text)), ("params", .list (list.params.map Param.dump))]

/-- The dump of a variable declaration, without its span. -/
def varDeclDump (binding : Binding) (type : Option TypeExpr) (name : String) (init : Dump) : Dump :=
  .record "VarDecl"
    [("binding", .atom binding.label), ("ty", optTypeDump type), ("name", .text name), ("init", init)]

/-- The dump of an assignment, without its span. -/
def assignDump (target : Dump) (form : AssignOp) (value : Dump) : Dump :=
  .record "AssignStmt" [("target", target), ("op", .atom form.label), ("value", value)]

/-- The dump of an `if`, without its span. -/
def ifDump (condition body otherwise : Dump) : Dump :=
  .record "IfStmt" [("condition", condition), ("then_block", body), ("else_branch", otherwise)]

mutual

/-- The dump of an expression. -/
def Expr.dump : Expr → Dump
  | .binary s left op right => .spanned s (.tuple "Binary" [left.dump, .atom op.label, right.dump])
  | .unary s op operand => .spanned s (.tuple "Unary" [.atom op.label, operand.dump])
  | .call s callee generics args =>
    .spanned s (.tuple "Call" [.record "CallExpr"
      [("callee", callee.dump), ("generic_args", optTypeListDump generics), ("args", .list (exprListDump args))]])
  | .member s object name => .spanned s (.tuple "Member" [object.dump, .text name])
  | .subscript s object index => .spanned s (.tuple "Subscript" [object.dump, index.dump])
  | .conditional s condition none alternative =>
    .spanned s (.tuple "Conditional" [.record "ConditionalExpr"
      [("condition", condition.dump), ("consequence", .option none), ("alternative", alternative.dump)]])
  | .conditional s condition (some chosen) alternative =>
    .spanned s (.tuple "Conditional" [.record "ConditionalExpr"
      [("condition", condition.dump), ("consequence", .option (some chosen.dump)),
       ("alternative", alternative.dump)]])
  | .cast s type operand => .spanned s (.tuple "Cast" [type.dump, operand.dump])
  | .paren s inner => .spanned s (.tuple "Paren" [inner.dump])
  | .ident s name => .spanned s (.tuple "Ident" [.text name])
  | .qualified s path => .spanned s (.tuple "Qualified" [.texts path])
  | .rawName s raw => .spanned s (.tuple "Exact" [.text raw])
  | .number s literal => .spanned s (.tuple "Number" [literal.dump])
  | .str s parts => .spanned s (.tuple "Str" [.list (parts.map StrPart.dump)])
  | .bool s value => .spanned s (.tuple "Bool" [.bool value])
  | .char s part => .spanned s (.tuple "Char" [part.dump])
  | .array s element isStatic elements =>
    .spanned s (.tuple "Array" [.record "ArrayLit"
      [("elem_ty", optTypeDump element), ("is_static", .bool isStatic), ("elements", .list (exprListDump elements))]])
  | .tuple s first second => .spanned s (.tuple "Tuple" [first.dump, second.dump])
  | .triple s first second third => .spanned s (.tuple "Triple" [first.dump, second.dump, third.dump])
  | .structLit s name generics fields =>
    .spanned s (.tuple "StructLit" [.record "StructLit"
      [("name", .text name), ("generic_args", optTypeListDump generics), ("fields", .list (fieldInitListDump fields))]])
  | .lambda s params body =>
    .spanned s (.tuple "Lambda" [.record "Lambda"
      [("params", params.dump), ("body", .tuple "Expr" [body.dump])]])
  | .blockLambda s params body =>
    .spanned s (.tuple "Lambda" [.record "Lambda"
      [("params", params.dump), ("body", .tuple "Block" [body.dump])]])
  | .range s start stop inclusive =>
    .spanned s (.record "Range" [("start", start.dump), ("end", stop.dump), ("inclusive", .bool inclusive)])
  | .directive s directive => .spanned s (.tuple "Directive" [directive.dump])
  | .sigil s name none => .spanned s (.record "Sigil" [("name", .text name), ("args", .option none)])
  | .sigil s name (some args) =>
    .spanned s (.record "Sigil" [("name", .text name), ("args", .option (some (.list (exprListDump args))))])

/-- The dumps of several expressions. -/
def exprListDump : List Expr → List Dump
  | [] => []
  | e :: es => e.dump :: exprListDump es

/-- The dumps of the fields of a struct literal. -/
def fieldInitListDump : List FieldInit → List Dump
  | [] => []
  | .mk s name value :: fields =>
    .spanned s (.record "FieldInit" [("name", .text name), ("value", value.dump)]) :: fieldInitListDump fields

/-- The dump of a directive. -/
def Directive.dump : Directive → Dump
  | .len value => .tuple "Len" [value.dump]
  | .size type => .tuple "Size" [type.dump]
  | .ident name => .tuple "Ident" [.text name]
  | .env => .atom "Env"
  | .alloc type none => .record "Alloc" [("ty", type.dump), ("count", .option none)]
  | .alloc type (some count) => .record "Alloc" [("ty", type.dump), ("count", .option (some count.dump))]
  | .realloc pointer type none =>
    .record "Realloc" [("ptr", pointer.dump), ("ty", type.dump), ("count", .option none)]
  | .realloc pointer type (some count) =>
    .record "Realloc" [("ptr", pointer.dump), ("ty", type.dump), ("count", .option (some count.dump))]
  | .free value => .tuple "Free" [value.dump]
  | .setAllocator value => .tuple "SetAllocator" [value.dump]
  | .resetAllocator => .atom "ResetAllocator"

/-- The dump of a block. -/
def Block.dump : Block → Dump
  | .mk s statements => .spanned s (.record "Block" [("statements", .list (stmtListDump statements))])

/-- The dumps of several statements. -/
def stmtListDump : List Stmt → List Dump
  | [] => []
  | s :: ss => s.dump :: stmtListDump ss

/-- The dump of a statement. -/
def Stmt.dump : Stmt → Dump
  | .expr s value => .spanned s (.tuple "Expr" [value.dump])
  | .varDecl s binding type name none =>
    .spanned s (.tuple "VarDecl" [varDeclDump binding type name (.option none)])
  | .varDecl s binding type name (some init) =>
    .spanned s (.tuple "VarDecl" [varDeclDump binding type name (.option (some init.dump))])
  | .assign s target form value => .spanned s (.tuple "Assign" [assignDump target.dump form value.dump])
  | .ifElse s condition body otherwise =>
    .spanned s (.tuple "If" [ifDump condition.dump body.dump otherwise.dump])
  | .whileLoop s condition body =>
    .spanned s (.tuple "While" [.record "WhileStmt" [("condition", condition.dump), ("body", body.dump)]])
  | .forLoop s init condition step body =>
    .spanned s (.tuple "For" [.record "ForStmt"
      [("init", init.dump), ("condition", condition.dump), ("step", step.dump), ("body", body.dump)]])
  | .forEach s name iterable body =>
    .spanned s (.tuple "ForEach" [.record "ForEachStmt"
      [("binding", .text name), ("iterable", iterable.dump), ("body", body.dump)]])
  | .defer s value => .spanned s (.tuple "Defer" [value.dump])
  | .returnValue s none => .spanned s (.tuple "Return" [.option none])
  | .returnValue s (some value) => .spanned s (.tuple "Return" [.option (some value.dump)])
  | .breakLoop s => .spanned s (.atom "Break")
  | .continueLoop s => .spanned s (.atom "Continue")
  | .block s statements =>
    .spanned s (.tuple "Block" [.record "Block" [("statements", .list (stmtListDump statements))]])
  | .buffer s type name size =>
    .spanned s (.tuple "StaticBuffer" [.record "StaticBuffer"
      [("ty", type.dump), ("name", .text name), ("size", size.dump)]])

/-- The dump of what follows the block of an `if`. -/
def Else.dump : Else → Dump
  | .absent => .option none
  | .block body => .option (some (.tuple "Block" [body.dump]))
  | .elseIf s condition body otherwise =>
    .option (some (.tuple "If" [.spanned s (ifDump condition.dump body.dump otherwise.dump)]))

/-- The dump of what a `for` loop starts with. -/
def ForInit.dump : ForInit → Dump
  | .varDecl s binding type name none =>
    .tuple "VarDecl" [.spanned s (varDeclDump binding type name (.option none))]
  | .varDecl s binding type name (some init) =>
    .tuple "VarDecl" [.spanned s (varDeclDump binding type name (.option (some init.dump)))]
  | .expr value => .tuple "Expr" [value.dump]

/-- The dump of what a `for` loop does after each round. -/
def ForStep.dump : ForStep → Dump
  | .assign s target form value => .tuple "Assign" [.spanned s (assignDump target.dump form value.dump)]
  | .expr value => .tuple "Expr" [value.dump]

end

/-- The dump of a module path. -/
def ModulePath.dump (p : ModulePath) : Dump := .tuple "ModulePath" [.texts p.segments]

/-- The name of a file-wide option. -/
def GlobalOption.dump (o : GlobalOption) : Dump := .atom o.visibility.label

/-- The dump of the modifiers of a declaration. -/
def modifiersDump (modifiers : List Modifier) : Dump :=
  .tuple "Modifiers" [.list (modifiers.map fun m =>
    .record "Modifier" [("kind", .atom m.kind.label), ("negated", .bool m.negated)])]

/-- The dump of a declared name. -/
def DeclName.dump : DeclName → Dump
  | .plain s name => .spanned s (.tuple "Plain" [.text name])
  | .qualified s path => .spanned s (.tuple "Qualified" [.texts path])
  | .rawName s raw => .spanned s (.tuple "Exact" [.text raw])

/-- The dump of an attribute. -/
def Attribute.dump (a : Attribute) : Dump :=
  .spanned a.span (.record "Attribute"
    [("name", .text a.name), ("args", .option (a.args.map fun args => .list (exprListDump args)))])

/-- The dump of a function. -/
def FunctionDecl.dump (f : FunctionDecl) : Dump :=
  .record "FunctionDecl"
    [("modifiers", modifiersDump f.modifiers), ("name", f.name.dump), ("generics", .texts f.generics),
     ("params", f.params.dump), ("attributes", .list (f.attributes.map Attribute.dump)),
     ("return_type", optTypeDump f.returnType), ("body", .option (f.body.map Block.dump))]

/-- The dump of a constant. -/
def ConstDecl.dump (c : ConstDecl) : Dump :=
  .record "ConstDecl"
    [("modifiers", modifiersDump c.modifiers), ("ty", optTypeDump c.type), ("name", .text c.name),
     ("value", c.value.dump)]

/-- The dump of a field. -/
def Field.dump (f : Field) : Dump :=
  .spanned f.span (.record "Field" [("ty", f.type.dump), ("name", .text f.name)])

/-- The dump of a struct. -/
def StructDecl.dump (s : StructDecl) : Dump :=
  .record "StructDecl"
    [("modifiers", modifiersDump s.modifiers), ("name", .text s.name), ("generics", .texts s.generics),
     ("attributes", .list (s.attributes.map Attribute.dump)), ("fields", .list (s.fields.map Field.dump))]

/-- The dump of a declaration. -/
def Declaration.dump : Declaration → Dump
  | .importModule s path => .spanned s (.tuple "Import" [.record "ImportDecl" [("path", path.dump)]])
  | .globalOptions s options =>
    .spanned s (.tuple "Global" [.record "GlobalDirective" [("options", .list (options.map GlobalOption.dump))]])
  | .moduleName s name => .spanned s (.tuple "Namespace" [.text name])
  | .function s decl => .spanned s (.tuple "Function" [decl.dump])
  | .externalFunction s decl => .spanned s (.tuple "ExternalFunction" [decl.dump])
  | .constant s decl => .spanned s (.tuple "Constant" [decl.dump])
  | .struct s decl => .spanned s (.tuple "Struct" [decl.dump])

/-- The dump of a program. -/
def Program.dump (p : Program) : Dump :=
  .record "Program" [("declarations", .list (p.declarations.map Declaration.dump))]

/-- Whether two programs are the same in every part.  Dumps show every part of a tree. -/
def Program.isSame (p q : Program) : Bool := p.dump.same q.dump

end ElleFrontEnd
