import ElleFrontEnd.Layout.Expr
import ElleFrontEnd.Tree.Declaration

/-!
# Printing programs

Each declaration ends with a line break, and blank lines stand between two of them, except between the imports and
other lines of a file's head.
-/

namespace ElleFrontEnd

open Fragment

/-- The modifiers of a declaration, each with a space behind it. -/
def modifiersLayout (modifiers : List Modifier) : List Fragment :=
  modifiers.flatMap fun m => (if m.negated then [op .bang] else []) ++ [word (.visibility m.kind), space]

/-- The names of type parameters. -/
def typeParamsLayout (names : List String) : List Fragment :=
  if names.isEmpty then [] else angles (commas (names.map fun n => [ofName n]))

/-- A declared name. -/
def DeclName.layout : DeclName → List Fragment
  | .plain _ n => [ofName n]
  | .qualified _ path => separated [mark .colonColon] (path.map fun n => [ofName n])
  | .rawName _ raw => [.token (.rawName raw)]

/-- An attribute with the space before it. -/
def Attribute.layout (depth : Nat) (a : Attribute) : List Fragment :=
  [space, mark .atSign, ofName a.name] ++
    (match a.args with
     | none => []
     | some args => parens (commas (exprListLayout depth args)))

/-- A function. -/
def FunctionDecl.layout (depth : Nat) (f : FunctionDecl) : List Fragment :=
  modifiersLayout f.modifiers ++ [word .fn, space] ++ f.name.layout ++ typeParamsLayout f.generics ++
    f.params.layout ++ f.attributes.flatMap (Attribute.layout depth) ++
    (match f.returnType with
     | none => []
     | some t => [space, mark .arrow, space] ++ t.layout) ++
    (match f.body with
     | none => [mark .semicolon]
     | some body => space :: body.layout depth)

/-- A constant. -/
def ConstDecl.layout (depth : Nat) (c : ConstDecl) : List Fragment :=
  modifiersLayout c.modifiers ++ [word .constKw, space] ++
    (match c.type with
     | none => []
     | some t => t.layout ++ [space]) ++
    [ofName c.name, space, op .eq, space] ++ c.value.layout depth true ++ [mark .semicolon]

/-- A field of a struct. -/
def Field.layout (f : Field) : List Fragment := f.type.layout ++ [space, ofName f.name, mark .semicolon]

/-- A struct. -/
def StructDecl.layout (depth : Nat) (s : StructDecl) : List Fragment :=
  modifiersLayout s.modifiers ++ [word .structKw, space, ofName s.name] ++ typeParamsLayout s.generics ++
    s.attributes.flatMap (Attribute.layout depth) ++ [space] ++ braces depth (s.fields.map Field.layout) ++
    [mark .semicolon]

/-- A segment of a module path, which may be a reserved word. -/
def segmentFragment (segment : String) : Fragment :=
  match Keyword.ofSpelling? segment with
  | some k => word k
  | none => ofName segment

/-- A declaration, without a line break behind it. -/
def Declaration.layout : Declaration → List Fragment
  | .importModule _ path =>
    [word .useKw, space] ++ separated [op .slash] (path.segments.map fun s => [segmentFragment s]) ++
      [mark .semicolon]
  | .globalOptions _ options =>
    [word .globalKw, space] ++ commas (options.map fun o => [word (.visibility o.visibility)]) ++ [mark .semicolon]
  | .moduleName _ n => [word .namespaceKw, space, ofName n, mark .semicolon]
  | .function _ decl | .externalFunction _ decl => decl.layout 0
  | .constant _ decl => decl.layout 0
  | .struct _ decl => decl.layout 0

/-- The blank lines before a declaration that follows another. -/
def blankLinesBetween (blankLines : Nat) (previous next : Declaration) : List Fragment :=
  if previous.isHeader && next.isHeader then [] else List.replicate blankLines (line 0)

/-- Declarations that follow another one. -/
def laterDeclarations (blankLines : Nat) (previous : Declaration) : List Declaration → List Fragment
  | [] => []
  | d :: ds =>
    blankLinesBetween blankLines previous d ++ d.layout ++ [line 0] ++ laterDeclarations blankLines d ds

/-- The declarations of a program. -/
def declarationsLayout (blankLines : Nat) : List Declaration → List Fragment
  | [] => []
  | d :: ds => d.layout ++ [line 0] ++ laterDeclarations blankLines d ds

/-- A program as fragments. -/
def Program.layout (blankLines : Nat) (p : Program) : List Fragment := declarationsLayout blankLines p.declarations

/-- The text of a program. -/
def Program.print (p : Program) (config : LayoutConfig) : String :=
  Fragment.render config.indent (p.layout config.blankLines)

/-- The text of an expression on its own. -/
def Expr.print (e : Expr) : String := Fragment.render ({} : LayoutConfig).indent (e.layout 0 true)

/-- The text of a type on its own. -/
def TypeExpr.print (t : TypeExpr) : String := Fragment.render ({} : LayoutConfig).indent t.layout

end ElleFrontEnd
