import ElleFrontEnd.Tree.Expr

/-!
# Declarations and programs

What a source may hold at its top level, in source order.
-/

namespace ElleFrontEnd

/-- The slash-separated path of a module. -/
structure ModulePath where
  segments : List String
deriving DecidableEq

namespace ModulePath

/-- The path as `a/b/c`. -/
def text (p : ModulePath) : String := "/".intercalate p.segments

/-- The segments of a text between slashes; empty ones do not count. -/
def ofText (text : String) : ModulePath :=
  ⟨((text.splitToList (· = '/')).filter fun s => !s.isEmpty)⟩

end ModulePath

/-- A visibility that a file can give to all its declarations. -/
inductive GlobalOption
  | pub | external
deriving DecidableEq

/-- The visibility behind the option. -/
def GlobalOption.visibility : GlobalOption → Visibility
  | .pub => .pub
  | .external => .external

/-- A visibility that a declaration asks for or, after `!`, asks not to have. -/
structure Modifier where
  kind : Visibility
  negated : Bool
deriving DecidableEq

namespace Modifier

/-- The modifier as written. -/
def display (m : Modifier) : String := (if m.negated then "!" else "") ++ m.kind.spelling

/-- What the last modifier of a kind asks for, if there is one; earlier ones do not count. -/
def last? (modifiers : List Modifier) (kind : Visibility) : Option Bool :=
  (modifiers.reverse.find? (·.kind = kind)).map (!·.negated)

/-- Whether the last modifier of a kind asks for it. -/
def holds (modifiers : List Modifier) (kind : Visibility) : Bool := last? modifiers kind = some true

end Modifier

/-- The name that a function is declared under. -/
inductive DeclName
  | plain (span : Span) (name : String)
  /-- `Type::method` -/
  | qualified (span : Span) (path : List String)
  | rawName (span : Span) (raw : String)
deriving DecidableEq

namespace DeclName

/-- The stretch that a name was read from. -/
def span : DeclName → Span
  | .plain s _ | .qualified s _ | .rawName s _ => s

/-- The name as written. -/
def display : DeclName → String
  | .plain _ name => name
  | .qualified _ path => "::".intercalate path
  | .rawName _ raw => "`" ++ raw ++ "`"

end DeclName

/-- `@name` or `@name(args)`. -/
structure Attribute where
  span : Span
  name : String
  args : Option (List Expr)

/-- A function, with a body or without. -/
structure FunctionDecl where
  modifiers : List Modifier
  name : DeclName
  generics : List String
  params : ParamList
  attributes : List Attribute
  returnType : Option TypeExpr
  body : Option Block

/-- A constant. -/
structure ConstDecl where
  modifiers : List Modifier
  type : Option TypeExpr
  name : String
  value : Expr

/-- A field of a struct. -/
structure Field where
  span : Span
  type : TypeExpr
  name : String

/-- A struct. -/
structure StructDecl where
  modifiers : List Modifier
  name : String
  generics : List String
  attributes : List Attribute
  fields : List Field

/-- A declaration. -/
inductive Declaration
  /-- `use a/b/c;` -/
  | importModule (span : Span) (path : ModulePath)
  /-- `global pub, external;` -/
  | globalOptions (span : Span) (options : List GlobalOption)
  | moduleName (span : Span) (name : String)
  | function (span : Span) (decl : FunctionDecl)
  | externalFunction (span : Span) (decl : FunctionDecl)
  | constant (span : Span) (decl : ConstDecl)
  | struct (span : Span) (decl : StructDecl)

namespace Declaration

/-- The stretch that a declaration was read from. -/
def span : Declaration → Span
  | .importModule s _ | .globalOptions s _ | .moduleName s _ | .function s _ | .externalFunction s _
  | .constant s _ | .struct s _ => s

/-- The module path that a declaration imports. -/
def importPath? : Declaration → Option ModulePath
  | .importModule _ path => some path
  | _ => none

/-- Whether the declaration belongs to the head of a file, which is printed without blank lines. -/
def isHeader : Declaration → Bool
  | .importModule _ _ | .globalOptions _ _ | .moduleName _ _ => true
  | _ => false

end Declaration

/-- A program: its declarations in source order. -/
structure Program where
  declarations : List Declaration

/-- The module paths that a program imports, in source order and with repeats. -/
def Program.imports (p : Program) : List ModulePath := p.declarations.filterMap Declaration.importPath?

end ElleFrontEnd
