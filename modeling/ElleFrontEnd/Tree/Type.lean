import ElleFrontEnd.Text.Span
import ElleFrontEnd.Vocabulary.Keyword

/-!
# Types

The types that a program can write, each with the stretch of the source it was read from, and the parameter lists
of functions, which hold types and names only.
-/

namespace ElleFrontEnd

/-- A type as written. -/
inductive TypeExpr
  | primitive (span : Span) (type : PrimitiveType)
  | named (span : Span) (name : String)
  /-- a type followed by `dims` pairs of brackets -/
  | array (span : Span) (element : TypeExpr) (dims : Nat)
  /-- a type followed by `depth` stars -/
  | pointer (span : Span) (base : TypeExpr) (depth : Nat)
  /-- `Name<T, U>` -/
  | generic (span : Span) (name : String) (args : List TypeExpr)
  /-- `(T, U)` -/
  | tuple (span : Span) (first second : TypeExpr)

namespace TypeExpr

/-- The stretch that a type was read from. -/
def span : TypeExpr → Span
  | .primitive s _ | .named s _ | .array s _ _ | .pointer s _ _ | .generic s _ _ | .tuple s _ _ => s

/-- Whether the type is a bare name. -/
def isNamed : TypeExpr → Bool
  | .named _ _ => true
  | _ => false

end TypeExpr

/-- A parameter. -/
inductive Param
  | named (span : Span) (type : TypeExpr) (name : String)
  /-- a type alone, as in a prototype -/
  | unnamed (span : Span) (type : TypeExpr)
  /-- `...`, with a name for the rest or without -/
  | variadic (span : Span) (name : Option String)
  /-- `@nofmt Type name` -/
  | noFormat (span : Span) (type : TypeExpr) (name : String)

/-- A parameter list, which may open with the name of a meta binding. -/
structure ParamList where
  metaName : Option String
  params : List Param

end ElleFrontEnd
