import ElleFrontEnd.Literal.Quoted
import ElleFrontEnd.Tree.Operation
import ElleFrontEnd.Tree.Type
import ElleFrontEnd.Vocabulary.Directive

/-!
# Expressions and statements

The trees of expressions, statements and blocks, which contain each other through lambdas with a block for a body.
Every node carries the stretch of the source it was read from; nodes that are only a choice between two forms (what
follows `else`, the head of a `for` loop) carry the stretch of the form they hold.
-/

namespace ElleFrontEnd

/-- How a variable declaration introduces its name. -/
inductive Binding
  /-- `Type name` -/
  | typed
  /-- `let name` -/
  | letBound
  /-- `name := value` -/
  | walrus
deriving DecidableEq

/-- The name of a binding form. -/
def Binding.label : Binding → String
  | .typed => "Typed"
  | .letBound => "Let"
  | .walrus => "Walrus"

mutual

/-- An expression. -/
inductive Expr
  | binary (span : Span) (left : Expr) (op : BinaryOp) (right : Expr)
  | unary (span : Span) (op : UnaryOp) (operand : Expr)
  | call (span : Span) (callee : Expr) (generics : Option (List TypeExpr)) (args : List Expr)
  | member (span : Span) (object : Expr) (name : String)
  | subscript (span : Span) (object index : Expr)
  /-- `condition ? consequence : alternative`; the consequence may be left out -/
  | conditional (span : Span) (condition : Expr) (consequence : Option Expr) (alternative : Expr)
  /-- `(Type) operand` -/
  | cast (span : Span) (type : TypeExpr) (operand : Expr)
  | paren (span : Span) (inner : Expr)
  | ident (span : Span) (name : String)
  /-- `A::B` -/
  | qualified (span : Span) (path : List String)
  | rawName (span : Span) (raw : String)
  | number (span : Span) (literal : NumberLit)
  | str (span : Span) (parts : List StrPart)
  | bool (span : Span) (value : Bool)
  | char (span : Span) (part : StrPart)
  /-- `[T; a, b]` or `[a, b]`, with `#` before it if it is static -/
  | array (span : Span) (element : Option TypeExpr) (isStatic : Bool) (elements : List Expr)
  /-- `$(a, b)` -/
  | tuple (span : Span) (first second : Expr)
  /-- `$$(a, b, c)` -/
  | triple (span : Span) (first second third : Expr)
  | structLit (span : Span) (name : String) (generics : Option (List TypeExpr)) (fields : List FieldInit)
  /-- a lambda whose body is an expression -/
  | lambda (span : Span) (params : ParamList) (body : Expr)
  /-- a lambda whose body is a block -/
  | blockLambda (span : Span) (params : ParamList) (body : Block)
  | range (span : Span) (start stop : Expr) (inclusive : Bool)
  | directive (span : Span) (directive : Directive)
  /-- `$name` or `$name(args)` -/
  | sigil (span : Span) (name : String) (args : Option (List Expr))

/-- `name = value` in a struct literal. -/
inductive FieldInit
  | mk (span : Span) (name : String) (value : Expr)

/-- What follows `#`. -/
inductive Directive
  | len (value : Expr)
  | size (type : TypeExpr)
  | ident (name : String)
  | env
  | alloc (type : TypeExpr) (count : Option Expr)
  | realloc (pointer : Expr) (type : TypeExpr) (count : Option Expr)
  | free (value : Expr)
  | setAllocator (value : Expr)
  | resetAllocator

/-- Statements in braces. -/
inductive Block
  | mk (span : Span) (statements : List Stmt)

/-- A statement. -/
inductive Stmt
  | expr (span : Span) (value : Expr)
  | varDecl (span : Span) (binding : Binding) (type : Option TypeExpr) (name : String) (init : Option Expr)
  | assign (span : Span) (target : Expr) (op : AssignOp) (value : Expr)
  | ifElse (span : Span) (condition : Expr) (body : Block) (otherwise : Else)
  | whileLoop (span : Span) (condition : Expr) (body : Block)
  /-- `for (init; condition; step)` -/
  | forLoop (span : Span) (init : ForInit) (condition : Expr) (step : ForStep) (body : Block)
  /-- `for name in iterable` -/
  | forEach (span : Span) (name : String) (iterable : Expr) (body : Block)
  | defer (span : Span) (value : Expr)
  | returnValue (span : Span) (value : Option Expr)
  | breakLoop (span : Span)
  | continueLoop (span : Span)
  | block (span : Span) (statements : List Stmt)
  /-- `Type name[size]` -/
  | buffer (span : Span) (type : TypeExpr) (name : String) (size : Expr)

/-- What follows the block of an `if`. -/
inductive Else
  | absent
  | block (body : Block)
  | elseIf (span : Span) (condition : Expr) (body : Block) (otherwise : Else)

/-- What a `for` loop starts with. -/
inductive ForInit
  | varDecl (span : Span) (binding : Binding) (type : Option TypeExpr) (name : String) (init : Option Expr)
  | expr (value : Expr)

/-- What a `for` loop does after each round. -/
inductive ForStep
  | assign (span : Span) (target : Expr) (op : AssignOp) (value : Expr)
  | expr (value : Expr)

end

namespace Expr

/-- The stretch that an expression was read from. -/
def span : Expr → Span
  | .binary s _ _ _ | .unary s _ _ | .call s _ _ _ | .member s _ _ | .subscript s _ _ | .conditional s _ _ _
  | .cast s _ _ | .paren s _ | .ident s _ | .qualified s _ | .rawName s _ | .number s _ | .str s _ | .bool s _
  | .char s _ | .array s _ _ _ | .tuple s _ _ | .triple s _ _ _ | .structLit s _ _ _ | .lambda s _ _
  | .blockLambda s _ _ | .range s _ _ _ | .directive s _ | .sigil s _ _ => s

/-- Whether the expression stands in parentheses. -/
def isParen : Expr → Bool
  | .paren _ _ => true
  | _ => false

/-- An expression without one pair of enclosing parentheses. -/
def unparenthesized : Expr → Expr
  | .paren _ inner => inner
  | e => e

/-- Whether type arguments may follow the expression in a call. -/
def takesGenerics : Expr → Bool
  | .ident _ _ | .qualified _ _ | .member _ _ _ => true
  | _ => false

end Expr

/-- The name of a directive. -/
def Directive.name : Directive → DirectiveName
  | .len _ => .len
  | .size _ => .size
  | .ident _ => .ident
  | .env => .env
  | .alloc _ _ => .alloc
  | .realloc _ _ _ => .realloc
  | .free _ => .free
  | .setAllocator _ => .setAllocator
  | .resetAllocator => .resetAllocator

namespace Block

/-- The stretch that a block was read from. -/
def span : Block → Span
  | .mk s _ => s

/-- The statements of a block. -/
def statements : Block → List Stmt
  | .mk _ ss => ss

end Block

/-- The stretch that a statement was read from. -/
def Stmt.span : Stmt → Span
  | .expr s _ | .varDecl s _ _ _ _ | .assign s _ _ _ | .ifElse s _ _ _ | .whileLoop s _ _ | .forLoop s _ _ _ _
  | .forEach s _ _ _ | .defer s _ | .returnValue s _ | .breakLoop s | .continueLoop s | .block s _
  | .buffer s _ _ _ => s

end ElleFrontEnd
