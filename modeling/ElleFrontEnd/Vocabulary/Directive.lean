import ElleFrontEnd.Vocabulary.Example

/-!
# Directives

The closed set of names that may follow `#`.  Each takes operands of a fixed shape, in parentheses, except `#env`,
which takes none and no parentheses.
-/

namespace ElleFrontEnd

/-- What stands in one operand place of a directive. -/
inductive Operand
  | expr | type | ident
  /-- a last operand that may be left out together with its comma -/
  | optionalExpr
deriving DecidableEq

/-- The name of an operand shape. -/
def Operand.label : Operand → String
  | .expr => "Expr"
  | .type => "Type"
  | .ident => "Ident"
  | .optionalExpr => "OptionalExpr"

/-- The name of a directive. -/
inductive DirectiveName
  | len | size | ident | env | alloc | realloc | free | setAllocator | resetAllocator
deriving DecidableEq

namespace DirectiveName

/-- The directive table. -/
def all : List DirectiveName := [.len, .size, .ident, .env, .alloc, .realloc, .free, .setAllocator, .resetAllocator]

/-- The word after `#`. -/
def spelling : DirectiveName → String
  | .len => "len"
  | .size => "size"
  | .ident => "i"
  | .env => "env"
  | .alloc => "alloc"
  | .realloc => "realloc"
  | .free => "free"
  | .setAllocator => "set_allocator"
  | .resetAllocator => "reset_allocator"

/-- The name of the directive in listings. -/
def label : DirectiveName → String
  | .len => "Len"
  | .size => "Size"
  | .ident => "I"
  | .env => "Env"
  | .alloc => "Alloc"
  | .realloc => "Realloc"
  | .free => "Free"
  | .setAllocator => "SetAllocator"
  | .resetAllocator => "ResetAllocator"

/-- Whether the directive is written with an operand list. -/
def parenthesized : DirectiveName → Bool
  | .env => false
  | _ => true

/-- The operands a directive takes, in order. -/
def operands : DirectiveName → List Operand
  | .len | .free | .setAllocator => [.expr]
  | .size => [.type]
  | .ident => [.ident]
  | .env | .resetAllocator => []
  | .alloc => [.type, .optionalExpr]
  | .realloc => [.expr, .type, .optionalExpr]

/-- What the directive does. -/
def description : DirectiveName → String
  | .len => "Element count of an array value."
  | .size => "Byte size of a type."
  | .ident => "Refer to an identifier by name without evaluating it."
  | .env => "The ambient environment value."
  | .alloc => "Allocate one or `count` values of a type."
  | .realloc => "Resize an allocation."
  | .free => "Release an allocation."
  | .setAllocator => "Install an allocator for subsequent `#alloc` calls."
  | .resetAllocator => "Restore the default allocator."

/-- Example programs for the directive. -/
def examples : DirectiveName → List Example
  | .len => [{ code := "fn main() \x7b i64 n = #len(xs); \x7d" }]
  | .size => [{ code := "fn main() \x7b i64 n = #size(i32*); \x7d" }]
  | .ident => [{ code := "fn main() \x7b string s = #i(counter); \x7d" }]
  | .env => [{ code := "fn main() \x7b let e = #env; \x7d" }]
  | .alloc => [{ code := "fn main() \x7b i32 *p = #alloc(i32, 16); \x7d" }]
  | .realloc => [{ code := "fn main() \x7b p = #realloc(p, i32, 32); \x7d" }]
  | .free => [{ code := "fn main() \x7b defer #free(p); \x7d" }]
  | .setAllocator => [{ code := "fn main() \x7b #set_allocator(arena); \x7d" }]
  | .resetAllocator => [{ code := "fn main() \x7b #reset_allocator(); \x7d" }]

/-- The directive with the given name. -/
def ofSpelling? (word : String) : Option DirectiveName := all.find? (·.spelling == word)

/-- The text of one operand place in a usage line, given whether it is the first. -/
private def operandUsage (isFirst : Bool) (operand : Operand) : String :=
  let comma := if isFirst then "" else ", "
  match operand with
  | .expr => comma ++ "expr"
  | .type => comma ++ "type"
  | .ident => comma ++ "identifier"
  | .optionalExpr => "[, expr]"

/-- The usage line of a directive, such as `#alloc(type[, expr])`. -/
def signature (d : DirectiveName) : String :=
  if d.parenthesized then
    match d.operands with
    | [] => s!"#{d.spelling}()"
    | first :: others =>
      s!"#{d.spelling}(" ++ operandUsage true first ++ String.join (others.map (operandUsage false)) ++ ")"
  else s!"#{d.spelling}"

end DirectiveName

end ElleFrontEnd
