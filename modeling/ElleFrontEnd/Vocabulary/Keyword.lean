import ElleFrontEnd.Vocabulary.Example

/-!
# Keywords

The reserved words of Elle.  Lookup by spelling is case-sensitive: `FILE` is reserved and `file` is not.  The word
`fn` opens a function and is at the same time the type of function pointers, so it is listed with the primitive
types.
-/

namespace ElleFrontEnd

/-- The built-in types, each named by a reserved word. -/
inductive PrimitiveType
  | void | bool | char | i8 | i16 | i32 | i64 | f32 | f64 | fn | string | any | file
deriving DecidableEq

namespace PrimitiveType

/-- All built-in types, in the order of the keyword table. -/
def all : List PrimitiveType :=
  [.void, .bool, .char, .i8, .i16, .i32, .i64, .f32, .f64, .fn, .string, .any, .file]

/-- The reserved word that names the type. -/
def spelling : PrimitiveType → String
  | .void => "void"
  | .bool => "bool"
  | .char => "char"
  | .i8 => "i8"
  | .i16 => "i16"
  | .i32 => "i32"
  | .i64 => "i64"
  | .f32 => "f32"
  | .f64 => "f64"
  | .fn => "fn"
  | .string => "string"
  | .any => "any"
  | .file => "FILE"

/-- The name of the type in tree and token dumps. -/
def label : PrimitiveType → String
  | .void => "Void"
  | .bool => "Bool"
  | .char => "Char"
  | .i8 => "I8"
  | .i16 => "I16"
  | .i32 => "I32"
  | .i64 => "I64"
  | .f32 => "F32"
  | .f64 => "F64"
  | .fn => "Fn"
  | .string => "String"
  | .any => "Any"
  | .file => "File"

end PrimitiveType

/-- The visibility a declaration may ask for. -/
inductive Visibility
  | pub
  | localOnly
  | external
deriving DecidableEq

namespace Visibility

/-- The reserved word that asks for the visibility. -/
def spelling : Visibility → String
  | .pub => "pub"
  | .localOnly => "local"
  | .external => "external"

/-- The name of the visibility in tree and token dumps. -/
def label : Visibility → String
  | .pub => "Pub"
  | .localOnly => "Local"
  | .external => "External"

end Visibility

/-- A reserved word. -/
inductive Keyword
  | primitive (type : PrimitiveType)
  | letKw | constKw | structKw | useKw | globalKw | namespaceKw
  | visibility (kind : Visibility)
  | ifKw | elseKw | whileKw | forKw | inKw | deferKw | returnKw | breakKw | continueKw
  | boolean (value : Bool)
deriving DecidableEq

/-- What a keyword is mainly for. -/
inductive KeywordCategory
  | primitiveType | declaration | modifier | controlFlow | literal
deriving DecidableEq

/-- The name of a keyword category. -/
def KeywordCategory.label : KeywordCategory → String
  | .primitiveType => "PrimitiveType"
  | .declaration => "Declaration"
  | .modifier => "Modifier"
  | .controlFlow => "ControlFlow"
  | .literal => "Literal"

namespace Keyword

/-- The keyword that opens a function and names the type of function pointers. -/
abbrev fn : Keyword := .primitive .fn

/-- The keyword table. -/
def all : List Keyword :=
  PrimitiveType.all.map .primitive ++
  [.letKw, .constKw, .structKw, .useKw, .globalKw, .namespaceKw,
   .visibility .external, .visibility .pub, .visibility .localOnly,
   .ifKw, .elseKw, .whileKw, .forKw, .inKw, .deferKw, .returnKw, .breakKw, .continueKw,
   .boolean true, .boolean false]

/-- The reserved word itself. -/
def spelling : Keyword → String
  | .primitive t => t.spelling
  | .letKw => "let"
  | .constKw => "const"
  | .structKw => "struct"
  | .useKw => "use"
  | .globalKw => "global"
  | .namespaceKw => "namespace"
  | .visibility v => v.spelling
  | .ifKw => "if"
  | .elseKw => "else"
  | .whileKw => "while"
  | .forKw => "for"
  | .inKw => "in"
  | .deferKw => "defer"
  | .returnKw => "return"
  | .breakKw => "break"
  | .continueKw => "continue"
  | .boolean true => "true"
  | .boolean false => "false"

/-- The name of the keyword in token dumps. -/
def label : Keyword → String
  | .primitive t => t.label
  | .letKw => "Let"
  | .constKw => "Const"
  | .structKw => "Struct"
  | .useKw => "Use"
  | .globalKw => "Global"
  | .namespaceKw => "Namespace"
  | .visibility v => v.label
  | .ifKw => "If"
  | .elseKw => "Else"
  | .whileKw => "While"
  | .forKw => "For"
  | .inKw => "In"
  | .deferKw => "Defer"
  | .returnKw => "Return"
  | .breakKw => "Break"
  | .continueKw => "Continue"
  | .boolean true => "True"
  | .boolean false => "False"

/-- The group a keyword belongs to; `fn` counts as opening a declaration. -/
def category : Keyword → KeywordCategory
  | .primitive .fn => .declaration
  | .primitive _ => .primitiveType
  | .letKw | .constKw | .structKw | .useKw | .globalKw | .namespaceKw => .declaration
  | .visibility _ => .modifier
  | .ifKw | .elseKw | .whileKw | .forKw | .inKw | .deferKw | .returnKw | .breakKw | .continueKw => .controlFlow
  | .boolean _ => .literal

/-- The built-in type a keyword names, if any. -/
def primitive? : Keyword → Option PrimitiveType
  | .primitive t => some t
  | _ => none

/-- The visibility a keyword asks for, if any. -/
def visibility? : Keyword → Option Visibility
  | .visibility v => some v
  | _ => none

/-- Whether the keyword can open a type. -/
def isType (k : Keyword) : Bool := k.primitive?.isSome

/-- Every keyword is current. -/
def stability (_ : Keyword) : Stability := .stable

/-- Example programs for the keyword. -/
def examples : Keyword → List Example
  | .primitive .fn =>
    [{ code := "fn add(i32 a, i32 b) -> i32 \x7b return a + b; \x7d", note := some "Function definition." },
     { code := "fn apply(fn f, i32 x) -> i32 \x7b return f(x); \x7d"
       note := some "`fn` as a function-pointer type." }]
  | _ => []

/-- The keyword with the given spelling. -/
def ofSpelling? (word : String) : Option Keyword := all.find? (·.spelling == word)

end Keyword

end ElleFrontEnd
