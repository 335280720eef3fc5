import ElleFrontEnd.Session.Stmt
import ElleFrontEnd.Grammar.Declaration

/-!
# Declarations and programs in a session

The methods that read declarations, in the way of the parsers of `Grammar.Declaration`, and the parse of a whole program
in a session.
-/

namespace ElleFrontEnd

namespace Session

open Method (register withHeader underAngle)
open ElleFrontEnd.Parser hiding grow collect commaList attempt outcome onError

variable (k : Methods)

/-! ### Functions, constants and structs -/

/-- One attribute, if there is one. -/
def attributeRound : Method (Round Attribute) := do
  if ← atMark .atSign then
    let opened ← skip
    let name ← identifier
    if ← atMark .lParen then
      let args ← arguments k
      pure (.more { span := ← spanFrom opened.start, name, args := some args })
    else pure (.more { span := ← spanFrom opened.start, name, args := none })
  else pure .stop

/-- The attributes of a declaration. -/
def attributeList : Method (List Attribute) := Method.collect (attributeRound k)

/-- The type behind `->`, if there is one. -/
def returnType : Method (Option TypeExpr) := do
  if ← acceptMark .arrow then
    let type ← k.type
    pure (some type)
  else pure none

/-- The body of a function, or the semicolon in its place.  An external function has no body. -/
def functionBody (modifiers : List Modifier) (name : DeclName) : Method (Option Block) := do
  if ← atMark .lBrace then
    let body ← k.block
    if Modifier.holds modifiers .external then
      fail { cause := .bodyOfExternal name.display, span := body.span, hints := [.endWithSemicolon] }
    else pure (some body)
  else
    Parser.onError (·.withHint .bodyOrSemicolon) semicolon
    pure none

/-- A function behind its modifiers. -/
def functionDecl (modifiers : List Modifier) : Method FunctionDecl := do
  let _ ← expectKeyword .fn
  let name ← declName
  let generics ← typeParams
  let params ← paramList k
  let attributes ← attributeList k
  let result ← returnType k
  let body ← functionBody k modifiers name
  pure { modifiers, name, generics, params, attributes, returnType := result, body }

/-- The type of a constant, which is left out where a name and `=` come next. -/
def constType : Method (Option TypeExpr) := do
  if (← atIdent) && (← isAhead 1 (.operator .eq)) then pure none
  else
    let type ← k.type
    pure (some type)

/-- A constant behind its modifiers. -/
def constDecl (modifiers : List Modifier) : Method ConstDecl := do
  let _ ← expectKeyword .constKw
  let type ← constType k
  let name ← identifier
  let _ ← expectOperator .eq
  let value ← k.expression
  semicolon
  pure { modifiers, type, name, value }

/-- A field of a struct, `Type name` or `name: Type`. -/
def structField : Method Field := do
  let start ← nextStart
  if (← atIdent) && (← isAhead 1 (.punctuation .colon)) then
    let name ← identifier
    let _ ← skip
    let type ← k.type
    pure { span := ← spanFrom start, type, name }
  else
    let type ← k.type
    let name ← identifier
    pure { span := ← spanFrom start, type, name }

/-- One round of the fields of a struct whose brace was opened at `opened`: its end, or a field with what ends it. -/
def fieldRound (opened : Span) : Method (Round Field) := do
  if ← acceptMark .rBrace then pure .stop
  else if (← atEnd) || (← atMark .rParen) || (← atMark .rBracket) then
    fail { cause := .unclosed .lBrace (← nextKind), span := ← Parser.nextSpan, notes := [.openedAt opened.start] }
  else
    let field ← structField k
    if ← acceptMark .semicolon then pure (.more field)
    else if ← acceptMark .comma then pure (.more field)
    else if ← atMark .rBrace then pure (.more field)
    else unexpected .fieldEnd

/-- A struct behind its modifiers; a semicolon may follow it. -/
def structDecl (modifiers : List Modifier) : Method StructDecl := do
  let _ ← expectKeyword .structKw
  let name ← identifier
  let generics ← typeParams
  let attributes ← attributeList k
  let opened ← expectMark .lBrace
  let fields ← Method.collect (fieldRound k opened)
  let _ ← acceptMark .semicolon
  pure { modifiers, name, generics, attributes, fields }

/-! ### Declarations -/

/-- A declaration that may have modifiers, without its stretch. -/
def modifiedForm : Method (Span → Declaration) := do
  let modifiers ← modifierList
  match ← nextKind with
  | .keyword (.primitive .fn) => do
    let decl ← functionDecl k modifiers
    if Modifier.holds decl.modifiers .external then pure (.externalFunction · decl)
    else pure (.function · decl)
  | .keyword .constKw => do
    let decl ← constDecl k modifiers
    pure (.constant · decl)
  | .keyword .structKw => do
    let decl ← structDecl k modifiers
    pure (.struct · decl)
  | _ => noDeclaration

/-- A declaration without its stretch. -/
def declarationForm : Method (Span → Declaration) := do
  match ← nextKind with
  | .keyword .useKw => do
    let path ← importPath
    pure (.importModule · path)
  | .keyword .globalKw => do
    let options ← globalLine
    pure (.globalOptions · options)
  | .keyword .namespaceKw => do
    let name ← moduleLine
    pure (.moduleName · name)
  | _ => modifiedForm k

/-- A declaration. -/
def declaration : Method Declaration := do
  let start ← nextStart
  let form ← declarationForm k
  pure (form (← spanFrom start))

/-! ### Programs -/

/-- One round of a program: its end, a stray semicolon, or a declaration. -/
def programRound : Method (Round Declaration) := do
  if ← atEnd then pure .stop
  else if ← acceptMark .semicolon then pure .none
  else
    match ← Method.outcome (declaration k) with
    | .ok d => pure (.more d)
    | .error e => do
      record e
      if (← register Registers.options).recover then do
        change toNextDeclaration
        pure .none
      else pure .stop

/-- The declarations of a program. -/
def program : Method (List Declaration) := Method.collect (programRound k)

end Session

end ElleFrontEnd
