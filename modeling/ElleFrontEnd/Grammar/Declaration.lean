import ElleFrontEnd.Grammar.Stmt

/-!
# Reading declarations and programs

A program is read declaration by declaration.  One that fails is recorded, and reading goes on at the next place
where a declaration may begin; a program that is returned along with diagnostics holds the declarations that were
read.  Semicolons between declarations do no harm.
-/

namespace ElleFrontEnd

namespace Parser

/-! ### Heads of declarations -/

/-- A segment of a module path; reserved words are allowed. -/
def pathSegment : Parser String := do
  match ← nextKind with
  | .keyword k => do
    let _ ← skip
    pure k.spelling
  | _ => identifier

/-- An import, `use a/b/c;`. -/
def importPath : Parser ModulePath := do
  let _ ← expectKeyword .useKw
  let segments ← separatedBy (.operator .slash) pathSegment
  semicolon
  pure ⟨segments⟩

/-- One option of a `global` line. -/
def globalOption : Parser GlobalOption := do
  match (← nextKind).visibility? with
  | some .pub => do
    let _ ← skip
    pure .pub
  | some .external => do
    let _ ← skip
    pure .external
  | _ => unexpected .globalOption

/-- The options of a file, `global pub, external;`. -/
def globalLine : Parser (List GlobalOption) := do
  let _ ← expectKeyword .globalKw
  let options ← separatedBy (.punctuation .comma) globalOption
  semicolon
  pure options

/-- The name of a file's module, `namespace name;`. -/
def moduleLine : Parser String := do
  let _ ← skip
  let name ← identifier
  semicolon
  pure name

/-- One modifier, if there is one. -/
def modifierRound : Parser (Round Modifier) := do
  if ← atOperator .bang then
    match (← look fun s => s.kindAt 1).visibility? with
    | some kind => do
      let _ ← skip
      let _ ← skip
      pure (.more { kind, negated := true })
    | none => do
      let _ ← skip
      unexpected .modifierAfterBang
  else
    match (← nextKind).visibility? with
    | some kind => do
      let _ ← skip
      pure (.more { kind, negated := false })
    | none => pure .stop

/-- The modifiers before a declaration, in source order. -/
def modifierList : Parser (List Modifier) := collect modifierRound

/-- The name of a function. -/
def declName : Parser DeclName := do
  let start ← nextStart
  match ← nextKind with
  | .rawName raw => do
    let _ ← skip
    pure (.rawName (← spanFrom start) raw)
  | _ => do
    let first ← identifier
    if ← atMark .colonColon then
      let tail ← pathTail
      pure (.qualified (← spanFrom start) (first :: tail))
    else pure (.plain (← spanFrom start) first)

/-- One attribute, if there is one. -/
def attributeRound (g : Inner) : Parser (Round Attribute) := do
  if ← atMark .atSign then
    let opened ← skip
    let name ← identifier
    if ← atMark .lParen then
      let args ← arguments g
      pure (.more { span := ← spanFrom opened.start, name, args := some args })
    else pure (.more { span := ← spanFrom opened.start, name, args := none })
  else pure .stop

/-- The attributes of a declaration. -/
def attributeList (g : Inner) : Parser (List Attribute) := collect (attributeRound g)

/-! ### Functions, constants and structs -/

/-- The type behind `->`, if there is one. -/
def returnType (g : Inner) : Parser (Option TypeExpr) := do
  if ← acceptMark .arrow then
    let type ← g.type 0
    pure (some type)
  else pure none

/-- The body of a function, or the semicolon in its place.  An external function has no body. -/
def functionBody (g : Inner) (modifiers : List Modifier) (name : DeclName) : Parser (Option Block) := do
  if ← atMark .lBrace then
    let body ← g.block
    if Modifier.holds modifiers .external then
      fail { cause := .bodyOfExternal name.display, span := body.span, hints := [.endWithSemicolon] }
    else pure (some body)
  else
    onError (·.withHint .bodyOrSemicolon) semicolon
    pure none

/-- A function behind its modifiers. -/
def functionDecl (g : Inner) (modifiers : List Modifier) : Parser FunctionDecl := do
  let _ ← expectKeyword .fn
  let name ← declName
  let generics ← typeParams
  let params ← paramList g
  let attributes ← attributeList g
  let result ← returnType g
  let body ← functionBody g modifiers name
  pure { modifiers, name, generics, params, attributes, returnType := result, body }

/-- The type of a constant, which is left out where a name and `=` come next. -/
def constType (g : Inner) : Parser (Option TypeExpr) := do
  if (← atIdent) && (← isAhead 1 (.operator .eq)) then pure none
  else
    let type ← g.type 0
    pure (some type)

/-- A constant behind its modifiers. -/
def constDecl (g : Inner) (modifiers : List Modifier) : Parser ConstDecl := do
  let _ ← expectKeyword .constKw
  let type ← constType g
  let name ← identifier
  let _ ← expectOperator .eq
  let value ← g.expression false
  semicolon
  pure { modifiers, type, name, value }

/-- A field of a struct, `Type name` or `name: Type`. -/
def structField (g : Inner) : Parser Field := do
  let start ← nextStart
  if (← atIdent) && (← isAhead 1 (.punctuation .colon)) then
    let name ← identifier
    let _ ← skip
    let type ← g.type 0
    pure { span := ← spanFrom start, type, name }
  else
    let type ← g.type 0
    let name ← identifier
    pure { span := ← spanFrom start, type, name }

/-- One round of the fields of a struct whose brace was opened at `opened`: its end, or a field with what ends it. -/
def fieldRound (g : Inner) (opened : Span) : Parser (Round Field) := do
  if ← acceptMark .rBrace then pure .stop
  else if (← atEnd) || (← atMark .rParen) || (← atMark .rBracket) then
    fail { cause := .unclosed .lBrace (← nextKind), span := ← nextSpan, notes := [.openedAt opened.start] }
  else
    let field ← structField g
    if ← acceptMark .semicolon then pure (.more field)
    else if ← acceptMark .comma then pure (.more field)
    else if ← atMark .rBrace then pure (.more field)
    else unexpected .fieldEnd

/-- A struct behind its modifiers; a semicolon may follow it. -/
def structDecl (g : Inner) (modifiers : List Modifier) : Parser StructDecl := do
  let _ ← expectKeyword .structKw
  let name ← identifier
  let generics ← typeParams
  let attributes ← attributeList g
  let opened ← expectMark .lBrace
  let fields ← collect (fieldRound g opened)
  let _ ← acceptMark .semicolon
  pure { modifiers, name, generics, attributes, fields }

/-! ### Declarations -/

/-- Fails at the next token, because it opens no declaration. -/
def noDeclaration {α : Type} : Parser α := fun s =>
  (.error { cause := .noDeclaration s.peek.kind, span := s.peek.span, hints := [.topLevelForms] }, s)

/-- A declaration that may have modifiers, without its stretch. -/
def modifiedForm (g : Inner) : Parser (Span → Declaration) := do
  let modifiers ← modifierList
  match ← nextKind with
  | .keyword (.primitive .fn) => do
    let decl ← functionDecl g modifiers
    if Modifier.holds decl.modifiers .external then pure (.externalFunction · decl)
    else pure (.function · decl)
  | .keyword .constKw => do
    let decl ← constDecl g modifiers
    pure (.constant · decl)
  | .keyword .structKw => do
    let decl ← structDecl g modifiers
    pure (.struct · decl)
  | _ => noDeclaration

/-- A declaration without its stretch. -/
def declarationForm (g : Inner) : Parser (Span → Declaration) := do
  match ← nextKind with
  | .keyword .useKw => do
    let path ← importPath
    pure (.importModule · path)
  | .keyword .globalKw => do
    let options ← globalLine
    pure (.globalOptions · options)
  | .keyword .namespaceKw => do
    let name ← moduleLine
    pure (.moduleName · name)
  | _ => modifiedForm g

/-- A declaration. -/
def declaration (g : Inner) : Parser Declaration := do
  let start ← nextStart
  let form ← declarationForm g
  pure (form (← spanFrom start))

/-! ### Programs -/

/-- Whether a declaration begins with a token and the one behind it. -/
def opensDeclaration (kind next : TokenKind) : Bool :=
  match kind with
  | .keyword (.primitive .fn) | .keyword .constKw | .keyword .structKw | .keyword .useKw | .keyword .globalKw
  | .keyword .namespaceKw | .keyword (.visibility _) => true
  | .operator .bang => next.visibility?.isSome
  | _ => false

/-- The tokens from which reading goes on after a declaration that failed: behind a semicolon outside of all groups
opened since, behind the brace that closes the last of them, or where a declaration begins.  The last of these counts
only once a token has been passed (`moved`). -/
def skipDeclaration (moved : Bool) (depth : Nat) (last : Option Token) : List Token → Option Token × List Token
  | [] => (last, [])
  | t :: ts =>
    if depth = 0 && moved && opensDeclaration t.kind ((ts.head?.map Token.kind).getD .eof) then (last, t :: ts)
    else
      match t.kind with
      | .eof => (last, t :: ts)
      | .punctuation .lBrace | .punctuation .lParen | .punctuation .lBracket =>
        skipDeclaration true (depth + 1) (some t) ts
      | .punctuation .rBrace =>
        if depth ≤ 1 then (some t, ts) else skipDeclaration true (depth - 1) (some t) ts
      | .punctuation .rParen | .punctuation .rBracket => skipDeclaration true (depth - 1) (some t) ts
      | .punctuation .semicolon => if depth = 0 then (some t, ts) else skipDeclaration true depth (some t) ts
      | _ => skipDeclaration true depth (some t) ts

/-- Goes on behind a declaration that failed. -/
def toNextDeclaration (s : ParseState) : ParseState :=
  let (last, rest) := skipDeclaration false 0 s.last s.rest
  { s with last, rest }

/-- One round of a program: its end, a stray semicolon, or a declaration. -/
def programRound (o : ParseOptions) : Parser (Round Declaration) := do
  if ← atEnd then pure .stop
  else if ← acceptMark .semicolon then pure .none
  else
    match ← outcome (declaration (Inner.ofRoom o o.maxDepth)) with
    | .ok d => pure (.more d)
    | .error e => do
      record e
      if o.recover then do
        change toNextDeclaration
        pure .none
      else pure .stop

/-- The declarations of a program. -/
def program (o : ParseOptions) : Parser (List Declaration) := collect (programRound o)

end Parser

/-- The declarations that could be read from a token stream, and the diagnostics for the others. -/
def parsePartial (tokens : List Token) (o : ParseOptions) : Program × List Diagnostic :=
  match Parser.program o { rest := tokens } with
  | (.ok declarations, s) => (⟨declarations⟩, s.errors)
  | (.error e, s) => (⟨[]⟩, s.errors ++ [e])

/-- The program of a token stream, or the diagnostics for it. -/
def parseTokens (tokens : List Token) (o : ParseOptions) : Except (List Diagnostic) Program :=
  let (program, errors) := parsePartial tokens o
  if errors.isEmpty then .ok program else .error errors

/-- What was read from a source: the declarations, and all diagnostics, the lexical ones first. -/
structure ParseOutput where
  program : Program
  diagnostics : List Diagnostic

/-- Lexes and parses a source.  Lexing always goes on after a malformed place. -/
def parseSource (source : String) (o : ParseOptions) : ParseOutput :=
  let lexed := lex source
  let (program, errors) := parsePartial lexed.tokens o
  { program, diagnostics := lexed.errors ++ errors }

end ElleFrontEnd
