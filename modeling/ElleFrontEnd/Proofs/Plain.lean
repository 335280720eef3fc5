import ElleFrontEnd.Layout.Program
import ElleFrontEnd.Proofs.ReadChain

/-!
# Printing without further parentheses

Printing puts an operand in parentheses where it binds too loosely, where it ends in the body of a lambda that would go
on, and where it would make a name in parentheses before it an operand.  A tree in which none of this happens is bare
(`Program.Bare`), and is printed as by a printer that knows no parentheses but those of the tree: of its groups, of its
argument lists and of the headers of its statements (`Program.plain`).
-/

namespace ElleFrontEnd

open Fragment

/-- Whether an operand needs no parentheses where at least `level` is required. -/
def Expr.Fits (level : Nat) (openRight : Bool) (e : Expr) : Prop := e.needsGroup level openRight = false

/-- Whether an operand may stand behind a type in parentheses as it is. -/
def Expr.FollowsCast (type : TypeExpr) (operand : Expr) : Prop := (type.isNamed && operand.opensAmbiguously) = false

mutual

/-- Whether no part of the expression is put in parentheses when it is printed. -/
def Expr.Bare (openRight : Bool) : Expr → Prop
  | .binary _ left binary right =>
    (left.Fits (operandLevels binary.operator).1 false ∧ left.Bare false) ∧
      right.Fits (operandLevels binary.operator).2 openRight ∧ right.Bare openRight
  | .range _ start stop inclusive =>
    (start.Fits (operandLevels (rangeOperator inclusive)).1 false ∧ start.Bare false) ∧
      stop.Fits (operandLevels (rangeOperator inclusive)).2 openRight ∧ stop.Bare openRight
  | .unary _ _ operand => operand.Fits leadingLevel openRight ∧ operand.Bare openRight
  | .cast _ type operand =>
    operand.FollowsCast type ∧ operand.Fits leadingLevel openRight ∧ operand.Bare openRight
  | .call _ callee _ args => (callee.Fits trailingLevel false ∧ callee.Bare false) ∧ exprListBare args
  | .member _ object _ => object.Fits trailingLevel false ∧ object.Bare false
  | .subscript _ object index => (object.Fits trailingLevel false ∧ object.Bare false) ∧ index.Bare true
  | .conditional _ condition consequence alternative =>
    (condition.Fits (conditionalLevel + 1) false ∧ condition.Bare false) ∧ optExprBare consequence ∧
      alternative.Fits conditionalLevel openRight ∧ alternative.Bare openRight
  | .paren _ inner => inner.Bare true
  | .ident _ _ | .qualified _ _ | .rawName _ _ | .number _ _ | .str _ _ | .bool _ _ | .char _ _ => True
  | .array _ _ _ elements => exprListBare elements
  | .tuple _ first second => first.Bare true ∧ second.Bare true
  | .triple _ first second third => first.Bare true ∧ second.Bare true ∧ third.Bare true
  | .structLit _ _ _ fields => fieldInitListBare fields
  | .lambda _ _ body => body.Fits conditionalLevel openRight ∧ body.Bare openRight
  | .blockLambda _ _ body => body.Bare
  | .directive _ directive => directive.Bare
  | .sigil _ _ args => optExprListBare args

/-- Whether all expressions of a list are bare. -/
def exprListBare : List Expr → Prop
  | [] => True
  | e :: es => e.Bare true ∧ exprListBare es

/-- Whether an expression that may be left out is bare. -/
def optExprBare : Option Expr → Prop
  | none => True
  | some e => e.Bare true

/-- Whether arguments that may be left out are bare. -/
def optExprListBare : Option (List Expr) → Prop
  | none => True
  | some es => exprListBare es

/-- Whether the value of a field is bare. -/
def FieldInit.Bare : FieldInit → Prop
  | .mk _ _ value => value.Bare true

/-- Whether the values of all fields are bare. -/
def fieldInitListBare : List FieldInit → Prop
  | [] => True
  | f :: fs => f.Bare ∧ fieldInitListBare fs

/-- Whether what a directive holds is bare. -/
def Directive.Bare : Directive → Prop
  | .len value | .free value | .setAllocator value => value.Bare true
  | .size _ | .ident _ | .env | .resetAllocator => True
  | .alloc _ count => optExprBare count
  | .realloc pointer _ count => pointer.Bare true ∧ optExprBare count

/-- Whether the statements of a block are bare. -/
def Block.Bare : Block → Prop
  | .mk _ statements => stmtListBare statements

/-- Whether all statements of a list are bare. -/
def stmtListBare : List Stmt → Prop
  | [] => True
  | s :: ss => s.Bare ∧ stmtListBare ss

/-- Whether no part of the statement is put in parentheses when it is printed, but for its header. -/
def Stmt.Bare : Stmt → Prop
  | .expr _ value | .defer _ value => value.Bare true
  | .varDecl _ _ _ _ init => optExprBare init
  | .assign _ target _ value => target.Bare true ∧ value.Bare true
  | .ifElse _ condition body otherwise => condition.Bare true ∧ body.Bare ∧ otherwise.Bare
  | .whileLoop _ condition body => condition.Bare true ∧ body.Bare
  | .forLoop _ init condition step body => init.Bare ∧ condition.Bare true ∧ step.Bare ∧ body.Bare
  | .forEach _ _ iterable body => iterable.Bare true ∧ body.Bare
  | .returnValue _ value => optExprBare value
  | .breakLoop _ | .continueLoop _ => True
  | .block _ statements => stmtListBare statements
  | .buffer _ _ _ size => size.Bare true

/-- Whether what follows the block of an `if` is bare. -/
def Else.Bare : Else → Prop
  | .absent => True
  | .block body => body.Bare
  | .elseIf _ condition body otherwise => condition.Bare true ∧ body.Bare ∧ otherwise.Bare

/-- Whether what a `for` loop starts with is bare. -/
def ForInit.Bare : ForInit → Prop
  | .varDecl _ _ _ _ init => optExprBare init
  | .expr value => value.Bare true

/-- Whether what a `for` loop does after each round is bare. -/
def ForStep.Bare : ForStep → Prop
  | .assign _ target _ value => target.Bare true ∧ value.Bare true
  | .expr value => value.Bare true

end

/-- Whether the arguments of an attribute are bare. -/
def Attribute.Bare (a : Attribute) : Prop := optExprListBare a.args

/-- Whether the parts of a function are bare. -/
def FunctionDecl.Bare (f : FunctionDecl) : Prop := (∀ a ∈ f.attributes, a.Bare) ∧ ∀ b ∈ f.body, b.Bare

/-- Whether no expression of a declaration is put in parentheses when it is printed. -/
def Declaration.Bare : Declaration → Prop
  | .importModule _ _ | .globalOptions _ _ | .moduleName _ _ => True
  | .function _ decl | .externalFunction _ decl => decl.Bare
  | .constant _ decl => decl.value.Bare true
  | .struct _ decl => ∀ a ∈ decl.attributes, a.Bare

/-- Whether printing a program takes no parentheses but those of its tree. -/
def Program.Bare (p : Program) : Prop := ∀ d ∈ p.declarations, d.Bare

/-! ### The printer without them -/

mutual

/-- An expression as fragments, with the parentheses that are part of it. -/
def Expr.plain (depth : Nat) : Expr → List Fragment
  | .binary _ left binary right =>
    left.plain depth ++ [space, op binary.operator, space] ++ right.plain depth
  | .range _ start stop inclusive => start.plain depth ++ [op (rangeOperator inclusive)] ++ stop.plain depth
  | .unary _ unary operand => op unary.operator :: unarySpace unary operand ++ operand.plain depth
  | .cast _ type operand => parens type.layout ++ [space] ++ operand.plain depth
  | .call _ callee generics args =>
    callee.plain depth ++ calleeSpace callee ++ optTypeArgsLayout generics ++
      parens (commas (exprListPlain depth args))
  | .member _ object n => object.plain depth ++ [mark .dot, ofName n]
  | .subscript _ object index => object.plain depth ++ [mark .lBracket] ++ index.plain depth ++ [mark .rBracket]
  | .conditional _ condition none alternative =>
    condition.plain depth ++ [space, mark .question, space, mark .colon, space] ++ alternative.plain depth
  | .conditional _ condition (some chosen) alternative =>
    condition.plain depth ++ [space, mark .question, space] ++ chosen.plain depth ++ [space, mark .colon, space] ++
      alternative.plain depth
  | .paren _ inner => parens (inner.plain depth)
  | .ident _ n => [ofName n]
  | .qualified _ path => separated [mark .colonColon] (path.map fun n => [ofName n])
  | .rawName _ raw => [.token (.rawName raw)]
  | .number _ literal => [.token (.number literal)]
  | .str _ parts => [.token (.str parts)]
  | .bool _ value => [word (.boolean value)]
  | .char _ part => [.token (.char part)]
  | .array _ element isStatic elements =>
    (if isStatic then [mark .hash] else []) ++ [mark .lBracket] ++
      (match element with
       | none => []
       | some t => t.layout ++ [mark .semicolon] ++ (if elements.isEmpty then [] else [space])) ++
      commas (exprListPlain depth elements) ++ [mark .rBracket]
  | .tuple _ first second => mark .dollar :: parens (commas [first.plain depth, second.plain depth])
  | .triple _ first second third =>
    mark .dollar :: mark .dollar :: parens (commas [first.plain depth, second.plain depth, third.plain depth])
  | .structLit _ n generics fields =>
    ofName n :: optTypeArgsLayout generics ++
      (if fields.isEmpty then [space, mark .lBrace, mark .rBrace]
       else
        [space, mark .lBrace, space] ++ commas (fieldInitListPlain depth fields) ++ [space, mark .rBrace])
  | .lambda _ params body => word .fn :: params.layout ++ [space] ++ body.plain depth
  | .blockLambda _ params body => word .fn :: params.layout ++ [space] ++ body.plain depth
  | .directive _ directive => directive.plain depth
  | .sigil _ n none => [mark .dollar, ofName n]
  | .sigil _ n (some args) => [mark .dollar, ofName n] ++ parens (commas (exprListPlain depth args))

/-- Each of several expressions as fragments. -/
def exprListPlain (depth : Nat) : List Expr → List (List Fragment)
  | [] => []
  | e :: es => e.plain depth :: exprListPlain depth es

/-- Each field of a struct literal as fragments. -/
def fieldInitListPlain (depth : Nat) : List FieldInit → List (List Fragment)
  | [] => []
  | .mk _ n value :: fields =>
    ([ofName n, space, op .eq, space] ++ value.plain depth) :: fieldInitListPlain depth fields

/-- A directive as fragments. -/
def Directive.plain (depth : Nat) : Directive → List Fragment
  | .len value => [mark .hash, ofName DirectiveName.len.spelling] ++ parens (value.plain depth)
  | .size type => [mark .hash, ofName DirectiveName.size.spelling] ++ parens type.layout
  | .ident n => [mark .hash, ofName DirectiveName.ident.spelling] ++ parens [ofName n]
  | .env => [mark .hash, ofName DirectiveName.env.spelling]
  | .alloc type none => [mark .hash, ofName DirectiveName.alloc.spelling] ++ parens type.layout
  | .alloc type (some count) =>
    [mark .hash, ofName DirectiveName.alloc.spelling] ++ parens (commas [type.layout, count.plain depth])
  | .realloc pointer type none =>
    [mark .hash, ofName DirectiveName.realloc.spelling] ++ parens (commas [pointer.plain depth, type.layout])
  | .realloc pointer type (some count) =>
    [mark .hash, ofName DirectiveName.realloc.spelling] ++
      parens (commas [pointer.plain depth, type.layout, count.plain depth])
  | .free value => [mark .hash, ofName DirectiveName.free.spelling] ++ parens (value.plain depth)
  | .setAllocator value => [mark .hash, ofName DirectiveName.setAllocator.spelling] ++ parens (value.plain depth)
  | .resetAllocator => [mark .hash, ofName DirectiveName.resetAllocator.spelling] ++ parens []

/-- A block as fragments. -/
def Block.plain (depth : Nat) : Block → List Fragment
  | .mk _ statements => braces depth (stmtListPlain (depth + 1) statements)

/-- Each of several statements as fragments. -/
def stmtListPlain (depth : Nat) : List Stmt → List (List Fragment)
  | [] => []
  | s :: ss => s.plain depth :: stmtListPlain depth ss

/-- A statement as fragments.  Conditions and the header of a `for` loop get parentheses as ever. -/
def Stmt.plain (depth : Nat) : Stmt → List Fragment
  | .expr _ value => value.plain depth ++ [mark .semicolon]
  | .varDecl _ binding type n none => bindingLayout binding type n none ++ [mark .semicolon]
  | .varDecl _ binding type n (some init) =>
    bindingLayout binding type n (some (init.plain depth)) ++ [mark .semicolon]
  | .assign _ target form value => assignLayout (target.plain depth) form (value.plain depth) ++ [mark .semicolon]
  | .ifElse _ condition body otherwise =>
    ifLayout (headerLayout condition (condition.plain depth)) (body.plain depth) ++ otherwise.plain depth
  | .whileLoop _ condition body =>
    [word .whileKw, space] ++ headerLayout condition (condition.plain depth) ++ [space] ++ body.plain depth
  | .forLoop _ init condition step body =>
    [word .forKw, space] ++
      parens (init.plain depth ++ [mark .semicolon, space] ++ condition.plain depth ++
        [mark .semicolon, space] ++ step.plain depth) ++
      [space] ++ body.plain depth
  | .forEach _ n iterable body =>
    [word .forKw, space, ofName n, space, word .inKw, space] ++ iterable.plain depth ++ [space] ++ body.plain depth
  | .defer _ value => [word .deferKw, space] ++ value.plain depth ++ [mark .semicolon]
  | .returnValue _ none => [word .returnKw, mark .semicolon]
  | .returnValue _ (some value) => [word .returnKw, space] ++ value.plain depth ++ [mark .semicolon]
  | .breakLoop _ => [word .breakKw, mark .semicolon]
  | .continueLoop _ => [word .continueKw, mark .semicolon]
  | .block _ statements => braces depth (stmtListPlain (depth + 1) statements)
  | .buffer _ type n size =>
    type.layout ++ [space, ofName n, mark .lBracket] ++ size.plain depth ++ [mark .rBracket, mark .semicolon]

/-- What follows the block of an `if`, as fragments. -/
def Else.plain (depth : Nat) : Else → List Fragment
  | .absent => []
  | .block body => elseWord ++ body.plain depth
  | .elseIf _ condition body otherwise =>
    elseWord ++ ifLayout (headerLayout condition (condition.plain depth)) (body.plain depth) ++
      otherwise.plain depth

/-- What a `for` loop starts with, as fragments. -/
def ForInit.plain (depth : Nat) : ForInit → List Fragment
  | .varDecl _ binding type n none => bindingLayout binding type n none
  | .varDecl _ binding type n (some init) => bindingLayout binding type n (some (init.plain depth))
  | .expr value => value.plain depth

/-- What a `for` loop does after each round, as fragments. -/
def ForStep.plain (depth : Nat) : ForStep → List Fragment
  | .assign _ target form value => assignLayout (target.plain depth) form (value.plain depth)
  | .expr value => value.plain depth

end

/-- An attribute with the space before it. -/
def Attribute.plain (depth : Nat) (a : Attribute) : List Fragment :=
  [space, mark .atSign, ofName a.name] ++
    (match a.args with
     | none => []
     | some args => parens (commas (exprListPlain depth args)))

/-- A function. -/
def FunctionDecl.plain (depth : Nat) (f : FunctionDecl) : List Fragment :=
  modifiersLayout f.modifiers ++ [word .fn, space] ++ f.name.layout ++ typeParamsLayout f.generics ++
    f.params.layout ++ f.attributes.flatMap (Attribute.plain depth) ++
    (match f.returnType with
     | none => []
     | some t => [space, mark .arrow, space] ++ t.layout) ++
    (match f.body with
     | none => [mark .semicolon]
     | some body => space :: body.plain depth)

/-- A constant. -/
def ConstDecl.plain (depth : Nat) (c : ConstDecl) : List Fragment :=
  modifiersLayout c.modifiers ++ [word .constKw, space] ++
    (match c.type with
     | none => []
     | some t => t.layout ++ [space]) ++
    [ofName c.name, space, op .eq, space] ++ c.value.plain depth ++ [mark .semicolon]

/-- A struct. -/
def StructDecl.plain (depth : Nat) (s : StructDecl) : List Fragment :=
  modifiersLayout s.modifiers ++ [word .structKw, space, ofName s.name] ++ typeParamsLayout s.generics ++
    s.attributes.flatMap (Attribute.plain depth) ++ [space] ++ braces depth (s.fields.map Field.layout) ++
    [mark .semicolon]

/-- A declaration, without a line break behind it. -/
def Declaration.plain : Declaration → List Fragment
  | .importModule span path => (Declaration.importModule span path).layout
  | .globalOptions span options => (Declaration.globalOptions span options).layout
  | .moduleName span n => (Declaration.moduleName span n).layout
  | .function _ decl | .externalFunction _ decl => decl.plain 0
  | .constant _ decl => decl.plain 0
  | .struct _ decl => decl.plain 0

/-- Declarations that follow another one. -/
def laterDeclarationsPlain (blankLines : Nat) (previous : Declaration) : List Declaration → List Fragment
  | [] => []
  | d :: ds =>
    blankLinesBetween blankLines previous d ++ d.plain ++ [line 0] ++ laterDeclarationsPlain blankLines d ds

/-- The declarations of a program. -/
def declarationsPlain (blankLines : Nat) : List Declaration → List Fragment
  | [] => []
  | d :: ds => d.plain ++ [line 0] ++ laterDeclarationsPlain blankLines d ds

/-- A program as fragments, with the parentheses that are part of it. -/
def Program.plain (blankLines : Nat) (p : Program) : List Fragment := declarationsPlain blankLines p.declarations

/-! ### What is bare is printed plainly -/

/-- An operand that fits is printed as it is. -/
theorem grouped_of_fits {level : Nat} {openRight : Bool} {e : Expr} (h : e.Fits level openRight)
    (inner : Bool → List Fragment) : grouped level openRight e inner = inner openRight := by
  have hfits : e.needsGroup level openRight = false := h
  simp [grouped, hfits]

mutual

theorem Expr.layout_eq_plain (depth : Nat) (openRight : Bool) : (e : Expr) → e.Bare openRight →
    e.layout depth openRight = e.plain depth
  | .binary _ left _ right, ⟨hleft, hright⟩ => by
    simp only [Expr.layout, Expr.plain, grouped_of_fits hleft.1, grouped_of_fits hright.1,
      left.layout_eq_plain depth false hleft.2, right.layout_eq_plain depth openRight hright.2]
  | .range _ start stop _, ⟨hstart, hstop⟩ => by
    simp only [Expr.layout, Expr.plain, grouped_of_fits hstart.1, grouped_of_fits hstop.1,
      start.layout_eq_plain depth false hstart.2, stop.layout_eq_plain depth openRight hstop.2]
  | .unary _ _ operand, h => by
    simp only [Expr.layout, Expr.plain, grouped_of_fits h.1, operand.layout_eq_plain depth openRight h.2]
  | .cast _ type operand, ⟨hcast, hfits, h⟩ => by
    have hplain : (type.isNamed && operand.opensAmbiguously) = false := hcast
    simp only [Expr.layout, Expr.plain, hplain, grouped_of_fits hfits, operand.layout_eq_plain depth openRight h]
    rfl
  | .call _ callee _ args, ⟨hcallee, hargs⟩ => by
    simp only [Expr.layout, Expr.plain, grouped_of_fits hcallee.1, callee.layout_eq_plain depth false hcallee.2,
      exprListLayout_eq_plain depth args hargs]
  | .member _ object _, h => by
    simp only [Expr.layout, Expr.plain, grouped_of_fits h.1, object.layout_eq_plain depth false h.2]
  | .subscript _ object index, ⟨hobject, hindex⟩ => by
    simp only [Expr.layout, Expr.plain, grouped_of_fits hobject.1, object.layout_eq_plain depth false hobject.2,
      index.layout_eq_plain depth true hindex]
  | .conditional _ condition none alternative, ⟨hcondition, _, halternative⟩ => by
    simp only [Expr.layout, Expr.plain, grouped_of_fits hcondition.1, grouped_of_fits halternative.1,
      condition.layout_eq_plain depth false hcondition.2, alternative.layout_eq_plain depth openRight halternative.2]
  | .conditional _ condition (some chosen) alternative, ⟨hcondition, hchosen, halternative⟩ => by
    simp only [Expr.layout, Expr.plain, grouped_of_fits hcondition.1, grouped_of_fits halternative.1,
      condition.layout_eq_plain depth false hcondition.2, alternative.layout_eq_plain depth openRight halternative.2,
      chosen.layout_eq_plain depth true hchosen]
  | .paren _ inner, h => by simp only [Expr.layout, Expr.plain, inner.layout_eq_plain depth true h]
  | .ident _ _, _ | .qualified _ _, _ | .rawName _ _, _ | .number _ _, _ | .str _ _, _ | .bool _ _, _ | .char _ _, _
  | .sigil _ _ none, _ => by
    rw [Expr.layout, Expr.plain]
  | .array _ none _ elements, h | .array _ (some _) _ elements, h => by
    simp only [Expr.layout, Expr.plain, exprListLayout_eq_plain depth elements h]
  | .tuple _ first second, ⟨hfirst, hsecond⟩ => by
    simp only [Expr.layout, Expr.plain, first.layout_eq_plain depth true hfirst,
      second.layout_eq_plain depth true hsecond]
  | .triple _ first second third, ⟨hfirst, hsecond, hthird⟩ => by
    simp only [Expr.layout, Expr.plain, first.layout_eq_plain depth true hfirst,
      second.layout_eq_plain depth true hsecond, third.layout_eq_plain depth true hthird]
  | .structLit _ _ _ fields, h => by
    simp only [Expr.layout, Expr.plain, fieldInitListLayout_eq_plain depth fields h]
  | .lambda _ _ body, h => by
    simp only [Expr.layout, Expr.plain, grouped_of_fits h.1, body.layout_eq_plain depth openRight h.2]
  | .blockLambda _ _ body, h => by simp only [Expr.layout, Expr.plain, body.layout_eq_plain depth h]
  | .directive _ directive, h => by simp only [Expr.layout, Expr.plain, directive.layout_eq_plain depth h]
  | .sigil _ _ (some args), h => by simp only [Expr.layout, Expr.plain, exprListLayout_eq_plain depth args h]

theorem exprListLayout_eq_plain (depth : Nat) : (es : List Expr) → exprListBare es →
    exprListLayout depth es = exprListPlain depth es
  | [], _ => by rw [exprListLayout, exprListPlain]
  | e :: es, ⟨he, hes⟩ => by
    rw [exprListLayout, exprListPlain, e.layout_eq_plain depth true he, exprListLayout_eq_plain depth es hes]

theorem fieldInitListLayout_eq_plain (depth : Nat) : (fields : List FieldInit) → fieldInitListBare fields →
    fieldInitListLayout depth fields = fieldInitListPlain depth fields
  | [], _ => by rw [fieldInitListLayout, fieldInitListPlain]
  | .mk _ _ value :: fields, ⟨hvalue, hfields⟩ => by
    rw [fieldInitListLayout, fieldInitListPlain, value.layout_eq_plain depth true hvalue,
      fieldInitListLayout_eq_plain depth fields hfields]

theorem Directive.layout_eq_plain (depth : Nat) : (d : Directive) → d.Bare → d.layout depth = d.plain depth
  | .len value, h | .free value, h | .setAllocator value, h => by
    rw [Directive.layout, Directive.plain, value.layout_eq_plain depth true h]
  | .size _, _ | .ident _, _ | .env, _ | .alloc _ none, _ | .resetAllocator, _ => by
    rw [Directive.layout, Directive.plain]
  | .alloc _ (some count), h => by rw [Directive.layout, Directive.plain, count.layout_eq_plain depth true h]
  | .realloc pointer _ none, h => by rw [Directive.layout, Directive.plain, pointer.layout_eq_plain depth true h.1]
  | .realloc pointer _ (some count), h => by
    rw [Directive.layout, Directive.plain, pointer.layout_eq_plain depth true h.1, count.layout_eq_plain depth true h.2]

theorem Block.layout_eq_plain (depth : Nat) : (b : Block) → b.Bare → b.layout depth = b.plain depth
  | .mk _ statements, h => by rw [Block.layout, Block.plain, stmtListLayout_eq_plain (depth + 1) statements h]

theorem stmtListLayout_eq_plain (depth : Nat) : (ss : List Stmt) → stmtListBare ss →
    stmtListLayout depth ss = stmtListPlain depth ss
  | [], _ => by rw [stmtListLayout, stmtListPlain]
  | s :: ss, ⟨hs, hss⟩ => by
    rw [stmtListLayout, stmtListPlain, s.layout_eq_plain depth hs, stmtListLayout_eq_plain depth ss hss]

theorem Stmt.layout_eq_plain (depth : Nat) : (s : Stmt) → s.Bare → s.layout depth = s.plain depth
  | .expr _ value, h | .defer _ value, h | .returnValue _ (some value), h => by
    rw [Stmt.layout, Stmt.plain, value.layout_eq_plain depth true h]
  | .varDecl _ _ _ _ none, _ | .returnValue _ none, _ | .breakLoop _, _ | .continueLoop _, _ => by
    rw [Stmt.layout, Stmt.plain]
  | .varDecl _ _ _ _ (some init), h => by rw [Stmt.layout, Stmt.plain, init.layout_eq_plain depth true h]
  | .assign _ target _ value, ⟨htarget, hvalue⟩ => by
    rw [Stmt.layout, Stmt.plain, target.layout_eq_plain depth true htarget, value.layout_eq_plain depth true hvalue]
  | .ifElse _ condition body otherwise, ⟨hcondition, hbody, hotherwise⟩ => by
    rw [Stmt.layout, Stmt.plain, condition.layout_eq_plain depth true hcondition, body.layout_eq_plain depth hbody,
      otherwise.layout_eq_plain depth hotherwise]
  | .whileLoop _ condition body, ⟨hcondition, hbody⟩ => by
    rw [Stmt.layout, Stmt.plain, condition.layout_eq_plain depth true hcondition, body.layout_eq_plain depth hbody]
  | .forLoop _ init condition step body, ⟨hinit, hcondition, hstep, hbody⟩ => by
    rw [Stmt.layout, Stmt.plain, init.layout_eq_plain depth hinit, condition.layout_eq_plain depth true hcondition,
      step.layout_eq_plain depth hstep, body.layout_eq_plain depth hbody]
  | .forEach _ _ iterable body, ⟨hiterable, hbody⟩ => by
    rw [Stmt.layout, Stmt.plain, iterable.layout_eq_plain depth true hiterable, body.layout_eq_plain depth hbody]
  | .block _ statements, h => by rw [Stmt.layout, Stmt.plain, stmtListLayout_eq_plain (depth + 1) statements h]
  | .buffer _ _ _ size, h => by rw [Stmt.layout, Stmt.plain, size.layout_eq_plain depth true h]

theorem Else.layout_eq_plain (depth : Nat) : (o : Else) → o.Bare → o.layout depth = o.plain depth
  | .absent, _ => by rw [Else.layout, Else.plain]
  | .block body, h => by rw [Else.layout, Else.plain, body.layout_eq_plain depth h]
  | .elseIf _ condition body otherwise, ⟨hcondition, hbody, hotherwise⟩ => by
    rw [Else.layout, Else.plain, condition.layout_eq_plain depth true hcondition, body.layout_eq_plain depth hbody,
      otherwise.layout_eq_plain depth hotherwise]

theorem ForInit.layout_eq_plain (depth : Nat) : (i : ForInit) → i.Bare → i.layout depth = i.plain depth
  | .varDecl _ _ _ _ none, _ => by rw [ForInit.layout, ForInit.plain]
  | .varDecl _ _ _ _ (some init), h => by rw [ForInit.layout, ForInit.plain, init.layout_eq_plain depth true h]
  | .expr value, h => by rw [ForInit.layout, ForInit.plain, value.layout_eq_plain depth true h]

theorem ForStep.layout_eq_plain (depth : Nat) : (step : ForStep) → step.Bare → step.layout depth = step.plain depth
  | .assign _ target _ value, ⟨htarget, hvalue⟩ => by
    rw [ForStep.layout, ForStep.plain, target.layout_eq_plain depth true htarget,
      value.layout_eq_plain depth true hvalue]
  | .expr value, h => by rw [ForStep.layout, ForStep.plain, value.layout_eq_plain depth true h]

end

theorem Attribute.layout_eq_plain (depth : Nat) {a : Attribute} (h : a.Bare) : a.layout depth = a.plain depth := by
  obtain ⟨span, n, args⟩ := a
  cases args with
  | none => rfl
  | some args => simp only [layout, plain, exprListLayout_eq_plain depth args h]

theorem attributesLayout_eq_plain (depth : Nat) {as : List Attribute} (h : ∀ a ∈ as, a.Bare) :
    as.flatMap (Attribute.layout depth) = as.flatMap (Attribute.plain depth) := by
  induction as with
  | nil => rfl
  | cons a as ih =>
    obtain ⟨ha, has⟩ := List.forall_mem_cons.1 h
    rw [List.flatMap_cons, List.flatMap_cons, a.layout_eq_plain depth ha, ih has]

theorem Declaration.layout_eq_plain {d : Declaration} (h : d.Bare) : d.layout = d.plain := by
  have hfunction {f : FunctionDecl} (h : f.Bare) : f.layout 0 = f.plain 0 := by
    obtain ⟨modifiers, n, generics, params, attributes, returnType, body⟩ := f
    have hattributes := attributesLayout_eq_plain 0 h.1
    cases body with
    | none => cases returnType <;> simp only [FunctionDecl.layout, FunctionDecl.plain, hattributes]
    | some body =>
      have hbody := body.layout_eq_plain 0 (h.2 body rfl)
      cases returnType <;> simp only [FunctionDecl.layout, FunctionDecl.plain, hattributes, hbody]
  cases d with
  | importModule | globalOptions | moduleName => rfl
  | function _ decl | externalFunction _ decl => exact hfunction h
  | constant _ decl =>
    obtain ⟨modifiers, type, n, value⟩ := decl
    have hvalue := value.layout_eq_plain 0 true h
    change ConstDecl.layout 0 _ = ConstDecl.plain 0 _
    cases type <;> simp only [ConstDecl.layout, ConstDecl.plain, hvalue]
  | struct _ decl =>
    change decl.layout 0 = decl.plain 0
    rw [StructDecl.layout, StructDecl.plain, attributesLayout_eq_plain 0 h]

/-- A bare program is printed with the parentheses that are part of it. -/
theorem Program.layout_eq_plain {p : Program} (h : p.Bare) (blankLines : Nat) :
    p.layout blankLines = p.plain blankLines := by
  have hlater (previous : Declaration) (ds : List Declaration) (h : ∀ d ∈ ds, d.Bare) :
      laterDeclarations blankLines previous ds = laterDeclarationsPlain blankLines previous ds := by
    induction ds generalizing previous with
    | nil => rfl
    | cons d ds ih =>
      obtain ⟨hd, hds⟩ := List.forall_mem_cons.1 h
      rw [laterDeclarations, laterDeclarationsPlain, d.layout_eq_plain hd, ih d hds]
  obtain ⟨declarations⟩ := p
  cases declarations with
  | nil => rfl
  | cons d ds =>
    obtain ⟨hd, hds⟩ := List.forall_mem_cons.1 h
    change d.layout ++ [line 0] ++ laterDeclarations blankLines d ds = _
    rw [d.layout_eq_plain hd, hlater d ds hds]
    rfl

end ElleFrontEnd
