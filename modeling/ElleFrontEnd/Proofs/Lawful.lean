import ElleFrontEnd.Proofs.TypeRoundTrip

/-!
# What holds of every tree that is read

The types of trees leave open what reading never yields: empty runs of `*` or `[]` and empty lists of type arguments, a
path of one segment, a declaration of a variable whose form does not fit its parts, an external function with a body, or
a call of something that cannot be called so.  A tree without any of these is lawful, and all that is read is lawful,
also behind failures (`parsePartial_lawful`).

Two callees never occur because of how the text before an argument list is read.  `#env` takes no operands, so a
parenthesis behind it is refused.  A name in parentheses with another parenthesis behind it is a cast, since a name is a
type and a parenthesis opens an operand.
-/

namespace ElleFrontEnd

namespace Expr

/-- Whether the expression is `#env`. -/
def isEnv : Expr → Bool
  | .directive _ .env => true
  | _ => false

/-- Whether the expression is a bare name. -/
def isIdent : Expr → Bool
  | .ident _ _ => true
  | _ => false

/-- Whether the expression is a bare name in parentheses. -/
def isParenIdent : Expr → Bool
  | .paren _ inner => inner.isIdent
  | _ => false

/-- Whether the expression may be called, with type arguments or without. -/
structure Callable (callee : Expr) (generics : Option (List TypeExpr)) : Prop where
  takesGenerics : generics.isSome = true → callee.takesGenerics = true
  notEnv : callee.isEnv = false
  notParenIdent : callee.isParenIdent = false

end Expr

/-- Whether type arguments are well formed, and at least one if they are given. -/
def genericsLawful (generics : Option (List TypeExpr)) : Prop := ∀ args ∈ generics, args ≠ [] ∧ typeListWellFormed args

/-- Whether a type that may be absent is well formed. -/
def optTypeLawful (type : Option TypeExpr) : Prop := ∀ t ∈ type, t.WellFormed

/-- Whether the form of a declaration of a variable fits its parts. -/
def Binding.Fits : Binding → (type : Option TypeExpr) → (init : Option Expr) → Prop
  | .typed, type, _ => type.isSome = true
  | .letBound, type, _ => type = none
  | .walrus, type, init => type = none ∧ init.isSome = true

/-- Whether the type of a parameter is well formed. -/
def Param.Lawful : Param → Prop
  | .named _ type _ | .unnamed _ type | .noFormat _ type _ => type.WellFormed
  | .variadic _ _ => True

/-- Whether the types in a parameter list are well formed. -/
def ParamList.Lawful (list : ParamList) : Prop := ∀ p ∈ list.params, p.Lawful

mutual

/-- Whether an expression holds no part that reading never yields. -/
def Expr.Lawful : Expr → Prop
  | .binary _ left _ right => left.Lawful ∧ right.Lawful
  | .unary _ _ operand => operand.Lawful
  | .call _ callee generics args =>
    callee.Callable generics ∧ genericsLawful generics ∧ callee.Lawful ∧ exprListLawful args
  | .member _ object _ => object.Lawful
  | .subscript _ object index => object.Lawful ∧ index.Lawful
  | .conditional _ condition consequence alternative =>
    condition.Lawful ∧ optExprLawful consequence ∧ alternative.Lawful
  | .cast _ type operand => type.WellFormed ∧ operand.Lawful
  | .paren _ inner => inner.Lawful
  | .ident _ _ | .rawName _ _ | .number _ _ | .str _ _ | .bool _ _ | .char _ _ => True
  | .qualified _ path => 2 ≤ path.length
  | .array _ element _ elements => optTypeLawful element ∧ exprListLawful elements
  | .tuple _ first second => first.Lawful ∧ second.Lawful
  | .triple _ first second third => first.Lawful ∧ second.Lawful ∧ third.Lawful
  | .structLit _ _ generics fields => genericsLawful generics ∧ fieldInitListLawful fields
  | .lambda _ params body => params.Lawful ∧ body.Lawful
  | .blockLambda _ params body => params.Lawful ∧ body.Lawful
  | .range _ start stop _ => start.Lawful ∧ stop.Lawful
  | .directive _ directive => directive.Lawful
  | .sigil _ _ args => optExprListLawful args

/-- Whether all expressions of a list are lawful. -/
def exprListLawful : List Expr → Prop
  | [] => True
  | e :: es => e.Lawful ∧ exprListLawful es

/-- Whether an expression that may be left out is lawful. -/
def optExprLawful : Option Expr → Prop
  | none => True
  | some e => e.Lawful

/-- Whether arguments that may be left out are lawful. -/
def optExprListLawful : Option (List Expr) → Prop
  | none => True
  | some es => exprListLawful es

/-- Whether the value of a field is lawful. -/
def FieldInit.Lawful : FieldInit → Prop
  | .mk _ _ value => value.Lawful

/-- Whether the values of all fields are lawful. -/
def fieldInitListLawful : List FieldInit → Prop
  | [] => True
  | f :: fs => f.Lawful ∧ fieldInitListLawful fs

/-- Whether what a directive holds is lawful. -/
def Directive.Lawful : Directive → Prop
  | .len value | .free value | .setAllocator value => value.Lawful
  | .size type => type.WellFormed
  | .ident _ | .env | .resetAllocator => True
  | .alloc type count => type.WellFormed ∧ optExprLawful count
  | .realloc pointer type count => pointer.Lawful ∧ type.WellFormed ∧ optExprLawful count

/-- Whether the statements of a block are lawful. -/
def Block.Lawful : Block → Prop
  | .mk _ statements => stmtListLawful statements

/-- Whether all statements of a list are lawful. -/
def stmtListLawful : List Stmt → Prop
  | [] => True
  | s :: ss => s.Lawful ∧ stmtListLawful ss

/-- Whether a statement holds no part that reading never yields. -/
def Stmt.Lawful : Stmt → Prop
  | .expr _ value | .defer _ value => value.Lawful
  | .varDecl _ binding type _ init => binding.Fits type init ∧ optTypeLawful type ∧ optExprLawful init
  | .assign _ target _ value => target.Lawful ∧ value.Lawful
  | .ifElse _ condition body otherwise => condition.Lawful ∧ body.Lawful ∧ otherwise.Lawful
  | .whileLoop _ condition body => condition.Lawful ∧ body.Lawful
  | .forLoop _ init condition step body => init.Lawful ∧ condition.Lawful ∧ step.Lawful ∧ body.Lawful
  | .forEach _ _ iterable body => iterable.Lawful ∧ body.Lawful
  | .returnValue _ value => optExprLawful value
  | .breakLoop _ | .continueLoop _ => True
  | .block _ statements => stmtListLawful statements
  | .buffer _ type _ size => type.WellFormed ∧ size.Lawful

/-- Whether what follows the block of an `if` is lawful. -/
def Else.Lawful : Else → Prop
  | .absent => True
  | .block body => body.Lawful
  | .elseIf _ condition body otherwise => condition.Lawful ∧ body.Lawful ∧ otherwise.Lawful

/-- Whether what a `for` loop starts with is lawful. -/
def ForInit.Lawful : ForInit → Prop
  | .varDecl _ binding type _ init => binding.Fits type init ∧ optTypeLawful type ∧ optExprLawful init
  | .expr value => value.Lawful

/-- Whether what a `for` loop does after each round is lawful. -/
def ForStep.Lawful : ForStep → Prop
  | .assign _ target _ value => target.Lawful ∧ value.Lawful
  | .expr value => value.Lawful

end

/-- A path of two segments or more is told by its first two. -/
theorem exists_segments {path : List String} (h : 2 ≤ path.length) : ∃ n m names, path = n :: m :: names := by
  rcases path with _ | ⟨n, _ | ⟨m, names⟩⟩
  · simp at h
  · simp at h
  · exact ⟨n, m, names, rfl⟩

/-- Whether a path under which a function is declared has at least two segments. -/
def DeclName.Lawful : DeclName → Prop
  | .plain _ _ | .rawName _ _ => True
  | .qualified _ path => 2 ≤ path.length

/-- Whether the arguments of an attribute are lawful. -/
def Attribute.Lawful (a : Attribute) : Prop := optExprListLawful a.args

/-- Whether the parts of a function are lawful. -/
structure FunctionDecl.Lawful (f : FunctionDecl) : Prop where
  name : f.name.Lawful
  params : f.params.Lawful
  attributes : ∀ a ∈ f.attributes, a.Lawful
  returnType : optTypeLawful f.returnType
  body : ∀ b ∈ f.body, b.Lawful

/-- Whether the parts of a constant are lawful. -/
def ConstDecl.Lawful (c : ConstDecl) : Prop := optTypeLawful c.type ∧ c.value.Lawful

/-- Whether the parts of a struct are lawful. -/
def StructDecl.Lawful (d : StructDecl) : Prop := (∀ a ∈ d.attributes, a.Lawful) ∧ ∀ f ∈ d.fields, f.type.WellFormed

/-- Whether a declaration holds no part that reading never yields.  A function is external if its modifiers say so, and
has no body then. -/
def Declaration.Lawful : Declaration → Prop
  | .importModule _ path => path.segments ≠ []
  | .globalOptions _ options => options ≠ []
  | .moduleName _ _ => True
  | .function _ decl => Modifier.holds decl.modifiers .external = false ∧ decl.Lawful
  | .externalFunction _ decl => Modifier.holds decl.modifiers .external = true ∧ decl.body = none ∧ decl.Lawful
  | .constant _ decl => decl.Lawful
  | .struct _ decl => decl.Lawful

/-- Whether all declarations of a program are lawful. -/
def Program.Lawful (p : Program) : Prop := ∀ d ∈ p.declarations, d.Lawful

/-! ### Lists of trees -/

theorem exprListLawful_iff {es : List Expr} : exprListLawful es ↔ ∀ e ∈ es, e.Lawful := by
  induction es with
  | nil => simp [exprListLawful]
  | cons e es ih => simp [exprListLawful, ih]

theorem fieldInitListLawful_iff {fs : List FieldInit} : fieldInitListLawful fs ↔ ∀ f ∈ fs, f.Lawful := by
  induction fs with
  | nil => simp [fieldInitListLawful]
  | cons f fs ih => simp [fieldInitListLawful, ih]

theorem stmtListLawful_iff {ss : List Stmt} : stmtListLawful ss ↔ ∀ s ∈ ss, s.Lawful := by
  induction ss with
  | nil => simp [stmtListLawful]
  | cons s ss ih => simp [stmtListLawful, ih]

theorem optTypeLawful_none : optTypeLawful none := by simp [optTypeLawful]

theorem optTypeLawful_some {t : TypeExpr} (h : t.WellFormed) : optTypeLawful (some t) := by simpa [optTypeLawful]

theorem genericsLawful_none : genericsLawful none := by simp [genericsLawful]

theorem lawful_unparenthesized {e : Expr} (h : e.Lawful) : e.unparenthesized.Lawful := by
  cases e <;> exact h

theorem lawful_joined {op : Operator} {left right e : Expr} (h : Parser.joined? op left right = some e)
    (hl : left.Lawful) (hr : right.Lawful) : e.Lawful := by
  rcases Parser.joined?_some h with ⟨span, binary, rfl⟩ | ⟨span, inclusive, rfl⟩ <;> exact ⟨hl, hr⟩

/-- What takes type arguments may be called. -/
theorem Expr.callable_of_takesGenerics {callee : Expr} (h : callee.takesGenerics = true)
    (generics : Option (List TypeExpr)) : callee.Callable generics := by
  refine ⟨fun _ => h, ?_, ?_⟩ <;> cases callee <;> first | rfl | simp [takesGenerics] at h

/-- A bare name that is read as an expression before a closing parenthesis is also read as a type. -/
def Inner.ReadsNames (g : Inner) : Prop :=
  ∀ s e s', (g.expression false).run s = (.ok e, s') → e.isIdent = true → s'.peek.kind = .punctuation .rParen →
    ∃ t, (g.type 0).run s = (.ok t, s')

/-- The parsers of nested constructs yield lawful trees, and what is a name is read as a type, too. -/
structure Inner.ReadsLawful (g : Inner) : Prop where
  type : ∀ angles, (g.type angles).Yields TypeExpr.WellFormed
  expression : ∀ header, (g.expression header).Yields Expr.Lawful
  chain : ∀ header level, (g.chain header level).Yields Expr.Lawful
  unary : ∀ header, (g.unary header).Yields Expr.Lawful
  block : g.block.Yields Block.Lawful
  elseIf : g.elseIf.Yields fun parts => parts.condition.Lawful ∧ parts.body.Lawful ∧ parts.otherwise.Lawful
  names : g.ReadsNames

namespace Parser

variable {g : Inner} {header : Bool} {s s' : ParseState}

/-! ### Names in parentheses -/

section
variable (hg : g.Settled)
include hg

/-- A primary expression is a bare name, `#env` without a parenthesis behind it, an expression in parentheses, or
something else. -/
theorem primary_form {e : Expr} (h : (primary g header).run s = (.ok e, s')) :
    (e.isIdent = true ∧ (∃ name, s.peek.kind = .ident name) ∧ s' = s.advance) ∨
      (e.isIdent = false ∧ s'.peek.kind ≠ .punctuation .lParen) ∨
      (∃ span inner s₁, e = .paren span inner ∧ s.peek.kind = .punctuation .lParen ∧
        (g.expression false).run s.advance = (.ok inner, s₁) ∧ s₁.peek.kind = .punctuation .rParen ∧
        s' = s₁.advance) ∨
      (e.isIdent = false ∧ e.isEnv = false ∧ e.isParenIdent = false) := by
  have harray {start : Nat} {isStatic : Bool} {s₀ : ParseState}
      (h : (arrayLiteral g start isStatic).run s₀ = (.ok e, s')) :
      e.isIdent = false ∧ e.isEnv = false ∧ e.isParenIdent = false := by
    obtain ⟨-, element, s₁, elements, s₂, -, -, -, rfl, -⟩ := (arrayLiteral_ok hg).1 h
    exact ⟨rfl, rfl, rfl⟩
  rcases primary_ok.1 h with ⟨h, -⟩ | ⟨-, h⟩ | ⟨-, h⟩ | ⟨hk, h⟩ | ⟨-, h⟩ | ⟨-, h⟩ | ⟨-, h⟩
  · unfold literalOf? at h
    split at h <;> cases h <;> exact .inr (.inr (.inr ⟨rfl, rfl, rfl⟩))
  · obtain ⟨-, params, s₁, -, ⟨-, body, -, rfl⟩ | ⟨-, body, -, rfl⟩⟩ := lambda_ok.1 h <;>
      exact .inr (.inr (.inr ⟨rfl, rfl, rfl⟩))
  · obtain ⟨name, hk, ⟨-, names, -, rfl⟩ | ⟨-, -, h⟩ | ⟨-, -, rfl, rfl⟩⟩ := (nameExpr_ok hg).1 h
    · exact .inr (.inr (.inr ⟨rfl, rfl, rfl⟩))
    · obtain ⟨generics, s₁, fields, s₂, -, -, -, -, -, rfl⟩ := (structLiteral?_some hg).1 h
      exact .inr (.inr (.inr ⟨rfl, rfl, rfl⟩))
    · exact .inl ⟨rfl, ⟨name, hk⟩, rfl⟩
  · obtain ⟨inner, s₁, hi, hclose, rfl, rfl⟩ := parenthesized_ok.1 h
    exact .inr (.inr (.inl ⟨_, inner, s₁, rfl, hk, hi, hclose, rfl⟩))
  · exact .inr (.inr (.inr (harray h)))
  · obtain ⟨-, ⟨-, h⟩ | ⟨name, d, -, -, hd, rfl⟩⟩ := hashExpr_ok.1 h
    · exact .inr (.inr (.inr (harray h)))
    · obtain ⟨-, ⟨-, hne, rfl⟩ | ⟨hne, -⟩⟩ := directiveOf_ok.1 hd
      · exact .inr (.inl ⟨rfl, hne⟩)
      · refine .inr (.inr (.inr ⟨rfl, ?_, rfl⟩))
        cases d <;> first | rfl | exact absurd rfl hne
  · obtain ⟨-, -, ⟨-, -, -, a, b, c, -, rfl⟩ | ⟨-, a, b, -, rfl⟩ | ⟨name, -, ⟨-, -, args, -, rfl⟩ | ⟨-, -, rfl⟩⟩⟩ :=
      dollarExpr_ok.1 h <;> exact .inr (.inr (.inr ⟨rfl, rfl, rfl⟩))

theorem primary_isIdent {e : Expr} (h : (primary g header).run s = (.ok e, s')) (he : e.isIdent = true) :
    (∃ name, s.peek.kind = .ident name) ∧ s' = s.advance := by
  rcases primary_form hg h with ⟨-, h⟩ | ⟨hne, -⟩ | ⟨span, inner, s₁, rfl, -⟩ | ⟨hne, -⟩
  · exact h
  · simp [hne] at he
  · cases he
  · simp [hne] at he

omit hg in
/-- What grows is no bare name, unless it is what it has grown from. -/
theorem isIdent_of_grows {step : Expr → Parser (Option Expr)} {e e' : Expr}
    (hstep : ∀ e s e' s', (step e).run s = (.ok (some e'), s') → e'.isIdent = false)
    (hnone : ∀ e s s', (step e).run s = (.ok none, s') → s' = s) (h : Grows step e s e' s') (he : e'.isIdent = true) :
    e' = e ∧ s' = s := by
  induction h with
  | stop h => exact ⟨rfl, hnone _ _ _ h⟩
  | next h _ ih =>
    obtain ⟨rfl, -⟩ := ih he
    simp [hstep _ _ _ _ h] at he

theorem operandExpr_isIdent {e : Expr} (h : (operandExpr g header).run s = (.ok e, s')) (he : e.isIdent = true) :
    (∃ name, s.peek.kind = .ident name) ∧ s' = s.advance := by
  obtain ⟨first, s₁, hfirst, hrest⟩ := (operandExpr_ok hg).1 h
  have hstep {start : Nat} (e : Expr) (s : ParseState) (e' : Expr) (s' : ParseState)
      (h : (suffixStep g start e).run s = (.ok (some e'), s')) : e'.isIdent = false := by
    rcases (suffixStep_some hg).1 h with ⟨-, args, -, rfl⟩ | ⟨-, -, -, generics, s₂, args, -, -, rfl⟩ |
      ⟨-, name, -, -, rfl⟩ | ⟨-, index, s₂, -, -, -, rfl⟩ <;> rfl
  obtain ⟨rfl, rfl⟩ := isIdent_of_grows hstep (fun _ _ _ h => ((suffixStep_none hg).1 h).1) hrest he
  exact primary_isIdent hg hfirst he

theorem chainBody_isIdent {level : Nat} {e : Expr} (h : (chainBody g header level).run s = (.ok e, s'))
    (he : e.isIdent = true) : (∃ name, s.peek.kind = .ident name) ∧ s' = s.advance := by
  obtain ⟨first, s₁, hfirst, hrest⟩ := (chainBody_ok hg).1 h
  have hstep (e : Expr) (s : ParseState) (e' : Expr) (s' : ParseState)
      (h : (chainStep g header level e).run s = (.ok (some e'), s')) : e'.isIdent = false := by
    obtain ⟨op, right, -, -, -, -, -, hj⟩ := chainStep_some.1 h
    rcases joined?_some hj with ⟨span, binary, rfl⟩ | ⟨span, inclusive, rfl⟩ <;> rfl
  obtain ⟨rfl, rfl⟩ := isIdent_of_grows hstep (fun _ _ _ h => (chainStep_none.1 h).1) hrest he
  rcases (unaryBody_ok hg).1 hfirst with ⟨op, unary, inner, -, -, -, -, rfl⟩ | ⟨-, h⟩ | ⟨-, h⟩ | ⟨-, -, h⟩
  · simp [Expr.isIdent] at he
  · obtain ⟨-, inner, -, rfl⟩ := doubleAddress_ok.1 h
    simp [Expr.isIdent] at he
  · obtain ⟨type, s₁, inner, -, -, -, rfl⟩ := (cast?_some hg).1 h
    simp [Expr.isIdent] at he
  · exact operandExpr_isIdent hg h he

/-- An expression that is a bare name is no more than that name. -/
theorem expressionBody_isIdent {e : Expr} (h : (expressionBody g header).run s = (.ok e, s')) (he : e.isIdent = true) :
    (∃ name, s.peek.kind = .ident name) ∧ s' = s.advance := by
  obtain ⟨condition, s₁, hc, ⟨-, rfl, rfl⟩ | ⟨-, chosen, s₂, alternative, -, -, -, rfl⟩⟩ := expressionBody_ok.1 h
  · exact chainBody_isIdent hg hc he
  · simp [Expr.isIdent] at he

omit hg in
/-- A name before a closing parenthesis is a type. -/
theorem typeBody_nameBeforeParen (type : Nat → Parser TypeExpr) (angles : Nat) {name : String}
    (hk : s.peek.kind = .ident name)
    (hclose : s.advance.peek.kind = .punctuation .rParen) :
    ∃ t, (typeBody type angles).run s = (.ok t, s.advance) := by
  refine ⟨_, typeBody_ok.2 ⟨.named (s.advance.spanFrom s.peek.span.start) name, s.advance,
    baseType_ok.2 (.inr (.inl ⟨name, hk, namedType_ok.2 (.inr ⟨?_, rfl, rfl⟩)⟩)),
      .stop (typeSuffix_none.2 ⟨.inr ?_, rfl⟩)⟩⟩
  · simp [hclose]
  · simp [hclose, ParseState.atBrackets]

end

/-! ### Expressions -/

section
variable (hg : g.Settled) (hl : g.ReadsLawful)
include hl

theorem commaListed_lawful {close : Punctuation} {es : List Expr}
    (h : CommaListed close (g.expression false) s es s') : exprListLawful es :=
  exprListLawful_iff.2 (Yields.listed (hl.expression false) h)

theorem param_lawful : (param g).Yields Param.Lawful := by
  intro s p s' h
  rcases param_ok.1 h with ⟨-, ⟨name, -, -, rfl⟩ | ⟨-, -, rfl⟩⟩ | ⟨-, -, type, s₁, name, ht, -, -, rfl⟩ |
    ⟨-, -, type, s₁, ht, ⟨name, -, -, rfl⟩ | ⟨-, -, rfl⟩⟩
  · trivial
  · trivial
  · exact hl.type 0 _ _ _ ht
  · exact hl.type 0 _ _ _ ht
  · exact hl.type 0 _ _ _ ht

theorem optionalOperand_lawful : (optionalOperand g).Yields optExprLawful := by
  intro s o s' h
  rcases optionalOperand_ok.1 h with ⟨-, e, rfl, he⟩ | ⟨-, rfl, -⟩
  · exact hl.expression false _ _ _ he
  · trivial

theorem operands_lawful {d : Directive} (h : Operands g s s' d) : d.Lawful := by
  cases d with
  | len e | free e | setAllocator e => exact hl.expression false _ _ _ h.2
  | size type => exact hl.type 0 _ _ _ h.2
  | ident | env | resetAllocator => trivial
  | alloc type count =>
    obtain ⟨-, s₁, ht, hc⟩ := h
    exact ⟨hl.type 0 _ _ _ ht, optionalOperand_lawful hl _ _ _ hc⟩
  | realloc e type count =>
    obtain ⟨-, s₁, s₂, he, -, -, ht, hc⟩ := h
    exact ⟨hl.expression false _ _ _ he, hl.type 0 _ _ _ ht, optionalOperand_lawful hl _ _ _ hc⟩

include hg

theorem typeArgs_lawful : (typeArgs g.type 0).Yields fun args => args ≠ [] ∧ typeListWellFormed args :=
  fun _ _ _ h => wellFormed_typeArgs hg.type hl.type h

theorem arguments_lawful : (arguments g).Yields exprListLawful := by
  intro s es s' h
  obtain ⟨-, s₁, hes, -⟩ := (arguments_ok hg).1 h
  exact commaListed_lawful hl hes

theorem paramList_lawful : (paramList g).Yields ParamList.Lawful := by
  intro s list s' h
  obtain ⟨-, s₁, s₂, -, hps, -⟩ := (paramList_ok hg).1 h
  exact Yields.listed (param_lawful hl) hps

theorem lambda_lawful : (lambda g header).Yields Expr.Lawful := by
  intro s e s' h
  obtain ⟨-, params, s₁, hps, ⟨-, body, hb, rfl⟩ | ⟨-, body, hb, rfl⟩⟩ := lambda_ok.1 h
  · exact ⟨paramList_lawful hg hl _ _ _ hps, hl.block _ _ _ hb⟩
  · exact ⟨paramList_lawful hg hl _ _ _ hps, hl.expression header _ _ _ hb⟩

theorem structLiteral?_lawful (start : Nat) (name : String) :
    (structLiteral? g start name).Yields fun o => ∀ e ∈ o, e.Lawful := by
  intro s o s' h e ho
  obtain rfl := ho
  obtain ⟨generics, s₁, fields, s₂, hgen, -, hfs, -, -, rfl⟩ := (structLiteral?_some hg).1 h
  have hfield : (fieldInit g).Yields FieldInit.Lawful := by
    intro s f s' h
    obtain ⟨name, value, -, -, hv, rfl⟩ := fieldInit_ok.1 h
    exact hl.expression false _ _ _ hv
  refine ⟨?_, fieldInitListLawful_iff.2 (Yields.listed hfield hfs)⟩
  rcases (structTypeArgs_some hg).1 hgen with ⟨-, -, args, rfl, hargs, -⟩ | ⟨-, rfl, -⟩
  · simpa [genericsLawful] using typeArgs_lawful hg hl _ _ _ hargs
  · exact genericsLawful_none

omit hg hl in
/-- A path has a segment behind each `::`. -/
theorem two_le_of_pathTail {first : String} {names : List String} (hk : s.peek.kind = .punctuation .colonColon)
    (h : PathTail s names s') : 2 ≤ (first :: names).length := by
  cases h with
  | nil hne => exact absurd hk hne
  | cons _ _ _ => simp

theorem nameExpr_lawful : (nameExpr g header).Yields Expr.Lawful := by
  intro s e s' h
  obtain ⟨name, -, ⟨hk, names, hp, rfl⟩ | ⟨-, -, h⟩ | ⟨-, -, -, rfl⟩⟩ := (nameExpr_ok hg).1 h
  · exact two_le_of_pathTail hk hp
  · exact structLiteral?_lawful hg hl _ _ _ _ _ h _ rfl
  · trivial

theorem arrayLiteral_lawful (start : Nat) (isStatic : Bool) : (arrayLiteral g start isStatic).Yields Expr.Lawful := by
  intro s e s' h
  obtain ⟨-, element, s₁, elements, s₂, hes, -, -, rfl, htag⟩ := (arrayLiteral_ok hg).1 h
  refine ⟨?_, commaListed_lawful hl hes⟩
  rcases htag with ⟨type, s₀, rfl, ht, -⟩ | ⟨rfl, -⟩
  · exact optTypeLawful_some (hl.type 0 _ _ _ ht)
  · exact optTypeLawful_none

theorem hashExpr_lawful : (hashExpr g).Yields Expr.Lawful := by
  intro s e s' h
  obtain ⟨-, ⟨-, h⟩ | ⟨name, d, -, -, hd, rfl⟩⟩ := hashExpr_ok.1 h
  · exact arrayLiteral_lawful hg hl _ _ _ _ _ h
  · obtain ⟨-, ⟨henv, -⟩ | ⟨-, -, s₁, hops, -⟩⟩ := directiveOf_ok.1 hd
    · cases d <;> cases henv
      trivial
    · exact operands_lawful hl hops

theorem dollarExpr_lawful : (dollarExpr g).Yields Expr.Lawful := by
  intro s e s' h
  obtain ⟨-, -, ⟨-, -, -, a, b, c, hargs, rfl⟩ | ⟨-, a, b, hargs, rfl⟩ |
    ⟨name, -, ⟨-, -, args, hargs, rfl⟩ | ⟨-, -, rfl⟩⟩⟩ := dollarExpr_ok.1 h
  · obtain ⟨ha, hb, hc, -⟩ := arguments_lawful hg hl _ _ _ hargs
    exact ⟨ha, hb, hc⟩
  · obtain ⟨ha, hb, -⟩ := arguments_lawful hg hl _ _ _ hargs
    exact ⟨ha, hb⟩
  · exact arguments_lawful hg hl _ _ _ hargs
  · trivial

theorem primary_lawful : (primary g header).Yields Expr.Lawful := by
  intro s e s' h
  rcases primary_ok.1 h with ⟨h, -⟩ | ⟨-, h⟩ | ⟨-, h⟩ | ⟨-, h⟩ | ⟨-, h⟩ | ⟨-, h⟩ | ⟨-, h⟩
  · unfold literalOf? at h
    split at h <;> cases h <;> trivial
  · exact lambda_lawful hg hl _ _ _ h
  · exact nameExpr_lawful hg hl _ _ _ h
  · obtain ⟨inner, s₁, hi, -, -, rfl⟩ := parenthesized_ok.1 h
    exact (hl.expression false _ _ _ hi : inner.Lawful)
  · exact arrayLiteral_lawful hg hl _ _ _ _ _ h
  · exact hashExpr_lawful hg hl _ _ _ h
  · exact dollarExpr_lawful hg hl _ _ _ h

omit hl in
/-- A name in parentheses that opens no cast has no parenthesis behind it, and nor has `#env`. -/
theorem callable_of_primary (hn : g.ReadsNames) {e : Expr} (hc : s.peek.kind = .punctuation .lParen → NoCast g s)
    (h : (primary g header).run s = (.ok e, s')) (hk : s'.peek.kind = .punctuation .lParen) : e.Callable none := by
  rcases primary_form hg h with ⟨he, -⟩ | ⟨-, hne⟩ | ⟨span, inner, s₁, rfl, hopen, hi, hclose, rfl⟩ | ⟨-, henv, hparen⟩
  · exact Expr.callable_of_takesGenerics (by cases e <;> first | rfl | cases he) none
  · exact absurd hk hne
  · refine ⟨by simp, rfl, ?_⟩
    rw [← Bool.not_eq_true]
    intro hident
    -- a cast has been tried first, and would have succeeded
    obtain ⟨t, ht⟩ := hn _ _ _ hi hident hclose
    have hcast := castType_ok.2 ⟨s₁, ht, hclose, rfl⟩
    rcases hc hopen with ⟨err, s₂, hfails⟩ | ⟨t', s₂, ht', hopens⟩
    · rw [hcast] at hfails
      cases hfails
    · rw [hcast] at ht'
      obtain ⟨-, rfl⟩ := Prod.mk.inj ht'
      rw [hk] at hopens
      cases hopens
  · exact ⟨by simp, henv, hparen⟩

/-- Calls, members and subscripts behind what may be called where a parenthesis follows. -/
theorem suffixes_lawful {start : Nat} {e e' : Expr} (h : Grows (suffixStep g start) e s e' s') (he : e.Lawful)
    (hc : s.peek.kind = .punctuation .lParen → e.Callable none) : e'.Lawful := by
  induction h with
  | stop _ => exact he
  | next h _ ih =>
    rcases (suffixStep_some hg).1 h with ⟨hk, args, hargs, rfl⟩ | ⟨-, -, ht, generics, s₂, args, hgen, hargs, rfl⟩ |
      ⟨-, name, -, -, rfl⟩ | ⟨-, index, s₂, hi, -, -, rfl⟩
    · exact ih ⟨hc hk, genericsLawful_none, he, arguments_lawful hg hl _ _ _ hargs⟩ fun _ => ⟨by simp, rfl, rfl⟩
    · have hgenerics := typeArgs_lawful hg hl _ _ _ (callTypeArgs_ok.1 hgen).1
      exact ih ⟨Expr.callable_of_takesGenerics ht _, by simpa [genericsLawful] using hgenerics, he,
        arguments_lawful hg hl _ _ _ hargs⟩ fun _ => ⟨by simp, rfl, rfl⟩
    · exact ih he fun _ => ⟨by simp, rfl, rfl⟩
    · exact ih ⟨he, hl.expression false _ _ _ hi⟩ fun _ => ⟨by simp, rfl, rfl⟩

theorem unaryBody_lawful : (unaryBody g header).Yields Expr.Lawful := by
  intro s e s' h
  rcases (unaryBody_ok hg).1 h with ⟨op, unary, inner, -, -, -, hi, rfl⟩ | ⟨-, h⟩ | ⟨-, h⟩ | ⟨hcast, -, h⟩
  · exact (hl.unary header _ _ _ hi : inner.Lawful)
  · obtain ⟨-, inner, hi, rfl⟩ := doubleAddress_ok.1 h
    exact (hl.unary header _ _ _ hi : inner.Lawful)
  · obtain ⟨type, s₁, inner, ht, -, hi, rfl⟩ := (cast?_some hg).1 h
    obtain ⟨s₂, ht, -⟩ := castType_ok.1 ht
    exact ⟨hl.type 0 _ _ _ ht, hl.unary header _ _ _ hi⟩
  · obtain ⟨first, s₁, hfirst, hrest⟩ := (operandExpr_ok hg).1 h
    exact suffixes_lawful hg hl hrest (primary_lawful hg hl _ _ _ hfirst) (callable_of_primary hg hl.names hcast hfirst)

theorem chainBody_lawful (level : Nat) : (chainBody g header level).Yields Expr.Lawful := by
  intro s e s' h
  obtain ⟨first, s₁, hfirst, hrest⟩ := (chainBody_ok hg).1 h
  refine Yields.grows (P := Expr.Lawful) (fun e he s o s' h e' ho => ?_) hrest (unaryBody_lawful hg hl _ _ _ hfirst)
  obtain rfl := ho
  obtain ⟨op, right, -, -, -, -, hright, hj⟩ := chainStep_some.1 h
  exact lawful_joined hj he (hl.chain header _ _ _ _ hright)

theorem expressionBody_lawful : (expressionBody g header).Yields Expr.Lawful := by
  intro s e s' h
  obtain ⟨condition, s₁, hc, ⟨-, rfl, -⟩ | ⟨-, chosen, s₂, alternative, hchosen, -, ha, rfl⟩⟩ := expressionBody_ok.1 h
  all_goals have hcondition := chainBody_lawful hg hl _ _ _ _ hc
  · exact hcondition
  · refine ⟨hcondition, ?_, hl.expression header _ _ _ ha⟩
    rcases consequence_ok.1 hchosen with ⟨-, rfl, -⟩ | ⟨-, e, rfl, he⟩
    · trivial
    · exact hl.expression header _ _ _ he

/-! ### Statements -/

omit hg in
theorem initializer_lawful : (initializer g header).Yields optExprLawful := by
  intro s o s' h
  rcases initializer_ok.1 h with ⟨-, e, rfl, he⟩ | ⟨-, rfl, -⟩
  · exact hl.expression header _ _ _ he
  · trivial

/-- Whether a declaration of a variable or a buffer is lawful. -/
def BindingForm.Lawful : BindingForm → Prop
  | .variable binding type _ init => binding.Fits type init ∧ optTypeLawful type ∧ optExprLawful init
  | .buffer type _ size => type.WellFormed ∧ size.Lawful

theorem binding?_lawful : (binding? g header).Yields fun o => ∀ form ∈ o, BindingForm.Lawful form := by
  intro s o s' h form ho
  obtain rfl := ho
  rcases (binding?_some hg).1 h with ⟨-, name, init, -, hi, rfl⟩ | ⟨-, name, e, -, he, -, rfl⟩ |
    ⟨-, -, ⟨type, name⟩, s₁, ht, hb⟩
  · exact ⟨rfl, optTypeLawful_none, initializer_lawful hl _ _ _ hi⟩
  · exact ⟨⟨rfl, rfl⟩, optTypeLawful_none, hl.expression header _ _ _ he⟩
  · obtain ⟨s₂, ht, -⟩ := typeAndName_ok.1 ht
    have htype : type.WellFormed := hl.type 0 _ _ _ ht
    rcases typedBinding_ok.1 hb with ⟨-, size, s₃, hs, -, -, rfl⟩ | ⟨-, init, hi, rfl⟩
    · exact ⟨htype, hl.expression false _ _ _ hs⟩
    · exact ⟨rfl, optTypeLawful_some htype, initializer_lawful hl _ _ _ hi⟩

theorem simpleStatement_lawful : (simpleStatement g).Yields fun form => ∀ span, (form span).Lawful := by
  intro s form s' h span
  rcases (simpleStatement_ok hg).1 h with ⟨binding, hb, rfl⟩ | ⟨-, target, s₁, ht, ⟨op, value, ha, rfl⟩ | ⟨-, -, rfl⟩⟩
  · have hbinding := binding?_lawful hg hl _ _ _ hb _ rfl
    cases binding <;> exact hbinding
  · obtain ⟨-, -, -, -, hv⟩ := assignment?_some.1 ha
    exact ⟨hl.expression false _ _ _ ht, hl.expression false _ _ _ hv⟩
  · exact (hl.expression false _ _ _ ht : target.Lawful)

omit hg in
theorem headerCondition_lawful : (headerCondition g).Yields Expr.Lawful := by
  intro s e s' h
  obtain ⟨e₀, he, rfl⟩ := headerCondition_ok.1 h
  exact lawful_unparenthesized (hl.expression true _ _ _ he)

omit hg in
theorem ifBody_lawful :
    (ifBody g).Yields fun parts => parts.condition.Lawful ∧ parts.body.Lawful ∧ parts.otherwise.Lawful := by
  intro s parts s' h
  obtain ⟨-, s₁, s₂, hc, hb, he⟩ := ifBody_ok.1 h
  refine ⟨headerCondition_lawful hl _ _ _ hc, hl.block _ _ _ hb, ?_⟩
  rcases elsePart_ok.1 he with ⟨-, -, parts', hp, hotherwise⟩ | ⟨-, -, body, hb, hotherwise⟩ | ⟨-, hotherwise, -⟩
  all_goals rw [hotherwise]
  · exact hl.elseIf _ _ _ hp
  · exact hl.block _ _ _ hb
  · trivial

theorem forHeader_lawful :
    (forHeader g header).Yields fun parts => parts.1.Lawful ∧ parts.2.1.Lawful ∧ parts.2.2.Lawful := by
  intro s parts s' h
  obtain ⟨s₁, s₂, hi, -, hc, -, hs⟩ := forHeader_ok.1 h
  refine ⟨?_, hl.expression header _ _ _ hc, ?_⟩
  · rcases (forInit_ok hg).1 hi with ⟨binding, type, name, value, hb, hinit⟩ | ⟨-, e, he, hinit⟩
    all_goals rw [hinit]
    · exact binding?_lawful hg hl _ _ _ hb _ rfl
    · exact hl.expression header _ _ _ he
  · obtain ⟨target, s₃, ht, ⟨op, value, ha, hstep⟩ | ⟨-, -, hstep⟩⟩ := forStep_ok.1 hs
    all_goals rw [hstep]
    · obtain ⟨-, -, -, -, hv⟩ := assignment?_some.1 ha
      exact ⟨hl.expression header _ _ _ ht, hl.expression header _ _ _ hv⟩
    · exact hl.expression header _ _ _ ht

theorem statementForm_lawful : (statementForm g).Yields fun form => ∀ span, (form span).Lawful := by
  intro s form s' h span
  rcases statementForm_ok.1 h with ⟨-, parts, hif, rfl⟩ | ⟨-, condition, s₁, body, hc, hb, rfl⟩ | ⟨-, h⟩ |
    ⟨-, e, s₁, he, -, -, rfl⟩ | ⟨-, h⟩ | ⟨-, -, -, rfl⟩ | ⟨-, -, -, rfl⟩ | ⟨-, body, hb, rfl⟩ | ⟨-, s₁, hs, -, -⟩
  · exact ifBody_lawful hl _ _ _ hif
  · exact ⟨headerCondition_lawful hl _ _ _ hc, hl.block _ _ _ hb⟩
  · obtain ⟨-, ⟨name, iterable, s₁, body, -, -, hi, hb, rfl⟩ | ⟨-, h⟩⟩ := forStatement_ok.1 h
    · exact ⟨hl.expression true _ _ _ hi, hl.block _ _ _ hb⟩
    · obtain ⟨init, condition, step, body, rfl, ⟨-, s₁, hh, -, hb⟩ | ⟨-, s₁, hh, hb⟩⟩ := forLoopRest_ok.1 h
      all_goals
        obtain ⟨hinit, hcondition, hstep⟩ := forHeader_lawful hg hl _ _ _ hh
        exact ⟨hinit, hcondition, hstep, hl.block _ _ _ hb⟩
  · exact (hl.expression false _ _ _ he : e.Lawful)
  · rcases returnStatement_ok.1 h with ⟨-, -, rfl⟩ | ⟨-, e, s₁, he, -, -, rfl⟩
    · trivial
    · exact (hl.expression false _ _ _ he : e.Lawful)
  · trivial
  · trivial
  · have hbody := hl.block _ _ _ hb
    cases body
    exact hbody
  · exact simpleStatement_lawful hg hl _ _ _ hs span

/-- The statements of a block are those that have been read without failing, whatever was recorded besides. -/
theorem blockBody_lawful (o : ParseOptions) : (blockBody o g).Yields Block.Lawful := by
  have hround (opened : Span) : (blockRound o g opened).Yields (Yields.OfRound Stmt.Lawful) := by
    intro s r s' h
    cases r with
    | stop => trivial
    | none => trivial
    | last st => exact absurd h blockRound_last
    | more st =>
      obtain ⟨form, hform, rfl⟩ := statement_ok.1 (blockRound_more.1 h).2.2.2
      exact statementForm_lawful hg hl _ _ _ hform _
  intro s body s' h
  simp [blockBody, expectMark, spanFrom] at h
  obtain ⟨-, statements, h, rfl⟩ := h
  exact stmtListLawful_iff.2 (Yields.collect (hround _) _ _ _ h)

/-! ### Declarations -/

theorem attributed_lawful {as : List Attribute} (h : Attributed g s as s') : ∀ a ∈ as, a.Lawful := by
  induction h with
  | nil _ => simp
  | bare _ _ _ _ ih => exact List.forall_mem_cons.2 ⟨trivial, ih⟩
  | called _ _ _ hargs _ ih => exact List.forall_mem_cons.2 ⟨arguments_lawful hg hl _ _ _ hargs, ih⟩

omit hg hl in
theorem declName_lawful : declName.Yields DeclName.Lawful := by
  intro s name s' h
  rcases declName_ok.1 h with ⟨raw, -, -, rfl⟩ | ⟨first, -, ⟨hk, tail, ht, rfl⟩ | ⟨-, -, rfl⟩⟩
  · trivial
  · exact two_le_of_pathTail hk ht
  · trivial

/-- An external function has no body. -/
theorem functionDecl_lawful (modifiers : List Modifier) : (functionDecl g modifiers).Yields fun f =>
    f.Lawful ∧ (Modifier.holds f.modifiers .external = true → f.body = none) := by
  intro s f s' h
  obtain ⟨-, rfl, s₁, s₂, s₃, s₄, s₅, hname, -, hps, has, hr, hb⟩ := (functionDecl_ok hg).1 h
  have hreturn : optTypeLawful f.returnType := by
    rcases returnType_ok.1 hr with ⟨-, t, ht, h⟩ | ⟨-, ht, -⟩
    all_goals rw [ht]
    · exact optTypeLawful_some (hl.type 0 _ _ _ h)
    · exact optTypeLawful_none
  have hbody : (∀ b ∈ f.body, b.Lawful) ∧ (Modifier.holds f.modifiers .external = true → f.body = none) := by
    rcases functionBody_ok.1 hb with ⟨-, hext, body, hbody, h⟩ | ⟨-, hbody, -⟩
    all_goals rw [hbody]
    · exact ⟨by simpa using hl.block _ _ _ h, by simp [hext]⟩
    · simp
  exact ⟨⟨declName_lawful _ _ _ hname, paramList_lawful hg hl _ _ _ hps, attributed_lawful hg hl has, hreturn, hbody.1⟩,
    hbody.2⟩

omit hg in
theorem constDecl_lawful (modifiers : List Modifier) : (constDecl g modifiers).Yields ConstDecl.Lawful := by
  intro s c s' h
  obtain ⟨-, -, s₁, s₂, ht, -, -, hv, -⟩ := constDecl_ok.1 h
  refine ⟨?_, hl.expression false _ _ _ hv⟩
  rcases constType_ok.1 ht with ⟨-, -, htype, -⟩ | ⟨-, t, htype, h⟩
  all_goals rw [htype]
  · exact optTypeLawful_none
  · exact optTypeLawful_some (hl.type 0 _ _ _ h)

omit hg in
theorem fields_lawful {fs : List Field} (h : Fields g s fs s') : ∀ f ∈ fs, f.type.WellFormed := by
  have hfield {s s' : ParseState} {f : Field} (h : (structField g).run s = (.ok f, s')) : f.type.WellFormed := by
    obtain ⟨-, ⟨-, -, ht⟩ | ⟨-, s₁, ht, -⟩⟩ := structField_ok.1 h <;> exact hl.type 0 _ _ _ ht
  induction h with
  | nil _ => simp
  | ended _ hf _ _ ih => exact List.forall_mem_cons.2 ⟨hfield hf, ih⟩
  | last _ hf _ _ => exact List.forall_mem_cons.2 ⟨hfield hf, by simp⟩

theorem structDecl_lawful (modifiers : List Modifier) : (structDecl g modifiers).Yields StructDecl.Lawful := by
  intro s d s' h
  obtain ⟨-, -, -, s₁, s₂, s₃, -, has, -, hfs, -⟩ := (structDecl_ok hg).1 h
  exact ⟨attributed_lawful hg hl has, fields_lawful hl hfs⟩

omit hg hl in
/-- A list between separators has an item. -/
theorem ne_nil_of_separatedListed {α : Type} {separator : TokenKind} {item : Parser α} {as : List α}
    (h : SeparatedListed separator item s as s') : as ≠ [] := by
  cases h with
  | nil h => exact h.elim
  | last _ _ _ => exact List.cons_ne_nil _ _
  | more _ _ _ _ => exact List.cons_ne_nil _ _

theorem declaration_lawful : (declaration g).Yields Declaration.Lawful := by
  intro s d s' h
  obtain ⟨form, hform, rfl⟩ := declaration_ok.1 h
  rcases declarationForm_ok.1 hform with ⟨-, path, hp, rfl⟩ | ⟨-, options, ho, rfl⟩ | ⟨-, name, -, rfl⟩ | ⟨-, -, -, h⟩
  · obtain ⟨-, s₁, hsegments, -⟩ := importPath_ok.1 hp
    exact ne_nil_of_separatedListed hsegments
  · obtain ⟨-, s₁, hoptions, -⟩ := globalLine_ok.1 ho
    exact ne_nil_of_separatedListed hoptions
  · trivial
  obtain ⟨ms, s₁, -, ⟨-, decl, hd, rfl⟩ | ⟨-, decl, hd, rfl⟩ | ⟨-, decl, hd, rfl⟩⟩ := modifiedForm_ok.1 h
  · obtain ⟨hdecl, hbody⟩ := functionDecl_lawful hg hl ms _ _ _ hd
    unfold functionForm
    split
    · rename_i hext
      exact ⟨hext, hbody hext, hdecl⟩
    · rename_i hext
      exact ⟨Bool.not_eq_true _ ▸ hext, hdecl⟩
  · exact constDecl_lawful hl ms _ _ _ hd
  · exact structDecl_lawful hg hl ms _ _ _ hd

end

end Parser

/-- What is read at every depth is lawful. -/
theorem readsLawful_ofRoom (o : ParseOptions) (room : Nat) : (Inner.ofRoom o room).ReadsLawful := by
  induction room with
  | zero =>
    have hdeep {α : Type} {P : α → Prop} : (Parser.tooDeep o.maxDepth).Yields P :=
      fun s a s' h => absurd (Parser.tooDeep_ok.1 h) id
    exact ⟨fun _ => hdeep, fun _ => hdeep, fun _ _ => hdeep, fun _ => hdeep, hdeep, hdeep,
      fun s e s' h => absurd (Parser.tooDeep_ok.1 h) id⟩
  | succ room ih =>
    have hg := settled_ofRoom o room
    exact
      { type := fun angles s t s' h => Parser.wellFormed_typeExpr h
        expression := fun header => Parser.expressionBody_lawful hg ih
        chain := fun header level => Parser.chainBody_lawful hg ih level
        unary := fun header => Parser.unaryBody_lawful hg ih
        block := Parser.blockBody_lawful hg ih o
        elseIf := Parser.ifBody_lawful ih
        names := by
          intro s e s' h he hclose
          obtain ⟨⟨name, hk⟩, rfl⟩ := Parser.expressionBody_isIdent hg h he
          obtain ⟨t, ht⟩ := Parser.typeBody_nameBeforeParen (Parser.typeExpr o.maxDepth room) 0 hk hclose
          exact ⟨t, Parser.typeExpr_ok.2 ⟨room, rfl, ht⟩⟩ }

/-- The declarations of a program are lawful. -/
theorem Parser.program_lawful (o : ParseOptions) : (Parser.program o).Yields fun ds => ∀ d ∈ ds, d.Lawful := by
  refine Parser.Yields.collect fun s r s' h => ?_
  cases r with
  | stop => trivial
  | none => trivial
  | last d => exact absurd h Parser.programRound_last
  | more d =>
    obtain ⟨-, -, hd⟩ := Parser.programRound_more.1 h
    exact Parser.declaration_lawful (settled_ofRoom o _) (readsLawful_ofRoom o _) _ _ _ hd

/-- What is read is lawful, also where reading has gone on after failures. -/
theorem parsePartial_lawful (tokens : List Token) (o : ParseOptions) : (parsePartial tokens o).1.Lawful := by
  unfold parsePartial
  split
  · rename_i declarations s h
    exact Parser.program_lawful o _ _ _ h
  · simp [Program.Lawful]

end ElleFrontEnd
