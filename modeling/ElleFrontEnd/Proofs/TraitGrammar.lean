import ElleFrontEnd.Proofs.Trait

/-!
# The grammar has every trait

Whatever the trait, expressions, statements and declarations have it as soon as the parsers of nested constructs do.
What is tried comes in one piece (`castTrial`, `structHead`, `elementTag`), and records nothing.  Blocks are taken for
granted: a trait is proved of them apart, since only they record what a statement failed with.
-/

namespace ElleFrontEnd

open ElleFrontEnd.Parser (Silent)

/-- The parsers of nested constructs have the trait, and types are read silently. -/
structure Trait.Of (T : Trait) (g : Inner) : Prop where
  silent : ∀ angles, (g.type angles).Silent
  type : ∀ angles, T.holds (g.type angles)
  expression : ∀ header, T.holds (g.expression header)
  chain : ∀ header level, T.holds (g.chain header level)
  unary : ∀ header, T.holds (g.unary header)
  block : T.holds g.block
  elseIf : T.holds g.elseIf

namespace Parser.Silent

variable {α : Type} {g : Inner} (hg : ∀ angles, (g.type angles).Silent)

theorem noExpression : (Parser.noExpression : Parser α).Silent := fun _ => rfl

include hg

theorem castTrial : (Parser.castTrial g).Silent := by
  refine skip.bind fun _ => (castType hg).bind fun _ => (look _).bind fun _ => ite (.pure _) noExpression

theorem structHead : (Parser.structHead g).Silent := by
  refine (structTypeArgs hg).bind fun o => ?_
  cases o with
  | none => exact noExpression
  | some generics => exact (look _).bind fun _ => ite (.pure _) noExpression

theorem elementTag : (Parser.elementTag g).Silent := (hg 0).bind fun _ => (expect _ _).bind fun _ => .pure _

end Parser.Silent

namespace Trait

variable {α : Type} {T : Trait} {g : Inner} {p : Parser α}

/-! ### Expressions -/

theorem noExpression : T.holds (Parser.noExpression : Parser α) :=
  failHere (e := fun kind span => { cause := .noExpression kind, span })

theorem pathTail : T.holds Parser.pathTail :=
  T.collect (T.bind (accept _) fun _ => ite (T.bind identifier fun _ => T.done _) (T.done _))

theorem metaBinding : T.holds Parser.metaBinding := by
  refine T.bind (isAt _) fun _ => looking ((Blind.kindAt 1).comp fun k => k.ident?.isSome) fun _ => ite ?_ (T.done _)
  refine T.bind skip fun _ => T.bind identifier fun _ => T.bind (isAt _) fun _ => ite (T.done _) ?_
  exact T.bind (expect _ _) fun _ => T.done _

theorem wrongOperands (d : DirectiveName) : T.holds (Parser.wrongOperands d : Parser α) :=
  failHere (e := fun kind span => { cause := .wrongOperands d kind, span, hints := [.usage d] })

theorem operand (d : DirectiveName) (isFirst : Bool) (hp : T.holds p) : T.holds (Parser.operand d isFirst p) := by
  have hrest (separated : Bool) : T.holds
      (if !separated then Parser.wrongOperands d
        else do if ← Parser.atMark .rParen then Parser.wrongOperands d else p) :=
    ite (wrongOperands d) (T.bind (isAt _) fun _ => ite (wrongOperands d) hp)
  cases isFirst with
  | true => exact hrest true
  | false => exact T.bind (accept _) hrest

theorem operandList (d : DirectiveName) (hp : T.holds p) : T.holds (Parser.operandList d p) := by
  refine T.bind (T.onError _ (expect _ _)) fun _ => T.bind hp fun _ => T.bind (isAt _) fun _ => T.bind atEnd fun _ => ?_
  exact ite (wrongOperands d) (T.bind (closing _ _) fun _ => T.done _)

theorem wrongSize (form : FixedLiteral) (found start : Nat) : T.holds (Parser.wrongSize form found start : Parser α) :=
  T.bind (spanFrom _) fun _ => fail _

theorem literal (start : Nat) (build : Span → Expr) : T.holds (Parser.literal start build) :=
  T.bind skip fun _ => doneFrom

theorem atStructBody : T.holds Parser.atStructBody :=
  look (Blind.peekKind.both ((Blind.kindAt 1).both (.kindAt 2) Prod.mk) fun k l => decide (k = .punctuation .lBrace) &&
    (decide (l.1 = .punctuation .rBrace) || l.1.ident?.isSome && decide (l.2 = .operator .eq)))

section
variable (hg : T.Of g)
include hg

theorem exprList (close : Punctuation) (opened : Span) : T.holds (Parser.exprList g close opened) :=
  T.bind (commaList _ (hg.expression _)) fun _ => T.bind (closing _ _) fun _ => T.done _

theorem arguments : T.holds (Parser.arguments g) := T.bind (expect _ _) fun _ => exprList hg _ _

theorem param : T.holds (Parser.param g) := by
  refine T.bind nextStart fun _ => T.bind (accept _) fun _ =>
    ite ?_ (T.bind (isAt _) fun _ => T.bind (isAhead _ _) fun _ => ite ?_ ?_)
  · exact T.bind atIdent fun _ => ite (T.bind identifier fun _ => doneFrom) doneFrom
  · exact T.bind skip fun _ => T.bind skip fun _ => T.bind (hg.type _) fun _ => T.bind identifier fun _ => doneFrom
  · exact T.bind (hg.type _) fun _ => T.bind atIdent fun _ => ite (T.bind identifier fun _ => doneFrom) doneFrom

theorem paramList : T.holds (Parser.paramList g) := by
  refine T.bind (expect _ _) fun _ => T.bind metaBinding fun _ => T.bind (commaList _ (param hg)) fun _ => ?_
  exact T.bind (closing _ _) fun _ => T.done _

theorem lambda (header : Bool) : T.holds (Parser.lambda g header) := by
  refine T.bind (expect _ _) fun _ => T.bind (paramList hg) fun _ => T.bind (isAt _) fun _ => ite ?_ ?_
  · exact spanned hg.block
  · exact spanned (hg.expression _)

theorem fieldInit : T.holds (Parser.fieldInit g) := by
  refine T.bind nextStart fun _ => T.bind identifier fun _ => T.bind (expect _ _) fun _ => ?_
  exact spanned (hg.expression _)

theorem structTypeArgs : T.holds (Parser.structTypeArgs g) := by
  refine T.bind (isAt _) fun _ => T.bind isAdjacent fun _ => ite ?_ (T.done _)
  refine T.bind (T.attempt (.typeArgs hg.silent 0) (typeArgs hg.type 0)) fun o => ?_
  cases o with
  | none => exact T.done _
  | some args => exact T.bind owed fun _ => ite (T.done _) (T.done _)

theorem structHead : T.holds (Parser.structHead g) := by
  refine T.bind (structTypeArgs hg) fun o => ?_
  cases o with
  | none => exact noExpression
  | some generics => exact T.bind atStructBody fun _ => ite (T.done _) noExpression

theorem structLiteral? (start : Nat) (name : String) : T.holds (Parser.structLiteral? g start name) := by
  rw [Parser.structLiteral?_eq]
  refine T.bind (T.attempt (.structHead hg.silent) (structHead hg)) fun o => ?_
  cases o with
  | none => exact T.done _
  | some generics =>
    refine T.bind skip fun _ => T.bind (commaList _ (fieldInit hg)) fun _ => T.bind (closing _ _) fun _ => ?_
    exact doneFrom

theorem nameExpr (header : Bool) : T.holds (Parser.nameExpr g header) := by
  refine T.bind nextStart fun _ => T.bind identifier fun _ => T.bind (isAt _) fun _ => ite ?_ (ite doneFrom ?_)
  · exact T.bind pathTail fun _ => doneFrom
  · refine T.bind (structLiteral? hg _ _) fun o => ?_
    cases o with
    | none => exact doneFrom
    | some literal => exact T.done _

theorem arrayLiteral (start : Nat) (isStatic : Bool) : T.holds (Parser.arrayLiteral g start isStatic) := by
  have helement : T.holds (Parser.elementTag g) := T.bind (hg.type _) fun _ => T.bind (expect _ _) fun _ => T.done _
  exact T.bind (expect _ _) fun _ => T.bind (T.attempt (.elementTag hg.silent) helement) fun _ =>
    spanned (exprList hg _ _)

theorem optionalOperand : T.holds (Parser.optionalOperand g) :=
  T.bind (accept _) fun _ => ite (T.bind (hg.expression _) fun _ => T.done _) (T.done _)

theorem directiveOf (d : DirectiveName) : T.holds (Parser.directiveOf g d) := by
  have hvalue (isFirst : Bool) : T.holds (Parser.operand d isFirst (g.expression false)) :=
    operand d isFirst (hg.expression _)
  have htype (isFirst : Bool) : T.holds (Parser.operand d isFirst (Parser.typeOperand g d)) :=
    operand d isFirst (T.onError _ (hg.type _))
  cases d with
  | len | free | setAllocator => exact operandList _ (T.bind (hvalue _) fun _ => T.done _)
  | size => exact operandList _ (T.bind (htype _) fun _ => T.done _)
  | ident => exact operandList _ (T.bind (operand _ _ identifier) fun _ => T.done _)
  | env => exact T.bind (isAt _) fun _ => ite (wrongOperands _) (T.done _)
  | resetAllocator => exact operandList _ (T.done _)
  | alloc => exact operandList _ (T.bind (htype _) fun _ => T.bind (optionalOperand hg) fun _ => T.done _)
  | realloc =>
    refine operandList _ (T.bind (hvalue _) fun _ => T.bind (htype _) fun _ => ?_)
    exact T.bind (optionalOperand hg) fun _ => T.done _

theorem hashExpr : T.holds (Parser.hashExpr g) := by
  refine T.bind (expect _ _) fun _ => T.bind (isAt _) fun _ => ite (arrayLiteral hg _ _) ?_
  refine T.bind nextKind fun kind => ?_
  split
  · refine T.bind skip fun _ => ?_
    split
    · exact fail _
    · exact spanned (directiveOf hg _)
  · exact unexpected _

theorem dollarExpr : T.holds (Parser.dollarExpr g) := by
  refine T.bind (expect _ _) fun _ => T.bind isAdjacent fun _ => T.bind (isAt _) fun _ => ?_
  refine T.bind (isAhead _ _) fun _ => looking .nextIsAdjacent fun _ =>
    ite ?_ (T.bind (isAt _) fun _ => ite ?_ (T.bind atIdent fun _ => ite ?_ ?_))
  · refine T.bind skip fun _ => T.bind (arguments hg) fun items => ?_
    split
    · exact doneFrom
    · exact wrongSize _ _ _
  · refine T.bind (arguments hg) fun items => ?_
    split
    · exact doneFrom
    · exact wrongSize _ _ _
  · refine T.bind identifier fun _ => T.bind (isAt _) fun _ => T.bind isAdjacent fun _ => ite ?_ doneFrom
    exact spanned (arguments hg)
  · exact unexpected _

theorem parenthesized (start : Nat) : T.holds (Parser.parenthesized g start) :=
  T.bind skip fun _ => T.bind (hg.expression _) fun _ => T.bind (closing _ _) fun _ => doneFrom

theorem primary (header : Bool) : T.holds (Parser.primary g header) := by
  refine T.bind nextStart fun _ => T.bind nextKind fun kind => ?_
  split
  · exact literal _ _
  · exact literal _ _
  · exact literal _ _
  · exact literal _ _
  · exact literal _ _
  · exact lambda hg _
  · exact nameExpr hg _
  · exact parenthesized hg _
  · exact arrayLiteral hg _ _
  · exact hashExpr hg
  · exact dollarExpr hg
  · exact noExpression

theorem callTypeArgs : T.holds (Parser.callTypeArgs g) := by
  refine T.bind (typeArgs hg.type 0) fun _ => T.bind owed fun _ => ite (unexpected _) ?_
  exact T.bind (isAt _) fun _ => ite (T.done _) (unexpected _)

theorem genericCall? (start : Nat) (callee : Expr) : T.holds (Parser.genericCall? g start callee) := by
  refine T.bind (T.attempt (.callTypeArgs hg.silent) (callTypeArgs hg)) fun o => ?_
  cases o with
  | none => exact T.done _
  | some generics => exact spanned (arguments hg)

theorem suffixStep (start : Nat) (e : Expr) : T.holds (Parser.suffixStep g start e) := by
  refine T.bind (isAt _) fun _ => ite (spanned (arguments hg)) ?_
  refine T.bind (isAt _) fun _ => T.bind isAdjacent fun _ => ite (genericCall? hg _ _) ?_
  refine T.bind (accept _) fun _ => ite (spanned identifier) (T.bind (isAt _) fun _ => ite ?_ (T.done _))
  exact T.bind skip fun _ => T.bind (hg.expression _) fun _ => T.bind (closing _ _) fun _ => doneFrom

theorem operandExpr (header : Bool) : T.holds (Parser.operandExpr g header) :=
  T.bind nextStart fun _ => T.bind (primary hg _) fun _ => T.grow (suffixStep hg _) _

theorem castTrial : T.holds (Parser.castTrial g) := by
  have htype : T.holds (Parser.castType g) := T.bind (hg.type _) fun _ => T.bind (expect _ _) fun _ => T.done _
  exact T.bind skip fun _ => T.bind htype fun _ => T.bind nextKind fun _ => ite (T.done _) noExpression

theorem cast? (header : Bool) : T.holds (Parser.cast? g header) := by
  rw [Parser.cast?_eq_trial]
  refine T.bind (T.attempt (.castTrial hg.silent) (castTrial hg)) fun o => ?_
  cases o with
  | none => exact T.done _
  | some head => exact spanned (hg.unary _)

theorem unaryBody (header : Bool) : T.holds (Parser.unaryBody g header) := by
  refine T.bind nextStart fun _ => T.bind nextKind fun kind => ?_
  split
  · split
    · exact T.bind skip fun _ => T.bind (requireOperand _) fun _ => spanned (hg.unary _)
    · refine ite ?_ (operandExpr hg _)
      exact T.bind skip fun _ => T.bind (requireOperand _) fun _ => spanned (hg.unary _)
  · refine T.bind (cast? hg _) fun o => ?_
    cases o with
    | none => exact operandExpr hg _
    | some e => exact T.done _
  · exact operandExpr hg _

theorem chainStep (header : Bool) (level : Nat) (left : Expr) : T.holds (Parser.chainStep g header level left) := by
  refine T.bind nextKind fun kind => ?_
  split
  · exact T.done _
  · split
    · exact T.done _
    · refine ite (T.done _) (T.bind skip fun _ => T.bind (requireOperand _) fun _ => ?_)
      exact T.bind (hg.chain _ _) fun _ => T.done _

theorem chainBody (header : Bool) (level : Nat) : T.holds (Parser.chainBody g header level) :=
  T.bind (unaryBody hg _) fun _ => T.grow (chainStep hg _ _) _

theorem expressionBody (header : Bool) : T.holds (Parser.expressionBody g header) := by
  refine T.bind (chainBody hg _ 1) fun _ => T.bind (accept _) fun _ => ite ?_ (T.done _)
  have hchosen : T.holds (Parser.consequence g header) :=
    T.bind (isAt _) fun _ => ite (T.done _) (T.bind (hg.expression _) fun _ => T.done _)
  exact T.bind hchosen fun _ => T.bind (expect _ _) fun _ => T.bind (hg.expression _) fun _ => T.done _

/-! ### Statements -/

theorem initializer (header : Bool) : T.holds (Parser.initializer g header) :=
  T.bind (accept _) fun _ => ite (T.bind (hg.expression _) fun _ => T.done _) (T.done _)

theorem typedBinding (header : Bool) (type : TypeExpr) (name : String) :
    T.holds (Parser.typedBinding g header type name) := by
  refine T.bind (isAt _) fun _ => ite ?_ (T.bind (initializer hg _) fun _ => T.done _)
  exact T.bind skip fun _ => T.bind (hg.expression _) fun _ => T.bind (closing _ _) fun _ => T.done _

theorem binding? (header : Bool) : T.holds (Parser.binding? g header) := by
  have htyped : T.holds (Parser.typeAndName g) := T.bind (hg.type _) fun _ => T.bind identifier fun _ => T.done _
  refine T.bind (accept _) fun _ => ite ?_ (T.bind atIdent fun _ => T.bind (isAhead _ _) fun _ => ite ?_ ?_)
  · exact T.bind identifier fun _ => T.bind (initializer hg _) fun _ => T.done _
  · exact T.bind identifier fun _ => T.bind skip fun _ => T.bind (hg.expression _) fun _ => T.done _
  · refine T.bind (isAt _) fun _ => T.bind (isAhead _ _) fun _ => ite (T.done _) ?_
    refine T.bind (T.attempt (.typeAndName hg.silent) htyped) fun o => ?_
    cases o with
    | none => exact T.done _
    | some parts => exact T.bind (typedBinding hg _ _ _) fun _ => T.done _

theorem assignment? (header : Bool) : T.holds (Parser.assignment? g header) := by
  refine T.bind nextKind fun kind => ?_
  split
  · exact T.done _
  · split
    · exact T.done _
    · exact T.bind skip fun _ => T.bind (requireOperand _) fun _ => T.bind (hg.expression _) fun _ => T.done _

theorem simpleStatement : T.holds (Parser.simpleStatement g) := by
  refine T.bind (binding? hg _) fun o => ?_
  cases o with
  | some form => exact T.done _
  | none =>
    refine T.bind (hg.expression _) fun _ => T.bind (assignment? hg _) fun o => ?_
    cases o <;> exact T.done _

theorem headerCondition : T.holds (Parser.headerCondition g) := T.bind (hg.expression _) fun _ => T.done _

theorem elsePart : T.holds (Parser.elsePart g) := by
  refine T.bind (accept _) fun _ => ite (T.bind (isAt _) fun _ => ite ?_ ?_) (T.done _)
  · exact T.bind nextStart fun _ => spanned hg.elseIf
  · exact T.bind hg.block fun _ => T.done _

theorem ifBody : T.holds (Parser.ifBody g) := by
  refine T.bind (expect _ _) fun _ => T.bind (headerCondition hg) fun _ => T.bind hg.block fun _ => ?_
  exact T.bind (elsePart hg) fun _ => T.done _

theorem forInit (header : Bool) : T.holds (Parser.forInit g header) := by
  refine T.bind nextStart fun _ => T.bind (binding? hg _) fun o => ?_
  match o with
  | some (.variable binding type name init) => exact doneFrom
  | some (.buffer type name size) => exact T.bind (spanFrom _) fun _ => fail _
  | none => exact T.bind (hg.expression _) fun _ => T.done _

theorem forStep (header : Bool) : T.holds (Parser.forStep g header) := by
  refine T.bind nextStart fun _ => T.bind (hg.expression _) fun _ => T.bind (assignment? hg _) fun o => ?_
  cases o with
  | none => exact T.done _
  | some parts => exact doneFrom

theorem forHeader (header : Bool) : T.holds (Parser.forHeader g header) := by
  refine T.bind (forInit hg _) fun _ => T.bind semicolon fun _ => T.bind (hg.expression _) fun _ => ?_
  exact T.bind semicolon fun _ => T.bind (forStep hg _) fun _ => T.done _

theorem forStatement : T.holds (Parser.forStatement g) := by
  refine T.bind (expect _ _) fun _ => T.bind atIdent fun _ => T.bind (isAhead _ _) fun _ => ite ?_ ?_
  · refine T.bind identifier fun _ => T.bind skip fun _ => T.bind (hg.expression _) fun _ => ?_
    exact T.bind hg.block fun _ => T.done _
  refine T.bind (isAt _) fun _ => ite ?_ ?_
  · refine T.bind skip fun _ => T.bind (forHeader hg _) fun _ => T.bind (closing _ _) fun _ => ?_
    exact T.bind hg.block fun _ => T.done _
  · exact T.bind (forHeader hg _) fun _ => T.bind hg.block fun _ => T.done _

theorem returnStatement : T.holds (Parser.returnStatement g) := by
  refine T.bind skip fun _ => T.bind (isAt _) fun _ => ite (T.bind semicolon fun _ => T.done _) ?_
  exact T.bind (hg.expression _) fun _ => T.bind semicolon fun _ => T.done _

theorem statementForm : T.holds (Parser.statementForm g) := by
  refine T.bind nextKind fun kind => ?_
  split
  · exact T.bind (ifBody hg) fun _ => T.done _
  · exact T.bind skip fun _ => T.bind (headerCondition hg) fun _ => T.bind hg.block fun _ => T.done _
  · exact forStatement hg
  · exact T.bind skip fun _ => T.bind (hg.expression _) fun _ => T.bind semicolon fun _ => T.done _
  · exact returnStatement hg
  · exact T.bind skip fun _ => T.bind semicolon fun _ => T.done _
  · exact T.bind skip fun _ => T.bind semicolon fun _ => T.done _
  · exact T.bind hg.block fun _ => T.done _
  · exact T.bind (simpleStatement hg) fun _ => T.bind semicolon fun _ => T.done _

theorem statement : T.holds (Parser.statement g) := T.bind nextStart fun _ => spanned (statementForm hg)

end

/-- Where blocks have the trait, all parsers of nested constructs have it at every depth. -/
theorem ofRoom (o : ParseOptions) (hblock : ∀ room, T.Of (Inner.ofRoom o room) →
    T.holds (Parser.blockBody o (Inner.ofRoom o room))) (room : Nat) : T.Of (Inner.ofRoom o room) := by
  induction room with
  | zero =>
    exact ⟨fun _ _ => rfl, fun _ => tooDeep _, fun _ => tooDeep _, fun _ _ => tooDeep _, fun _ => tooDeep _,
      tooDeep _, tooDeep _⟩
  | succ room ih =>
    exact ⟨Silent.typeExpr o.maxDepth (room + 1), typeExpr o.maxDepth (room + 1), expressionBody ih, chainBody ih,
      unaryBody ih, hblock room ih, ifBody ih⟩

/-! ### Declarations -/

theorem importPath : T.holds Parser.importPath := by
  have hsegment : T.holds Parser.pathSegment := by
    refine T.bind nextKind fun kind => ?_
    split
    · exact T.bind skip fun _ => T.done _
    · exact identifier
  exact T.bind (expect _ _) fun _ => T.bind (separatedBy _ hsegment) fun _ => T.bind semicolon fun _ => T.done _

theorem globalLine : T.holds Parser.globalLine := by
  have hoption : T.holds Parser.globalOption := by
    refine T.bind nextKind fun kind => ?_
    split
    · exact T.bind skip fun _ => T.done _
    · exact T.bind skip fun _ => T.done _
    · exact unexpected _
  exact T.bind (expect _ _) fun _ => T.bind (separatedBy _ hoption) fun _ => T.bind semicolon fun _ => T.done _

theorem moduleLine : T.holds Parser.moduleLine :=
  T.bind skip fun _ => T.bind identifier fun _ => T.bind semicolon fun _ => T.done _

theorem modifierList : T.holds Parser.modifierList := by
  refine T.collect (T.bind (isAt _) fun _ => ite ?_ (T.bind nextKind fun kind => ?_))
  · refine looking (.kindAt 1) fun kind => ?_
    split
    · exact T.bind skip fun _ => T.bind skip fun _ => T.done _
    · exact T.bind skip fun _ => unexpected _
  · split
    · exact T.bind skip fun _ => T.done _
    · exact T.done _

theorem declName : T.holds Parser.declName := by
  refine T.bind nextStart fun _ => T.bind nextKind fun kind => ?_
  split
  · exact T.bind skip fun _ => doneFrom
  · refine T.bind identifier fun _ => T.bind (isAt _) fun _ => ite ?_ doneFrom
    exact spanned pathTail

section
variable (hg : T.Of g)
include hg

theorem attributeList : T.holds (Parser.attributeList g) := by
  refine T.collect (T.bind (isAt _) fun _ => ite ?_ (T.done _))
  refine T.bind skip fun _ => T.bind identifier fun _ => T.bind (isAt _) fun _ => ite (spanned (arguments hg)) ?_
  exact doneFrom

theorem returnType : T.holds (Parser.returnType g) :=
  T.bind (accept _) fun _ => ite (T.bind (hg.type _) fun _ => T.done _) (T.done _)

theorem functionBody (modifiers : List Modifier) (name : DeclName) :
    T.holds (Parser.functionBody g modifiers name) := by
  refine T.bind (isAt _) fun _ => ite ?_ (T.bind (T.onError _ semicolon) fun _ => T.done _)
  exact T.bind hg.block fun _ => ite (fail _) (T.done _)

theorem functionDecl (modifiers : List Modifier) : T.holds (Parser.functionDecl g modifiers) := by
  refine T.bind (expect _ _) fun _ => T.bind declName fun _ => T.bind typeParams fun _ => ?_
  refine T.bind (paramList hg) fun _ => T.bind (attributeList hg) fun _ => T.bind (returnType hg) fun _ => ?_
  exact T.bind (functionBody hg _ _) fun _ => T.done _

theorem constDecl (modifiers : List Modifier) : T.holds (Parser.constDecl g modifiers) := by
  have htype : T.holds (Parser.constType g) :=
    T.bind atIdent fun _ => T.bind (isAhead _ _) fun _ => ite (T.done _) (T.bind (hg.type _) fun _ => T.done _)
  refine T.bind (expect _ _) fun _ => T.bind htype fun _ => T.bind identifier fun _ => T.bind (expect _ _) fun _ => ?_
  exact T.bind (hg.expression _) fun _ => T.bind semicolon fun _ => T.done _

theorem structField : T.holds (Parser.structField g) := by
  refine T.bind nextStart fun _ => T.bind atIdent fun _ => T.bind (isAhead _ _) fun _ => ite ?_ ?_
  · exact T.bind identifier fun _ => T.bind skip fun _ => T.bind (hg.type _) fun _ => doneFrom
  · exact T.bind (hg.type _) fun _ => T.bind identifier fun _ => doneFrom

theorem fieldRound (opened : Span) : T.holds (Parser.fieldRound g opened) := by
  refine T.bind (accept _) fun _ => ite (T.done _) ?_
  refine T.bind atEnd fun _ => T.bind (isAt _) fun _ => T.bind (isAt _) fun _ => ite ?_ ?_
  · exact T.bind nextKind fun _ => T.bind nextSpan fun _ => fail _
  refine T.bind (structField hg) fun _ => T.bind (accept _) fun _ => ite (T.done _) ?_
  refine T.bind (accept _) fun _ => ite (T.done _) ?_
  exact T.bind (isAt _) fun _ => ite (T.done _) (unexpected _)

theorem structDecl (modifiers : List Modifier) : T.holds (Parser.structDecl g modifiers) := by
  refine T.bind (expect _ _) fun _ => T.bind identifier fun _ => T.bind typeParams fun _ => ?_
  refine T.bind (attributeList hg) fun _ => T.bind (expect _ _) fun _ => ?_
  exact T.bind (T.collect (fieldRound hg _)) fun _ => T.bind (accept _) fun _ => T.done _

theorem modifiedForm : T.holds (Parser.modifiedForm g) := by
  refine T.bind modifierList fun _ => T.bind nextKind fun kind => ?_
  split
  · exact T.bind (functionDecl hg _) fun _ => ite (T.done _) (T.done _)
  · exact T.bind (constDecl hg _) fun _ => T.done _
  · exact T.bind (structDecl hg _) fun _ => T.done _
  · exact failHere (e := fun kind span => { cause := .noDeclaration kind, span, hints := [.topLevelForms] })

theorem declaration : T.holds (Parser.declaration g) := by
  have hform : T.holds (Parser.declarationForm g) := by
    refine T.bind nextKind fun kind => ?_
    split
    · exact T.bind importPath fun _ => T.done _
    · exact T.bind globalLine fun _ => T.done _
    · exact T.bind moduleLine fun _ => T.done _
    · exact modifiedForm hg
  exact T.bind nextStart fun _ => spanned hform

end

end Trait

end ElleFrontEnd
