import ElleFrontEnd.Proofs.Plain
import ElleFrontEnd.Proofs.ReadDeclaration
import ElleFrontEnd.Proofs.TypeRoundTrip

/-!
# What is read needs no further parentheses

Each operand that is read binds tightly enough where it stands, and nothing follows the body of a lambda, so that a tree
that was read is printed with its own parentheses and no others (`parsePartial_bare`).  Behind a name in parentheses, an
operand is read only if it begins with nothing that could stand between two operands.
-/

namespace ElleFrontEnd

theorem exprListBare_iff {es : List Expr} : exprListBare es ↔ ∀ e ∈ es, e.Bare true := by
  induction es with
  | nil => simp [exprListBare]
  | cons e es ih => simp [exprListBare, ih]

theorem fieldInitListBare_iff {fs : List FieldInit} : fieldInitListBare fs ↔ ∀ f ∈ fs, f.Bare := by
  induction fs with
  | nil => simp [fieldInitListBare]
  | cons f fs ih => simp [fieldInitListBare, ih]

theorem stmtListBare_iff {ss : List Stmt} : stmtListBare ss ↔ ∀ s ∈ ss, s.Bare := by
  induction ss with
  | nil => simp [stmtListBare]
  | cons s ss ih => simp [stmtListBare, ih]

theorem bare_unparenthesized {e : Expr} (h : e.Bare true) : e.unparenthesized.Bare true := by
  cases e <;> exact h

namespace Expr

variable {level : Nat} {openRight : Bool} {e : Expr}

/-- What binds tightly enough and ends in no lambda fits everywhere. -/
theorem fits_of_closed (hl : level ≤ e.level) (h : e.endsOpen = false) : e.Fits level openRight := by
  have hnot : ¬ e.level < level := by omega
  simp [Fits, needsGroup, hnot, endsInBody_of_closed h]

/-- At the right edge, only the level counts. -/
theorem fits_of_level (hl : level ≤ e.level) : e.Fits level true := by
  have hnot : ¬ e.level < level := by omega
  simp [Fits, needsGroup, hnot]

theorem Fits.of_closed (h : e.Fits level true) (hc : e.endsOpen = false) : e.Fits level openRight := by
  refine fits_of_closed ?_ hc
  by_contra hlt
  have hlow : e.level < level := by omega
  simp [Fits, needsGroup, hlow] at h

/-- Where an expression ends in no lambda, it does not matter what follows. -/
theorem Bare.of_closed (e : Expr) (h : e.Bare true) (hc : e.endsOpen = false) : e.Bare openRight := by
  match e with
  | .binary _ _ _ right => exact ⟨h.1, h.2.1.of_closed hc, Bare.of_closed right h.2.2 hc⟩
  | .range _ _ stop _ => exact ⟨h.1, h.2.1.of_closed hc, Bare.of_closed stop h.2.2 hc⟩
  | .unary _ _ operand => exact ⟨h.1.of_closed hc, Bare.of_closed operand h.2 hc⟩
  | .cast _ _ operand => exact ⟨h.1, h.2.1.of_closed hc, Bare.of_closed operand h.2.2 hc⟩
  | .conditional _ _ _ alternative =>
    exact ⟨h.1, h.2.1, h.2.2.1.of_closed hc, Bare.of_closed alternative h.2.2.2 hc⟩
  | .lambda _ _ _ => simp [endsOpen] at hc
  | .call _ _ _ _ | .member _ _ _ | .subscript _ _ _ | .paren _ _ | .ident _ _ | .qualified _ _ | .rawName _ _
  | .number _ _ | .str _ _ | .bool _ _ | .char _ _ | .array _ _ _ _ | .tuple _ _ _ | .triple _ _ _ _
  | .structLit _ _ _ _ | .blockLambda _ _ _ | .directive _ _ | .sigil _ _ _ => exact h

end Expr

/-- The parsers of nested constructs yield bare trees, and an operand that begins with what could stand between two
operands is read off such a token. -/
structure Inner.ReadsBare (g : Inner) : Prop where
  expression : ∀ header, (g.expression header).Yields (Expr.Bare true)
  chain : ∀ header level, level ≤ leadingLevel → (g.chain header level).Yields (Expr.Bare true)
  unary : ∀ header, (g.unary header).Yields (Expr.Bare true)
  opens : ∀ header s e s', (g.unary header).run s = (.ok e, s') → e.opensAmbiguously = true →
    Parser.opensOperand false s.peek.kind = false
  block : g.block.Yields Block.Bare
  elseIf : g.elseIf.Yields fun parts => parts.condition.Bare true ∧ parts.body.Bare ∧ parts.otherwise.Bare

namespace Parser

variable {g : Inner} {header : Bool} {s s' : ParseState} (hg : g.Settled) (hf : g.Forms) (hb : g.ReadsBare)

/-! ### How an operand begins -/

section
include hg

theorem opens_primary {e : Expr} (h : (primary g header).run s = (.ok e, s')) (he : e.opensAmbiguously = true) :
    opensOperand false s.peek.kind = false := by
  have harray {start : Nat} {isStatic : Bool} {s₀ : ParseState}
      (h : (arrayLiteral g start isStatic).run s₀ = (.ok e, s')) : isStatic = false := by
    obtain ⟨-, element, s₁, elements, s₂, -, -, -, rfl, -⟩ := (arrayLiteral_ok hg).1 h
    simpa [Expr.opensAmbiguously] using he
  rcases primary_ok.1 h with ⟨h, -⟩ | ⟨-, h⟩ | ⟨-, h⟩ | ⟨-, h⟩ | ⟨hk, -⟩ | ⟨-, h⟩ | ⟨-, h⟩
  · unfold literalOf? at h
    split at h <;> cases h <;> cases he
  · obtain ⟨-, params, s₁, -, ⟨-, body, -, rfl⟩ | ⟨-, body, -, rfl⟩⟩ := lambda_ok.1 h <;>
      simp [Expr.opensAmbiguously] at he
  · obtain ⟨name, -, ⟨-, names, -, rfl⟩ | ⟨-, -, h⟩ | ⟨-, -, -, rfl⟩⟩ := (nameExpr_ok hg).1 h
    · simp [Expr.opensAmbiguously] at he
    · obtain ⟨generics, s₁, fields, s₂, -, -, -, -, -, rfl⟩ := (structLiteral?_some hg).1 h
      simp [Expr.opensAmbiguously] at he
    · simp [Expr.opensAmbiguously] at he
  · obtain ⟨inner, s₁, -, -, -, rfl⟩ := parenthesized_ok.1 h
    simp [Expr.opensAmbiguously] at he
  · rw [hk]
    rfl
  · obtain ⟨-, ⟨-, h⟩ | ⟨name, d, -, -, -, rfl⟩⟩ := hashExpr_ok.1 h
    · cases harray h
    · simp [Expr.opensAmbiguously] at he
  · obtain ⟨-, -, ⟨-, -, -, a, b, c, -, rfl⟩ | ⟨-, a, b, -, rfl⟩ | ⟨name, -, ⟨-, -, args, -, rfl⟩ | ⟨-, -, rfl⟩⟩⟩ :=
      dollarExpr_ok.1 h <;> simp [Expr.opensAmbiguously] at he

/-- Calls, members and subscripts begin like what they stand behind. -/
theorem opensAmbiguously_of_grows {start : Nat} {e e' : Expr} (h : Grows (suffixStep g start) e s e' s')
    (he : e'.opensAmbiguously = true) : e.opensAmbiguously = true := by
  induction h with
  | stop _ => exact he
  | next h _ ih =>
    have hnext := ih he
    rcases (suffixStep_some hg).1 h with ⟨-, args, -, rfl⟩ | ⟨-, -, -, generics, s₁, args, -, -, rfl⟩ |
      ⟨-, name, -, -, rfl⟩ | ⟨-, index, s₁, -, -, -, rfl⟩ <;>
      simp only [Expr.opensAmbiguously, Bool.and_eq_true] at hnext <;> exact hnext.2

theorem opens_unaryBody {e : Expr} (h : (unaryBody g header).run s = (.ok e, s')) (he : e.opensAmbiguously = true) :
    opensOperand false s.peek.kind = false := by
  rcases (unaryBody_ok hg).1 h with ⟨op, unary, inner, hk, hu, -, -, rfl⟩ | ⟨hk, -⟩ | ⟨-, h⟩ | ⟨-, -, h⟩
  · obtain rfl : unary.operator = op := by simpa [UnaryOp.ofOperator?] using List.find?_some hu
    rw [hk]
    cases unary <;> first | rfl | simp [Expr.opensAmbiguously] at he
  · rw [hk]
    rfl
  · obtain ⟨type, s₁, inner, -, -, -, rfl⟩ := (cast?_some hg).1 h
    simp [Expr.opensAmbiguously] at he
  · obtain ⟨first, s₁, hfirst, hrest⟩ := (operandExpr_ok hg).1 h
    exact opens_primary hg hfirst (opensAmbiguously_of_grows hg hrest he)

end

/-! ### Expressions -/

/-- Both operands fit around their operator. -/
theorem joined_bare {op : Operator} {left right e : Expr} (h : joined? op left right = some e)
    (hleft : left.Fits (operandLevels op).1 false ∧ left.Bare false)
    (hright : right.Fits (operandLevels op).2 true ∧ right.Bare true) : e.Bare true := by
  unfold joined? at h
  split at h
  · cases h
    exact ⟨hleft, hright⟩
  · cases h
    exact ⟨hleft, hright⟩
  · obtain ⟨binary, hbinary, rfl⟩ := Option.map_eq_some_iff.1 h
    obtain rfl : binary.operator = op := by simpa using List.find?_some hbinary
    exact ⟨hleft, hright⟩

section
include hb

theorem commaListed_bare {close : Punctuation} {es : List Expr}
    (h : CommaListed close (g.expression false) s es s') : exprListBare es :=
  exprListBare_iff.2 (Yields.listed (hb.expression false) h)

theorem optionalOperand_bare : (optionalOperand g).Yields optExprBare := by
  intro s o s' h
  rcases optionalOperand_ok.1 h with ⟨-, e, rfl, he⟩ | ⟨-, rfl, -⟩
  · exact hb.expression false _ _ _ he
  · trivial

theorem operands_bare {d : Directive} (h : Operands g s s' d) : d.Bare := by
  cases d with
  | len e | free e | setAllocator e => exact hb.expression false _ _ _ h.2
  | size | ident | env | resetAllocator => trivial
  | alloc type count =>
    obtain ⟨-, s₁, -, hc⟩ := h
    exact optionalOperand_bare hb _ _ _ hc
  | realloc e type count =>
    obtain ⟨-, s₁, s₂, he, -, -, -, hc⟩ := h
    exact ⟨hb.expression false _ _ _ he, optionalOperand_bare hb _ _ _ hc⟩

theorem lambda_bare : (lambda g header).Yields (Expr.Bare true) := by
  intro s e s' h
  obtain ⟨-, params, s₁, -, ⟨-, body, hbody, rfl⟩ | ⟨-, body, hbody, rfl⟩⟩ := lambda_ok.1 h
  · exact (hb.block _ _ _ hbody : body.Bare)
  · exact ⟨Expr.fits_of_level (Nat.zero_le _), hb.expression header _ _ _ hbody⟩

include hg

theorem arguments_bare : (arguments g).Yields exprListBare := by
  intro s es s' h
  obtain ⟨-, s₁, hes, -⟩ := (arguments_ok hg).1 h
  exact commaListed_bare hb hes

theorem nameExpr_bare : (nameExpr g header).Yields (Expr.Bare true) := by
  intro s e s' h
  obtain ⟨name, -, ⟨-, names, -, rfl⟩ | ⟨-, -, h⟩ | ⟨-, -, -, rfl⟩⟩ := (nameExpr_ok hg).1 h
  · trivial
  · obtain ⟨generics, s₁, fields, s₂, -, -, hfs, -, -, rfl⟩ := (structLiteral?_some hg).1 h
    have hfield : (fieldInit g).Yields FieldInit.Bare := by
      intro s f s' h
      obtain ⟨name, value, -, -, hv, rfl⟩ := fieldInit_ok.1 h
      exact hb.expression false _ _ _ hv
    exact fieldInitListBare_iff.2 (Yields.listed hfield hfs)
  · trivial

theorem arrayLiteral_bare (start : Nat) (isStatic : Bool) :
    (arrayLiteral g start isStatic).Yields (Expr.Bare true) := by
  intro s e s' h
  obtain ⟨-, element, s₁, elements, s₂, hes, -, -, rfl, -⟩ := (arrayLiteral_ok hg).1 h
  exact commaListed_bare hb hes

theorem hashExpr_bare : (hashExpr g).Yields (Expr.Bare true) := by
  intro s e s' h
  obtain ⟨-, ⟨-, h⟩ | ⟨name, d, -, -, hd, rfl⟩⟩ := hashExpr_ok.1 h
  · exact arrayLiteral_bare hg hb _ _ _ _ _ h
  · obtain ⟨-, ⟨henv, -⟩ | ⟨-, -, s₁, hops, -⟩⟩ := directiveOf_ok.1 hd
    · cases d <;> cases henv
      trivial
    · exact operands_bare hb hops

theorem dollarExpr_bare : (dollarExpr g).Yields (Expr.Bare true) := by
  intro s e s' h
  obtain ⟨-, -, ⟨-, -, -, a, b, c, hargs, rfl⟩ | ⟨-, a, b, hargs, rfl⟩ |
    ⟨name, -, ⟨-, -, args, hargs, rfl⟩ | ⟨-, -, rfl⟩⟩⟩ := dollarExpr_ok.1 h
  · obtain ⟨hfirst, hsecond, hthird, -⟩ := arguments_bare hg hb _ _ _ hargs
    exact ⟨hfirst, hsecond, hthird⟩
  · obtain ⟨hfirst, hsecond, -⟩ := arguments_bare hg hb _ _ _ hargs
    exact ⟨hfirst, hsecond⟩
  · exact arguments_bare hg hb _ _ _ hargs
  · trivial

theorem primary_bare : (primary g header).Yields (Expr.Bare true) := by
  intro s e s' h
  rcases primary_ok.1 h with ⟨h, -⟩ | ⟨-, h⟩ | ⟨-, h⟩ | ⟨-, h⟩ | ⟨-, h⟩ | ⟨-, h⟩ | ⟨-, h⟩
  · unfold literalOf? at h
    split at h <;> cases h <;> trivial
  · exact lambda_bare hb _ _ _ h
  · exact nameExpr_bare hg hb _ _ _ h
  · obtain ⟨inner, s₁, hi, -, -, rfl⟩ := parenthesized_ok.1 h
    exact (hb.expression false _ _ _ hi : inner.Bare true)
  · exact arrayLiteral_bare hg hb _ _ _ _ _ h
  · exact hashExpr_bare hg hb _ _ _ h
  · exact dollarExpr_bare hg hb _ _ _ h

/-- Calls, members and subscripts stand behind what binds as tightly as they do, and ends in no lambda. -/
theorem suffixed_bare {e e' : Expr} (h : Suffixed g e s e' s') (he : e.Bare true) : e'.Bare true := by
  have hhead {e : Expr} (ht : Tight e) (he : e.Bare true) : e.Fits trailingLevel false ∧ e.Bare false :=
    ⟨Expr.fits_of_closed ht.level_le ht.closed, he.of_closed _ ht.closed⟩
  induction h with
  | stop _ => exact he
  | call _ ht _ hargs _ ih => exact ih ⟨hhead ht he, arguments_bare hg hb _ _ _ hargs⟩
  | genericCall _ ht _ _ _ hargs _ ih => exact ih ⟨hhead ht he, arguments_bare hg hb _ _ _ hargs⟩
  | member _ ht _ _ _ ih => exact ih (hhead ht he)
  | subscript _ ht _ hi _ _ ih => exact ih ⟨hhead ht he, hb.expression false _ _ _ hi⟩

include hf

theorem unaryBody_bare : (unaryBody g header).Yields (Expr.Bare true) := by
  intro s e s' h
  have hoperand {header : Bool} {s s' : ParseState} {inner : Expr} (hi : (g.unary header).run s = (.ok inner, s')) :
      inner.Fits leadingLevel true ∧ inner.Bare true :=
    ⟨Expr.fits_of_level (hf.unary hi).level_le, hb.unary header _ _ _ hi⟩
  rcases (unaryBody_ok hg).1 h with ⟨op, unary, inner, -, -, -, hi, rfl⟩ | ⟨-, h⟩ | ⟨-, h⟩ | ⟨-, -, h⟩
  · exact hoperand hi
  · obtain ⟨-, inner, hi, rfl⟩ := doubleAddress_ok.1 h
    exact ⟨Expr.fits_of_level (Nat.le_refl _), hoperand hi⟩
  · obtain ⟨type, s₁, inner, -, hopen, hi, rfl⟩ := (cast?_some hg).1 h
    refine ⟨?_, hoperand hi⟩
    by_contra hwrap
    simp only [Expr.FollowsCast, Bool.not_eq_false, Bool.and_eq_true] at hwrap
    -- behind a name, such a token would have been taken for an operator between two operands
    have hclosed := hb.opens header _ _ _ hi hwrap.2
    simp [hwrap.1, hclosed] at hopen
  · obtain ⟨first, s₁, hfirst, hrest, -⟩ := suffixed_of_operandExpr hg hf h
    exact suffixed_bare hg hb hrest (primary_bare hg hb _ _ _ hfirst)

theorem chainBody_bare {level : Nat} (hl : level ≤ leadingLevel) :
    (chainBody g header level).Yields (Expr.Bare true) := by
  intro s e s' h
  obtain ⟨first, s₁, hfirst, -, hrest, -⟩ := chained_of_chainBody hg hf hl h
  have hbare := unaryBody_bare hg hf hb _ _ _ hfirst
  clear h hfirst
  induction hrest with
  | stop _ => exact hbare
  | @next _ _ _ _ _ _ _ op _ _ _ hlevel hclosed _ hright hlevel' hj _ ih =>
    have hlow : rightLevel op.precedence op.associativity ≤ leadingLevel := Nat.le_succ_of_le (rightLevel_le op).2
    exact ih (joined_bare hj ⟨Expr.fits_of_closed hlevel hclosed, hbare.of_closed _ hclosed⟩
      ⟨Expr.fits_of_level hlevel', hb.chain header _ hlow _ _ _ hright⟩)

theorem expressionBody_bare : (expressionBody g header).Yields (Expr.Bare true) := by
  intro s e s' h
  obtain ⟨condition, s₁, hc, ⟨-, rfl, -⟩ | ⟨hq, chosen, s₂, alternative, hchosen, -, ha, rfl⟩⟩ :=
    expressionBody_ok.1 h
  all_goals have hcondition := chainBody_bare hg hf hb (by decide) _ _ _ hc
  · exact hcondition
  · obtain ⟨-, -, -, -, -, hformed⟩ := chained_of_chainBody hg hf (by decide) hc
    have hclosed : condition.endsOpen = false := by
      by_contra ho
      exact (hformed.ends (by simpa using ho)).question hq
    refine ⟨⟨Expr.fits_of_closed hformed.level_le hclosed, hcondition.of_closed _ hclosed⟩, ?_,
      Expr.fits_of_level (Nat.zero_le _), hb.expression header _ _ _ ha⟩
    rcases consequence_ok.1 hchosen with ⟨-, rfl, -⟩ | ⟨-, e, rfl, he⟩
    · trivial
    · exact hb.expression header _ _ _ he

end

/-! ### Statements -/

section
include hb

theorem initializer_bare : (initializer g header).Yields optExprBare := by
  intro s o s' h
  rcases initializer_ok.1 h with ⟨-, e, rfl, he⟩ | ⟨-, rfl, -⟩
  · exact hb.expression header _ _ _ he
  · trivial

/-- Whether what a declaration of a variable or a buffer holds is bare. -/
def BindingForm.Bare : BindingForm → Prop
  | .variable _ _ _ init => optExprBare init
  | .buffer _ _ size => size.Bare true

theorem headerCondition_bare : (headerCondition g).Yields (Expr.Bare true) := by
  intro s e s' h
  obtain ⟨e₀, he, rfl⟩ := headerCondition_ok.1 h
  exact bare_unparenthesized (hb.expression true _ _ _ he)

theorem ifBody_bare :
    (ifBody g).Yields fun parts => parts.condition.Bare true ∧ parts.body.Bare ∧ parts.otherwise.Bare := by
  intro s parts s' h
  obtain ⟨-, s₁, s₂, hc, hbody, he⟩ := ifBody_ok.1 h
  refine ⟨headerCondition_bare hb _ _ _ hc, hb.block _ _ _ hbody, ?_⟩
  rcases elsePart_ok.1 he with ⟨-, -, parts', hp, hotherwise⟩ | ⟨-, -, body, hbody', hotherwise⟩ | ⟨-, hotherwise, -⟩
  all_goals rw [hotherwise]
  · exact hb.elseIf _ _ _ hp
  · exact hb.block _ _ _ hbody'
  · trivial

include hg

theorem binding?_bare : (binding? g header).Yields fun o => ∀ form ∈ o, BindingForm.Bare form := by
  intro s o s' h form ho
  obtain rfl := ho
  rcases (binding?_some hg).1 h with ⟨-, name, init, -, hi, rfl⟩ | ⟨-, name, e, -, he, -, rfl⟩ |
    ⟨-, -, ⟨type, name⟩, s₁, -, hbinding⟩
  · exact initializer_bare hb _ _ _ hi
  · exact (hb.expression header _ _ _ he : e.Bare true)
  · rcases typedBinding_ok.1 hbinding with ⟨-, size, s₂, hs, -, -, rfl⟩ | ⟨-, init, hi, rfl⟩
    · exact (hb.expression false _ _ _ hs : size.Bare true)
    · exact initializer_bare hb _ _ _ hi

theorem simpleStatement_bare : (simpleStatement g).Yields fun form => ∀ span, (form span).Bare := by
  intro s form s' h span
  rcases (simpleStatement_ok hg).1 h with ⟨binding, hbinding, rfl⟩ |
    ⟨-, target, s₁, ht, ⟨op, value, ha, rfl⟩ | ⟨-, -, rfl⟩⟩
  · have hform := binding?_bare hg hb _ _ _ hbinding _ rfl
    cases binding <;> exact hform
  · obtain ⟨-, -, -, -, hv⟩ := assignment?_some.1 ha
    exact ⟨hb.expression false _ _ _ ht, hb.expression false _ _ _ hv⟩
  · exact (hb.expression false _ _ _ ht : target.Bare true)

theorem forHeader_bare :
    (forHeader g header).Yields fun parts => parts.1.Bare ∧ parts.2.1.Bare true ∧ parts.2.2.Bare := by
  intro s parts s' h
  obtain ⟨s₁, s₂, hi, -, hc, -, hs⟩ := forHeader_ok.1 h
  refine ⟨?_, hb.expression header _ _ _ hc, ?_⟩
  · rcases (forInit_ok hg).1 hi with ⟨binding, type, name, value, hbinding, hinit⟩ | ⟨-, e, he, hinit⟩
    all_goals rw [hinit]
    · exact (binding?_bare hg hb _ _ _ hbinding _ rfl : optExprBare value)
    · exact (hb.expression header _ _ _ he : e.Bare true)
  · obtain ⟨target, s₃, ht, ⟨op, value, ha, hstep⟩ | ⟨-, -, hstep⟩⟩ := forStep_ok.1 hs
    all_goals rw [hstep]
    · obtain ⟨-, -, -, -, hv⟩ := assignment?_some.1 ha
      exact ⟨hb.expression header _ _ _ ht, hb.expression header _ _ _ hv⟩
    · exact (hb.expression header _ _ _ ht : target.Bare true)

theorem statementForm_bare : (statementForm g).Yields fun form => ∀ span, (form span).Bare := by
  intro s form s' h span
  rcases statementForm_ok.1 h with ⟨-, parts, hif, rfl⟩ | ⟨-, condition, s₁, body, hc, hbody, rfl⟩ | ⟨-, h⟩ |
    ⟨-, e, s₁, he, -, -, rfl⟩ | ⟨-, h⟩ | ⟨-, -, -, rfl⟩ | ⟨-, -, -, rfl⟩ | ⟨-, body, hbody, rfl⟩ | ⟨-, s₁, hs, -, -⟩
  · exact ifBody_bare hb _ _ _ hif
  · exact ⟨headerCondition_bare hb _ _ _ hc, hb.block _ _ _ hbody⟩
  · obtain ⟨-, ⟨name, iterable, s₁, body, -, -, hi, hbody, rfl⟩ | ⟨-, h⟩⟩ := forStatement_ok.1 h
    · exact ⟨hb.expression true _ _ _ hi, hb.block _ _ _ hbody⟩
    · obtain ⟨init, condition, step, body, rfl, ⟨-, s₁, hh, -, hbody⟩ | ⟨-, s₁, hh, hbody⟩⟩ := forLoopRest_ok.1 h
      all_goals
        obtain ⟨hinit, hcondition, hstep⟩ := forHeader_bare hg hb _ _ _ hh
        exact ⟨hinit, hcondition, hstep, hb.block _ _ _ hbody⟩
  · exact (hb.expression false _ _ _ he : e.Bare true)
  · rcases returnStatement_ok.1 h with ⟨-, -, rfl⟩ | ⟨-, e, s₁, he, -, -, rfl⟩
    · trivial
    · exact (hb.expression false _ _ _ he : e.Bare true)
  · trivial
  · trivial
  · have hblock := hb.block _ _ _ hbody
    cases body
    exact hblock
  · exact simpleStatement_bare hg hb _ _ _ hs span

theorem blockBody_bare (o : ParseOptions) : (blockBody o g).Yields Block.Bare := by
  have hround (opened : Span) : (blockRound o g opened).Yields (Yields.OfRound Stmt.Bare) := by
    intro s r s' h
    cases r with
    | stop => trivial
    | none => trivial
    | last st => exact absurd h blockRound_last
    | more st =>
      obtain ⟨form, hform, rfl⟩ := statement_ok.1 (blockRound_more.1 h).2.2.2
      exact statementForm_bare hg hb _ _ _ hform _
  intro s body s' h
  simp [blockBody, expectMark, spanFrom] at h
  obtain ⟨-, statements, h, rfl⟩ := h
  exact stmtListBare_iff.2 (Yields.collect (hround _) _ _ _ h)

/-! ### Declarations -/

theorem attributed_bare {as : List Attribute} (h : Attributed g s as s') : ∀ a ∈ as, a.Bare := by
  induction h with
  | nil _ => simp
  | bare _ _ _ _ ih => exact List.forall_mem_cons.2 ⟨trivial, ih⟩
  | called _ _ _ hargs _ ih => exact List.forall_mem_cons.2 ⟨arguments_bare hg hb _ _ _ hargs, ih⟩

theorem functionDecl_bare (modifiers : List Modifier) : (functionDecl g modifiers).Yields FunctionDecl.Bare := by
  intro s f s' h
  obtain ⟨-, rfl, s₁, s₂, s₃, s₄, s₅, -, -, -, has, -, hbody⟩ := (functionDecl_ok hg).1 h
  refine ⟨attributed_bare hg hb has, ?_⟩
  rcases functionBody_ok.1 hbody with ⟨-, -, body, hsome, hblock⟩ | ⟨-, hnone, -⟩
  · rw [hsome]
    simpa using hb.block _ _ _ hblock
  · simp [hnone]

theorem declaration_bare : (declaration g).Yields Declaration.Bare := by
  intro s d s' h
  obtain ⟨form, hform, rfl⟩ := declaration_ok.1 h
  rcases declarationForm_ok.1 hform with ⟨-, path, -, rfl⟩ | ⟨-, options, -, rfl⟩ | ⟨-, name, -, rfl⟩ | ⟨-, -, -, h⟩
  · trivial
  · trivial
  · trivial
  obtain ⟨ms, s₁, -, ⟨-, decl, hd, rfl⟩ | ⟨-, decl, hd, rfl⟩ | ⟨-, decl, hd, rfl⟩⟩ := modifiedForm_ok.1 h
  · have hdecl := functionDecl_bare hg hb ms _ _ _ hd
    unfold functionForm
    split <;> exact hdecl
  · obtain ⟨-, -, s₂, s₃, -, -, -, hv, -⟩ := constDecl_ok.1 hd
    exact (hb.expression false _ _ _ hv : decl.value.Bare true)
  · obtain ⟨-, -, -, s₂, s₃, s₄, -, has, -⟩ := (structDecl_ok hg).1 hd
    exact attributed_bare hg hb has

end

end Parser

/-- What is read at every depth is bare. -/
theorem readsBare_ofRoom (o : ParseOptions) (room : Nat) : (Inner.ofRoom o room).ReadsBare := by
  induction room with
  | zero =>
    have hdeep {α : Type} {P : α → Prop} : (Parser.tooDeep o.maxDepth).Yields P :=
      fun s a s' h => absurd (Parser.tooDeep_ok.1 h) id
    exact ⟨fun _ => hdeep, fun _ _ _ => hdeep, fun _ => hdeep,
      fun header s e s' h => absurd (Parser.tooDeep_ok.1 h) id, hdeep, hdeep⟩
  | succ room ih =>
    have hg := settled_ofRoom o room
    have hf := Parser.forms_ofRoom o room
    exact
      { expression := fun header => Parser.expressionBody_bare hg hf ih
        chain := fun header level hl => Parser.chainBody_bare hg hf ih hl
        unary := fun header => Parser.unaryBody_bare hg hf ih
        opens := fun header s e s' h he => Parser.opens_unaryBody hg h he
        block := Parser.blockBody_bare hg ih o
        elseIf := Parser.ifBody_bare ih }

/-- The declarations of a program are bare. -/
theorem Parser.program_bare (o : ParseOptions) : (Parser.program o).Yields fun ds => ∀ d ∈ ds, d.Bare := by
  refine Parser.Yields.collect fun s r s' h => ?_
  cases r with
  | stop => trivial
  | none => trivial
  | last d => exact absurd h Parser.programRound_last
  | more d =>
    obtain ⟨-, -, hd⟩ := Parser.programRound_more.1 h
    exact Parser.declaration_bare (settled_ofRoom o _) (readsBare_ofRoom o _) _ _ _ hd

/-- What is read is printed without further parentheses, also where reading has gone on after failures: no operand is
put in parentheses, so that the printed form shows those of the tree and no others. -/
theorem parsePartial_bare (tokens : List Token) (o : ParseOptions) :
    (parsePartial tokens o).1.Bare ∧
      ∀ blankLines, (parsePartial tokens o).1.layout blankLines = (parsePartial tokens o).1.plain blankLines := by
  have hbare : (parsePartial tokens o).1.Bare := by
    unfold parsePartial
    split
    · rename_i declarations s h
      exact Parser.program_bare o _ _ _ h
    · simp [Program.Bare]
  exact ⟨hbare, fun blankLines => Program.layout_eq_plain hbare blankLines⟩

end ElleFrontEnd
