import ElleFrontEnd.Proofs.GraftChain
import ElleFrontEnd.Proofs.Placed

/-!
# Exact stretches

The stretch of a type or an expression begins with the first token that it was read from, and ends with the last
(`span_typeExpr`, `exact_ofRoom`).  Where an operator or a conditional merges the stretches of its operands, this needs
that tokens stand in order.
-/

namespace ElleFrontEnd

open ElleFrontEnd.Parser (typeExpr)

/-- Expressions that are read of a text have exact stretches. -/
structure Inner.Exact (text : List Char) (g : Inner) : Prop where
  expression : ∀ {header s e s'}, Placed text s → (g.expression header).run s = (.ok e, s') →
    e.span = s'.spanFrom s.start
  chain : ∀ {header level s e s'}, Placed text s → (g.chain header level).run s = (.ok e, s') →
    e.span = s'.spanFrom s.start
  unary : ∀ {header s e s'}, Placed text s → (g.unary header).run s = (.ok e, s') → e.span = s'.spanFrom s.start

/-- Two stretches one behind the other, as they were read. -/
theorem ParseState.merge_spanFrom {s s₁ s₂ s' : ParseState} (hstart : s.start ≤ s₂.start)
    (hstop : s₁.readStop ≤ s'.readStop) : (s₁.spanFrom s.start).merge (s'.spanFrom s₂.start) = s'.spanFrom s.start := by
  simp [Span.merge, spanFrom, hstart, hstop]

namespace Parser

variable {text : List Char} {s s₁ s' : ParseState} {g : Inner} {header : Bool} {limit room angles : Nat}

/-! ### Types -/

theorem span_typeSuffix {start : Nat} {t t' : TypeExpr} (h : (typeSuffix start t).run s = (.ok (some t'), s')) :
    t'.span = s'.spanFrom start := by
  obtain ⟨-, ⟨-, n, -, rfl⟩ | ⟨-, -, n, -, rfl⟩⟩ := typeSuffix_some.1 h <;> rfl

theorem span_typeSuffixes {start : Nat} {t t' : TypeExpr} (h : Ascends (typeSuffix start) t s t' s')
    (ht : t.span = s.spanFrom start) : t'.span = s'.spanFrom start := by
  induction h with
  | refl => exact ht
  | next h _ ih => exact ih (span_typeSuffix h)

theorem span_baseType {type : Nat → Parser TypeExpr} {start : Nat} {t : TypeExpr}
    (h : (baseType type angles start).run s = (.ok t, s')) : t.span = s'.spanFrom start := by
  rcases baseType_ok.1 h with ⟨p, -, rfl, rfl⟩ | ⟨name, -, h⟩ | ⟨-, h⟩
  · rfl
  · rcases namedType_ok.1 h with ⟨-, -, args, -, rfl⟩ | ⟨-, rfl, rfl⟩ <;> rfl
  · obtain ⟨first, s₁, second, s₂, -, -, -, -, rfl, rfl⟩ := tupleType_ok.1 h
    rfl

/-! ### Expressions -/

section
variable (hg : g.Settled)
include hg

theorem span_primary {e : Expr} (h : (primary g header).run s = (.ok e, s')) : e.span = s'.spanFrom s.start := by
  rcases primary_ok.1 h with ⟨hl, rfl⟩ | ⟨-, h⟩ | ⟨-, h⟩ | ⟨-, h⟩ | ⟨-, h⟩ | ⟨-, h⟩ | ⟨-, h⟩
  · unfold literalOf? at hl
    split at hl <;> cases hl <;> rfl
  · obtain ⟨-, params, s₁, -, ⟨-, body, -, rfl⟩ | ⟨-, body, -, rfl⟩⟩ := lambda_ok.1 h <;> rfl
  · obtain ⟨name, -, ⟨-, names, -, rfl⟩ | ⟨-, -, h⟩ | ⟨-, -, rfl, rfl⟩⟩ := (nameExpr_ok hg).1 h
    · rfl
    · obtain ⟨generics, s₁, fields, s₂, -, -, -, -, rfl, rfl⟩ := (structLiteral?_some hg).1 h
      rfl
    · rfl
  · obtain ⟨inner, s₁, -, -, rfl, rfl⟩ := parenthesized_ok.1 h
    rfl
  · obtain ⟨-, element, s₁, elements, s₂, -, -, rfl, rfl, -⟩ := (arrayLiteral_ok hg).1 h
    rfl
  · obtain ⟨-, ⟨-, h⟩ | ⟨name, x, -, -, -, rfl⟩⟩ := hashExpr_ok.1 h
    · obtain ⟨-, element, s₁, elements, s₂, -, -, rfl, rfl, -⟩ := (arrayLiteral_ok hg).1 h
      rfl
    · rfl
  · obtain ⟨-, -, ⟨-, -, -, a, b, c, -, rfl⟩ | ⟨-, a, b, -, rfl⟩ |
      ⟨name, -, ⟨-, -, args, -, rfl⟩ | ⟨-, rfl, rfl⟩⟩⟩ := dollarExpr_ok.1 h <;> rfl

theorem span_suffixes {start : Nat} {e e' : Expr} (h : Ascends (suffixStep g start) e s e' s')
    (he : e.span = s.spanFrom start) : e'.span = s'.spanFrom start := by
  induction h with
  | refl => exact he
  | next h _ ih =>
    refine ih ?_
    rcases (suffixStep_some hg).1 h with ⟨-, args, -, rfl⟩ | ⟨-, -, -, generics, s₁, args, -, -, rfl⟩ |
      ⟨-, name, -, rfl, rfl⟩ | ⟨-, index, s₁, -, -, rfl, rfl⟩ <;> rfl

theorem span_unaryBody {e : Expr} (h : (unaryBody g header).run s = (.ok e, s')) : e.span = s'.spanFrom s.start := by
  rcases (unaryBody_ok hg).1 h with ⟨op, unary, inner, -, -, -, -, rfl⟩ | ⟨-, h⟩ | ⟨-, h⟩ | ⟨-, -, h⟩
  · rfl
  · obtain ⟨-, inner, -, rfl⟩ := doubleAddress_ok.1 h
    rfl
  · obtain ⟨type, s₁, inner, -, -, -, rfl⟩ := (cast?_some hg).1 h
    rfl
  · obtain ⟨first, s₁, hp, hgrow⟩ := (operandExpr_ok hg).1 h
    obtain ⟨s₂, hclimb, hstop⟩ := Ascends.of_grows hgrow
    obtain rfl := ((suffixStep_none hg).1 hstop).1
    exact span_suffixes hg hclimb (span_primary hg hp)

variable (hx : g.Exact text)
include hx

omit hg hx in
theorem span_joined {op : Operator} {left right e : Expr} (h : joined? op left right = some e) :
    e.span = left.span.merge right.span := by
  unfold joined? at h
  split at h
  · cases h
    rfl
  · cases h
    rfl
  · obtain ⟨binary, -, rfl⟩ := Option.map_eq_some_iff.1 h
    rfl

theorem span_chain {level : Nat} {e e' : Expr} (hp : Placed text s) (ha : Advances s s₁)
    (h : Ascends (chainStep g header level) e s₁ e' s') (he : e.span = s₁.spanFrom s.start) :
    e'.span = s'.spanFrom s.start := by
  induction h with
  | refl => exact he
  | @next e e₁ e' s₁ s₂ s' h _ ih =>
    obtain ⟨op, right, -, -, -, -, hr, hjoined⟩ := chainStep_some.1 h
    have hoperator := ha.trans (.advance s₁)
    have hright := advances_run (hg.chain header _) hr
    refine ih (hoperator.trans hright) ?_
    rw [span_joined hjoined, he, hx.chain (hp.advances hoperator).1 hr]
    exact ParseState.merge_spanFrom (hp.advances hoperator).2.2
      ((hp.advances ha).1.advances ((Advances.advance s₁).trans hright)).2.1

theorem span_chainBody {level : Nat} {e : Expr} (hp : Placed text s)
    (h : (chainBody g header level).run s = (.ok e, s')) :
    e.span = s'.spanFrom s.start := by
  obtain ⟨first, s₁, hu, hgrow⟩ := (chainBody_ok hg).1 h
  obtain ⟨s₂, hclimb, hstop⟩ := Ascends.of_grows hgrow
  obtain rfl := (chainStep_none.1 hstop).1
  exact span_chain hg hx hp
    (advances_run (Alike.advances fun us => Alike.unaryBody (.refl us) (hg.steady us) header) hu)
    hclimb (span_unaryBody hg hu)

theorem span_expressionBody {e : Expr} (hp : Placed text s) (h : (expressionBody g header).run s = (.ok e, s')) :
    e.span = s'.spanFrom s.start := by
  obtain ⟨condition, s₁, hc, ⟨-, rfl, rfl⟩ | ⟨-, chosen, s₂, alternative, hch, -, ha, rfl⟩⟩ := expressionBody_ok.1 h
  · exact span_chainBody hg hx hp hc
  · have hcondition := advances_run (Alike.advances fun us => Alike.chainBody (.refl us) (hg.steady us) header 1) hc
    have hchosen : Advances s₁ s₂ := by
      refine (Advances.advance s₁).trans ?_
      rcases consequence_ok.1 hch with ⟨-, -, rfl⟩ | ⟨-, e, -, he⟩
      · exact .refl _
      · exact advances_run (hg.expression header) he
    have hcolon := hchosen.trans (.advance s₂)
    have halternative := advances_run (hg.expression header) ha
    change condition.span.merge alternative.span = _
    rw [span_chainBody hg hx hp hc, hx.expression (hp.advances (hcondition.trans hcolon)).1 ha]
    exact ParseState.merge_spanFrom (hp.advances (hcondition.trans hcolon)).2.2
      ((hp.advances hcondition).1.advances (hcolon.trans halternative)).2.1

end

/-- At every level of nesting, expressions have exact stretches. -/
theorem exact_ofRoom (text : List Char) (limit room : Nat) : (Inner.ofRoom ⟨limit, false⟩ room).Exact text := by
  induction room with
  | zero =>
    exact
      { expression := fun _ h => absurd (tooDeep_ok.1 h) id
        chain := fun _ h => absurd (tooDeep_ok.1 h) id
        unary := fun _ h => absurd (tooDeep_ok.1 h) id }
  | succ room ih =>
    have hg := settled_ofRoom ⟨limit, false⟩ room
    exact ⟨span_expressionBody hg ih, span_chainBody hg ih, fun _ => span_unaryBody hg⟩

end Parser

end ElleFrontEnd
