import ElleFrontEnd.Proofs.Openings
import ElleFrontEnd.Proofs.RecoveryProgram

/-!
# The parentheses of expressions

Each parser of an expression passes the parentheses of what it makes (`openings_expressionBody`).
-/

namespace ElleFrontEnd

open Fragment

mutual

/-- The number of `(` of an expression, but for the parameters and the blocks of lambdas. -/
@[simp] def Expr.openings : Expr → Nat
  | .binary _ left _ right => left.openings + right.openings
  | .range _ start stop _ => start.openings + stop.openings
  | .unary _ _ operand => operand.openings
  | .cast _ type operand => Fragment.openings type.layout + 1 + operand.openings
  | .call _ callee generics args =>
    callee.openings + Fragment.openings (optTypeArgsLayout generics) + exprListOpenings args + 1
  | .member _ object n => object.openings + (TokenKind.ident n).openings
  | .subscript _ object index => object.openings + index.openings
  | .conditional _ condition consequence alternative =>
    condition.openings + optExprOpenings consequence + alternative.openings
  | .paren _ inner => inner.openings + 1
  | .ident _ n => (TokenKind.ident n).openings
  | .qualified _ path => (path.map fun n => (TokenKind.ident n).openings).sum
  | .rawName _ raw => (TokenKind.rawName raw).openings
  | .number _ literal => (TokenKind.number literal).openings
  | .str _ parts => (TokenKind.str parts).openings
  | .bool _ _ => 0
  | .char _ part => (TokenKind.char part).openings
  | .array _ none _ elements => exprListOpenings elements
  | .array _ (some element) _ elements => Fragment.openings element.layout + exprListOpenings elements
  | .tuple _ first second => first.openings + second.openings + 1
  | .triple _ first second third => first.openings + second.openings + third.openings + 1
  | .structLit _ n generics fields =>
    (TokenKind.ident n).openings + Fragment.openings (optTypeArgsLayout generics) + fieldInitListOpenings fields
  | .lambda _ _ body => body.openings + 1
  | .blockLambda _ _ _ => 1
  | .directive _ directive => directive.openings
  | .sigil _ n none => (TokenKind.ident n).openings
  | .sigil _ n (some args) => (TokenKind.ident n).openings + exprListOpenings args + 1

/-- The number of `(` of several expressions. -/
@[simp] def exprListOpenings : List Expr → Nat
  | [] => 0
  | e :: es => e.openings + exprListOpenings es

/-- The number of `(` of an expression that may be left out. -/
@[simp] def optExprOpenings : Option Expr → Nat
  | none => 0
  | some e => e.openings

/-- The number of `(` of a field of a struct literal. -/
@[simp] def FieldInit.openings : FieldInit → Nat
  | .mk _ n value => (TokenKind.ident n).openings + value.openings

/-- The number of `(` of the fields of a struct literal. -/
@[simp] def fieldInitListOpenings : List FieldInit → Nat
  | [] => 0
  | f :: fs => f.openings + fieldInitListOpenings fs

/-- The number of `(` of a directive. -/
@[simp] def Directive.openings : Directive → Nat
  | .len value | .free value | .setAllocator value => value.openings + 1
  | .size type => Fragment.openings type.layout + 1
  | .ident n => (TokenKind.ident n).openings + 1
  | .env => 0
  | .alloc type count => Fragment.openings type.layout + optExprOpenings count + 1
  | .realloc pointer type count => pointer.openings + Fragment.openings type.layout + optExprOpenings count + 1
  | .resetAllocator => 1

end

theorem exprListOpenings_eq (es : List Expr) : exprListOpenings es = (es.map Expr.openings).sum := by
  induction es with
  | nil => rw [exprListOpenings, List.map_nil, List.sum_nil]
  | cons e es ih => rw [exprListOpenings, ih, List.map_cons, List.sum_cons]

theorem fieldInitListOpenings_eq (fs : List FieldInit) :
    fieldInitListOpenings fs = (fs.map FieldInit.openings).sum := by
  induction fs with
  | nil => rw [fieldInitListOpenings, List.map_nil, List.sum_nil]
  | cons f fs ih => rw [fieldInitListOpenings, ih, List.map_cons, List.sum_cons]

/-- The parsers of nested constructs pass the parentheses of what they make. -/
structure Inner.Opening (g : Inner) : Prop where
  type : ∀ {s t s'}, (g.type 0).run s = (.ok t, s') → Opens s (openings t.layout) s'
  typeArgs : ∀ {s args s'}, (Parser.typeArgs g.type 0).run s = (.ok args, s') →
    Opens s (openings (optTypeArgsLayout (some args))) s'
  expression : ∀ {header s e s'}, (g.expression header).run s = (.ok e, s') → Opens s e.openings s'
  chain : ∀ {header level s e s'}, (g.chain header level).run s = (.ok e, s') → Opens s e.openings s'
  unary : ∀ {header s e s'}, (g.unary header).run s = (.ok e, s') → Opens s e.openings s'

namespace Parser

variable {s s' : ParseState} {g : Inner} {header : Bool} (hg : g.Settled) (hy : g.Opening)

include hg in
/-- Parameters pass the parenthesis that they stand in, if no more. -/
theorem openings_paramList {list : ParamList} (h : (paramList g).run s = (.ok list, s')) : Opens s 1 s' := by
  obtain ⟨hk, s₁, s₂, hm, hl, hclose, rfl⟩ := (paramList_ok hg).1 h
  have hmeta := advances_run (Alike.advances fun ts => Alike.metaBinding (.refl ts)) hm
  have hparams := advances_of_listed (advances_param hg) hl
  exact (Opens.advance hk (by simp)).trans (.of_advances ((hmeta.trans hparams).trans (.advance _)))

section
include hy

theorem openings_exprs {close : Punctuation} {es : List Expr} (h : CommaListed close (g.expression false) s es s') :
    Opens s (exprListOpenings es) s' :=
  (Opens.listed hy.expression h).cast (exprListOpenings_eq es)

theorem openings_fieldInit {f : FieldInit} (h : (fieldInit g).run s = (.ok f, s')) : Opens s f.openings s' := by
  obtain ⟨name, value, hk, hk₁, hv, rfl⟩ := fieldInit_ok.1 h
  exact (((Opens.advance hk (by simp)).trans (.advance hk₁ (by simp))).trans (hy.expression hv)).cast
    (by simp)

theorem openings_optionalOperand {o : Option Expr} (h : (optionalOperand g).run s = (.ok o, s')) :
    Opens s (optExprOpenings o) s' := by
  rcases optionalOperand_ok.1 h with ⟨hk, e, rfl, he⟩ | ⟨-, rfl, rfl⟩
  · exact ((Opens.advance hk (by simp)).trans (hy.expression he)).cast (by simp)
  · exact (Opens.refl _).cast (by simp)

include hg

theorem openings_arguments {args : List Expr} (h : (arguments g).run s = (.ok args, s')) :
    Opens s (exprListOpenings args + 1) s' := by
  obtain ⟨hk, s₁, hl, hclose, rfl⟩ := (arguments_ok hg).1 h
  exact (((Opens.advance hk (by simp)).trans (openings_exprs hy hl)).trans (.advance hclose (by simp))).cast
    (by simp [Nat.add_comm])

theorem openings_lambda {e : Expr} (h : (lambda g header).run s = (.ok e, s')) : Opens s e.openings s' := by
  obtain ⟨hk, params, s₁, hp, ⟨-, body, hb, rfl⟩ | ⟨-, body, hb, rfl⟩⟩ := lambda_ok.1 h
  · exact (((Opens.advance hk (by simp)).trans (openings_paramList hg hp)).trans
      (.of_advances (advances_run hg.block hb))).cast (by simp)
  · exact (((Opens.advance hk (by simp)).trans (openings_paramList hg hp)).trans (hy.expression hb)).cast
      (by simp [Nat.add_comm])

theorem openings_structTypeArgs {generics : Option (List TypeExpr)}
    (h : (structTypeArgs g).run s = (.ok (some generics), s')) :
    Opens s (openings (optTypeArgsLayout generics)) s' := by
  rcases (structTypeArgs_some hg).1 h with ⟨-, -, args, rfl, ha, -⟩ | ⟨-, rfl, rfl⟩
  · exact hy.typeArgs ha
  · exact .refl _

omit hg hy in
theorem openings_pathTail {names : List String} (h : PathTail s names s') :
    Opens s (names.map fun n => (TokenKind.ident n).openings).sum s' := by
  induction h with
  | nil _ => exact .refl _
  | cons hk hk₁ _ ih =>
    exact (((Opens.advance hk (by simp)).trans (.advance hk₁ (by simp))).trans ih).cast (by simp)

theorem openings_nameExpr {e : Expr} (h : (nameExpr g header).run s = (.ok e, s')) : Opens s e.openings s' := by
  obtain ⟨name, hk, ⟨-, names, hp, rfl⟩ | ⟨-, -, h⟩ | ⟨-, -, rfl, rfl⟩⟩ := (nameExpr_ok hg).1 h
  · exact ((Opens.advance hk (by simp)).trans (openings_pathTail hp)).cast (by simp)
  · obtain ⟨generics, s₁, fields, s₂, ha, hbody, hl, hclose, rfl, rfl⟩ := (structLiteral?_some hg).1 h
    have hfields := Opens.listed (openings_fieldInit hy) hl
    exact (((((Opens.advance hk (by simp)).trans (openings_structTypeArgs hg hy ha)).trans
      (.advance hbody.1 (by simp))).trans hfields).trans (.advance hclose (by simp))).cast
      (by simp [fieldInitListOpenings_eq])
  · exact (Opens.advance hk (by simp)).cast (by simp)

theorem openings_arrayLiteral {start : Nat} {isStatic : Bool} {e : Expr}
    (h : (arrayLiteral g start isStatic).run s = (.ok e, s')) : Opens s e.openings s' := by
  obtain ⟨hk, element, s₁, elements, s₂, hl, hclose, rfl, rfl, helement⟩ := (arrayLiteral_ok hg).1 h
  have hrest := (openings_exprs hy hl).trans (.advance hclose (by simp))
  rcases helement with ⟨type, s₀, rfl, ht, hsemi, rfl⟩ | ⟨rfl, rfl, -⟩
  · exact ((((Opens.advance hk (by simp)).trans (hy.type ht)).trans (.advance hsemi (by simp))).trans hrest).cast
      (by simp)
  · exact ((Opens.advance hk (by simp)).trans hrest).cast (by simp)

omit hg in
/-- The parenthesis of a directive stands before its operands. -/
theorem openings_operands {x : Directive} (h : Operands g s s' x) : ∃ n, Opens s n s' ∧ x.openings = n + 1 := by
  cases x with
  | len e | free e | setAllocator e => exact ⟨_, hy.expression h.2, rfl⟩
  | size type => exact ⟨_, hy.type h.2, rfl⟩
  | ident n =>
    obtain ⟨hk, rfl⟩ := h
    exact ⟨_, .advance hk (by simp), rfl⟩
  | alloc type count =>
    obtain ⟨-, s₁, ht, ho⟩ := h
    exact ⟨_, (hy.type ht).trans (openings_optionalOperand hy ho), rfl⟩
  | realloc e type count =>
    obtain ⟨-, s₁, s₂, he, hcomma, -, ht, ho⟩ := h
    refine ⟨_, (((hy.expression he).trans (.advance hcomma (by simp))).trans (hy.type ht)).trans
      (openings_optionalOperand hy ho), ?_⟩
    simp
  | env => exact h.elim
  | resetAllocator =>
    obtain rfl : s' = s := h
    exact ⟨0, .refl _, rfl⟩

theorem openings_hashExpr {e : Expr} (h : (hashExpr g).run s = (.ok e, s')) : Opens s e.openings s' := by
  obtain ⟨hk, ⟨-, ha⟩ | ⟨name, x, hk₁, hname, hd, rfl⟩⟩ := hashExpr_ok.1 h
  · exact ((Opens.advance hk (by simp)).trans (openings_arrayLiteral hg hy ha)).cast (by simp)
  · have hhead := (Opens.of_advances (.advance s)).trans (.of_advances (.advance s.advance))
    obtain ⟨-, ⟨hx, -, rfl⟩ | ⟨-, hopen, s₁, ho, hclose, rfl⟩⟩ := directiveOf_ok.1 hd
    · obtain rfl : x = .env := by cases x <;> simp_all [Directive.name]
      exact hhead.cast (by simp)
    · obtain ⟨n, hn, hx⟩ := openings_operands hy ho
      exact (((hhead.trans (.advance hopen (by simp))).trans hn).trans (.advance hclose (by simp))).cast
        (by simp [hx, Nat.add_comm])

theorem openings_dollarExpr {e : Expr} (h : (dollarExpr g).run s = (.ok e, s')) : Opens s e.openings s' := by
  obtain ⟨hk, -, ⟨hk₁, -, -, a, b, c, ha, rfl⟩ | ⟨-, a, b, ha, rfl⟩ |
    ⟨name, hk₁, ⟨-, -, args, ha, rfl⟩ | ⟨-, rfl, rfl⟩⟩⟩ := dollarExpr_ok.1 h
  · refine (((Opens.advance hk (by simp)).trans (.advance hk₁ (by simp))).trans (openings_arguments hg hy ha)).cast ?_
    simp [Nat.add_assoc]
  · exact ((Opens.advance hk (by simp)).trans (openings_arguments hg hy ha)).cast
      (by simp)
  · refine (((Opens.advance hk (by simp)).trans (.advance hk₁ (by simp))).trans (openings_arguments hg hy ha)).cast ?_
    simp [Nat.add_assoc]
  · exact ((Opens.advance hk (by simp)).trans (.advance hk₁ (by simp))).cast (by simp)

omit hg hy in
theorem openings_literal {span : Span} {e : Expr} (h : literalOf? span s.peek.kind = some e) :
    Opens s e.openings s.advance := by
  unfold literalOf? at h
  split at h <;> cases h
  all_goals
    rename_i hk
    exact (Opens.advance hk (by simp)).cast (by simp)

theorem openings_primary {e : Expr} (h : (primary g header).run s = (.ok e, s')) : Opens s e.openings s' := by
  rcases primary_ok.1 h with ⟨hl, rfl⟩ | ⟨-, h⟩ | ⟨-, h⟩ | ⟨hk, h⟩ | ⟨-, h⟩ | ⟨-, h⟩ | ⟨-, h⟩
  · exact openings_literal hl
  · exact openings_lambda hg hy h
  · exact openings_nameExpr hg hy h
  · obtain ⟨inner, s₁, hi, hclose, rfl, rfl⟩ := parenthesized_ok.1 h
    exact (((Opens.advance hk (by simp)).trans (hy.expression hi)).trans (.advance hclose (by simp))).cast
      (by simp [Nat.add_comm])
  · exact openings_arrayLiteral hg hy h
  · exact openings_hashExpr hg hy h
  · exact openings_dollarExpr hg hy h

/-- What stands behind an operand goes on with it. -/
theorem openings_suffixes {s₀ : ParseState} {start : Nat} {e e' : Expr} (he : Opens s₀ e.openings s)
    (h : Grows (suffixStep g start) e s e' s') : Opens s₀ e'.openings s' := by
  induction h with
  | stop h => exact ((suffixStep_none hg).1 h).1 ▸ he
  | next h _ ih =>
    refine ih ?_
    rcases (suffixStep_some hg).1 h with ⟨-, args, ha, rfl⟩ | ⟨-, -, -, generics, s₁, args, hc, ha, rfl⟩ |
      ⟨hk, name, hk₁, rfl, rfl⟩ | ⟨hk, index, s₁, hi, hclose, rfl, rfl⟩
    · exact (he.trans (openings_arguments hg hy ha)).cast (by simp [optTypeArgsLayout, Nat.add_assoc])
    · exact ((he.trans (hy.typeArgs (callTypeArgs_ok.1 hc).1)).trans (openings_arguments hg hy ha)).cast
        (by simp [Nat.add_assoc])
    · exact ((he.trans (.advance hk (by simp))).trans (.advance hk₁ (by simp))).cast (by simp)
    · exact (((he.trans (.advance hk (by simp))).trans (hy.expression hi)).trans (.advance hclose (by simp))).cast
        (by simp)

theorem openings_unaryBody {e : Expr} (h : (unaryBody g header).run s = (.ok e, s')) : Opens s e.openings s' := by
  rcases (unaryBody_ok hg).1 h with ⟨op, unary, inner, hk, -, -, hi, rfl⟩ | ⟨hk, h⟩ | ⟨hk, h⟩ | ⟨-, -, h⟩
  · exact ((Opens.advance hk (by simp)).trans (hy.unary hi)).cast (by simp)
  · obtain ⟨-, inner, hi, rfl⟩ := doubleAddress_ok.1 h
    exact ((Opens.advance hk (by simp)).trans (hy.unary hi)).cast (by simp)
  · obtain ⟨type, s₁, inner, hc, -, hi, rfl⟩ := (cast?_some hg).1 h
    obtain ⟨s₂, ht, hclose, rfl⟩ := castType_ok.1 hc
    exact ((((Opens.advance hk (by simp)).trans (hy.type ht)).trans (.advance hclose (by simp))).trans
      (hy.unary hi)).cast (by simp [Nat.add_comm])
  · obtain ⟨first, s₁, hp, hgrow⟩ := (operandExpr_ok hg).1 h
    exact openings_suffixes hg hy (openings_primary hg hy hp) hgrow

omit hg hy in
theorem openings_joined? {op : Operator} {left right e : Expr} (h : joined? op left right = some e) :
    e.openings = left.openings + right.openings := by
  unfold joined? at h
  split at h
  · cases h
    rw [Expr.openings]
  · cases h
    rw [Expr.openings]
  · obtain ⟨binary, -, rfl⟩ := Option.map_eq_some_iff.1 h
    rw [Expr.openings]

theorem openings_chainBody {level : Nat} {e : Expr} (h : (chainBody g header level).run s = (.ok e, s')) :
    Opens s e.openings s' := by
  obtain ⟨first, s₁, hu, hgrow⟩ := (chainBody_ok hg).1 h
  have hfirst := openings_unaryBody hg hy hu
  clear hu h
  induction hgrow with
  | stop h => exact (chainStep_none.1 h).1 ▸ hfirst
  | next h _ ih =>
    obtain ⟨op, right, hk, -, -, -, hr, hjoined⟩ := chainStep_some.1 h
    exact ih (((hfirst.trans (.advance hk (by simp))).trans (hy.chain hr)).cast (by simp [openings_joined? hjoined]))

theorem openings_expressionBody {e : Expr} (h : (expressionBody g header).run s = (.ok e, s')) :
    Opens s e.openings s' := by
  obtain ⟨condition, s₁, hc, ⟨-, rfl, rfl⟩ | ⟨hk, chosen, s₂, alternative, hch, hcolon, ha, rfl⟩⟩ :=
    expressionBody_ok.1 h
  · exact openings_chainBody hg hy hc
  · have hhead := (openings_chainBody hg hy hc).trans (.advance hk (by simp))
    rcases consequence_ok.1 hch with ⟨-, rfl, rfl⟩ | ⟨-, e, rfl, he⟩
    · exact ((hhead.trans (.advance hcolon (by simp))).trans (hy.expression ha)).cast
        (by simp)
    · exact (((hhead.trans (hy.expression he)).trans (.advance hcolon (by simp))).trans (hy.expression ha)).cast
        (by simp)

end

end Parser

/-- At every depth, the parsers pass the parentheses of what they make. -/
theorem opening_ofRoom (o : ParseOptions) (room : Nat) : (Inner.ofRoom o room).Opening := by
  have htypes (room : Nat) : Parser.OpensTypes (Inner.ofRoom o room).type := by
    rw [Inner.ofRoom_type]
    exact Parser.openings_typeExpr
  have hargs (room : Nat) {s args s'} (h : (Parser.typeArgs (Inner.ofRoom o room).type 0).run s = (.ok args, s')) :
      Opens s (Fragment.openings (optTypeArgsLayout (some args))) s' :=
    Parser.openings_typeArgs (settled_ofRoom o room).type (htypes room) h
  induction room with
  | zero =>
    have hdeep {α : Type} {s s' : ParseState} {a : α} {n : Nat}
        (h : (Parser.tooDeep o.maxDepth).run s = (.ok a, s')) : Opens s n s' := absurd (Parser.tooDeep_ok.1 h) id
    exact ⟨@htypes 0 0, hargs 0, hdeep, hdeep, hdeep⟩
  | succ room ih =>
    have hg := settled_ofRoom o room
    exact ⟨@htypes (room + 1) 0, hargs (room + 1), Parser.openings_expressionBody hg ih,
      Parser.openings_chainBody hg ih, Parser.openings_unaryBody hg ih⟩

end ElleFrontEnd
