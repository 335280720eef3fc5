import ElleFrontEnd.Proofs.Convey

/-!
# The words of expressions

Each parser of an expression or a part of it passes the words of what it makes (`conveys_expressionBody`).  The lemmas
follow the runs of the parsers, as those on what is left ready do.
-/

namespace ElleFrontEnd

open Fragment

/-- The parsers of nested constructs pass the words of what they make. -/
structure Inner.Conveying (keep : TokenKind → Bool) (tokens : List Token) (g : Inner) : Prop where
  type : ∀ {s t s'}, (g.type 0).run s = (.ok t, s') → Conveys keep tokens s (kept keep t.layout) s'
  typeArgs : ∀ {s args s'}, (Parser.typeArgs g.type 0).run s = (.ok args, s') →
    Conveys keep tokens s (kept keep (optTypeArgsLayout (some args))) s'
  expression : ∀ {header s e s'}, (g.expression header).run s = (.ok e, s') → Conveys keep tokens s (e.kept keep) s'
  chain : ∀ {header level s e s'}, (g.chain header level).run s = (.ok e, s') → Conveys keep tokens s (e.kept keep) s'
  unary : ∀ {header s e s'}, (g.unary header).run s = (.ok e, s') → Conveys keep tokens s (e.kept keep) s'
  block : ∀ {s b s'}, g.block.run s = (.ok b, s') → Conveys keep tokens s (b.kept keep) s'
  elseIf : ∀ {s parts s'}, g.elseIf.run s = (.ok parts, s') →
    Conveys keep tokens s ((TokenKind.keyword .ifKw).kept keep ++ (parts.condition.kept keep ++
      (parts.body.kept keep ++ parts.otherwise.kept keep))) s'

namespace Parser

variable {keep : TokenKind → Bool} {tokens : List Token} {s s' : ParseState} {g : Inner} {header : Bool}
  (hg : g.Settled) (hy : g.Conveying keep tokens)

section
include hy

theorem conveys_exprs {close : Punctuation} {es : List Expr}
    (h : CommaListed close (g.expression false) s es s') : Conveys keep tokens s (es.flatMap (Expr.kept keep)) s' :=
  .listed hy.expression (k := .punctuation .comma) id (by simp) rfl h

include hg in
theorem conveys_arguments {args : List Expr} (h : (arguments g).run s = (.ok args, s')) :
    Conveys keep tokens s (args.flatMap (Expr.kept keep)) s' := by
  obtain ⟨hk, s₁, hl, hclose, rfl⟩ := (arguments_ok hg).1 h
  exact (((Conveys.advance hk (by simp)).trans (conveys_exprs hy hl)).trans (.advance hclose (by simp))).congr (by simp)

theorem conveys_param {p : Param} (h : (param g).run s = (.ok p, s')) :
    Conveys keep tokens s (kept keep p.layout) s' := by
  rcases param_ok.1 h with ⟨hk, ⟨name, hk₁, rfl, rfl⟩ | ⟨-, rfl, rfl⟩⟩ | ⟨hk, hk₁, type, s₁, name, ht, hk₂, rfl, rfl⟩ |
    ⟨-, -, type, s₁, ht, ⟨name, hk, rfl, rfl⟩ | ⟨-, rfl, rfl⟩⟩
  · exact ((Conveys.advance hk (by simp)).trans (.advance hk₁ (by simp))).congr (by simp [Param.layout])
  · exact (Conveys.advance hk (by simp)).congr (by simp [Param.layout])
  · rw [ParseState.kindAt_one (by simp [hk])] at hk₁
    exact ((((Conveys.advance hk (by simp)).trans (.advance hk₁ (by simp))).trans (hy.type ht)).trans
      (.advance hk₂ (by simp))).congr (by simp [Param.layout, noFormatMarker])
  · exact ((hy.type ht).trans (.advance hk (by simp))).congr (by simp [Param.layout])
  · exact (hy.type ht).congr (by simp [Param.layout])

omit hy in
theorem conveys_metaBinding {name : Option String} (h : metaBinding.run s = (.ok name, s')) :
    Conveys keep tokens s ((metaLayout name).flatMap (kept keep)) s' := by
  rcases metaBinding_ok.1 h with ⟨hk, n, hk₁, rfl, hend⟩ | ⟨-, rfl, rfl⟩
  · have hname : Conveys keep tokens s _ s.advance.advance :=
      (Conveys.advance hk (by simp)).trans (.advance hk₁ (by simp))
    rcases hend with ⟨-, rfl⟩ | ⟨hcomma, rfl⟩
    · exact hname.congr (by simp [metaLayout, metaMarker])
    · exact (hname.trans (.advance hcomma (by simp))).congr (by simp [metaLayout, metaMarker])
  · exact .refl

include hg

theorem conveys_paramList {list : ParamList} (h : (paramList g).run s = (.ok list, s')) :
    Conveys keep tokens s (kept keep list.layout) s' := by
  obtain ⟨hk, s₁, s₂, hm, hl, hclose, rfl⟩ := (paramList_ok hg).1 h
  have hparams := Conveys.listed (conveys_param hy) (k := .punctuation .comma) id (by simp) rfl hl
  exact ((((Conveys.advance hk (by simp)).trans (conveys_metaBinding hm)).trans hparams).trans
    (.advance hclose (by simp))).congr (by simp [ParamList.layout, List.flatMap_map])

theorem conveys_lambda {e : Expr} (h : (lambda g header).run s = (.ok e, s')) :
    Conveys keep tokens s (e.kept keep) s' := by
  obtain ⟨hk, params, s₁, hp, ⟨-, body, hb, rfl⟩ | ⟨-, body, hb, rfl⟩⟩ := lambda_ok.1 h
  · refine (((Conveys.advance hk (by simp)).trans (conveys_paramList hg hy hp)).trans (hy.block hb)).congr ?_
    rw [Expr.kept]
    simp [Expr.layout]
  · refine (((Conveys.advance hk (by simp)).trans (conveys_paramList hg hy hp)).trans (hy.expression hb)).congr ?_
    rw [Expr.kept]
    simp [Expr.layout]

omit hg in
theorem conveys_fieldInit {f : FieldInit} (h : (fieldInit g).run s = (.ok f, s')) :
    Conveys keep tokens s (f.kept keep) s' := by
  obtain ⟨name, value, hk, hk₁, hv, rfl⟩ := fieldInit_ok.1 h
  exact (((Conveys.advance hk (by simp)).trans (.advance hk₁ (by simp))).trans (hy.expression hv)).congr
    (by simp [FieldInit.kept])

theorem conveys_structTypeArgs {generics : Option (List TypeExpr)}
    (h : (structTypeArgs g).run s = (.ok (some generics), s')) :
    Conveys keep tokens s (kept keep (optTypeArgsLayout generics)) s' := by
  rcases (structTypeArgs_some hg).1 h with ⟨-, -, args, rfl, ha, -⟩ | ⟨-, rfl, rfl⟩
  · exact hy.typeArgs ha
  · exact .refl

omit hg hy in
theorem conveys_pathTail {names : List String} (h : PathTail s names s') :
    Conveys keep tokens s (names.flatMap fun n =>
      (TokenKind.punctuation .colonColon).kept keep ++ (TokenKind.ident n).kept keep) s' := by
  induction h with
  | nil _ => exact .refl
  | cons hk hk₁ _ ih =>
    exact (((Conveys.advance hk (by simp)).trans (.advance hk₁ (by simp))).trans ih).congr (by simp)

theorem conveys_nameExpr {e : Expr} (h : (nameExpr g header).run s = (.ok e, s')) :
    Conveys keep tokens s (e.kept keep) s' := by
  obtain ⟨name, hk, ⟨-, names, hp, rfl⟩ | ⟨-, -, h⟩ | ⟨-, -, rfl, rfl⟩⟩ := (nameExpr_ok hg).1 h
  · refine ((Conveys.advance hk (by simp)).trans (conveys_pathTail hp)).congr ?_
    rw [Expr.kept]
    simp [Expr.layout, kept_separated, List.flatMap_map]
  · obtain ⟨generics, s₁, fields, s₂, ha, hbody, hl, hclose, rfl, rfl⟩ := (structLiteral?_some hg).1 h
    have hfields := Conveys.listed (conveys_fieldInit hy) (k := .punctuation .comma) id (by simp) rfl hl
    refine (((((Conveys.advance hk (by simp)).trans (conveys_structTypeArgs hg hy ha)).trans
      (.advance hbody.1 (by simp))).trans hfields).trans (.advance hclose (by simp))).congr ?_
    rw [Expr.kept]
    simp only [Expr.layout]
    split <;> simp_all
  · refine (Conveys.advance hk (by simp)).congr ?_
    rw [Expr.kept]
    simp [Expr.layout]

/-- The `#` of a static array stands before what is read here. -/
theorem conveys_arrayLiteral {start : Nat} {isStatic : Bool} {e : Expr}
    (h : (arrayLiteral g start isStatic).run s = (.ok e, s')) :
    ∃ ws, Conveys keep tokens s ws s' ∧
      e.kept keep = (if isStatic then (TokenKind.punctuation .hash).kept keep else []) ++ ws := by
  obtain ⟨hk, element, s₁, elements, s₂, hl, hclose, rfl, rfl, helement⟩ := (arrayLiteral_ok hg).1 h
  have hrest := (conveys_exprs hy hl).trans (.advance hclose (by simp))
  rcases helement with ⟨type, s₀, rfl, ht, hsemi, rfl⟩ | ⟨rfl, rfl, -⟩
  · refine ⟨_, (((Conveys.advance hk (by simp)).trans (hy.type ht)).trans (.advance hsemi (by simp))).trans hrest, ?_⟩
    rw [Expr.kept]
    cases isStatic <;> cases elements <;> simp [Expr.layout]
  · refine ⟨_, (Conveys.advance hk (by simp)).trans hrest, ?_⟩
    rw [Expr.kept]
    cases isStatic <;> simp [Expr.layout]

omit hg in
theorem conveys_optionalOperand {o : Option Expr} (h : (optionalOperand g).run s = (.ok o, s')) :
    Conveys keep tokens s (o.toList.flatMap (Expr.kept keep)) s' := by
  rcases optionalOperand_ok.1 h with ⟨hk, e, rfl, he⟩ | ⟨-, rfl, rfl⟩
  · exact ((Conveys.advance hk (by simp)).trans (hy.expression he)).congr (by simp)
  · exact .refl

omit hg in
/-- The `#` and the name of the directive stand before its operands. -/
theorem conveys_operands {x : Directive} (h : Operands g s s' x) : ∃ ws, Conveys keep tokens s ws s' ∧
    x.kept keep = (TokenKind.punctuation .hash).kept keep ++ ((TokenKind.ident x.name.spelling).kept keep ++ ws) := by
  cases x with
  | len e | free e | setAllocator e =>
    refine ⟨_, hy.expression h.2, ?_⟩
    rw [Directive.kept]
    simp [Directive.layout, Directive.name]
  | size type =>
    refine ⟨_, hy.type h.2, ?_⟩
    rw [Directive.kept]
    simp [Directive.layout, Directive.name]
  | ident n =>
    obtain ⟨hk, rfl⟩ := h
    refine ⟨_, .advance hk (by simp), ?_⟩
    rw [Directive.kept]
    simp [Directive.layout, Directive.name]
  | alloc type count =>
    obtain ⟨-, s₁, ht, ho⟩ := h
    refine ⟨_, (hy.type ht).trans (conveys_optionalOperand hy ho), ?_⟩
    rw [Directive.kept]
    cases count <;> simp [Directive.layout, Directive.name]
  | realloc e type count =>
    obtain ⟨-, s₁, s₂, he, hcomma, -, ht, ho⟩ := h
    refine ⟨_, (((hy.expression he).trans (.advance hcomma (by simp))).trans (hy.type ht)).trans
      (conveys_optionalOperand hy ho), ?_⟩
    rw [Directive.kept]
    cases count <;> simp [Directive.layout, Directive.name]
  | env => exact h.elim
  | resetAllocator =>
    obtain rfl : s' = s := h
    refine ⟨[], .refl, ?_⟩
    rw [Directive.kept]
    simp [Directive.layout, Directive.name]

theorem conveys_hashExpr {e : Expr} (h : (hashExpr g).run s = (.ok e, s')) :
    Conveys keep tokens s (e.kept keep) s' := by
  obtain ⟨hk, ⟨-, ha⟩ | ⟨name, x, hk₁, hname, hd, rfl⟩⟩ := hashExpr_ok.1 h
  · obtain ⟨ws, hws, hwords⟩ := conveys_arrayLiteral hg hy ha
    exact ((Conveys.advance hk (by simp)).trans hws).congr hwords
  · obtain rfl : x.name.spelling = name := by simpa using List.find?_some hname
    have hhead : Conveys keep tokens s _ s.advance.advance :=
      (Conveys.advance hk (by simp)).trans (.advance hk₁ (by simp))
    have hwords : (Expr.directive (s'.spanFrom s.peek.span.start) x).kept keep = x.kept keep := by
      rw [Expr.kept]
      simp [Expr.layout]
    obtain ⟨-, ⟨hx, -, rfl⟩ | ⟨-, hopen, s₁, ho, hclose, rfl⟩⟩ := directiveOf_ok.1 hd
    · obtain rfl : x = .env := by cases x <;> simp_all [Directive.name]
      refine hhead.congr (hwords.trans ?_)
      rw [Directive.kept]
      simp [Directive.layout, Directive.name]
    · obtain ⟨ws, hws, hx⟩ := conveys_operands hy ho
      exact (((hhead.trans (.advance hopen (by simp))).trans hws).trans (.advance hclose (by simp))).congr
        (hwords.trans (by simp [hx]))

theorem conveys_dollarExpr {e : Expr} (h : (dollarExpr g).run s = (.ok e, s')) :
    Conveys keep tokens s (e.kept keep) s' := by
  obtain ⟨hk, -, ⟨hk₁, -, -, a, b, c, ha, rfl⟩ | ⟨-, a, b, ha, rfl⟩ |
    ⟨name, hk₁, ⟨-, -, args, ha, rfl⟩ | ⟨-, rfl, rfl⟩⟩⟩ := dollarExpr_ok.1 h
  · refine (((Conveys.advance hk (by simp)).trans (.advance hk₁ (by simp))).trans (conveys_arguments hg hy ha)).congr ?_
    rw [Expr.kept]
    simp [Expr.layout]
  · refine ((Conveys.advance hk (by simp)).trans (conveys_arguments hg hy ha)).congr ?_
    rw [Expr.kept]
    simp [Expr.layout]
  · refine (((Conveys.advance hk (by simp)).trans (.advance hk₁ (by simp))).trans (conveys_arguments hg hy ha)).congr ?_
    rw [Expr.kept]
    simp [Expr.layout]
  · refine ((Conveys.advance hk (by simp)).trans (.advance hk₁ (by simp))).congr ?_
    rw [Expr.kept]
    simp [Expr.layout]

omit hg hy in
theorem conveys_literal {span : Span} {e : Expr} (h : literalOf? span s.peek.kind = some e) :
    Conveys keep tokens s (e.kept keep) s.advance := by
  unfold literalOf? at h
  split at h <;> cases h
  all_goals
    rename_i hk
    refine (Conveys.advance hk (by simp)).congr ?_
    rw [Expr.kept]
    simp [Expr.layout]

theorem conveys_primary {e : Expr} (h : (primary g header).run s = (.ok e, s')) :
    Conveys keep tokens s (e.kept keep) s' := by
  rcases primary_ok.1 h with ⟨hl, rfl⟩ | ⟨-, h⟩ | ⟨-, h⟩ | ⟨hk, h⟩ | ⟨-, h⟩ | ⟨-, h⟩ | ⟨-, h⟩
  · exact conveys_literal hl
  · exact conveys_lambda hg hy h
  · exact conveys_nameExpr hg hy h
  · obtain ⟨inner, s₁, hi, hclose, rfl, rfl⟩ := parenthesized_ok.1 h
    refine (((Conveys.advance hk (by simp)).trans (hy.expression hi)).trans (.advance hclose (by simp))).congr ?_
    rw [Expr.kept]
    simp [Expr.layout]
  · obtain ⟨ws, hws, hwords⟩ := conveys_arrayLiteral hg hy h
    exact hws.congr (by simpa using hwords)
  · exact conveys_hashExpr hg hy h
  · exact conveys_dollarExpr hg hy h

/-- What stands behind an operand goes on with it. -/
theorem conveys_suffixes {s₀ : ParseState} {start : Nat} {e e' : Expr} (he : Conveys keep tokens s₀ (e.kept keep) s)
    (h : Grows (suffixStep g start) e s e' s') : Conveys keep tokens s₀ (e'.kept keep) s' := by
  induction h with
  | stop h => exact ((suffixStep_none hg).1 h).1 ▸ he
  | next h _ ih =>
    refine ih ?_
    rcases (suffixStep_some hg).1 h with ⟨-, args, ha, rfl⟩ | ⟨-, -, -, generics, s₁, args, hc, ha, rfl⟩ |
      ⟨hk, name, hk₁, rfl, rfl⟩ | ⟨hk, index, s₁, hi, hclose, rfl, rfl⟩
    · refine (he.trans (conveys_arguments hg hy ha)).congr ?_
      rw [Expr.kept]
      simp [Expr.layout, optTypeArgsLayout]
    · refine ((he.trans (hy.typeArgs (callTypeArgs_ok.1 hc).1)).trans (conveys_arguments hg hy ha)).congr ?_
      rw [Expr.kept]
      simp [Expr.layout]
    · refine ((he.trans (.advance hk (by simp))).trans (.advance hk₁ (by simp))).congr ?_
      rw [Expr.kept]
      simp [Expr.layout]
    · refine (((he.trans (.advance hk (by simp))).trans (hy.expression hi)).trans (.advance hclose (by simp))).congr ?_
      rw [Expr.kept]
      simp [Expr.layout]

omit hg hy in
theorem kept_unary (span : Span) (unary : UnaryOp) (operand : Expr) : (Expr.unary span unary operand).kept keep =
    (TokenKind.operator unary.operator).kept keep ++ operand.kept keep := by
  rw [Expr.kept]
  simp [Expr.layout]

theorem conveys_unaryBody {e : Expr} (h : (unaryBody g header).run s = (.ok e, s')) :
    Conveys keep tokens s (e.kept keep) s' := by
  rcases (unaryBody_ok hg).1 h with ⟨op, unary, inner, hk, hop, -, hi, rfl⟩ | ⟨hk, h⟩ | ⟨hk, h⟩ | ⟨-, -, h⟩
  · obtain rfl : unary.operator = op := by simpa using List.find?_some hop
    exact ((Conveys.advance hk (by simp)).trans (hy.unary hi)).congr (kept_unary _ _ _)
  · obtain ⟨-, inner, hi, rfl⟩ := doubleAddress_ok.1 h
    refine ((Conveys.advance hk (by simp)).trans (hy.unary hi)).congr ?_
    rw [kept_unary, kept_unary, kept_andAnd, List.append_assoc]
    rfl
  · obtain ⟨type, s₁, inner, hc, -, hi, rfl⟩ := (cast?_some hg).1 h
    obtain ⟨s₂, ht, hclose, rfl⟩ := castType_ok.1 hc
    refine ((((Conveys.advance hk (by simp)).trans (hy.type ht)).trans (.advance hclose (by simp))).trans
      (hy.unary hi)).congr ?_
    rw [Expr.kept]
    simp only [Expr.layout]
    split <;> simp
  · obtain ⟨first, s₁, hp, hgrow⟩ := (operandExpr_ok hg).1 h
    exact conveys_suffixes hg hy (conveys_primary hg hy hp) hgrow

omit hg hy in
theorem kept_joined? {op : Operator} {left right e : Expr} (h : joined? op left right = some e) :
    e.kept keep = left.kept keep ++ ((TokenKind.operator op).kept keep ++ right.kept keep) := by
  unfold joined? at h
  split at h
  · cases h
    rw [Expr.kept]
    simp [Expr.layout, rangeOperator]
  · cases h
    rw [Expr.kept]
    simp [Expr.layout, rangeOperator]
  · obtain ⟨binary, hb, rfl⟩ := Option.map_eq_some_iff.1 h
    obtain rfl : binary.operator = op := by simpa using List.find?_some hb
    rw [Expr.kept]
    simp [Expr.layout]

theorem conveys_chainBody {level : Nat} {e : Expr} (h : (chainBody g header level).run s = (.ok e, s')) :
    Conveys keep tokens s (e.kept keep) s' := by
  obtain ⟨first, s₁, hu, hgrow⟩ := (chainBody_ok hg).1 h
  have hfirst := conveys_unaryBody hg hy hu
  clear hu h
  induction hgrow with
  | stop h => exact (chainStep_none.1 h).1 ▸ hfirst
  | next h _ ih =>
    obtain ⟨op, right, hk, -, -, -, hr, hjoined⟩ := chainStep_some.1 h
    refine ih (((hfirst.trans (.advance hk (by simp))).trans (hy.chain hr)).congr ?_)
    simp [kept_joined? hjoined]

theorem conveys_expressionBody {e : Expr} (h : (expressionBody g header).run s = (.ok e, s')) :
    Conveys keep tokens s (e.kept keep) s' := by
  obtain ⟨condition, s₁, hc, ⟨-, rfl, rfl⟩ | ⟨hk, chosen, s₂, alternative, hch, hcolon, ha, rfl⟩⟩ :=
    expressionBody_ok.1 h
  · exact conveys_chainBody hg hy hc
  · have hhead := (conveys_chainBody hg hy hc).trans (.advance hk (by simp))
    rcases consequence_ok.1 hch with ⟨-, rfl, rfl⟩ | ⟨-, e, rfl, he⟩
    · refine ((hhead.trans (.advance hcolon (by simp))).trans (hy.expression ha)).congr ?_
      rw [Expr.kept]
      simp [Expr.layout]
    · refine (((hhead.trans (hy.expression he)).trans (.advance hcolon (by simp))).trans (hy.expression ha)).congr ?_
      rw [Expr.kept]
      simp [Expr.layout]

end

end Parser

end ElleFrontEnd
