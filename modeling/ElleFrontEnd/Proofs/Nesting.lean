import ElleFrontEnd.Proofs.Balanced
import ElleFrontEnd.Proofs.ReadDeclaration
import ElleFrontEnd.Proofs.RecoveryProgram
import ElleFrontEnd.Proofs.TypeRoundTrip

/-!
# Accepted programs are balanced

Whatever a parser accepts is balanced in its parentheses, brackets and braces: it passes the closer of each group that
it opens, and no other.  That holds of each parser of the grammar as long as it holds of those that nest in it
(`nesting_ofRoom`), and so of whole programs (`parseTokens_balanced`).
-/

namespace ElleFrontEnd

namespace Parser

variable {α : Type} {s s' : ParseState} {g : Inner} {header : Bool}

/-- The parser succeeds only behind a balanced stretch of tokens. -/
def Nests (p : Parser α) : Prop := ∀ ⦃s a s'⦄, p.run s = (.ok a, s') → Nested s s'

theorem nests_tooDeep (limit : Nat) : (tooDeep limit : Parser α).Nests := fun _ _ _ h => absurd (tooDeep_ok.1 h) id

namespace Nests

theorem listed {ends separates : ParseState → Prop} {item : Parser α} {as : List α} (hi : item.Nests)
    (h : Listed ends separates item s as s') (hsep : ∀ s, separates s → TokenKind.brackets.IsPlain s.peek.kind) :
    Nested s s' := by
  induction h with
  | nil _ => exact .refl _
  | last _ h _ => exact hi h
  | more _ h hs _ ih => exact (hi h).trans ((Nested.advance (hsep _ hs)).trans ih)

theorem commaListed {close : Punctuation} {item : Parser α} {as : List α} (hi : item.Nests)
    (h : CommaListed close item s as s') : Nested s s' :=
  hi.listed h fun _ hs => hs ▸ ⟨rfl, rfl⟩

theorem grows {step : α → Parser (Option α)} (hs : ∀ a, (step a).Nests) {a a' : α} (h : Grows step a s a' s') :
    Nested s s' := by
  induction h with
  | stop h => exact hs _ h
  | next h _ ih => exact (hs _ h).trans ih

end Nests

theorem nested_of_stepped {p : ParseState → Prop} {move : ParseState → ParseState} {n : Nat}
    (hm : ∀ s, p s → Nested s (move s)) (h : Stepped p move n s s') : Nested s s' := by
  induction h with
  | stop _ => exact .refl _
  | next hp _ ih => exact (hm _ hp).trans ih

/-! ### Types -/

theorem nested_brackets (h : s.atBrackets) : Nested s s.advance.advance := by
  have hclose : s.advance.peek.kind = .punctuation .rBracket := by
    rw [← ParseState.kindAt_one (by simp [h.1])]
    exact h.2
  exact .group h.1 rfl (.refl _) hclose

theorem nests_typeSuffix (start : Nat) (t : TypeExpr) : (typeSuffix start t).Nests := by
  intro s o s' h
  cases o with
  | none => exact (typeSuffix_none.1 h).2 ▸ .refl _
  | some t' =>
    obtain ⟨-, ⟨-, n, hn, -⟩ | ⟨-, -, n, hn, -⟩⟩ := typeSuffix_some.1 h
    · exact nested_of_stepped (fun s hs => .pass hs ⟨rfl, rfl⟩ (.refl _)) (starRun_ok.1 hn)
    · exact nested_of_stepped (fun s hs => nested_brackets hs) (bracketRun_ok.1 hn)

theorem nests_closeAngle (angles : Nat) : (closeAngle angles).Nests := by
  intro s u s' h
  rcases closeAngle_ok.1 h with ⟨-, rfl⟩ | ⟨-, hk, rfl⟩ | ⟨-, -, hk, rfl⟩
  · exact .withOwed _ _
  · exact .pass hk ⟨rfl, rfl⟩ (.refl _)
  · exact .pass hk ⟨rfl, rfl⟩ (.withOwed _ _)

theorem nests_identifier : identifier.Nests := by
  intro s name s' h
  obtain ⟨hk, rfl⟩ := identifier_ok.1 h
  exact .pass hk ⟨rfl, rfl⟩ (.refl _)

theorem nests_typeParams : typeParams.Nests := by
  intro s names s' h
  rcases typeParams_ok.1 h with ⟨hk, s₁, hl, hk₁, rfl⟩ | ⟨-, rfl, -⟩
  · have hnames := nests_identifier.listed hl fun _ hs => hs ▸ ⟨rfl, rfl⟩
    exact .pass hk ⟨rfl, rfl⟩ (hnames.trans (.pass hk₁ ⟨rfl, rfl⟩ (.refl _)))
  · exact .refl _

section
variable {type : Nat → Parser TypeExpr} {angles start : Nat} (ha : ∀ angles s, Advances s (type angles s).2)
  (ht : ∀ angles, (type angles).Nests)
include ha ht

theorem nests_typeArgs : (typeArgs type angles).Nests := by
  intro s args s' h
  obtain ⟨hk, s₁, hl, hc⟩ := (typeArgs_ok ha).1 h
  have hlist := (ht _).listed hl fun _ hs => hs.2 ▸ ⟨rfl, rfl⟩
  exact .pass hk ⟨rfl, rfl⟩ (hlist.trans (nests_closeAngle _ hc))

omit ha in
theorem nests_tupleType (hk : s.peek.kind = .punctuation .lParen) {t : TypeExpr}
    (h : (tupleType type angles start).run s = (.ok t, s')) : Nested s s' := by
  obtain ⟨first, s₁, second, s₂, h₁, hk₁, h₂, hk₂, rfl, -⟩ := tupleType_ok.1 h
  exact .group hk rfl ((ht _ h₁).trans (.pass hk₁ ⟨rfl, rfl⟩ (ht _ h₂))) hk₂

theorem nests_typeBody : (typeBody type angles).Nests := by
  intro s t s' h
  obtain ⟨base, s₁, hb, hgrow⟩ := typeBody_ok.1 h
  refine Nested.trans ?_ (Nests.grows (nests_typeSuffix _) hgrow)
  rcases baseType_ok.1 hb with ⟨p, hk, rfl, -⟩ | ⟨name, hk, h⟩ | ⟨hk, h⟩
  · exact .pass hk ⟨rfl, rfl⟩ (.refl _)
  · rcases namedType_ok.1 h with ⟨-, -, args, hargs, -⟩ | ⟨-, rfl, -⟩
    · exact .pass hk ⟨rfl, rfl⟩ (nests_typeArgs ha ht hargs)
    · exact .pass hk ⟨rfl, rfl⟩ (.refl _)
  · exact nests_tupleType ht hk h

end

theorem nests_typeExpr (limit room angles : Nat) : (typeExpr limit room angles).Nests := by
  induction room generalizing angles with
  | zero => exact nests_tooDeep limit
  | succ room ih => exact nests_typeBody (advances_typeExpr limit room) ih

end Parser

/-- The parsers of nested constructs pass balanced stretches only. -/
structure Inner.Nesting (g : Inner) : Prop where
  type : ∀ angles, (g.type angles).Nests
  expression : ∀ header, (g.expression header).Nests
  chain : ∀ header level, (g.chain header level).Nests
  unary : ∀ header, (g.unary header).Nests
  block : g.block.Nests
  elseIf : g.elseIf.Nests

namespace Parser

variable {s s' : ParseState} {g : Inner} {header : Bool} (hg : g.Settled) (hn : g.Nesting)

/-! ### Expressions -/

section
include hg hn

theorem nests_arguments : (arguments g).Nests := by
  intro s args s' h
  obtain ⟨hk, s₁, hl, hk₁, rfl⟩ := (arguments_ok hg).1 h
  exact .group hk rfl ((hn.expression false).commaListed hl) hk₁

theorem nests_innerTypeArgs : (typeArgs g.type 0).Nests := nests_typeArgs hg.type hn.type

omit hg in
theorem nests_param : (param g).Nests := by
  intro s p s' h
  rcases param_ok.1 h with ⟨hk, ⟨name, hk₁, rfl, -⟩ | ⟨-, rfl, -⟩⟩ | ⟨hk, hk₁, type, s₁, name, ht, hk₂, rfl, -⟩ |
    ⟨-, -, type, s₁, ht, ⟨name, hk, rfl, -⟩ | ⟨-, rfl, -⟩⟩
  · exact .pass hk ⟨rfl, rfl⟩ (.pass hk₁ ⟨rfl, rfl⟩ (.refl _))
  · exact .pass hk ⟨rfl, rfl⟩ (.refl _)
  · have hmark : s.advance.peek.kind = .ident noFormatMarker := by
      rw [← ParseState.kindAt_one (by simp [hk])]
      exact hk₁
    have hname : Nested s₁ s₁.advance := .pass hk₂ ⟨rfl, rfl⟩ (.refl _)
    exact .pass hk ⟨rfl, rfl⟩ (.pass hmark ⟨rfl, rfl⟩ ((hn.type 0 ht).trans hname))
  · exact (hn.type 0 ht).trans (.pass hk ⟨rfl, rfl⟩ (.refl _))
  · exact hn.type 0 ht

omit hg hn in
theorem nests_metaBinding : metaBinding.Nests := by
  intro s name s' h
  rcases metaBinding_ok.1 h with ⟨hk, n, hk₁, -, ⟨-, rfl⟩ | ⟨hk₂, rfl⟩⟩ | ⟨-, -, rfl⟩
  · exact .pass hk ⟨rfl, rfl⟩ (.pass hk₁ ⟨rfl, rfl⟩ (.refl _))
  · exact .pass hk ⟨rfl, rfl⟩ (.pass hk₁ ⟨rfl, rfl⟩ (.pass hk₂ ⟨rfl, rfl⟩ (.refl _)))
  · exact .refl _

theorem nests_paramList : (paramList g).Nests := by
  intro s list s' h
  obtain ⟨hk, s₁, s₂, hm, hl, hk₂, rfl⟩ := (paramList_ok hg).1 h
  exact .group hk rfl ((nests_metaBinding hm).trans ((nests_param hn).commaListed hl)) hk₂

theorem nests_lambda : (lambda g header).Nests := by
  intro s e s' h
  obtain ⟨hk, params, s₁, hp, ⟨-, body, hb, -⟩ | ⟨-, body, hb, -⟩⟩ := lambda_ok.1 h
  · exact .pass hk ⟨rfl, rfl⟩ ((nests_paramList hg hn hp).trans (hn.block hb))
  · exact .pass hk ⟨rfl, rfl⟩ ((nests_paramList hg hn hp).trans (hn.expression header hb))

omit hg in
theorem nests_fieldInit : (fieldInit g).Nests := by
  intro s f s' h
  obtain ⟨name, value, hk, hk₁, hv, -⟩ := fieldInit_ok.1 h
  exact .pass hk ⟨rfl, rfl⟩ (.pass hk₁ ⟨rfl, rfl⟩ (hn.expression false hv))

theorem nested_structTypeArgs {generics : Option (List TypeExpr)}
    (h : (structTypeArgs g).run s = (.ok (some generics), s')) : Nested s s' := by
  rcases (structTypeArgs_some hg).1 h with ⟨-, -, args, -, ha, -⟩ | ⟨-, -, rfl⟩
  · exact nests_innerTypeArgs hg hn ha
  · exact .refl _

omit hg hn in
theorem nested_of_pathTail {names : List String} (h : PathTail s names s') : Nested s s' := by
  induction h with
  | nil _ => exact .refl _
  | cons hk hk₁ _ ih => exact .pass hk ⟨rfl, rfl⟩ (.pass hk₁ ⟨rfl, rfl⟩ ih)

theorem nests_nameExpr : (nameExpr g header).Nests := by
  intro s e s' h
  obtain ⟨name, hk, ⟨-, names, hp, -⟩ | ⟨-, -, h⟩ | ⟨-, -, rfl, -⟩⟩ := (nameExpr_ok hg).1 h
  · exact .pass hk ⟨rfl, rfl⟩ (nested_of_pathTail hp)
  · obtain ⟨generics, s₁, fields, s₂, ha, hb, hl, hk₂, rfl, -⟩ := (structLiteral?_some hg).1 h
    have hbody := Nested.group hb.1 rfl ((nests_fieldInit hn).commaListed hl) hk₂
    exact .pass hk ⟨rfl, rfl⟩ ((nested_structTypeArgs hg hn ha).trans hbody)
  · exact .pass hk ⟨rfl, rfl⟩ (.refl _)

theorem nests_arrayLiteral (start : Nat) (isStatic : Bool) : (arrayLiteral g start isStatic).Nests := by
  intro s e s' h
  obtain ⟨hk, element, s₁, elements, s₂, hl, hk₂, rfl, -, htag⟩ := (arrayLiteral_ok hg).1 h
  have hlist := (hn.expression false).commaListed hl
  rcases htag with ⟨type, s₀, -, ht, hk₀, rfl⟩ | ⟨-, rfl, -⟩
  · exact .group hk rfl ((hn.type 0 ht).trans (.pass hk₀ ⟨rfl, rfl⟩ hlist)) hk₂
  · exact .group hk rfl hlist hk₂

omit hg in
theorem nests_optionalOperand : (optionalOperand g).Nests := by
  intro s o s' h
  rcases optionalOperand_ok.1 h with ⟨hk, e, -, he⟩ | ⟨-, -, rfl⟩
  · exact .pass hk ⟨rfl, rfl⟩ (hn.expression false he)
  · exact .refl _

omit hg in
theorem nested_of_operands {x : Directive} (h : Operands g s s' x) : Nested s s' := by
  cases x with
  | len e | free e | setAllocator e => exact hn.expression false h.2
  | size type => exact hn.type 0 h.2
  | ident n =>
    obtain ⟨hk, rfl⟩ := h
    exact .pass hk ⟨rfl, rfl⟩ (.refl _)
  | alloc type count =>
    obtain ⟨-, s₁, ht, ho⟩ := h
    exact (hn.type 0 ht).trans (nests_optionalOperand hn ho)
  | realloc e type count =>
    obtain ⟨-, s₁, s₂, he, hk, -, ht, ho⟩ := h
    have htype := (hn.type 0 ht).trans (nests_optionalOperand hn ho)
    exact (hn.expression false he).trans (.pass hk ⟨rfl, rfl⟩ htype)
  | env => exact h.elim
  | resetAllocator =>
    obtain rfl : s' = s := h
    exact .refl _

theorem nests_hashExpr : (hashExpr g).Nests := by
  intro s e s' h
  obtain ⟨hk, ⟨-, ha⟩ | ⟨name, x, hk₁, -, hd, -⟩⟩ := hashExpr_ok.1 h
  · exact .pass hk ⟨rfl, rfl⟩ (nests_arrayLiteral hg hn _ _ ha)
  · refine .pass hk ⟨rfl, rfl⟩ (.pass hk₁ ⟨rfl, rfl⟩ ?_)
    obtain ⟨-, ⟨-, -, rfl⟩ | ⟨-, hk₂, s₁, ho, hk₃, rfl⟩⟩ := directiveOf_ok.1 hd
    · exact .refl _
    · exact .group hk₂ rfl (nested_of_operands hn ho) hk₃

theorem nests_dollarExpr : (dollarExpr g).Nests := by
  intro s e s' h
  obtain ⟨hk, -, h⟩ := dollarExpr_ok.1 h
  refine .pass hk ⟨rfl, rfl⟩ ?_
  rcases h with ⟨hk₁, -, -, a, b, c, ha, -⟩ | ⟨-, a, b, ha, -⟩ | ⟨name, hk₁, ⟨-, -, args, ha, -⟩ | ⟨-, rfl, -⟩⟩
  · exact .pass hk₁ ⟨rfl, rfl⟩ (nests_arguments hg hn ha)
  · exact nests_arguments hg hn ha
  · exact .pass hk₁ ⟨rfl, rfl⟩ (nests_arguments hg hn ha)
  · exact .pass hk₁ ⟨rfl, rfl⟩ (.refl _)

omit hg hn in
theorem isPlain_of_literalOf? {span : Span} {kind : TokenKind} {e : Expr} (h : literalOf? span kind = some e) :
    TokenKind.brackets.IsPlain kind := by
  cases kind with
  | punctuation mark => simp [literalOf?] at h
  | _ => exact ⟨rfl, rfl⟩

theorem nests_primary : (primary g header).Nests := by
  intro s e s' h
  rcases primary_ok.1 h with ⟨hl, rfl⟩ | ⟨-, h⟩ | ⟨-, h⟩ | ⟨hk, h⟩ | ⟨-, h⟩ | ⟨-, h⟩ | ⟨-, h⟩
  · exact .advance (isPlain_of_literalOf? hl)
  · exact nests_lambda hg hn h
  · exact nests_nameExpr hg hn h
  · obtain ⟨inner, s₁, hi, hk₁, rfl, -⟩ := parenthesized_ok.1 h
    exact .group hk rfl (hn.expression false hi) hk₁
  · exact nests_arrayLiteral hg hn _ _ h
  · exact nests_hashExpr hg hn h
  · exact nests_dollarExpr hg hn h

theorem nests_suffixStep (start : Nat) (e : Expr) : (suffixStep g start e).Nests := by
  intro s o s' h
  cases o with
  | none => exact ((suffixStep_none hg).1 h).1 ▸ .refl _
  | some e' =>
    rcases (suffixStep_some hg).1 h with ⟨-, args, ha, -⟩ | ⟨-, -, -, generics, s₁, args, hc, ha, -⟩ |
      ⟨hk, name, hk₁, rfl, -⟩ | ⟨hk, index, s₁, hi, hk₁, rfl, -⟩
    · exact nests_arguments hg hn ha
    · exact (nests_innerTypeArgs hg hn (callTypeArgs_ok.1 hc).1).trans (nests_arguments hg hn ha)
    · exact .pass hk ⟨rfl, rfl⟩ (.pass hk₁ ⟨rfl, rfl⟩ (.refl _))
    · exact .group hk rfl (hn.expression false hi) hk₁

theorem nests_unaryBody : (unaryBody g header).Nests := by
  intro s e s' h
  rcases (unaryBody_ok hg).1 h with ⟨op, unary, inner, hk, -, -, hi, -⟩ | ⟨hk, h⟩ | ⟨hk, h⟩ | ⟨-, -, h⟩
  · exact .pass hk ⟨rfl, rfl⟩ (hn.unary header hi)
  · obtain ⟨-, inner, hi, -⟩ := doubleAddress_ok.1 h
    exact .pass hk ⟨rfl, rfl⟩ (hn.unary header hi)
  · obtain ⟨type, s₁, inner, hc, -, hi, -⟩ := (cast?_some hg).1 h
    obtain ⟨s₂, ht, hk₂, rfl⟩ := castType_ok.1 hc
    exact (Nested.group hk rfl (hn.type 0 ht) hk₂).trans (hn.unary header hi)
  · obtain ⟨first, s₁, hp, hgrow⟩ := (operandExpr_ok hg).1 h
    exact (nests_primary hg hn hp).trans (Nests.grows (nests_suffixStep hg hn _) hgrow)

omit hg in
theorem nests_chainStep (level : Nat) (left : Expr) : (chainStep g header level left).Nests := by
  intro s o s' h
  cases o with
  | none => exact (chainStep_none.1 h).1 ▸ .refl _
  | some e =>
    obtain ⟨op, right, hk, -, -, -, hr, -⟩ := chainStep_some.1 h
    exact .pass hk ⟨rfl, rfl⟩ (hn.chain header _ hr)

theorem nests_chainBody (level : Nat) : (chainBody g header level).Nests := by
  intro s e s' h
  obtain ⟨first, s₁, hu, hgrow⟩ := (chainBody_ok hg).1 h
  exact (nests_unaryBody hg hn hu).trans (Nests.grows (nests_chainStep hn level) hgrow)

theorem nests_expressionBody : (expressionBody g header).Nests := by
  intro s e s' h
  obtain ⟨condition, s₁, hc, ⟨-, -, rfl⟩ | ⟨hk, chosen, s₂, alternative, hch, hk₂, ha, -⟩⟩ := expressionBody_ok.1 h
  · exact nests_chainBody hg hn 1 hc
  · have hchosen : Nested s₁.advance s₂ := by
      rcases consequence_ok.1 hch with ⟨-, -, rfl⟩ | ⟨-, e, -, he⟩
      · exact .refl _
      · exact hn.expression header he
    have hrest := hchosen.trans (.pass hk₂ ⟨rfl, rfl⟩ (hn.expression header ha))
    exact (nests_chainBody hg hn 1 hc).trans (.pass hk ⟨rfl, rfl⟩ hrest)

end

/-! ### Statements -/

section
include hn

theorem nests_initializer : (initializer g header).Nests := by
  intro s o s' h
  rcases initializer_ok.1 h with ⟨hk, e, -, he⟩ | ⟨-, -, rfl⟩
  · exact .pass hk ⟨rfl, rfl⟩ (hn.expression header he)
  · exact .refl _

theorem nests_typedBinding (type : TypeExpr) (name : String) : (typedBinding g header type name).Nests := by
  intro s form s' h
  rcases typedBinding_ok.1 h with ⟨hk, size, s₁, he, hk₁, rfl, -⟩ | ⟨-, init, hi, -⟩
  · exact .group hk rfl (hn.expression false he) hk₁
  · exact nests_initializer hn hi

theorem nests_typeAndName : (typeAndName g).Nests := by
  intro s r s' h
  obtain ⟨s₁, ht, hk, rfl⟩ := typeAndName_ok.1 h
  exact (hn.type 0 ht).trans (.pass hk ⟨rfl, rfl⟩ (.refl _))

theorem nests_assignment? : (assignment? g header).Nests := by
  intro s o s' h
  cases o with
  | none => exact (assignment?_none.1 h).1 ▸ .refl _
  | some r =>
    obtain ⟨op, hk, -, -, hv⟩ := assignment?_some.1 h
    exact .pass hk ⟨rfl, rfl⟩ (hn.expression header hv)

theorem nests_headerCondition : (headerCondition g).Nests := by
  intro s e s' h
  obtain ⟨e₀, he, -⟩ := headerCondition_ok.1 h
  exact hn.expression true he

theorem nests_elsePart : (elsePart g).Nests := by
  intro s o s' h
  rcases elsePart_ok.1 h with ⟨hk, -, parts, hp, -⟩ | ⟨hk, -, body, hb, -⟩ | ⟨-, -, rfl⟩
  · exact .pass hk ⟨rfl, rfl⟩ (hn.elseIf hp)
  · exact .pass hk ⟨rfl, rfl⟩ (hn.block hb)
  · exact .refl _

theorem nests_ifBody : (ifBody g).Nests := by
  intro s parts s' h
  obtain ⟨hk, s₁, s₂, hc, hb, he⟩ := ifBody_ok.1 h
  have hbranches := (hn.block hb).trans (nests_elsePart hn he)
  exact .pass hk ⟨rfl, rfl⟩ ((nests_headerCondition hn hc).trans hbranches)

theorem nests_forStep : (forStep g header).Nests := by
  intro s step s' h
  obtain ⟨target, s₁, ht, ⟨op, value, ha, -⟩ | ⟨-, rfl, -⟩⟩ := forStep_ok.1 h
  · exact (hn.expression header ht).trans (nests_assignment? hn ha)
  · exact hn.expression header ht

theorem nested_of_returnStatement (hk : s.peek.kind = .keyword .returnKw) {form : Span → Stmt}
    (h : (returnStatement g).run s = (.ok form, s')) : Nested s s' := by
  refine .pass hk ⟨rfl, rfl⟩ ?_
  rcases returnStatement_ok.1 h with ⟨hk₁, rfl, -⟩ | ⟨-, e, s₁, he, hk₁, rfl, -⟩
  · exact .pass hk₁ ⟨rfl, rfl⟩ (.refl _)
  · exact (hn.expression false he).trans (.pass hk₁ ⟨rfl, rfl⟩ (.refl _))

include hg

theorem nests_binding? : (binding? g header).Nests := by
  intro s o s' h
  cases o with
  | none => exact ((binding?_none hg).1 h).1 ▸ .refl _
  | some form =>
    rcases (binding?_some hg).1 h with ⟨hk, name, init, hk₁, hi, -⟩ | ⟨hk₁, name, e, hk, he, -⟩ |
      ⟨-, -, r, s₁, ht, hb⟩
    · exact .pass hk ⟨rfl, rfl⟩ (.pass hk₁ ⟨rfl, rfl⟩ (nests_initializer hn hi))
    · rw [ParseState.kindAt_one (by simp [hk])] at hk₁
      exact .pass hk ⟨rfl, rfl⟩ (.pass hk₁ ⟨rfl, rfl⟩ (hn.expression header he))
    · exact (nests_typeAndName hn ht).trans (nests_typedBinding hn _ _ hb)

theorem nests_simpleStatement : (simpleStatement g).Nests := by
  intro s form s' h
  rcases (simpleStatement_ok hg).1 h with ⟨binding, hb, -⟩ | ⟨-, target, s₁, ht, ⟨op, value, ha, -⟩ | ⟨-, rfl, -⟩⟩
  · exact nests_binding? hg hn hb
  · exact (hn.expression false ht).trans (nests_assignment? hn ha)
  · exact hn.expression false ht

theorem nests_forHeader : (forHeader g header).Nests := by
  intro s parts s' h
  obtain ⟨s₁, s₂, hi, hk₁, hc, hk₂, hst⟩ := forHeader_ok.1 h
  have hinit : Nested s s₁ := by
    rcases (forInit_ok hg).1 hi with ⟨binding, type, name, value, hb, -⟩ | ⟨-, e, he, -⟩
    · exact nests_binding? hg hn hb
    · exact hn.expression header he
  have hrest := (hn.expression header hc).trans (.pass hk₂ ⟨rfl, rfl⟩ (nests_forStep hn hst))
  exact hinit.trans (.pass hk₁ ⟨rfl, rfl⟩ hrest)

theorem nests_forStatement : (forStatement g).Nests := by
  intro s form s' h
  obtain ⟨hk, h⟩ := forStatement_ok.1 h
  refine .pass hk ⟨rfl, rfl⟩ ?_
  rcases h with ⟨name, iterable, s₁, body, hk₁, hk₂, he, hb, -⟩ | ⟨-, h⟩
  · rw [ParseState.kindAt_one (by simp [hk₁])] at hk₂
    exact .pass hk₁ ⟨rfl, rfl⟩ (.pass hk₂ ⟨rfl, rfl⟩ ((hn.expression true he).trans (hn.block hb)))
  · obtain ⟨init, condition, step, body, -, ⟨hk₁, s₁, hh, hk₂, hb⟩ | ⟨-, s₁, hh, hb⟩⟩ := forLoopRest_ok.1 h
    · exact (Nested.group hk₁ rfl (nests_forHeader hg hn hh) hk₂).trans (hn.block hb)
    · exact (nests_forHeader hg hn hh).trans (hn.block hb)

theorem nests_statement : (Parser.statement g).Nests := by
  intro s statement s' h
  obtain ⟨form, h, -⟩ := statement_ok.1 h
  rcases statementForm_ok.1 h with ⟨-, parts, h, -⟩ | ⟨hk, condition, s₁, body, hc, hb, -⟩ | ⟨-, h⟩ |
    ⟨hk, e, s₁, he, hk₁, rfl, -⟩ | ⟨hk, h⟩ | ⟨hk, hk₁, rfl, -⟩ | ⟨hk, hk₁, rfl, -⟩ | ⟨-, body, hb, -⟩ |
    ⟨-, s₁, hsimple, hk₁, rfl⟩
  · exact nests_ifBody hn h
  · exact .pass hk ⟨rfl, rfl⟩ ((nests_headerCondition hn hc).trans (hn.block hb))
  · exact nests_forStatement hg hn h
  · exact .pass hk ⟨rfl, rfl⟩ ((hn.expression false he).trans (.pass hk₁ ⟨rfl, rfl⟩ (.refl _)))
  · exact nested_of_returnStatement hn hk h
  · exact .pass hk ⟨rfl, rfl⟩ (.pass hk₁ ⟨rfl, rfl⟩ (.refl _))
  · exact .pass hk ⟨rfl, rfl⟩ (.pass hk₁ ⟨rfl, rfl⟩ (.refl _))
  · exact hn.block hb
  · exact (nests_simpleStatement hg hn hsimple).trans (.pass hk₁ ⟨rfl, rfl⟩ (.refl _))

/-- The statements of a block end right before the brace that closes it. -/
theorem nested_of_statements {ss : List Stmt} (h : Statements g s ss s') :
    ∃ s₁, Nested s s₁ ∧ s₁.peek.kind = .punctuation .rBrace ∧ s' = s₁.advance := by
  induction h with
  | nil hk => exact ⟨_, .refl _, hk, rfl⟩
  | stray hk _ ih =>
    obtain ⟨s₁, hnest, hk₁, rfl⟩ := ih
    exact ⟨s₁, .pass hk ⟨rfl, rfl⟩ hnest, hk₁, rfl⟩
  | cons _ _ _ h _ ih =>
    obtain ⟨s₁, hnest, hk₁, rfl⟩ := ih
    exact ⟨s₁, (nests_statement hg hn h).trans hnest, hk₁, rfl⟩

end

theorem nesting_ofRoom (limit room : Nat) : (Inner.ofRoom ⟨limit, false⟩ room).Nesting := by
  induction room with
  | zero =>
    exact
      { type := fun _ => nests_tooDeep limit
        expression := fun _ => nests_tooDeep limit
        chain := fun _ _ => nests_tooDeep limit
        unary := fun _ => nests_tooDeep limit
        block := nests_tooDeep limit
        elseIf := nests_tooDeep limit }
  | succ room ih =>
    have hg := settled_ofRoom ⟨limit, false⟩ room
    refine ⟨nests_typeExpr limit (room + 1), fun _ => nests_expressionBody hg ih,
      fun _ level => nests_chainBody hg ih level,
      fun _ => nests_unaryBody hg ih, ?_, nests_ifBody ih⟩
    intro s body s' h
    obtain ⟨hk, ss, hss, -⟩ := (blockBody_stopping hg).1 h
    obtain ⟨s₁, hnest, hk₁, rfl⟩ := nested_of_statements hg ih hss
    exact .group hk rfl hnest hk₁

/-! ### Declarations -/

theorem nests_pathSegment : pathSegment.Nests := by
  intro s segment s' h
  obtain ⟨rfl, ⟨k, hk, -⟩ | hk⟩ := pathSegment_ok.1 h
  · exact .pass hk ⟨rfl, rfl⟩ (.refl _)
  · exact .pass hk ⟨rfl, rfl⟩ (.refl _)

theorem isPlain_of_visibility? {kind : TokenKind} {v : Visibility} (h : kind.visibility? = some v) :
    TokenKind.brackets.IsPlain kind := by
  cases kind with
  | keyword k => exact ⟨rfl, rfl⟩
  | _ => simp [TokenKind.visibility?] at h

theorem nests_globalOption : globalOption.Nests := by
  intro s option s' h
  obtain ⟨rfl, hv⟩ := globalOption_ok.1 h
  exact .advance (isPlain_of_visibility? hv)

theorem nested_of_modified {ms : List Modifier} (h : Modified s ms s') : Nested s s' := by
  induction h with
  | nil _ _ => exact .refl _
  | plain hv _ ih => exact (Nested.advance (isPlain_of_visibility? hv)).trans ih
  | negated hk hv _ ih =>
    rw [ParseState.kindAt_one (by simp [hk])] at hv
    exact .pass hk ⟨rfl, rfl⟩ ((Nested.advance (isPlain_of_visibility? hv)).trans ih)

theorem nests_declName : declName.Nests := by
  intro s name s' h
  rcases declName_ok.1 h with ⟨raw, hk, rfl, -⟩ | ⟨first, hk, ⟨-, tail, hp, -⟩ | ⟨-, rfl, -⟩⟩
  · exact .pass hk ⟨rfl, rfl⟩ (.refl _)
  · exact .pass hk ⟨rfl, rfl⟩ (nested_of_pathTail hp)
  · exact .pass hk ⟨rfl, rfl⟩ (.refl _)

section
include hn

theorem nests_returnType : (returnType g).Nests := by
  intro s o s' h
  rcases returnType_ok.1 h with ⟨hk, t, -, ht⟩ | ⟨-, -, rfl⟩
  · exact .pass hk ⟨rfl, rfl⟩ (hn.type 0 ht)
  · exact .refl _

theorem nests_functionBody (modifiers : List Modifier) (name : DeclName) :
    (functionBody g modifiers name).Nests := by
  intro s o s' h
  rcases functionBody_ok.1 h with ⟨-, -, body, -, hb⟩ | ⟨hk, -, rfl⟩
  · exact hn.block hb
  · exact .pass hk ⟨rfl, rfl⟩ (.refl _)

theorem nests_structField : (structField g).Nests := by
  intro s f s' h
  obtain ⟨-, ⟨hk₁, hk, ht⟩ | ⟨-, s₁, ht, hk, rfl⟩⟩ := structField_ok.1 h
  · rw [ParseState.kindAt_one (by simp [hk])] at hk₁
    exact .pass hk ⟨rfl, rfl⟩ (.pass hk₁ ⟨rfl, rfl⟩ (hn.type 0 ht))
  · exact (hn.type 0 ht).trans (.pass hk ⟨rfl, rfl⟩ (.refl _))

/-- The fields of a struct end right before the brace that closes it. -/
theorem nested_of_fields {fs : List Field} (h : Fields g s fs s') :
    ∃ s₁, Nested s s₁ ∧ s₁.peek.kind = .punctuation .rBrace ∧ s' = s₁.advance := by
  induction h with
  | nil hk => exact ⟨_, .refl _, hk, rfl⟩
  | ended _ hf hk _ ih =>
    obtain ⟨s₁, hnest, hk₁, rfl⟩ := ih
    refine ⟨s₁, (nests_structField hn hf).trans ?_, hk₁, rfl⟩
    rcases hk with hk | hk
    · exact .pass hk ⟨rfl, rfl⟩ hnest
    · exact .pass hk ⟨rfl, rfl⟩ hnest
  | last _ hf hk he => exact ⟨_, nests_structField hn hf, hk, he.symm⟩

theorem nested_of_constDecl {modifiers : List Modifier} : (constDecl g modifiers).Nests := by
  intro s c s' h
  obtain ⟨hk, -, s₁, s₂, ht, hk₁, hk₂, hv, hk₃, rfl⟩ := constDecl_ok.1 h
  have htype : Nested s.advance s₁ := by
    rcases constType_ok.1 ht with ⟨-, -, -, rfl⟩ | ⟨-, t, -, ht⟩
    · exact .refl _
    · exact hn.type 0 ht
  have hvalue := (hn.expression false hv).trans (.pass hk₃ ⟨rfl, rfl⟩ (.refl _))
  exact .pass hk ⟨rfl, rfl⟩ (htype.trans (.pass hk₁ ⟨rfl, rfl⟩ (.pass hk₂ ⟨rfl, rfl⟩ hvalue)))

include hg

theorem nested_of_attributed {as : List Attribute} (h : Attributed g s as s') : Nested s s' := by
  induction h with
  | nil _ => exact .refl _
  | bare hk hk₁ _ _ ih => exact .pass hk ⟨rfl, rfl⟩ (.pass hk₁ ⟨rfl, rfl⟩ ih)
  | called hk hk₁ _ hargs _ ih =>
    exact .pass hk ⟨rfl, rfl⟩ (.pass hk₁ ⟨rfl, rfl⟩ ((nests_arguments hg hn hargs).trans ih))

theorem nests_functionDecl (modifiers : List Modifier) : (functionDecl g modifiers).Nests := by
  intro s f s' h
  obtain ⟨hk, -, s₁, s₂, s₃, s₄, s₅, hname, ht, hp, ha, hr, hb⟩ := (functionDecl_ok hg).1 h
  have hhead := (nests_declName hname).trans ((nests_typeParams ht).trans (nests_paramList hg hn hp))
  have htail := (nested_of_attributed hg hn ha).trans ((nests_returnType hn hr).trans (nests_functionBody hn _ _ hb))
  exact .pass hk ⟨rfl, rfl⟩ (hhead.trans htail)

theorem nests_structDecl (modifiers : List Modifier) : (structDecl g modifiers).Nests := by
  intro s d s' h
  obtain ⟨hk, -, hk₁, s₁, s₂, s₃, ht, ha, hk₂, hf, rfl⟩ := (structDecl_ok hg).1 h
  obtain ⟨s₄, hnest, hk₄, rfl⟩ := nested_of_fields hn hf
  have hend : Nested s₄.advance
      (if s₄.advance.peek.kind = .punctuation .semicolon then s₄.advance.advance else s₄.advance) := by
    split
    · rename_i hk₅
      exact .pass hk₅ ⟨rfl, rfl⟩ (.refl _)
    · exact .refl _
  have hbody := (Nested.group hk₂ rfl hnest hk₄).trans hend
  have hrest := (nests_typeParams ht).trans ((nested_of_attributed hg hn ha).trans hbody)
  exact .pass hk ⟨rfl, rfl⟩ (.pass hk₁ ⟨rfl, rfl⟩ hrest)

theorem nests_declaration : (declaration g).Nests := by
  intro s d s' h
  obtain ⟨form, h, -⟩ := declaration_ok.1 h
  rcases declarationForm_ok.1 h with ⟨-, path, h, -⟩ | ⟨-, options, h, -⟩ | ⟨hk, name, h, -⟩ | ⟨-, -, -, h⟩
  · obtain ⟨hk, s₁, hl, hk₁, rfl⟩ := importPath_ok.1 h
    have hpath := nests_pathSegment.listed hl fun _ hs => hs ▸ ⟨rfl, rfl⟩
    exact .pass hk ⟨rfl, rfl⟩ (hpath.trans (.pass hk₁ ⟨rfl, rfl⟩ (.refl _)))
  · obtain ⟨hk, s₁, hl, hk₁, rfl⟩ := globalLine_ok.1 h
    have hoptions := nests_globalOption.listed hl fun _ hs => hs ▸ ⟨rfl, rfl⟩
    exact .pass hk ⟨rfl, rfl⟩ (hoptions.trans (.pass hk₁ ⟨rfl, rfl⟩ (.refl _)))
  · obtain ⟨hk₁, hk₂, rfl⟩ := moduleLine_ok.1 h
    exact .pass hk ⟨rfl, rfl⟩ (.pass hk₁ ⟨rfl, rfl⟩ (.pass hk₂ ⟨rfl, rfl⟩ (.refl _)))
  · obtain ⟨ms, s₁, hm, ⟨-, decl, h, -⟩ | ⟨-, decl, h, -⟩ | ⟨-, decl, h, -⟩⟩ := modifiedForm_ok.1 h
    · exact (nested_of_modified hm).trans (nests_functionDecl hg hn _ h)
    · exact (nested_of_modified hm).trans (nested_of_constDecl hn h)
    · exact (nested_of_modified hm).trans (nests_structDecl hg hn _ h)

theorem nested_of_declared {ds : List Declaration} (h : Declared g s ds s') : Nested s s' := by
  induction h with
  | nil _ => exact .refl _
  | stray hk _ ih => exact .pass hk ⟨rfl, rfl⟩ ih
  | cons _ _ h _ ih => exact (nests_declaration hg hn h).trans ih

end

end Parser

/-! ### Programs -/

/-- The tokens before the first `eof`. -/
def beforeEof (tokens : List Token) : List Token := tokens.takeWhile fun t => !t.kind.isEof

/-- What is passed on the way to the end is all that stands before the first `eof`. -/
theorem Passes.beforeEof_eq {s s' : ParseState} {used : List Token} (h : Passes s used s') (he : s'.atEnd = true) :
    beforeEof s.rest = used := by
  have hused : ∀ t ∈ used, (!t.kind.isEof) = true := by
    intro t ht
    have := h.noEof t ht
    rw [Ne, ← TokenKind.isEof_iff] at this
    simpa using this
  unfold beforeEof
  rw [h.rest, List.takeWhile_append_of_pos hused]
  cases hr : s'.rest with
  | nil => simp
  | cons t ts =>
    rw [ParseState.atEnd, ParseState.peek_cons hr] at he
    simp [he]

/-- An accepted program has been read up to the first `eof`, and its parentheses, brackets and braces are balanced;
where they are not, something is reported. -/
theorem parseTokens_balanced (tokens : List Token) (o : ParseOptions) :
    (∀ p, parseTokens tokens o = .ok p →
      (∃ s, (Parser.program o).run { rest := tokens } = (.ok p.declarations, s) ∧
        Passes { rest := tokens } (beforeEof tokens) s ∧ s.atEnd = true) ∧
      TokenKind.brackets.Balanced ((beforeEof tokens).map Token.kind)) ∧
    (¬ TokenKind.brackets.Balanced ((beforeEof tokens).map Token.kind) →
      ∃ e more, parseTokens tokens o = .error (e :: more)) := by
  obtain ⟨limit, goesOn⟩ := o
  have hread (goesOn : Bool) {p : Program} (h : parseTokens tokens ⟨limit, goesOn⟩ = .ok p) :
      ∃ s, (Parser.program ⟨limit, goesOn⟩).run { rest := tokens } = (.ok p.declarations, s) ∧
        Passes { rest := tokens } (beforeEof tokens) s ∧ s.atEnd = true := by
    obtain ⟨s, hs, hd⟩ := parseTokens_ok.1 h
    have hrun := (Parser.program_ok hs).2 hd
    have he := Parser.atEnd_of_declared hd
    obtain ⟨⟨used, hp⟩, -⟩ := Parser.advances_run (Alike.advances fun ts => Alike.program (.refl ts) _) hrun
    rw [← hp.beforeEof_eq he] at hp
    exact ⟨s, hrun, hp, he⟩
  have hbalanced {p : Program} (h : parseTokens tokens ⟨limit, false⟩ = .ok p) :
      TokenKind.brackets.Balanced ((beforeEof tokens).map Token.kind) := by
    obtain ⟨s, hs, hd⟩ := parseTokens_ok.1 h
    obtain ⟨used, hp, hb⟩ := Parser.nested_of_declared (settled_ofRoom _ _) (Parser.nesting_ofRoom limit limit) hd
    rwa [← hp.beforeEof_eq (Parser.atEnd_of_declared hd)] at hb
  rcases parseTokens_recover tokens limit goesOn with ⟨p, hstop, hgo⟩ | ⟨e, more, hstop, hgo⟩
  · refine ⟨fun p' h' => ⟨hread goesOn h', hbalanced hstop⟩, fun hunbalanced => ?_⟩
    exact absurd (hbalanced hstop) hunbalanced
  · refine ⟨fun p' h' => ?_, fun _ => ⟨e, more, hgo⟩⟩
    rw [hgo] at h'
    cases h'

/-- A function with a group in a subscript. -/
def subscriptTokens : List Token := (lex "fn f(i32 x) { a[(x)]; }").tokens

/-- The same with the two closers interchanged. -/
def crossedTokens : List Token := (lex "fn f(i32 x) { a[(x]); }").tokens

/-- The one is accepted, the other is not. -/
theorem parseTokens_balanced_subscript :
    (∃ p, parseTokens subscriptTokens {} = .ok p ∧
      TokenKind.brackets.Balanced ((beforeEof subscriptTokens).map Token.kind)) ∧
    ¬ TokenKind.brackets.Balanced ((beforeEof crossedTokens).map Token.kind) ∧
      ∃ e more, parseTokens crossedTokens {} = .error (e :: more) := by
  have haccepted : (parseTokens subscriptTokens {}).toOption.isSome = true := by decide +kernel
  have hcrossed : ¬ TokenKind.brackets.Balanced ((beforeEof crossedTokens).map Token.kind) := by decide +kernel
  refine ⟨?_, hcrossed, (parseTokens_balanced _ _).2 hcrossed⟩
  cases hp : parseTokens subscriptTokens {} with
  | ok p => exact ⟨p, rfl, ((parseTokens_balanced _ _).1 p hp).2⟩
  | error errors => simp [hp, Except.toOption] at haccepted

end ElleFrontEnd
