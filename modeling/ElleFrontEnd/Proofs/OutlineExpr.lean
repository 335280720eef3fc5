import ElleFrontEnd.Proofs.Placed
import ElleFrontEnd.Proofs.ReadExpr

/-!
# The outlines of types and expressions

What a parser of the grammar has read lies, as outlines, between the place where it began and the place where it ended
(`Outlines`).  The lemmas follow the runs of each parser: parts that are read one after another stand one behind
another, and a node spans all of its parts, from the start of the first token to the end of the last.

The parsers of nested constructs are assumed to do the same (`Inner.Outlined`).
-/

namespace ElleFrontEnd

/-! ### Lists of outlines -/

theorem typeListOutlines_eq_map (ts : List TypeExpr) : typeListOutlines ts = ts.map TypeExpr.outline := by
  induction ts with
  | nil => rfl
  | cons t ts ih => rw [typeListOutlines, ih, List.map_cons]

theorem exprListOutlines_eq_map (es : List Expr) : exprListOutlines es = es.map Expr.outline := by
  induction es with
  | nil => rfl
  | cons e es ih => rw [exprListOutlines, ih, List.map_cons]

theorem fieldInitListOutlines_eq_map (fs : List FieldInit) : fieldInitListOutlines fs = fs.map FieldInit.outline := by
  induction fs with
  | nil => rfl
  | cons f fs ih => rw [fieldInitListOutlines, ih, List.map_cons]

@[simp] theorem Expr.span_outline (e : Expr) : e.outline.span = e.span := by
  cases e <;> rfl

theorem mem_nameWords {names : List String} {k : TokenKind} : k ∈ nameWords names ↔ ∃ name ∈ names,
    .ident name = k := by
  simp [nameWords]

/-- What a parser of the grammar reads, as outlines. -/
def Parser.Outlines {α : Type} (text : List Char) (f : α → List Outline) (p : Parser α) : Prop :=
  ∀ s a s', Placed text s → p.run s = (.ok a, s') → Reads text (f a) s s'

/-- What is read of an `if` behind its keyword, as outlines. -/
def IfParts.outlines (parts : IfParts) : List Outline :=
  parts.condition.outline :: parts.body.outline :: parts.otherwise.outlines

/-- The parsers of nested constructs read what their outlines say. -/
structure Inner.Outlined (text : List Char) (g : Inner) : Prop where
  type : ∀ angles, (g.type angles).Outlines text fun t => [t.outline]
  expression : ∀ header, (g.expression header).Outlines text fun e => [e.outline]
  chain : ∀ header level, (g.chain header level).Outlines text fun e => [e.outline]
  unary : ∀ header, (g.unary header).Outlines text fun e => [e.outline]
  block : g.block.Outlines text fun b => [b.outline]
  elseIf : g.elseIf.Outlines text IfParts.outlines

namespace Parser

variable {α : Type} {text : List Char} {s s₀ s₁ s' : ParseState}

/-- The items of a round. -/
def Round.items : Round α → List α
  | .stop | .none => []
  | .last a | .more a => [a]

namespace Outlines

variable {f : α → Outline}

theorem listed {ends separates : ParseState → Prop} {item : Parser α} (hi : item.Outlines text fun a => [f a])
    {as : List α} (hp : Placed text s) (h : Listed ends separates item s as s') : Reads text (as.map f) s s' := by
  induction h with
  | nil _ => exact .refl hp
  | last _ h _ => exact hi _ _ _ hp h
  | more _ h _ _ ih =>
    have hfirst := (hi _ _ _ hp h).thenAdvance
    exact hfirst.cons (ih hfirst.placed)

theorem collectFor {round : Parser (Round α)} (hr : round.Outlines text fun r => r.items.map f) (budget : List Token) :
    (Parser.collectFor round budget).Outlines text fun as => as.map f := by
  induction budget with
  | nil =>
    intro s as s' hp h
    obtain ⟨rfl, rfl⟩ : [] = as ∧ s = s' := pure_ok.1 h
    exact .refl hp
  | cons t budget ih =>
    intro s as s' hp h
    obtain ⟨r, s₁, hround, h⟩ := bind_ok.1 h
    have hfirst := hr _ _ _ hp hround
    cases r with
    | stop =>
      obtain ⟨rfl, rfl⟩ : [] = as ∧ s₁ = s' := pure_ok.1 h
      exact hfirst
    | last a =>
      obtain ⟨rfl, rfl⟩ : [a] = as ∧ s₁ = s' := pure_ok.1 h
      exact hfirst
    | more a =>
      obtain ⟨items, s₂, hitems, h⟩ := bind_ok.1 h
      obtain ⟨rfl, rfl⟩ : a :: items = as ∧ s₂ = s' := pure_ok.1 h
      exact hfirst.cons (ih _ _ _ hfirst.placed hitems)
    | none => exact hfirst.trans (ih _ _ _ hfirst.placed h)

/-- What the rounds of a repetition read stands one behind another. -/
theorem collect {round : Parser (Round α)} (hr : round.Outlines text fun r => r.items.map f) :
    (Parser.collect round).Outlines text fun as => as.map f :=
  fun s => collectFor hr (s.peek :: s.rest) s

end Outlines

/-! ### Types -/

/-- A run of `*` or `[]` is a node around the type before it. -/
theorem outlined_typeSuffixes {t t' : TypeExpr} (hp : Placed text s₀) (h : Grows (typeSuffix s₀.start) t s t' s')
    (ht : Reads text [t.outline] s₀ s) : Reads text [t'.outline] s₀ s' := by
  induction h with
  | stop h =>
    obtain ⟨-, rfl⟩ := typeSuffix_none.1 h
    exact ht
  | next h _ ih =>
    obtain ⟨-, ⟨-, n, hn, rfl⟩ | ⟨-, -, n, hn, rfl⟩⟩ := typeSuffix_some.1 h
    · have hall := ht.thenAdvances (advances_run (Alike.advances fun ts => Alike.starRun (.refl ts)) hn)
      exact ih (hall.node hp (hall.start_lt (by simp)) (by simp))
    · have hall := ht.thenAdvances (advances_run (Alike.advances fun ts => Alike.bracketRun (.refl ts)) hn)
      exact ih (hall.node hp (hall.start_lt (by simp)) (by simp))

section
variable {type : Nat → Parser TypeExpr} {angles : Nat} (ha : ∀ angles s, Advances s (type angles s).2)
  (ht : ∀ angles, (type angles).Outlines text fun t => [t.outline])
include ha ht

theorem outlined_typeArgs : (typeArgs type angles).Outlines text typeListOutlines := by
  intro s args s' hp h
  obtain ⟨-, s₁, hargs, hclose⟩ := (typeArgs_ok ha).1 h
  rw [typeListOutlines_eq_map]
  have hlist := Outlines.listed (ht _) (hp.advances (.advance s)).1 hargs
  exact (hlist.behindAdvance hp).thenAdvances
    (advances_run (Alike.advances fun ts => Alike.closeAngle (.refl ts) _) hclose)

theorem outlined_baseType (hp : Placed text s) {t : TypeExpr}
    (h : (baseType type angles s.start).run s = (.ok t, s')) : Reads text [t.outline] s s' := by
  rcases baseType_ok.1 h with ⟨p, hk, rfl, rfl⟩ | ⟨name, hk, h⟩ | ⟨hk, h⟩
  · exact .nodeBehind hp (by simp [hk]) (.refl (hp.advance (by simp [hk])).1) (by simp)
  · have hplaced := (hp.advance (by simp [hk])).1
    have hname : (TokenKind.ident name).Legible := hp.legible hk (by simp)
    rcases namedType_ok.1 h with ⟨-, -, args, hargs, rfl⟩ | ⟨-, rfl, rfl⟩
    · exact .nodeBehind hp (by simp [hk]) (outlined_typeArgs ha ht _ _ _ hplaced hargs) (by simpa using hname)
    · exact .nodeBehind hp (by simp [hk]) (.refl hplaced) (by simpa using hname)
  · obtain ⟨first, s₁, second, s₂, hfirst, -, hsecond, -, rfl, rfl⟩ := tupleType_ok.1 h
    have hfirst := (ht _ _ _ _ (hp.advance (by simp [hk])).1 hfirst).thenAdvance
    exact .nodeBehind hp (by simp [hk]) (hfirst.cons (ht _ _ _ _ hfirst.placed hsecond)).thenAdvance (by simp)

theorem outlined_typeBody : (typeBody type angles).Outlines text fun t => [t.outline] := by
  intro s t s' hp h
  obtain ⟨base, s₁, hbase, hgrow⟩ := typeBody_ok.1 h
  exact outlined_typeSuffixes hp hgrow (outlined_baseType ha ht hp hbase)

end

theorem outlined_typeExpr (limit room angles : Nat) :
    (typeExpr limit room angles).Outlines text fun t => [t.outline] := by
  induction room generalizing angles with
  | zero => exact fun s t s' _ h => absurd (tooDeep_ok.1 h) id
  | succ room ih =>
    exact outlined_typeBody (fun angles => Alike.advances fun ts => Alike.typeExpr (.refl ts) limit room angles) ih

/-- What holds of each item that is read in its place holds of all items of a list. -/
theorem forall_of_listed {ends separates : ParseState → Prop} {item : Parser α} {P : α → Prop}
    (ha : ∀ s, Advances s (item s).2) (hi : ∀ s a s', Placed text s → item.run s = (.ok a, s') → P a) {as : List α}
    (hp : Placed text s) (h : Listed ends separates item s as s') : ∀ a ∈ as, P a := by
  induction h with
  | nil _ => simp
  | last _ h _ => simpa using hi _ _ _ hp h
  | more _ h _ _ ih =>
    have hnext := hp.advances ((advances_run ha h).trans (.advance _))
    exact List.forall_mem_cons.2 ⟨hi _ _ _ hp h, ih hnext.1⟩

theorem legible_identifier {name : String} (hp : Placed text s) (h : identifier.run s = (.ok name, s')) :
    (TokenKind.ident name).Legible :=
  hp.legible (identifier_ok.1 h).1 (by simp)

theorem legible_nameWords {names : List String} (h : ∀ name ∈ names, (TokenKind.ident name).Legible) :
    ∀ k ∈ nameWords names, k.Legible := by
  intro k hk
  obtain ⟨name, hname, rfl⟩ := mem_nameWords.1 hk
  exact h name hname

theorem legible_typeParams {names : List String} (hp : Placed text s) (h : typeParams.run s = (.ok names, s')) :
    ∀ k ∈ nameWords names, k.Legible := by
  refine legible_nameWords ?_
  rcases typeParams_ok.1 h with ⟨-, s₁, hl, -⟩ | ⟨-, -, rfl⟩
  · exact forall_of_listed (Alike.advances fun ts => Alike.identifier (.refl ts))
      (fun _ _ _ hp h => legible_identifier hp h) (hp.advances (.advance s)).1 hl
  · simp

theorem legible_pathTail {names : List String} (hp : Placed text s) (h : PathTail s names s') :
    ∀ name ∈ names, (TokenKind.ident name).Legible := by
  induction h with
  | nil _ => simp
  | cons _ hn _ ih =>
    have hnext := (hp.advances (.advance _)).1
    exact List.forall_mem_cons.2 ⟨hnext.legible hn (by simp), ih (hnext.advances (.advance _)).1⟩

theorem advances_pathTail {names : List String} (h : PathTail s names s') : Advances s s' :=
  advances_run (Alike.advances fun ts => Alike.pathTail (.refl ts)) (pathTail_ok.2 h)

/-! ### Expressions -/

variable {g : Inner} {header : Bool}

section
variable (ho : g.Outlined text)
include ho

theorem outlined_commaListed {close : Punctuation} {es : List Expr} (hp : Placed text s)
    (h : CommaListed close (g.expression false) s es s') : Reads text (exprListOutlines es) s s' := by
  rw [exprListOutlines_eq_map]
  exact Outlines.listed (ho.expression false) hp h

theorem outlined_param : (param g).Outlines text fun p => [p.outline] := by
  intro s p s' hp h
  have hnext := (hp.advances (.advance s)).1
  have hnext' := (hnext.advances (.advance _)).1
  rcases param_ok.1 h with ⟨hk, ⟨name, hn, rfl, rfl⟩ | ⟨-, rfl, rfl⟩⟩ | ⟨hk, -, type, s₁, name, ht, hn, rfl, rfl⟩ |
    ⟨-, -, type, s₁, ht, ⟨name, hn, rfl, rfl⟩ | ⟨-, rfl, rfl⟩⟩
  · exact .nodeBehind hp (by simp [hk]) (.advance hnext) (by simpa [nameWords] using hnext.legible hn (by simp))
  · exact .nodeBehind hp (by simp [hk]) (.refl hnext) (by simp [nameWords])
  · have htype := ho.type 0 _ _ _ hnext' ht
    exact .nodeBehind hp (by simp [hk]) (htype.thenAdvance.behindAdvance hnext)
      (by simpa using htype.placed.legible hn (by simp))
  · have htype := ho.type 0 _ _ _ hp ht
    exact htype.thenAdvance.node hp (htype.thenAdvance.start_lt (by simp))
      (by simpa using htype.placed.legible hn (by simp))
  · have htype := ho.type 0 _ _ _ hp ht
    exact htype.node hp (htype.start_lt (by simp)) (by simp)

omit ho in
theorem legible_metaBinding {name : Option String} (hp : Placed text s) (h : metaBinding.run s = (.ok name, s')) :
    ∀ k ∈ nameWords name.toList, k.Legible := by
  rcases metaBinding_ok.1 h with ⟨-, n, hn, rfl, -⟩ | ⟨-, rfl, -⟩
  · exact legible_nameWords (by simpa using (hp.advances (.advance s)).1.legible hn (by simp))
  · simp [nameWords]

variable (hg : g.Settled)
include hg

theorem outlined_arguments : (arguments g).Outlines text exprListOutlines := by
  intro s es s' hp h
  obtain ⟨-, s₁, hes, -, rfl⟩ := (arguments_ok hg).1 h
  exact (outlined_commaListed ho (hp.advances (.advance s)).1 hes).thenAdvance.behindAdvance hp

theorem outlined_typeArguments : (typeArgs g.type 0).Outlines text typeListOutlines :=
  outlined_typeArgs hg.type ho.type

theorem outlined_paramList {list : ParamList} (hp : Placed text s) (h : (paramList g).run s = (.ok list, s')) :
    Reads text list.outlines s s' ∧ ∀ k ∈ list.words, k.Legible := by
  obtain ⟨-, s₁, s₂, hm, hps, -, rfl⟩ := (paramList_ok hg).1 h
  have hmeta := Reads.of_advances (hp.advances (.advance s)).1
    (advances_run (Alike.advances fun ts => Alike.metaBinding (.refl ts)) hm)
  have hparams : Reads text list.outlines s₁ s₂ := Outlines.listed (outlined_param ho) hmeta.placed hps
  exact ⟨((hmeta.trans hparams).thenAdvance).behindAdvance hp, legible_metaBinding (hp.advances (.advance s)).1 hm⟩

theorem outlined_lambda : (lambda g header).Outlines text fun e => [e.outline] := by
  intro s e s' hp h
  obtain ⟨hk, params, s₁, hps, h⟩ := lambda_ok.1 h
  obtain ⟨hparams, hw⟩ := outlined_paramList ho hg (hp.advances (.advance s)).1 hps
  rcases h with ⟨-, body, hb, rfl⟩ | ⟨-, body, hb, rfl⟩
  · exact .nodeBehind hp (by simp [hk]) (hparams.trans (ho.block _ _ _ hparams.placed hb)) hw
  · exact .nodeBehind hp (by simp [hk]) (hparams.trans (ho.expression header _ _ _ hparams.placed hb)) hw

/-- Type arguments, if there are any. -/
theorem outlined_structTypeArgs {generics : Option (List TypeExpr)} (hp : Placed text s)
    (h : (structTypeArgs g).run s = (.ok (some generics), s')) : Reads text (optTypeListOutlines generics) s s' := by
  rcases (structTypeArgs_some hg).1 h with ⟨-, -, args, rfl, hargs, -⟩ | ⟨-, rfl, rfl⟩
  · exact outlined_typeArguments ho hg _ _ _ hp hargs
  · exact .refl hp

omit hg in
theorem outlined_fieldInit : (fieldInit g).Outlines text fun f => [f.outline] := by
  intro s f s' hp h
  obtain ⟨name, value, hk, -, hv, rfl⟩ := fieldInit_ok.1 h
  have hnext := (hp.advances (.advance s)).1
  have hvalue := ho.expression false _ _ _ (hnext.advances (.advance _)).1 hv
  exact .nodeBehind hp (by simp [hk]) (hvalue.behindAdvance hnext) (by simpa using hp.legible hk (by simp))

theorem outlined_nameExpr : (nameExpr g header).Outlines text fun e => [e.outline] := by
  intro s e s' hp h
  obtain ⟨name, hk, h⟩ := (nameExpr_ok hg).1 h
  have hname : (TokenKind.ident name).Legible := hp.legible hk (by simp)
  have hnext := (hp.advances (.advance s)).1
  rcases h with ⟨-, names, hn, rfl⟩ | ⟨-, -, h⟩ | ⟨-, -, rfl, rfl⟩
  · exact .nodeBehind hp (by simp [hk]) (.of_advances hnext (advances_pathTail hn))
      (legible_nameWords (List.forall_mem_cons.2 ⟨hname, legible_pathTail hnext hn⟩))
  · obtain ⟨generics, s₁, fields, s₂, hgen, -, hfs, -, rfl, rfl⟩ := (structLiteral?_some hg).1 h
    have hgenerics := outlined_structTypeArgs ho hg hnext hgen
    have hfields := Outlines.listed (outlined_fieldInit ho) (hgenerics.placed.advances (.advance _)).1 hfs
    rw [← fieldInitListOutlines_eq_map] at hfields
    exact .nodeBehind hp (by simp [hk])
      (hgenerics.trans (hfields.thenAdvance.behindAdvance hgenerics.placed)) (by simpa using hname)
  · exact .nodeBehind hp (by simp [hk]) (.refl hnext) (by simpa using hname)

/-- An array literal is a node from the place where its source begins, which may be before its bracket. -/
theorem outlined_arrayLiteral {isStatic : Bool} {e : Expr} (hp₀ : Placed text s₀) (hp : Reads text [] s₀ s)
    (h : (arrayLiteral g s₀.start isStatic).run s = (.ok e, s')) : Reads text [e.outline] s₀ s' := by
  obtain ⟨hk, element, s₁, elements, s₂, hes, -, rfl, rfl, htag⟩ := (arrayLiteral_ok hg).1 h
  have hnext := (hp.placed.advances (.advance s)).1
  have helement : Reads text (optTypeOutlines element) s.advance s₁ := by
    rcases htag with ⟨type, s₃, rfl, ht, -, rfl⟩ | ⟨rfl, rfl, -⟩
    · exact (ho.type 0 _ _ _ hnext ht).thenAdvance
    · exact .refl hnext
  have hall := helement.trans (outlined_commaListed ho helement.placed hes).thenAdvance
  refine (hp.trans (hall.behindAdvance hp.placed)).node hp₀ ?_ (by simp)
  exact Nat.lt_of_le_of_lt hp.start_le (hall.start_lt_of_peek hp.placed (by simp [hk]))

omit hg in
theorem outlined_optionalOperand : (optionalOperand g).Outlines text optExprOutlines := by
  intro s o s' hp h
  rcases optionalOperand_ok.1 h with ⟨-, e, rfl, he⟩ | ⟨-, rfl, rfl⟩
  · exact (ho.expression false _ _ _ (hp.advances (.advance s)).1 he).behindAdvance hp
  · exact .refl hp

omit hg in
theorem outlined_operands {x : Directive} (hp : Placed text s) (h : Operands g s s' x) :
    Reads text x.outlines s s' ∧ ∀ k ∈ x.words, k.Legible := by
  cases x with
  | len e | free e | setAllocator e => exact ⟨ho.expression false _ _ _ hp h.2, by simp [Directive.words]⟩
  | size type => exact ⟨ho.type 0 _ _ _ hp h.2, by simp [Directive.words]⟩
  | ident n =>
    obtain ⟨hk, rfl⟩ := h
    exact ⟨.advance hp, by simpa [Directive.words] using hp.legible hk (by simp)⟩
  | env => exact h.elim
  | resetAllocator =>
    obtain rfl := h
    exact ⟨.refl hp, by simp [Directive.words]⟩
  | alloc type count =>
    obtain ⟨-, s₁, ht, hc⟩ := h
    have htype := ho.type 0 _ _ _ hp ht
    exact ⟨htype.cons (outlined_optionalOperand ho _ _ _ htype.placed hc), by simp [Directive.words]⟩
  | realloc e type count =>
    obtain ⟨-, s₁, s₂, he, -, -, ht, hc⟩ := h
    have hpointer := (ho.expression false _ _ _ hp he).thenAdvance
    have htype := hpointer.cons (ho.type 0 _ _ _ hpointer.placed ht)
    exact ⟨htype.trans (outlined_optionalOperand ho _ _ _ htype.placed hc), by simp [Directive.words]⟩

theorem outlined_hashExpr : (hashExpr g).Outlines text fun e => [e.outline] := by
  intro s e s' hp h
  have hnext := (hp.advances (.advance s)).1
  obtain ⟨hk, ⟨-, h⟩ | ⟨name, x, hn, -, hd, rfl⟩⟩ := hashExpr_ok.1 h
  · exact outlined_arrayLiteral ho hg hp (.advance hp) h
  · have hnext' := (hnext.advances (.advance _)).1
    have hparts : Reads text x.outlines s.advance.advance s' ∧ ∀ k ∈ x.words, k.Legible := by
      obtain ⟨-, ⟨henv, -, rfl⟩ | ⟨-, -, s₁, hops, -, rfl⟩⟩ := directiveOf_ok.1 hd
      · cases x <;> cases henv
        exact ⟨.refl hnext', by simp [Directive.words]⟩
      · obtain ⟨hparts, hw⟩ := outlined_operands ho (hnext'.advances (.advance _)).1 hops
        exact ⟨hparts.thenAdvance.behindAdvance hnext', hw⟩
    exact .nodeBehind hp (by simp [hk]) (hparts.1.behindAdvance hnext) hparts.2

theorem outlined_dollarExpr : (dollarExpr g).Outlines text fun e => [e.outline] := by
  intro s e s' hp h
  obtain ⟨hk, -, h⟩ := dollarExpr_ok.1 h
  have hne : s.peek.kind ≠ .eof := by simp [hk]
  have hnext := (hp.advances (.advance s)).1
  have hnext' := (hnext.advances (.advance _)).1
  rcases h with ⟨-, -, -, a, b, c, hargs, rfl⟩ | ⟨-, a, b, hargs, rfl⟩ |
    ⟨name, hn, ⟨-, -, args, hargs, rfl⟩ | ⟨-, rfl, rfl⟩⟩
  · exact .nodeBehind hp hne ((outlined_arguments ho hg _ _ _ hnext' hargs).behindAdvance hnext) (by simp)
  · exact .nodeBehind hp hne (outlined_arguments ho hg _ _ _ hnext hargs) (by simp)
  · exact .nodeBehind hp hne ((outlined_arguments ho hg _ _ _ hnext' hargs).behindAdvance hnext)
      (by simpa using hnext.legible hn (by simp))
  · exact .nodeBehind hp hne (.advance hnext) (by simpa using hnext.legible hn (by simp))

omit ho hg in
/-- A literal is a word. -/
theorem outlined_literal {e : Expr} (hp : Placed text s)
    (h : literalOf? (s.advance.spanFrom s.start) s.peek.kind = some e) : Reads text [e.outline] s s.advance := by
  have hplaced := (hp.advances (.advance s)).1
  unfold literalOf? at h
  split at h <;> cases h
  all_goals
    rename_i hk
    exact .nodeBehind hp (by simp [hk]) (.refl hplaced) (by simp [hp.legible hk])

theorem outlined_primary : (primary g header).Outlines text fun e => [e.outline] := by
  intro s e s' hp h
  rcases primary_ok.1 h with ⟨h, rfl⟩ | ⟨-, h⟩ | ⟨-, h⟩ | ⟨hk, h⟩ | ⟨-, h⟩ | ⟨-, h⟩ | ⟨-, h⟩
  · exact outlined_literal hp h
  · exact outlined_lambda ho hg _ _ _ hp h
  · exact outlined_nameExpr ho hg _ _ _ hp h
  · obtain ⟨inner, s₁, hi, -, rfl, rfl⟩ := parenthesized_ok.1 h
    have hinner := ho.expression false _ _ _ (hp.advances (.advance s)).1 hi
    exact .nodeBehind hp (by simp [hk]) hinner.thenAdvance (by simp)
  · exact outlined_arrayLiteral ho hg hp (.refl hp) h
  · exact outlined_hashExpr ho hg _ _ _ hp h
  · exact outlined_dollarExpr ho hg _ _ _ hp h

/-- A call, a member or a subscript is a node around the expression before it. -/
theorem outlined_suffixes {e e' : Expr} (hp : Placed text s₀) (h : Grows (suffixStep g s₀.start) e s e' s')
    (he : Reads text [e.outline] s₀ s) : Reads text [e'.outline] s₀ s' := by
  induction h with
  | stop h =>
    obtain ⟨rfl, -⟩ := (suffixStep_none hg).1 h
    exact he
  | @next e _ _ s _ _ h _ ih =>
    have hnode {s₁ : ParseState} {words : List TokenKind} {ts : List Outline} (ht : Reads text ts s s₁)
        (hw : ∀ k ∈ words, k.Legible) :
        Reads text [.node (s₁.spanFrom s₀.start) words (e.outline :: ts)] s₀ s₁ :=
      (he.cons ht).node hp ((he.cons ht).start_lt (by simp)) hw
    have hnext := (he.placed.advances (.advance s)).1
    refine ih ?_
    rcases (suffixStep_some hg).1 h with ⟨-, args, hargs, rfl⟩ | ⟨-, -, -, generics, s₂, args, hgen, hargs, rfl⟩ |
      ⟨-, name, hn, rfl, rfl⟩ | ⟨-, index, s₂, hi, -, rfl, rfl⟩
    · exact hnode (outlined_arguments ho hg _ _ _ he.placed hargs) (by simp)
    · have hgenerics := outlined_typeArguments ho hg _ _ _ he.placed (callTypeArgs_ok.1 hgen).1
      exact hnode (hgenerics.trans (outlined_arguments ho hg _ _ _ hgenerics.placed hargs)) (by simp)
    · exact hnode ((Reads.advance hnext).behindAdvance he.placed) (by simpa using hnext.legible hn (by simp))
    · exact hnode (((ho.expression false _ _ _ hnext hi).thenAdvance).behindAdvance he.placed) (by simp)

theorem outlined_operandExpr : (operandExpr g header).Outlines text fun e => [e.outline] := by
  intro s e s' hp h
  obtain ⟨first, s₁, hfirst, hgrow⟩ := (operandExpr_ok hg).1 h
  exact outlined_suffixes ho hg hp hgrow (outlined_primary ho hg _ _ _ hp hfirst)

omit hg in
/-- `&&` before an operand is two nodes, the inner of which begins between the two characters. -/
theorem outlined_doubleAddress (hp : Placed text s) (hk : s.peek.kind = .operator .andAnd) {e : Expr}
    (h : (doubleAddress g header s.start).run s = (.ok e, s')) : Reads text [e.outline] s s' := by
  obtain ⟨-, inner, hi, rfl⟩ := doubleAddress_ok.1 h
  have hnext := hp.advance (by simp [hk])
  have hinner := ho.unary header _ _ _ hnext.1 hi
  obtain ⟨hhalf, hlt⟩ : OnBoundary text (s.start + 1) ∧ s.start + 1 < s.peek.span.stop := hp.peek.halved hk
  have hmem : inner.outline ∈ [inner.outline] := List.mem_singleton_self _
  have hbetween := hinner.standing.between _ hmem
  have hlaminar := hinner.laminar _ hmem
  have hbehind : s.start + 1 < inner.outline.span.start := by
    have := hnext.1.readStop_le_start
    have hstop : s.advance.readStop = s.peek.span.stop := by
      obtain ⟨ts, hr⟩ := ParseState.rest_of_peek (s := s) (by simp [hk])
      rw [ParseState.advance_cons hr (by simp [hk])]
      rfl
    omega
  have hnode : Reads text [.node ⟨s.start + 1, inner.span.stop⟩ [] [inner.outline]] s s' := by
    rw [← Expr.span_outline]
    have := hlaminar.start_lt_stop
    refine ⟨hinner.placed, (hinner.behindAdvance hp).stop_le, (hinner.behindAdvance hp).start_le,
      .singleton (Nat.le_succ _) hbetween.2, ?_, by simpa using hinner.legible⟩
    intro t ht
    obtain rfl := List.mem_singleton.1 ht
    exact .node (by dsimp only; omega) hhalf hlaminar.bound_stop
      (.singleton (Nat.le_of_lt hbehind) (Nat.le_refl _)) hinner.laminar
  exact hnode.node hp (hnode.start_lt (by simp)) (by simp)

theorem outlined_unaryBody : (unaryBody g header).Outlines text fun e => [e.outline] := by
  intro s e s' hp h
  rcases (unaryBody_ok hg).1 h with ⟨op, unary, inner, hk, -, -, hi, rfl⟩ | ⟨hk, h⟩ | ⟨hk, h⟩ | ⟨-, -, h⟩
  · have hinner := ho.unary header _ _ _ (hp.advances (.advance s)).1 hi
    exact .nodeBehind hp (by simp [hk]) hinner (by simp)
  · exact outlined_doubleAddress ho hp hk h
  · obtain ⟨type, s₁, inner, ht, -, hi, rfl⟩ := (cast?_some hg).1 h
    obtain ⟨s₂, ht', -, rfl⟩ := castType_ok.1 ht
    have htype := (ho.type 0 _ _ _ (hp.advances (.advance s)).1 ht').thenAdvance
    exact .nodeBehind hp (by simp [hk]) (htype.cons (ho.unary header _ _ _ htype.placed hi)) (by simp)
  · exact outlined_operandExpr ho hg _ _ _ hp h

omit ho hg in
/-- What an operator makes of its operands spans both of them. -/
theorem outlined_joined {op : Operator} {left right e : Expr} (h : joined? op left right = some e) :
    e.outline = .node (left.outline.span.merge right.outline.span) [] [left.outline, right.outline] := by
  rw [Expr.span_outline, Expr.span_outline]
  unfold joined? at h
  split at h
  · cases h
    rfl
  · cases h
    rfl
  · obtain ⟨binary, -, rfl⟩ := Option.map_eq_some_iff.1 h
    rfl

omit hg in
theorem outlined_chain {level : Nat} {e e' : Expr} (h : Grows (chainStep g header level) e s e' s')
    (he : Reads text [e.outline] s₀ s) : Reads text [e'.outline] s₀ s' := by
  induction h with
  | stop h =>
    obtain ⟨rfl, -⟩ := chainStep_none.1 h
    exact he
  | @next e _ _ s _ _ h _ ih =>
    obtain ⟨op, right, -, -, -, -, hr, hj⟩ := chainStep_some.1 h
    have hright := ho.chain header _ _ _ _ (he.placed.advances (.advance s)).1 hr
    refine ih ?_
    rw [outlined_joined hj]
    exact Reads.merged [] (he.cons (hright.behindAdvance he.placed))

theorem outlined_chainBody (level : Nat) : (chainBody g header level).Outlines text fun e => [e.outline] := by
  intro s e s' hp h
  obtain ⟨first, s₁, hfirst, hgrow⟩ := (chainBody_ok hg).1 h
  exact outlined_chain ho hgrow (outlined_unaryBody ho hg _ _ _ hp hfirst)

theorem outlined_expressionBody : (expressionBody g header).Outlines text fun e => [e.outline] := by
  intro s e s' hp h
  obtain ⟨condition, s₁, hc, h⟩ := expressionBody_ok.1 h
  have hcondition := outlined_chainBody ho hg _ _ _ _ hp hc
  rcases h with ⟨-, rfl, rfl⟩ | ⟨-, chosen, s₂, alternative, hchosen, -, ha, rfl⟩
  · exact hcondition
  · have hnext := (hcondition.thenAdvance).placed
    have hconsequence : Reads text (optExprOutlines chosen) s₁.advance s₂ := by
      rcases consequence_ok.1 hchosen with ⟨-, rfl, rfl⟩ | ⟨-, e, rfl, he⟩
      · exact .refl hnext
      · exact ho.expression header _ _ _ hnext he
    have hrest := hconsequence.thenAdvance.trans
      (ho.expression header _ _ _ hconsequence.thenAdvance.placed ha)
    have hmerged := Reads.merged _ (hcondition.thenAdvance.cons hrest)
    have heq : (Expr.conditional (condition.span.merge alternative.span) condition chosen alternative).outline =
        .node (condition.outline.span.merge alternative.outline.span) []
          (condition.outline :: (optExprOutlines chosen ++ [alternative.outline])) := by
      rw [Expr.span_outline, Expr.span_outline]
      rfl
    rwa [← heq] at hmerged

end

end Parser

end ElleFrontEnd
