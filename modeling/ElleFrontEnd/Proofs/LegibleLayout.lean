import ElleFrontEnd.Layout.Program
import ElleFrontEnd.Proofs.Lawful
import ElleFrontEnd.Proofs.Lead
import ElleFrontEnd.Proofs.Legible
import ElleFrontEnd.Proofs.Outline
import ElleFrontEnd.Proofs.RereadExpr

/-!
# Printed trees are legible

Each form of tree is printed legibly in front of what may follow it.  Behind an expression, that is whatever does not
begin with a word, since an expression ends with a word, a literal or a closing bracket (`AfterWord`).  A type may also
end with `*` or `>`, and is followed by marks that prolong neither (`AfterType`).

Before an operand, an operator is not prolonged by the first token of that: only `&` could begin both, and between two
operators a space is printed where both together would be a third.
-/

namespace ElleFrontEnd

open Fragment

/-! ### Words of trees -/

/-- Whether the words of an outline can be read from their texts. -/
def Outline.Legible (t : Outline) : Prop := ∀ k ∈ t.words, k.Legible

/-- Whether the words of several outlines can be read from their texts. -/
def outlinesLegible (ts : List Outline) : Prop := ∀ k ∈ outlinesWords ts, k.Legible

@[simp] theorem legible_node {s : Span} {words : List TokenKind} {parts : List Outline} :
    (Outline.node s words parts).Legible ↔ (∀ k ∈ words, k.Legible) ∧ outlinesLegible parts := by
  simp [Outline.Legible, outlinesLegible, or_imp, forall_and]

@[simp] theorem outlinesLegible_nil : outlinesLegible [] := by simp [outlinesLegible]

@[simp] theorem outlinesLegible_cons {t : Outline} {ts : List Outline} :
    outlinesLegible (t :: ts) ↔ t.Legible ∧ outlinesLegible ts := by
  simp [Outline.Legible, outlinesLegible, or_imp, forall_and]

@[simp] theorem outlinesLegible_append {ts us : List Outline} :
    outlinesLegible (ts ++ us) ↔ outlinesLegible ts ∧ outlinesLegible us := by
  simp [outlinesLegible, or_imp, forall_and]

/-! ### Legible fragments -/

namespace Fragment

variable {f : List Fragment}

/-- Whether legible fragments may stand behind a word. -/
def AfterWord (f : List Fragment) : Prop := Legible f ∧ (touches f = true → (next f).isWord = false)

/-- Whether a token makes no longer symbol of a `*` or of a `>`, and is no word. -/
def followsType : TokenKind → Bool
  | .punctuation .lParen | .punctuation .rParen | .punctuation .lBracket | .punctuation .comma
  | .punctuation .rBracket | .punctuation .semicolon | .operator .star | .operator .gt => true
  | _ => false

/-- Whether legible fragments may stand behind a type. -/
def AfterType (f : List Fragment) : Prop := Legible f ∧ (touches f = true → followsType (next f) = true)

theorem AfterType.afterWord (h : AfterType f) : AfterWord f := by
  refine ⟨h.1, fun ht => ?_⟩
  have hend := h.2 ht
  revert hend
  cases next f <;> simp [followsType, TokenKind.isWord]

@[simp] theorem legible_nil : Legible [] := trivial

@[simp] theorem legible_space : Legible (space :: f) ↔ Legible f := Iff.rfl

@[simp] theorem legible_line {depth : Nat} : Legible (.line depth :: f) ↔ Legible f := Iff.rfl

@[simp] theorem afterWord_space : AfterWord (space :: f) ↔ Legible f := by simp [AfterWord]

@[simp] theorem afterWord_line {depth : Nat} : AfterWord (.line depth :: f) ↔ Legible f := by simp [AfterWord]

@[simp] theorem afterWord_mark {p : Punctuation} : AfterWord (mark p :: f) ↔ Legible (mark p :: f) := by
  simp [AfterWord, TokenKind.isWord]

@[simp] theorem afterWord_op {o : Operator} : AfterWord (Fragment.op o :: f) ↔ Legible (Fragment.op o :: f) := by
  simp [AfterWord, TokenKind.isWord]

@[simp] theorem afterType_space : AfterType (space :: f) ↔ Legible f := by simp [AfterType]

@[simp] theorem afterType_line {depth : Nat} : AfterType (.line depth :: f) ↔ Legible f := by simp [AfterType]

theorem afterType_token {k : TokenKind} (hk : followsType k = true) :
    AfterType (.token k :: f) ↔ Legible (.token k :: f) := by
  simp [AfterType, hk]

/-- A mark that no other prolongs may stand before anything. -/
@[simp] theorem legible_mark {p : Punctuation} (hp : p.extensions = []) : Legible (mark p :: f) ↔ Legible f := by
  have hmay (b : TokenKind) : (TokenKind.punctuation p).mayTouch b = true := by
    cases p <;> cases b <;> simp_all [TokenKind.mayTouch, Punctuation.extensions]
  simp [Legible, legible_punctuation, hmay]

theorem legible_ofName {n : String} (hn : (TokenKind.ident n).Legible) : Legible (ofName n :: f) ↔ AfterWord f := by
  simp [Legible, hn, TokenKind.mayTouch, AfterWord, and_comm]

theorem legible_word {k : Keyword} : Legible (word k :: f) ↔ AfterWord f := by
  simp [Legible, legible_keyword, TokenKind.mayTouch, AfterWord, and_comm]

theorem legible_op {o : Operator} (hf : Legible f)
    (ho : touches f = true → (next f).symbolStart?.all (· ∉ o.extensions) = true) : Legible (Fragment.op o :: f) :=
  ⟨legible_operator o, fun ht => .inl (ho ht), hf⟩

@[simp] theorem legible_mark_space {p : Punctuation} : Legible (mark p :: space :: f) ↔ Legible f := by
  simp [Legible, legible_punctuation]

theorem legible_op_space {o : Operator} : Legible (Fragment.op o :: space :: f) ↔ Legible f := by
  simp [Legible, legible_operator]

theorem afterType_mark {p : Punctuation} (hp : followsType (.punctuation p) = true) :
    AfterType (mark p :: f) ↔ Legible f := by
  rw [afterType_token hp, legible_mark (by cases p <;> first | rfl | cases hp)]

theorem afterType_star (h : AfterType f) : AfterType (Fragment.op .star :: f) := by
  refine (afterType_token rfl).2 (legible_op h.1 fun ht => ?_)
  have hend := h.2 ht
  revert hend
  cases next f with
  | punctuation p => cases p <;> decide
  | operator o => cases o <;> decide
  | _ => simp [followsType]

/-- A `>` may touch another one, which is read as one token with it. -/
theorem afterType_gt (h : AfterType f) : AfterType (Fragment.op .gt :: f) := by
  refine (afterType_token rfl).2 ⟨legible_operator .gt, fun ht => ?_, h.1⟩
  have hend := h.2 ht
  revert hend
  cases next f with
  | punctuation p => cases p <;> decide
  | operator o => cases o <;> decide
  | _ => simp [followsType]

/-! ### Lists -/

/-- Items with a separator between two of them are legible where each is in front of the separator and in front of
what follows. -/
theorem legible_separated {sep : List Fragment} {items : List (List Fragment)} {After : List Fragment → Prop}
    (hafter : ∀ f, After f → Legible f) (hitem : ∀ item ∈ items, ∀ f, After f → Legible (item ++ f))
    (hsep : ∀ item ∈ items, ∀ f, Legible (item ++ f) → After (sep ++ (item ++ f))) (hf : After f) :
    Legible (separated sep items ++ f) := by
  induction items with
  | nil => exact hafter f hf
  | cons item items ih =>
    have hrest := ih (fun i hi => hitem i (List.mem_cons_of_mem _ hi)) fun i hi => hsep i (List.mem_cons_of_mem _ hi)
    have hfirst := hitem item List.mem_cons_self
    cases items with
    | nil => simpa [separated] using hfirst f hf
    | cons item' items =>
      have hcons : separated sep (item :: item' :: items) ++ f =
          item ++ (sep ++ (separated sep (item' :: items) ++ f)) := by
        simp [separated]
      obtain ⟨rest, hrest'⟩ : ∃ rest, separated sep (item' :: items) ++ f = item' ++ rest := by
        cases items with
        | nil => exact ⟨f, by simp [separated]⟩
        | cons item'' items => exact ⟨sep ++ (separated sep (item'' :: items) ++ f), by simp [separated]⟩
      rw [hrest'] at hrest hcons
      rw [hcons]
      exact hfirst _ (hsep item' (by simp) _ hrest)

theorem legible_commas {items : List (List Fragment)} (hitem : ∀ item ∈ items, ∀ f, AfterType f → Legible (item ++ f))
    (hf : AfterType f) : Legible (commas items ++ f) :=
  legible_separated (fun _ h => h.1) hitem (fun _ _ _ h => (afterType_mark rfl).2 h) hf

/-- The segments of a path. -/
theorem legible_path {names : List String} (hn : ∀ k ∈ nameWords names, k.Legible) (hf : AfterWord f) :
    Legible (separated [mark .colonColon] (names.map fun n => [ofName n]) ++ f) := by
  refine legible_separated (fun f h => h.1) ?_ (fun item _ f h => afterWord_mark.2 ((legible_mark rfl).2 h)) hf
  simp only [List.mem_map, forall_exists_index, and_imp, forall_apply_eq_imp_iff₂]
  exact fun n h f hf => (legible_ofName (hn _ (List.mem_map_of_mem h))).2 hf

theorem legible_parens {inner : List Fragment} (h : ∀ f, AfterType f → Legible (inner ++ f)) (hf : Legible f) :
    Legible (parens inner ++ f) := by
  rw [parens, List.cons_append, List.cons_append, List.append_assoc, legible_mark rfl]
  exact h _ ((afterType_mark rfl).2 hf)

end Fragment

/-! ### Types -/

/-- Type arguments in angle brackets: no type begins with a character that prolongs `<`. -/
theorem legible_typeArgs {ts : List TypeExpr} (hne : ts ≠ [])
    (hitem : ∀ item ∈ typeListLayout ts, ∀ f, AfterType f → Legible (item ++ f)) {f : List Fragment}
      (hf : AfterType f) :
    Legible (angles (commas (typeListLayout ts)) ++ f) := by
  have hitems : Legible (commas (typeListLayout ts) ++ Fragment.op .gt :: f) := legible_commas hitem (afterType_gt hf)
  rw [angles, List.cons_append, List.cons_append, List.append_assoc]
  refine legible_op hitems fun _ => ?_
  obtain ⟨t, ts, rfl⟩ := List.exists_cons_of_ne_nil hne
  obtain ⟨k, rest, hk, hopens⟩ := t.layout_cons
  have hnext : next (commas (typeListLayout (t :: ts)) ++ Fragment.op .gt :: f) = k := by
    cases ts <;> simp [typeListLayout, commas, separated, hk]
  rw [List.singleton_append, hnext]
  unfold opensType at hopens
  split at hopens
  · rfl
  · rfl
  · decide
  · cases hopens

mutual

theorem TypeExpr.legible_layout : (t : TypeExpr) → t.WellFormed → t.outline.Legible → {f : List Fragment} →
    AfterType f → Legible (t.layout ++ f)
  | .primitive _ type, _, _, f, hf => by
    simpa [TypeExpr.layout, legible_word] using hf.afterWord
  | .named _ n, _, hw, f, hf => by
    simp only [TypeExpr.outline, legible_node, List.mem_singleton, forall_eq] at hw
    simpa [TypeExpr.layout, legible_ofName hw.1] using hf.afterWord
  | .array _ element dims, hl, hw, f, hf => by
    simp only [TypeExpr.outline, legible_node, outlinesLegible_cons] at hw
    have hdims : AfterType ((List.replicate dims [mark .lBracket, mark .rBracket]).flatten ++ f) := by
      clear hl
      induction dims with
      | zero => simpa using hf
      | succ n ih =>
        simp only [List.replicate_succ, List.flatten_cons, List.cons_append, List.nil_append]
        exact (afterType_mark rfl).2 ((legible_mark rfl).2 ih.1)
    rw [TypeExpr.layout, List.append_assoc]
    exact element.legible_layout hl.1 hw.2.1 hdims
  | .pointer _ base depth, hl, hw, f, hf => by
    simp only [TypeExpr.outline, legible_node, outlinesLegible_cons] at hw
    have hdepth : AfterType (List.replicate depth (Fragment.op .star) ++ f) := by
      clear hl
      induction depth with
      | zero => simpa using hf
      | succ n ih => exact afterType_star ih
    rw [TypeExpr.layout, List.append_assoc]
    exact base.legible_layout hl.1 hw.2.1 hdepth
  | .generic _ n args, hl, hw, f, hf => by
    simp only [TypeExpr.outline, legible_node, List.mem_singleton, forall_eq] at hw
    rw [TypeExpr.layout, List.cons_append, legible_ofName hw.1]
    exact afterWord_op.2 (legible_typeArgs hl.1 (legible_typeListLayout args hl.2 hw.2) hf)
  | .tuple _ first second, hl, hw, f, hf => by
    simp only [TypeExpr.outline, legible_node, outlinesLegible_cons] at hw
    rw [TypeExpr.layout]
    refine legible_parens (fun f hf => legible_commas ?_ hf) hf.1
    simp only [List.mem_cons, List.not_mem_nil, or_false, forall_eq_or_imp, forall_eq]
    exact ⟨fun f hf => first.legible_layout hl.1 hw.2.1 hf, fun f hf => second.legible_layout hl.2 hw.2.2.1 hf⟩

theorem legible_typeListLayout : (ts : List TypeExpr) → typeListWellFormed ts → outlinesLegible (typeListOutlines ts) →
    ∀ item ∈ typeListLayout ts, ∀ f, AfterType f → Legible (item ++ f)
  | [], _, _ => by simp [typeListLayout]
  | t :: ts, hl, hw => by
    simp only [typeListOutlines, outlinesLegible_cons] at hw
    exact List.forall_mem_cons.2 ⟨fun f hf => t.legible_layout hl.1 hw.1 hf, legible_typeListLayout ts hl.2 hw.2⟩

end

theorem legible_optTypeArgsLayout {generics : Option (List TypeExpr)} (hl : genericsLawful generics)
    (hw : outlinesLegible (optTypeListOutlines generics)) {f : List Fragment} (hf : AfterType f) :
    AfterWord (optTypeArgsLayout generics ++ f) := by
  cases generics with
  | none => exact hf.afterWord
  | some args =>
    obtain ⟨hne, hargs⟩ := hl args rfl
    exact afterWord_op.2 (legible_typeArgs hne (legible_typeListLayout args hargs hw) hf)

/-! ### Parameters -/

theorem Param.legible_layout {p : Param} (hl : p.Lawful) (hw : p.outline.Legible) {f : List Fragment}
    (hf : AfterType f) : Legible (p.layout ++ f) := by
  cases p with
  | named _ type n =>
    simp only [outline, legible_node, List.mem_singleton, forall_eq, outlinesLegible_cons] at hw
    rw [layout, List.append_assoc]
    refine type.legible_layout hl hw.2.1 (afterType_space.2 ?_)
    exact (legible_ofName hw.1).2 hf.afterWord
  | unnamed _ type =>
    simp only [outline, legible_node, outlinesLegible_cons] at hw
    exact type.legible_layout hl hw.2.1 hf
  | variadic _ n =>
    simp only [outline, legible_node] at hw
    cases n with
    | none => exact (legible_mark rfl).2 hf.1
    | some n =>
      have hn : (TokenKind.ident n).Legible := hw.1 _ (by simp [nameWords])
      exact (legible_mark rfl).2 ((legible_ofName hn).2 hf.afterWord)
  | noFormat _ type n =>
    simp only [outline, legible_node, List.mem_singleton, forall_eq, outlinesLegible_cons] at hw
    rw [layout, List.append_assoc, List.append_assoc]
    refine (legible_mark rfl).2 ((legible_ofName legible_nofmt).2 (afterWord_space.2 ?_))
    refine type.legible_layout hl hw.2.1 (afterType_space.2 ?_)
    exact (legible_ofName hw.1).2 hf.afterWord

theorem ParamList.legible_layout {list : ParamList} (hl : list.Lawful) (hn : ∀ k ∈ list.words, k.Legible)
    (hw : outlinesLegible list.outlines) {f : List Fragment} (hf : Legible f) : Legible (list.layout ++ f) := by
  refine legible_parens (fun f hf => legible_commas (fun item hitem f hf => ?_) hf) hf
  rcases List.mem_append.1 hitem with hmeta | hparam
  · cases hm : list.metaName with
    | none => simp [hm, metaLayout] at hmeta
    | some n =>
      obtain rfl : item = [ofName "ElleMeta", space, ofName n] := by simpa [hm, metaLayout] using hmeta
      have hn : (TokenKind.ident n).Legible := hn _ (by simp [words, nameWords, hm])
      exact (legible_ofName legible_meta).2 (afterWord_space.2 ((legible_ofName hn).2 hf.afterWord))
  · obtain ⟨p, hp, rfl⟩ := List.mem_map.1 hparam
    refine Param.legible_layout (hl p hp) ?_ hf
    exact fun k hk => hw k (mem_outlinesWords (List.mem_map_of_mem hp) hk)

/-! ### First tokens of expressions -/

/-- Whether fragments begin with a token that opens an operand, and with a `&` only below the level of calls. -/
def OpensAt (level : Nat) (f : List Fragment) : Prop :=
  ∃ k f', f = .token k :: f' ∧ Parser.opensOperand true k = true ∧ (trailingLevel ≤ level → k.symbolStart? ≠ some '&')

theorem opensAt_token {level : Nat} {k : TokenKind} {f : List Fragment} (hk : Parser.opensOperand true k = true)
    (ha : k.symbolStart? ≠ some '&') : OpensAt level (.token k :: f) := ⟨k, f, rfl, hk, fun _ => ha⟩

theorem OpensAt.append {level : Nat} {f : List Fragment} (h : OpensAt level f) (f' : List Fragment) :
    OpensAt level (f ++ f') := by
  obtain ⟨k, f, rfl, hk, ha⟩ := h
  exact ⟨k, f ++ f', rfl, hk, ha⟩

theorem opensAt_grouped {level : Nat} {openRight : Bool} {e : Expr} {inner : Bool → List Fragment}
    (h : ∀ o, OpensAt e.level (inner o)) : OpensAt level (grouped level openRight e inner) := by
  unfold grouped
  split
  · exact opensAt_token rfl (by decide)
  · rename_i hgroup
    obtain ⟨k, f, hk, hopens, ha⟩ := h openRight
    refine ⟨k, f, hk, hopens, fun hl => ha ?_⟩
    simp [Expr.needsGroup] at hgroup
    exact Nat.le_trans hl hgroup.1

theorem OpensAt.below {level level' : Nat} {f : List Fragment} (h : OpensAt level f) (hl : level' < trailingLevel) :
    OpensAt level' f := by
  obtain ⟨k, f, rfl, hk, -⟩ := h
  exact ⟨k, f, rfl, hk, fun hle => absurd hle (Nat.not_le_of_lt hl)⟩

/-- An expression begins with a token that opens an operand, and with a `&` only below the level of calls. -/
theorem Expr.opensAt_layout (depth : Nat) (openRight : Bool) : (e : Expr) → e.Lawful →
    OpensAt e.level (e.layout depth openRight)
  | .binary _ left op _, h => by
    simp only [layout, List.append_assoc]
    exact ((opensAt_grouped fun o => left.opensAt_layout depth o h.1).append _).below
      (Nat.lt_succ_of_lt op.operator.precedence_lt)
  | .range _ start _ inclusive, h => by
    simp only [layout, List.append_assoc]
    exact ((opensAt_grouped fun o => start.opensAt_layout depth o h.1).append _).below
      (Nat.lt_succ_of_lt (rangeOperator inclusive).precedence_lt)
  | .conditional _ condition none _, h => by
    simp only [layout, List.append_assoc]
    exact ((opensAt_grouped fun o => condition.opensAt_layout depth o h.1).append _).below
      (Nat.lt_succ_of_lt conditionalLevel_lt)
  | .conditional _ condition (some _) _, h => by
    simp only [layout, List.append_assoc]
    exact ((opensAt_grouped fun o => condition.opensAt_layout depth o h.1).append _).below
      (Nat.lt_succ_of_lt conditionalLevel_lt)
  | .unary _ op _, _ => by
    simp only [layout, List.cons_append]
    refine ⟨_, _, rfl, ?_, fun hl => absurd hl (by decide : ¬ trailingLevel ≤ leadingLevel)⟩
    cases op <;> rfl
  | .call _ callee _ _, h => by
    simp only [layout, List.append_assoc]
    exact (opensAt_grouped fun o => callee.opensAt_layout depth o h.2.2.1).append _
  | .member _ object _, h => by
    simp only [layout]
    exact (opensAt_grouped fun o => object.opensAt_layout depth o h).append _
  | .subscript _ object _, h => by
    simp only [layout, List.append_assoc]
    exact (opensAt_grouped fun o => object.opensAt_layout depth o h.1).append _
  | .qualified _ (_ :: _), _ => by
    rw [layout, Parser.separated_names]
    exact opensAt_token rfl (by simp [TokenKind.symbolStart?])
  | .array _ _ isStatic _, _ => by
    cases isStatic <;> simp only [layout] <;> exact opensAt_token rfl (by decide)
  | .sigil _ _ none, _ | .sigil _ _ (some _), _ => by
    simp only [layout]
    exact opensAt_token rfl (by decide)
  | .directive _ d, _ => by
    rcases d with _ | _ | _ | _ | ⟨_, _ | _⟩ | ⟨_, _, _ | _⟩ | _ | _ | _ <;>
      simp only [layout, Directive.layout] <;> exact opensAt_token rfl (by decide)
  | .ident _ _, _ | .rawName _ _, _ | .number _ _, _ | .str _ _, _ | .char _ _, _ | .bool _ _, _
  | .structLit _ _ _ _, _ | .lambda _ _ _, _ | .blockLambda _ _ _, _ => by
    simp only [layout]
    exact opensAt_token rfl (by simp [TokenKind.symbolStart?])
  | .cast _ _ _, _ | .paren _ _, _ | .tuple _ _ _, _ | .triple _ _ _ _, _ => by
    simp only [layout]
    exact opensAt_token rfl (by decide)

/-! ### Expressions -/

theorem legible_grouped {level : Nat} {openRight : Bool} {e : Expr} {inner : Bool → List Fragment} {f : List Fragment}
    (h : ∀ o f, AfterWord f → Legible (inner o ++ f)) (hf : AfterWord f) :
    Legible (grouped level openRight e inner ++ f) := by
  unfold grouped
  split
  · exact legible_parens (fun f hf => h true f hf.afterWord) hf.1
  · exact h openRight f hf

theorem legible_op_of_opensAt {o : Operator} {level : Nat} {f : List Fragment} (hopens : OpensAt level f)
    (hf : Legible f) (ho : ∀ c ∈ o.extensions, c = '=' ∨ c = '.' ∨ c = '>' ∨ c = '&' ∧ trailingLevel ≤ level) :
    Legible (Fragment.op o :: f) := by
  obtain ⟨k, f, rfl, hk, ha⟩ := hopens
  refine legible_op hf fun _ => ?_
  have hstart : k.symbolStart? ≠ some '=' ∧ k.symbolStart? ≠ some '.' ∧ k.symbolStart? ≠ some '>' := by
    revert hk
    cases k with
    | operator o => cases o <;> decide
    | punctuation p => cases p <;> decide
    | _ => simp [TokenKind.symbolStart?]
  rw [next_token, Option.all_eq_true]
  intro c hc
  rw [decide_eq_true_eq]
  intro hmem
  rcases ho c hmem with rfl | rfl | rfl | ⟨rfl, hl⟩
  · exact hstart.1 hc
  · exact hstart.2.1 hc
  · exact hstart.2.2 hc
  · exact ha hl hc

theorem UnaryOp.apart (op inner : UnaryOp)
    (h : Operator.ofSpelling? (op.operator.spelling ++ inner.operator.spelling) = none) :
    (TokenKind.operator inner.operator).symbolStart?.all (· ∉ op.operator.extensions) = true := by
  revert h
  cases op <;> cases inner <;> decide

/-- An operand of an operator that is no operator with its operand itself begins with no `&`. -/
theorem opensAt_operand {operand : Expr} (hl : operand.Lawful) (hne : ∀ span inner e, operand ≠ .unary span inner e)
    (depth : Nat) (openRight : Bool) :
    OpensAt trailingLevel (grouped leadingLevel openRight operand (fun o => operand.layout depth o)) := by
  unfold grouped
  split
  · exact opensAt_token rfl (by decide)
  · rename_i hgroup
    have hlevel : leadingLevel ≤ operand.level := by
      simp [Expr.needsGroup] at hgroup
      exact hgroup.1
    obtain ⟨k, f, hk, hopens, ha⟩ := operand.opensAt_layout depth openRight hl
    refine ⟨k, f, hk, hopens, fun _ => ?_⟩
    cases operand with
    | binary _ _ op _ => exact absurd hlevel (Nat.not_le_of_lt op.operator.precedence_lt)
    | range _ _ _ inclusive => exact absurd hlevel (Nat.not_le_of_lt (rangeOperator inclusive).precedence_lt)
    | conditional _ _ _ _ => exact absurd hlevel (Nat.not_le_of_lt conditionalLevel_lt)
    | unary span inner e => exact absurd rfl (hne span inner e)
    | cast _ _ _ | lambda _ _ _ =>
      simp only [Expr.layout, parens, List.cons_append] at hk
      injection hk with hk
      injection hk with hk
      subst hk
      simp [TokenKind.symbolStart?, Punctuation.spelling]
    | _ => exact ha (by simp [Expr.level, trailingLevel, primaryLevel])

/-- Between two operators before an operand there is a space where both together would be a third one. -/
theorem legible_unary {op : UnaryOp} {operand : Expr} (hl : operand.Lawful) (depth : Nat) (openRight : Bool)
    {f : List Fragment} (h : Legible (grouped leadingLevel openRight operand (fun o => operand.layout depth o) ++ f)) :
    Legible (Fragment.op op.operator :: (unarySpace op operand ++
      (grouped leadingLevel openRight operand (fun o => operand.layout depth o) ++ f))) := by
  have hextensions : ∀ c ∈ op.operator.extensions, c = '=' ∨ c = '.' ∨ c = '>' ∨ c = '&' := by
    cases op <;> simp [UnaryOp.operator, Operator.extensions]
  by_cases hunary : ∃ span inner e, operand = .unary span inner e
  · obtain ⟨span, inner, e, rfl⟩ := hunary
    unfold unarySpace
    dsimp only
    split
    · exact legible_op_space.2 h
    · rename_i hnone
      refine legible_op h fun _ => ?_
      have hgroup :
          grouped leadingLevel openRight (.unary span inner e) (fun o => (Expr.unary span inner e).layout depth o) =
          (Expr.unary span inner e).layout depth openRight := by
        simp [grouped, Expr.needsGroup, Expr.level, Expr.endsInBody]
      rw [hgroup, Expr.layout]
      exact UnaryOp.apart op inner (by simpa using hnone)
  · have hne : ∀ span inner e, operand ≠ .unary span inner e := fun span inner e h => hunary ⟨span, inner, e, h⟩
    have hspace : unarySpace op operand = [] := by
      cases operand <;> first | rfl | exact absurd rfl (hne _ _ _)
    rw [hspace, List.nil_append]
    refine legible_op_of_opensAt ((opensAt_operand hl hne depth openRight).append f) h fun c hc => ?_
    exact (hextensions c hc).imp_right (Or.imp_right (Or.imp_right fun h => ⟨h, Nat.le_refl _⟩))

/-- A condition is legible with a pair of parentheses around it or without. -/
theorem legible_headerLayout {condition : Expr} {inner f : List Fragment} (h : ∀ f, AfterWord f → Legible (inner ++ f))
    (hf : AfterWord f) : Legible (headerLayout condition inner ++ f) := by
  unfold headerLayout
  split
  · exact legible_parens (fun f hf => h f hf.afterWord) hf.1
  · exact h f hf

theorem legible_bindingLayout {binding : Binding} {type : Option TypeExpr} {n : String}
    {init : Option (List Fragment)} {f : List Fragment} (hn : (TokenKind.ident n).Legible) (ht : optTypeLawful type)
    (hw : outlinesLegible (optTypeOutlines type)) (hi : ∀ v ∈ init, ∀ f, AfterWord f → Legible (v ++ f))
    (hf : AfterWord f) : Legible (bindingLayout binding type n init ++ f) := by
  have hvalue {v f : List Fragment} (hv : v ∈ init) (hf : AfterWord f) :
    Legible (space :: Fragment.op .eq :: space :: (v ++ f)) :=
    legible_space.2 (legible_op_space.2 (hi v hv f hf))
  unfold bindingLayout
  extract_lets value
  have hinit : AfterWord (value ++ f) := by
    unfold value
    cases init with
    | none => exact hf
    | some v => exact afterWord_space.2 (hvalue rfl hf)
  have hnamed := (legible_ofName hn).2 hinit
  split
  · exact (legible_ofName hn).2 (afterWord_space.2 (legible_op_space.2 (hi _ rfl f hf)))
  · rename_i t
    simp only [optTypeOutlines, outlinesLegible_cons] at hw
    rw [List.append_assoc, List.append_assoc]
    exact t.legible_layout (ht t rfl) hw.1 (afterType_space.2 hnamed)
  · rw [List.append_assoc]
    exact legible_word.2 (afterWord_space.2 hnamed)

theorem legible_assignLayout {target value f : List Fragment} {form : AssignOp}
    (ht : ∀ f, AfterWord f → Legible (target ++ f)) (hv : Legible (value ++ f)) :
    Legible (assignLayout target form value ++ f) := by
  simp only [assignLayout, List.append_assoc]
  exact ht _ (afterWord_space.2 (legible_op_space.2 hv))

/-- Statements in braces. -/
theorem legible_braces {statements : List (List Fragment)} {f : List Fragment} (depth : Nat)
    (h : ∀ s ∈ statements, ∀ f, Legible f → Legible (s ++ f)) (hf : Legible f) :
    Legible (braces depth statements ++ f) := by
  have hlines : ∀ f, Legible f →
      Legible ((statements.map fun s => .line (depth + 1) :: s).flatten ++ f) := by
    intro f hf
    induction statements with
    | nil => exact hf
    | cons s statements ih =>
      simp only [List.map_cons, List.flatten_cons, List.cons_append, List.append_assoc]
      exact legible_line.2 (h s List.mem_cons_self _ (ih fun s hs => h s (List.mem_cons_of_mem _ hs)))
  unfold braces
  split
  · exact (legible_mark rfl).2 ((legible_mark rfl).2 hf)
  · simp only [List.cons_append, List.append_assoc]
    exact (legible_mark rfl).2 (hlines _ (legible_line.2 ((legible_mark rfl).2 hf)))

theorem legible_openArray (isStatic : Bool) {f : List Fragment} (hf : Legible f) :
    Legible ((if isStatic then [mark .hash] else []) ++ ([mark .lBracket] ++ f)) := by
  cases isStatic with
  | false => exact (legible_mark rfl).2 hf
  | true => exact (legible_mark rfl).2 ((legible_mark rfl).2 hf)

theorem legible_directiveName {d : DirectiveName} {f : List Fragment} (hf : AfterWord f) :
    Legible (mark .hash :: ofName d.spelling :: f) :=
  (legible_mark rfl).2 ((legible_ofName (legible_directive d)).2 hf)

theorem legible_ifLayout {condition body f : List Fragment} (hc : ∀ f, AfterWord f → Legible (condition ++ f))
    (hb : Legible (body ++ f)) : Legible (ifLayout condition body ++ f) := by
  simp only [ifLayout, List.append_assoc]
  exact legible_word.2 (afterWord_space.2 (hc _ (afterWord_space.2 hb)))

mutual

theorem Expr.legible_layout (depth : Nat) : (e : Expr) → e.Lawful → e.outline.Legible → (openRight : Bool) →
    (f : List Fragment) → AfterWord f → Legible (e.layout depth openRight ++ f)
  | .binary _ left op right, hl, hw, openRight, f, hf => by
    simp only [Expr.outline, legible_node, outlinesLegible_cons] at hw
    simp only [Expr.layout, List.append_assoc, List.cons_append, List.nil_append]
    refine legible_grouped (left.legible_layout depth hl.1 hw.2.1) (afterWord_space.2 (legible_op_space.2 ?_))
    exact legible_grouped (right.legible_layout depth hl.2 hw.2.2.1) hf
  | .range _ start stop inclusive, hl, hw, openRight, f, hf => by
    simp only [Expr.outline, legible_node, outlinesLegible_cons] at hw
    simp only [Expr.layout, List.append_assoc, List.cons_append, List.nil_append]
    refine legible_grouped (start.legible_layout depth hl.1 hw.2.1) (afterWord_op.2 ?_)
    refine legible_op_of_opensAt ((opensAt_grouped fun o => stop.opensAt_layout depth o hl.2).append f) ?_ ?_
    · exact legible_grouped (stop.legible_layout depth hl.2 hw.2.2.1) hf
    · cases inclusive <;> simp [rangeOperator, Operator.extensions]
  | .unary _ op operand, hl, hw, openRight, f, hf => by
    simp only [Expr.outline, legible_node, outlinesLegible_cons] at hw
    simp only [Expr.layout, List.append_assoc, List.cons_append]
    have hl : operand.Lawful := hl
    refine legible_unary hl depth openRight ?_
    exact legible_grouped (operand.legible_layout depth hl hw.2.1) hf
  | .cast _ type operand, hl, hw, openRight, f, hf => by
    simp only [Expr.outline, legible_node, outlinesLegible_cons] at hw
    simp only [Expr.layout, List.append_assoc, List.cons_append, List.nil_append]
    refine legible_parens (fun f hf => type.legible_layout hl.1 hw.2.1 hf) (legible_space.2 ?_)
    split
    · exact legible_parens (fun f hf => operand.legible_layout depth hl.2 hw.2.2.1 true f hf.afterWord) hf.1
    · exact legible_grouped (operand.legible_layout depth hl.2 hw.2.2.1) hf
  | .call _ callee generics args, hl, hw, openRight, f, hf => by
    simp only [Expr.outline, legible_node, outlinesLegible_cons, outlinesLegible_append] at hw
    simp only [Expr.layout, List.append_assoc]
    have hargs : AfterType (parens (commas (exprListLayout depth args)) ++ f) := by
      refine (afterType_token rfl).2 ?_
      exact legible_parens (fun f hf => legible_commas (legible_exprListLayout depth args hl.2.2.2 hw.2.2.2) hf) hf.1
    have hgenerics := legible_optTypeArgsLayout hl.2.1 hw.2.2.1 hargs
    refine legible_grouped (callee.legible_layout depth hl.2.2.1 hw.2.1) ?_
    unfold calleeSpace
    split
    · exact afterWord_space.2 hgenerics.1
    · exact hgenerics
  | .member _ object n, hl, hw, openRight, f, hf => by
    simp only [Expr.outline, legible_node, outlinesLegible_cons, List.mem_singleton, forall_eq] at hw
    simp only [Expr.layout, List.append_assoc, List.cons_append, List.nil_append]
    refine legible_grouped (object.legible_layout depth hl hw.2.1) (afterWord_mark.2 ?_)
    exact ⟨legible_punctuation .dot, fun _ => .inl rfl, (legible_ofName hw.1).2 hf⟩
  | .subscript _ object index, hl, hw, openRight, f, hf => by
    simp only [Expr.outline, legible_node, outlinesLegible_cons] at hw
    simp only [Expr.layout, List.append_assoc, List.cons_append, List.nil_append]
    refine legible_grouped (object.legible_layout depth hl.1 hw.2.1) (afterWord_mark.2 ((legible_mark rfl).2 ?_))
    exact index.legible_layout depth hl.2 hw.2.2.1 true _ (afterWord_mark.2 ((legible_mark rfl).2 hf.1))
  | .conditional _ condition none alternative, hl, hw, openRight, f, hf => by
    simp only [Expr.outline, optExprOutlines, legible_node, outlinesLegible_cons, outlinesLegible_append] at hw
    simp only [Expr.layout, List.append_assoc, List.cons_append, List.nil_append]
    refine legible_grouped (condition.legible_layout depth hl.1 hw.2.1) (afterWord_space.2 ((legible_mark rfl).2 ?_))
    refine legible_space.2 (legible_mark_space.2 ?_)
    exact legible_grouped (alternative.legible_layout depth hl.2.2 hw.2.2.2.1) hf
  | .conditional _ condition (some chosen) alternative, hl, hw, openRight, f, hf => by
    simp only [Expr.outline, optExprOutlines, legible_node, outlinesLegible_cons, outlinesLegible_append] at hw
    simp only [Expr.layout, List.append_assoc, List.cons_append, List.nil_append]
    refine legible_grouped (condition.legible_layout depth hl.1 hw.2.1) (afterWord_space.2 ((legible_mark rfl).2 ?_))
    refine legible_space.2 (chosen.legible_layout depth hl.2.1 hw.2.2.1.1 true _ (afterWord_space.2 ?_))
    exact legible_mark_space.2 (legible_grouped (alternative.legible_layout depth hl.2.2 hw.2.2.2.1) hf)
  | .paren _ inner, hl, hw, openRight, f, hf => by
    simp only [Expr.outline, legible_node, outlinesLegible_cons] at hw
    rw [Expr.layout]
    exact legible_parens (fun f hf => inner.legible_layout depth hl hw.2.1 true f hf.afterWord) hf.1
  | .ident _ n, hl, hw, openRight, f, hf => by
    simp only [Expr.outline, legible_node, List.mem_singleton, forall_eq] at hw
    exact (legible_ofName hw.1).2 hf
  | .qualified _ path, hl, hw, openRight, f, hf => by
    simp only [Expr.outline, legible_node] at hw
    rw [Expr.layout]
    exact legible_path hw.1 hf
  | .rawName _ raw, hl, hw, openRight, f, hf => by
    simp only [Expr.outline, legible_node, List.mem_singleton, forall_eq] at hw
    exact ⟨hw.1, fun _ => .inl rfl, hf.1⟩
  | .number _ literal, hl, hw, openRight, f, hf => by
    simp only [Expr.outline, legible_node, List.mem_singleton, forall_eq] at hw
    exact ⟨hw.1, fun ht => .inl (by simpa [TokenKind.mayTouch] using hf.2 ht), hf.1⟩
  | .str _ parts, hl, hw, openRight, f, hf => by
    simp only [Expr.outline, legible_node, List.mem_singleton, forall_eq] at hw
    exact ⟨hw.1, fun _ => .inl rfl, hf.1⟩
  | .bool _ value, hl, hw, openRight, f, hf => legible_word.2 hf
  | .char _ part, hl, hw, openRight, f, hf => by
    simp only [Expr.outline, legible_node, List.mem_singleton, forall_eq] at hw
    exact ⟨hw.1, fun _ => .inl rfl, hf.1⟩
  | .array _ none isStatic elements, hl, hw, openRight, f, hf => by
    simp only [Expr.outline, legible_node, outlinesLegible_append] at hw
    simp only [Expr.layout, List.append_assoc, List.nil_append]
    refine legible_openArray isStatic ?_
    exact legible_commas (legible_exprListLayout depth elements hl.2 hw.2.2) ((afterType_mark rfl).2 hf.1)
  | .array _ (some t) isStatic elements, hl, hw, openRight, f, hf => by
    simp only [Expr.outline, optTypeOutlines, legible_node, outlinesLegible_append, outlinesLegible_cons] at hw
    simp only [Expr.layout, List.append_assoc]
    have helements : Legible (commas (exprListLayout depth elements) ++ ([mark .rBracket] ++ f)) :=
      legible_commas (legible_exprListLayout depth elements hl.2 hw.2.2) ((afterType_mark rfl).2 hf.1)
    refine legible_openArray isStatic (t.legible_layout (hl.1 t rfl) hw.2.1.1 ((afterType_mark rfl).2 ?_))
    split
    · exact helements
    · exact legible_space.2 helements
  | .tuple _ first second, hl, hw, openRight, f, hf => by
    simp only [Expr.outline, legible_node, outlinesLegible_cons] at hw
    rw [Expr.layout, List.cons_append]
    refine (legible_mark rfl).2 (legible_parens (fun f hf => legible_commas ?_ hf) hf.1)
    simp only [List.mem_cons, List.not_mem_nil, or_false, forall_eq_or_imp, forall_eq]
    exact ⟨fun f hf => first.legible_layout depth hl.1 hw.2.1 true f hf.afterWord,
      fun f hf => second.legible_layout depth hl.2 hw.2.2.1 true f hf.afterWord⟩
  | .triple _ first second third, hl, hw, openRight, f, hf => by
    simp only [Expr.outline, legible_node, outlinesLegible_cons] at hw
    rw [Expr.layout, List.cons_append, List.cons_append]
    refine (legible_mark rfl).2 ((legible_mark rfl).2 (legible_parens (fun f hf => legible_commas ?_ hf) hf.1))
    simp only [List.mem_cons, List.not_mem_nil, or_false, forall_eq_or_imp, forall_eq]
    exact ⟨fun f hf => first.legible_layout depth hl.1 hw.2.1 true f hf.afterWord,
      fun f hf => second.legible_layout depth hl.2.1 hw.2.2.1 true f hf.afterWord,
      fun f hf => third.legible_layout depth hl.2.2 hw.2.2.2.1 true f hf.afterWord⟩
  | .structLit _ n generics fields, hl, hw, openRight, f, hf => by
    simp only [Expr.outline, legible_node, List.mem_singleton, forall_eq, outlinesLegible_append] at hw
    rw [Expr.layout, List.cons_append, List.cons_append, List.append_assoc]
    refine (legible_ofName hw.1).2 (legible_optTypeArgsLayout hl.1 hw.2.1 ?_)
    split
    · exact afterType_space.2 ((legible_mark rfl).2 ((legible_mark rfl).2 hf.1))
    · simp only [List.append_assoc]
      refine afterType_space.2 (legible_mark_space.2 ?_)
      refine legible_commas (legible_fieldInitListLayout depth fields hl.2 hw.2.2) (afterType_space.2 ?_)
      exact (legible_mark rfl).2 hf.1
  | .lambda _ params body, hl, hw, openRight, f, hf => by
    simp only [Expr.outline, legible_node, outlinesLegible_cons, outlinesLegible_append] at hw
    simp only [Expr.layout, List.append_assoc, List.cons_append, List.nil_append]
    refine legible_word.2 (afterWord_mark.2 ?_)
    refine ParamList.legible_layout hl.1 hw.1 hw.2.1 (legible_space.2 ?_)
    exact legible_grouped (body.legible_layout depth hl.2 hw.2.2.1) hf
  | .blockLambda _ params body, hl, hw, openRight, f, hf => by
    simp only [Expr.outline, legible_node, outlinesLegible_cons, outlinesLegible_append] at hw
    simp only [Expr.layout, List.append_assoc, List.cons_append, List.nil_append]
    refine legible_word.2 (afterWord_mark.2 ?_)
    exact ParamList.legible_layout hl.1 hw.1 hw.2.1 (legible_space.2 (body.legible_layout depth hl.2 hw.2.2.1 f hf.1))
  | .directive _ directive, hl, hw, openRight, f, hf => by
    simp only [Expr.outline, legible_node] at hw
    exact directive.legible_layout depth hl hw.1 hw.2 f hf
  | .sigil _ n none, hl, hw, openRight, f, hf => by
    simp only [Expr.outline, legible_node, List.mem_singleton, forall_eq] at hw
    exact (legible_mark rfl).2 ((legible_ofName hw.1).2 hf)
  | .sigil _ n (some args), hl, hw, openRight, f, hf => by
    simp only [Expr.outline, legible_node, List.mem_singleton, forall_eq] at hw
    rw [Expr.layout, List.append_assoc]
    refine (legible_mark rfl).2 ((legible_ofName hw.1).2 (afterWord_mark.2 ?_))
    exact legible_parens (fun f hf => legible_commas (legible_exprListLayout depth args hl hw.2) hf) hf.1

theorem legible_exprListLayout (depth : Nat) : (es : List Expr) → exprListLawful es →
    outlinesLegible (exprListOutlines es) → ∀ item ∈ exprListLayout depth es, ∀ f, AfterType f → Legible (item ++ f)
  | [], _, _ => by simp [exprListLayout]
  | e :: es, hl, hw => by
    simp only [exprListOutlines, outlinesLegible_cons] at hw
    exact List.forall_mem_cons.2 ⟨fun f hf => e.legible_layout depth hl.1 hw.1 true f hf.afterWord,
      legible_exprListLayout depth es hl.2 hw.2⟩

theorem legible_fieldInitListLayout (depth : Nat) : (fields : List FieldInit) → fieldInitListLawful fields →
    outlinesLegible (fieldInitListOutlines fields) →
    ∀ item ∈ fieldInitListLayout depth fields, ∀ f, AfterType f → Legible (item ++ f)
  | [], _, _ => by simp [fieldInitListLayout]
  | .mk _ n value :: fields, hl, hw => by
    simp only [fieldInitListOutlines, FieldInit.outline, outlinesLegible_cons, legible_node, List.mem_singleton,
      forall_eq] at hw
    refine List.forall_mem_cons.2 ⟨fun f hf => ?_, legible_fieldInitListLayout depth fields hl.2 hw.2⟩
    simp only [List.append_assoc]
    refine (legible_ofName hw.1.1).2 (afterWord_space.2 (legible_op_space.2 ?_))
    exact value.legible_layout depth hl.1 hw.1.2.1 true f hf.afterWord

theorem Directive.legible_layout (depth : Nat) : (d : Directive) → d.Lawful → (∀ k ∈ d.words, k.Legible) →
    outlinesLegible d.outlines → (f : List Fragment) → AfterWord f → Legible (d.layout depth ++ f)
  | .len value, hl, _, hw, f, hf | .free value, hl, _, hw, f, hf | .setAllocator value, hl, _, hw, f, hf => by
    simp only [Directive.outlines, outlinesLegible_cons] at hw
    rw [Directive.layout, List.append_assoc]
    refine legible_directiveName (afterWord_mark.2 (legible_parens (fun f hf => ?_) hf.1))
    exact value.legible_layout depth hl hw.1 true f hf.afterWord
  | .size type, hl, _, hw, f, hf => by
    simp only [Directive.outlines, outlinesLegible_cons] at hw
    rw [Directive.layout, List.append_assoc]
    exact legible_directiveName (afterWord_mark.2 (legible_parens (fun f hf => type.legible_layout hl hw.1 hf) hf.1))
  | .alloc type none, hl, _, hw, f, hf => by
    simp only [Directive.outlines, outlinesLegible_cons] at hw
    rw [Directive.layout, List.append_assoc]
    exact legible_directiveName (afterWord_mark.2 (legible_parens (fun f hf => type.legible_layout hl.1 hw.1 hf) hf.1))
  | .alloc type (some count), hl, _, hw, f, hf => by
    simp only [Directive.outlines, optExprOutlines, outlinesLegible_cons] at hw
    rw [Directive.layout, List.append_assoc]
    refine legible_directiveName (afterWord_mark.2 (legible_parens (fun f hf => legible_commas ?_ hf) hf.1))
    simp only [List.mem_cons, List.not_mem_nil, or_false, forall_eq_or_imp, forall_eq]
    exact ⟨fun f hf => type.legible_layout hl.1 hw.1 hf,
      fun f hf => count.legible_layout depth hl.2 hw.2.1 true f hf.afterWord⟩
  | .realloc pointer type none, hl, _, hw, f, hf => by
    simp only [Directive.outlines, outlinesLegible_cons] at hw
    rw [Directive.layout, List.append_assoc]
    refine legible_directiveName (afterWord_mark.2 (legible_parens (fun f hf => legible_commas ?_ hf) hf.1))
    simp only [List.mem_cons, List.not_mem_nil, or_false, forall_eq_or_imp, forall_eq]
    exact ⟨fun f hf => pointer.legible_layout depth hl.1 hw.1 true f hf.afterWord,
      fun f hf => type.legible_layout hl.2.1 hw.2.1 hf⟩
  | .realloc pointer type (some count), hl, _, hw, f, hf => by
    simp only [Directive.outlines, optExprOutlines, outlinesLegible_cons] at hw
    rw [Directive.layout, List.append_assoc]
    refine legible_directiveName (afterWord_mark.2 (legible_parens (fun f hf => legible_commas ?_ hf) hf.1))
    simp only [List.mem_cons, List.not_mem_nil, or_false, forall_eq_or_imp, forall_eq]
    exact ⟨fun f hf => pointer.legible_layout depth hl.1 hw.1 true f hf.afterWord,
      fun f hf => type.legible_layout hl.2.1 hw.2.1 hf,
      fun f hf => count.legible_layout depth hl.2.2 hw.2.2.1 true f hf.afterWord⟩
  | .ident n, _, hn, _, f, hf => by
    have hn : (TokenKind.ident n).Legible := hn _ (by simp [Directive.words])
    rw [Directive.layout, List.append_assoc]
    refine legible_directiveName (afterWord_mark.2 (legible_parens (fun f hf => ?_) hf.1))
    exact (legible_ofName hn).2 hf.afterWord
  | .env, _, _, _, f, hf => legible_directiveName hf
  | .resetAllocator, _, _, _, f, hf => by
    rw [Directive.layout, List.append_assoc]
    exact legible_directiveName (afterWord_mark.2 (legible_parens (fun f hf => hf.1) hf.1))

theorem Block.legible_layout (depth : Nat) : (b : Block) → b.Lawful → b.outline.Legible → (f : List Fragment) →
    Legible f → Legible (b.layout depth ++ f)
  | .mk _ statements, hl, hw, f, hf => by
    simp only [Block.outline, legible_node] at hw
    exact legible_braces depth (legible_stmtListLayout (depth + 1) statements hl hw.2) hf

theorem legible_stmtListLayout (depth : Nat) : (ss : List Stmt) → stmtListLawful ss →
    outlinesLegible (stmtListOutlines ss) → ∀ s ∈ stmtListLayout depth ss, ∀ f, Legible f → Legible (s ++ f)
  | [], _, _ => by simp [stmtListLayout]
  | s :: ss, hl, hw => by
    simp only [stmtListOutlines, outlinesLegible_cons] at hw
    exact List.forall_mem_cons.2 ⟨s.legible_layout depth hl.1 hw.1, legible_stmtListLayout depth ss hl.2 hw.2⟩

theorem Stmt.legible_layout (depth : Nat) : (s : Stmt) → s.Lawful → s.outline.Legible → (f : List Fragment) →
    Legible f → Legible (s.layout depth ++ f)
  | .expr _ value, hl, hw, f, hf => by
    simp only [Stmt.outline, legible_node, outlinesLegible_cons] at hw
    rw [Stmt.layout, List.append_assoc]
    exact value.legible_layout depth hl hw.2.1 true _ (afterWord_mark.2 ((legible_mark rfl).2 hf))
  | .defer _ value, hl, hw, f, hf => by
    simp only [Stmt.outline, legible_node, outlinesLegible_cons] at hw
    rw [Stmt.layout, List.append_assoc, List.append_assoc]
    refine legible_word.2 (afterWord_space.2 ?_)
    exact value.legible_layout depth hl hw.2.1 true _ (afterWord_mark.2 ((legible_mark rfl).2 hf))
  | .varDecl _ binding type n none, hl, hw, f, hf => by
    simp only [Stmt.outline, legible_node, List.mem_singleton, forall_eq, outlinesLegible_append] at hw
    rw [Stmt.layout, List.append_assoc]
    exact legible_bindingLayout hw.1 hl.2.1 hw.2.1 (by simp) (afterWord_mark.2 ((legible_mark rfl).2 hf))
  | .varDecl _ binding type n (some init), hl, hw, f, hf => by
    simp only [Stmt.outline, legible_node, List.mem_singleton, forall_eq, outlinesLegible_append, optExprOutlines,
      outlinesLegible_cons] at hw
    rw [Stmt.layout, List.append_assoc]
    refine legible_bindingLayout hw.1 hl.2.1 hw.2.1 ?_ (afterWord_mark.2 ((legible_mark rfl).2 hf))
    rintro v ⟨⟩
    exact init.legible_layout depth hl.2.2 hw.2.2.1 true
  | .assign _ target form value, hl, hw, f, hf => by
    simp only [Stmt.outline, legible_node, outlinesLegible_cons] at hw
    rw [Stmt.layout, List.append_assoc]
    refine legible_assignLayout (target.legible_layout depth hl.1 hw.2.1 true) ?_
    exact value.legible_layout depth hl.2 hw.2.2.1 true _ (afterWord_mark.2 ((legible_mark rfl).2 hf))
  | .ifElse _ condition body otherwise, hl, hw, f, hf => by
    simp only [Stmt.outline, legible_node, outlinesLegible_cons] at hw
    rw [Stmt.layout, List.append_assoc]
    refine legible_ifLayout (fun f hf => legible_headerLayout (condition.legible_layout depth hl.1 hw.2.1 true) hf) ?_
    refine body.legible_layout depth hl.2.1 hw.2.2.1 _ ?_
    exact otherwise.legible_layout depth hl.2.2 hw.2.2.2 f hf
  | .whileLoop _ condition body, hl, hw, f, hf => by
    simp only [Stmt.outline, legible_node, outlinesLegible_cons] at hw
    simp only [Stmt.layout, List.append_assoc]
    refine legible_word.2 (afterWord_space.2 ?_)
    refine legible_headerLayout (condition.legible_layout depth hl.1 hw.2.1 true) (afterWord_space.2 ?_)
    exact body.legible_layout depth hl.2 hw.2.2.1 f hf
  | .forLoop _ init condition step body, hl, hw, f, hf => by
    simp only [Stmt.outline, legible_node, outlinesLegible_cons] at hw
    simp only [Stmt.layout, List.append_assoc]
    refine legible_word.2 (afterWord_space.2 (legible_parens (fun f hf => ?_) ?_))
    · simp only [List.append_assoc]
      refine init.legible_layout depth hl.1 hw.2.1 _ (afterWord_mark.2 (legible_mark_space.2 ?_))
      refine condition.legible_layout depth hl.2.1 hw.2.2.1 true _ (afterWord_mark.2 (legible_mark_space.2 ?_))
      exact step.legible_layout depth hl.2.2.1 hw.2.2.2.1 f hf.afterWord
    · exact legible_space.2 (body.legible_layout depth hl.2.2.2 hw.2.2.2.2.1 f hf)
  | .forEach _ n iterable body, hl, hw, f, hf => by
    simp only [Stmt.outline, legible_node, List.mem_singleton, forall_eq, outlinesLegible_cons] at hw
    simp only [Stmt.layout, List.append_assoc]
    refine legible_word.2 (afterWord_space.2 ((legible_ofName hw.1).2 (afterWord_space.2 ?_)))
    refine legible_word.2 (afterWord_space.2 (iterable.legible_layout depth hl.1 hw.2.1 true _ (afterWord_space.2 ?_)))
    exact body.legible_layout depth hl.2 hw.2.2.1 f hf
  | .returnValue _ none, _, _, f, hf => legible_word.2 (afterWord_mark.2 ((legible_mark rfl).2 hf))
  | .returnValue _ (some value), hl, hw, f, hf => by
    simp only [Stmt.outline, optExprOutlines, legible_node, outlinesLegible_cons] at hw
    rw [Stmt.layout, List.append_assoc, List.append_assoc]
    refine legible_word.2 (afterWord_space.2 ?_)
    exact value.legible_layout depth hl hw.2.1 true _ (afterWord_mark.2 ((legible_mark rfl).2 hf))
  | .breakLoop _, _, _, f, hf | .continueLoop _, _, _, f, hf =>
    legible_word.2 (afterWord_mark.2 ((legible_mark rfl).2 hf))
  | .block _ statements, hl, hw, f, hf => by
    simp only [Stmt.outline, legible_node] at hw
    exact legible_braces depth (legible_stmtListLayout (depth + 1) statements hl hw.2) hf
  | .buffer _ type n size, hl, hw, f, hf => by
    simp only [Stmt.outline, legible_node, List.mem_singleton, forall_eq, outlinesLegible_cons] at hw
    simp only [Stmt.layout, List.append_assoc]
    refine type.legible_layout hl.1 hw.2.1 (afterType_space.2 ?_)
    refine (legible_ofName hw.1).2 (afterWord_mark.2 ((legible_mark rfl).2 ?_))
    refine size.legible_layout depth hl.2 hw.2.2.1 true _ (afterWord_mark.2 ?_)
    exact (legible_mark rfl).2 ((legible_mark rfl).2 hf)

theorem Else.legible_layout (depth : Nat) : (o : Else) → o.Lawful → outlinesLegible o.outlines →
    (f : List Fragment) → Legible f → Legible (o.layout depth ++ f)
  | .absent, _, _, f, hf => hf
  | .block body, hl, hw, f, hf => by
    simp only [Else.outlines, outlinesLegible_cons] at hw
    rw [Else.layout, List.append_assoc]
    exact legible_space.2 (legible_word.2 (afterWord_space.2 (body.legible_layout depth hl hw.1 f hf)))
  | .elseIf _ condition body otherwise, hl, hw, f, hf => by
    simp only [Else.outlines, legible_node, outlinesLegible_cons] at hw
    simp only [Else.layout, List.append_assoc]
    refine legible_space.2 (legible_word.2 (afterWord_space.2 ?_))
    refine legible_ifLayout (fun f hf => legible_headerLayout (condition.legible_layout depth hl.1 hw.1.2.1 true) hf) ?_
    refine body.legible_layout depth hl.2.1 hw.1.2.2.1 _ ?_
    exact otherwise.legible_layout depth hl.2.2 hw.1.2.2.2 f hf

theorem ForInit.legible_layout (depth : Nat) : (i : ForInit) → i.Lawful → i.outline.Legible →
    (f : List Fragment) → AfterWord f → Legible (i.layout depth ++ f)
  | .varDecl _ binding type n none, hl, hw, f, hf => by
    simp only [ForInit.outline, legible_node, List.mem_singleton, forall_eq, outlinesLegible_append] at hw
    exact legible_bindingLayout hw.1 hl.2.1 hw.2.1 (by simp) hf
  | .varDecl _ binding type n (some init), hl, hw, f, hf => by
    simp only [ForInit.outline, legible_node, List.mem_singleton, forall_eq, outlinesLegible_append, optExprOutlines,
      outlinesLegible_cons] at hw
    refine legible_bindingLayout hw.1 hl.2.1 hw.2.1 ?_ hf
    rintro v ⟨⟩
    exact init.legible_layout depth hl.2.2 hw.2.2.1 true
  | .expr value, hl, hw, f, hf => value.legible_layout depth hl hw true f hf

theorem ForStep.legible_layout (depth : Nat) : (s : ForStep) → s.Lawful → s.outline.Legible →
    (f : List Fragment) → AfterWord f → Legible (s.layout depth ++ f)
  | .assign _ target form value, hl, hw, f, hf => by
    simp only [ForStep.outline, legible_node, outlinesLegible_cons] at hw
    exact legible_assignLayout (target.legible_layout depth hl.1 hw.2.1 true)
      (value.legible_layout depth hl.2 hw.2.2.1 true f hf)
  | .expr value, hl, hw, f, hf => value.legible_layout depth hl hw true f hf

end

end ElleFrontEnd
