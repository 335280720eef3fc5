import ElleFrontEnd.Proofs.HandBuilt
import ElleFrontEnd.Proofs.LegibleLayout
import ElleFrontEnd.Proofs.OpeningsExpr
import ElleFrontEnd.Proofs.Ready
import ElleFrontEnd.Proofs.ReadBare
import ElleFrontEnd.Proofs.LayoutSpans

/-!
# Parentheses that are printed are needed

No tree can be read of a text with fewer `(` than the printer writes for it (`Expr.Bare.spares`): what is read is
bare, so that it holds a node for parentheses wherever the printer would add some.  Hence a text from which
parentheses are taken is not read as the same tree (`print_needs_parens`).
-/

namespace ElleFrontEnd

open Fragment

/-! ### Printing without the nodes for parentheses -/

theorem openings_grouped (level : Nat) (openRight : Bool) (e : Expr) (inner : Bool → List Fragment) :
    openings (grouped level openRight e inner) =
      if e.needsGroup level openRight then openings (inner true) + 1 else openings (inner openRight) := by
  unfold grouped
  split <;> simp

@[simp] theorem openings_unarySpace (op : UnaryOp) (e : Expr) : openings (unarySpace op e) = 0 := by
  unfold unarySpace
  split
  · split <;> simp
  · rfl

@[simp] theorem openings_calleeSpace (e : Expr) : openings (calleeSpace e) = 0 := by
  unfold calleeSpace
  split <;> simp

@[simp] theorem openings_directiveName (d : DirectiveName) : (TokenKind.ident d.spelling).openings = 0 := by
  cases d <;> decide

/-- What follows an operand costs it one pair of parentheses at most, if that is true of the operand itself. -/
theorem openings_grouped_edge {e : Expr} {depth : Nat}
    (h : openings (e.layout depth false) ≤ openings (e.layout depth true) + 1) (level : Nat) :
    openings (grouped level false e fun o => e.layout depth o) ≤
      openings (grouped level true e fun o => e.layout depth o) + 1 := by
  rw [openings_grouped, openings_grouped]
  simp only [Expr.needsGroup, Bool.not_true, Bool.and_false, Bool.or_false, Bool.not_false, Bool.and_true]
  by_cases hlevel : e.level < level
  · simp [hlevel]
  · by_cases hends : e.endsInBody = true
    · simp [hlevel, hends]
    · simpa [hlevel, hends] using h

/-- What follows an expression costs it one pair of parentheses at most: those around the lambda that it ends in. -/
theorem Expr.openings_layout_edge (depth : Nat) : (e : Expr) →
    Fragment.openings (e.layout depth false) ≤ Fragment.openings (e.layout depth true) + 1
  | .binary _ _ op right => by
    have := openings_grouped_edge (right.openings_layout_edge depth) (operandLevels op.operator).2
    simp only [layout, openings_append]
    omega
  | .range _ _ stop inclusive => by
    have := openings_grouped_edge (stop.openings_layout_edge depth) (operandLevels (rangeOperator inclusive)).2
    simp only [layout, openings_append]
    omega
  | .unary _ _ operand => by
    have := openings_grouped_edge (operand.openings_layout_edge depth) leadingLevel
    simp only [layout, openings_append, openings_token]
    omega
  | .cast _ _ operand => by
    have := openings_grouped_edge (operand.openings_layout_edge depth) leadingLevel
    simp only [layout, openings_append]
    split <;> omega
  | .conditional _ _ none alternative | .conditional _ _ (some _) alternative => by
    have := openings_grouped_edge (alternative.openings_layout_edge depth) conditionalLevel
    simp only [layout, openings_append]
    omega
  | .lambda _ _ body => by
    have := openings_grouped_edge (body.openings_layout_edge depth) conditionalLevel
    simp only [layout, openings_append, openings_token]
    omega
  | .call _ _ _ _ | .member _ _ _ | .subscript _ _ _ | .paren _ _ | .ident _ _ | .qualified _ _ | .rawName _ _
  | .number _ _ | .str _ _ | .bool _ _ | .char _ _ | .array _ _ _ _ | .tuple _ _ _ | .triple _ _ _ _
  | .structLit _ _ _ _ | .blockLambda _ _ _ | .directive _ _ | .sigil _ _ none | .sigil _ _ (some _) => by
    simp only [layout]
    omega

/-- What binds as tightly as a call ends in no lambda. -/
theorem Expr.closed_of_trailing {e : Expr} (h : trailingLevel ≤ e.level) : e.endsOpen = false := by
  cases e with
  | binary _ _ op _ =>
    have hlow := op.operator.precedence_lt
    change 14 ≤ op.operator.precedence at h
    simp only [leadingLevel] at hlow
    omega
  | range _ _ _ inclusive => cases inclusive <;> simp [level, rangeOperator, Operator.precedence, trailingLevel] at h
  | unary | cast | lambda | conditional => simp [level, leadingLevel, conditionalLevel, trailingLevel] at h
  | _ => rfl

/-- Without its nodes for parentheses, an expression is printed with no more parentheses than it had, and with fewer
where such a node stood around it or around what it begins with. -/
structure Expr.Spares (depth : Nat) (openRight : Bool) (e : Expr) : Prop where
  le : Fragment.openings (e.ungrouped.layout depth openRight) ≤ e.openings
  lt : e.isParen = true ∨ e.opensAmbiguously = false ∧ e.ungrouped.opensAmbiguously = true →
    Fragment.openings (e.ungrouped.layout depth true) < e.openings

namespace Expr.Spares

variable {depth level : Nat} {openRight : Bool} {e : Expr}

/-- Where nothing changes in what an expression begins with, only the number counts. -/
theorem of_le (hle : Fragment.openings (e.ungrouped.layout depth openRight) ≤ e.openings) (hnot : e.isParen = false)
    (hsame : e.ungrouped.opensAmbiguously = e.opensAmbiguously) : e.Spares depth openRight :=
  ⟨hle, fun h => by simp [hnot, hsame] at h⟩

/-- An operand is put in parentheses only where a node for them stood. -/
theorem grouped_le (h : e.Spares depth openRight) (hfits : e.Fits level openRight) :
    Fragment.openings (grouped level openRight e.ungrouped fun o => e.ungrouped.layout depth o) ≤ e.openings := by
  rw [openings_grouped]
  split
  · rename_i hneeds
    refine h.lt (.inl ?_)
    by_contra hnot
    have hsame : e.ungrouped.needsGroup level openRight = e.needsGroup level openRight := by
      cases e <;> first | rfl | exact absurd rfl hnot
    exact Bool.false_ne_true (hfits.symm.trans (hsame.symm.trans hneeds))
  · exact h.le

/-- What stands at the head of a chain of calls, members and subscripts begins the chain. -/
theorem grouped_lt (h : e.Spares depth false) (hfits : e.Fits trailingLevel false)
    (hnot : (decide (trailingLevel ≤ e.level) && e.opensAmbiguously) = false)
    (hopens : (decide (trailingLevel ≤ e.ungrouped.level) && e.ungrouped.opensAmbiguously) = true) :
    Fragment.openings (grouped trailingLevel false e.ungrouped fun o => e.ungrouped.layout depth o) < e.openings := by
  obtain ⟨hlevel, hopens⟩ : trailingLevel ≤ e.ungrouped.level ∧ e.ungrouped.opensAmbiguously = true := by
    simpa using hopens
  have hhead : trailingLevel ≤ e.level := by
    by_contra hlow
    simp [Expr.Fits, Expr.needsGroup, Nat.lt_of_not_le hlow] at hfits
  rw [grouped_of_closed hlevel (closed_of_trailing hlevel)]
  exact h.lt (.inr ⟨by simpa [hhead] using hnot, hopens⟩)

/-- A chain of calls, members and subscripts goes on with the parentheses of its head. -/
theorem of_head {e' : Expr} {n : Nat} (h : e.Spares depth false) (hfits : e.Fits trailingLevel false)
    (hparen : e'.isParen = false)
    (hopens : e'.opensAmbiguously = (decide (trailingLevel ≤ e.level) && e.opensAmbiguously))
    (hopens' : e'.ungrouped.opensAmbiguously =
      (decide (trailingLevel ≤ e.ungrouped.level) && e.ungrouped.opensAmbiguously))
    (hlayout : ∀ o, Fragment.openings (e'.ungrouped.layout depth o) ≤
      Fragment.openings (grouped trailingLevel false e.ungrouped fun o => e.ungrouped.layout depth o) + n)
    (hn : e.openings + n ≤ e'.openings) : e'.Spares depth openRight where
  le := (hlayout openRight).trans ((Nat.add_le_add_right (h.grouped_le hfits) n).trans hn)
  lt hlt := by
    rw [hopens, hopens'] at hlt
    have hhead := h.grouped_lt hfits (hlt.resolve_left (by simp [hparen])).1 (hlt.resolve_left (by simp [hparen])).2
    have := hlayout true
    omega

end Expr.Spares

mutual

/-- A bare expression has a node for parentheses wherever some would be printed without it. -/
theorem Expr.Bare.spares (depth : Nat) (openRight : Bool) : (e : Expr) → e.Bare openRight → e.ungrouped.HandBuilt →
    e.Spares depth openRight
  | .binary _ left op right, h, hb => by
    have hleft := (Expr.Bare.spares depth false left h.1.2 hb.1).grouped_le h.1.1
    have hright := (Expr.Bare.spares depth openRight right h.2.2 hb.2).grouped_le h.2.1
    refine .of_le ?_ rfl rfl
    simp only [Expr.ungrouped, Expr.layout, Expr.openings, openings_append, openings_token, openings_space,
      openings_operator, openings_nil]
    omega
  | .range _ start stop inclusive, h, hb => by
    have hstart := (Expr.Bare.spares depth false start h.1.2 hb.1).grouped_le h.1.1
    have hstop := (Expr.Bare.spares depth openRight stop h.2.2 hb.2).grouped_le h.2.1
    refine .of_le ?_ rfl rfl
    simp only [Expr.ungrouped, Expr.layout, Expr.openings, openings_append, openings_token, openings_operator,
      openings_nil]
    omega
  | .unary _ op operand, h, hb => by
    have hoperand := (Expr.Bare.spares depth openRight operand h.2 hb).grouped_le h.1
    refine .of_le ?_ rfl rfl
    simp only [Expr.ungrouped, Expr.layout, Expr.openings, openings_append, openings_token, openings_operator,
      openings_unarySpace]
    omega
  | .cast _ type operand, h, hb => by
    have hspares := Expr.Bare.spares depth openRight operand h.2.2 hb
    have hoperand := hspares.grouped_le h.2.1
    refine .of_le ?_ rfl rfl
    simp only [Expr.ungrouped, Expr.layout, Expr.openings, openings_append, openings_parens, openings_space,
      openings_nil]
    split
    · rename_i hwrapped
      obtain ⟨hnamed, hopens⟩ := Bool.and_eq_true_iff.1 hwrapped
      have hnot : operand.opensAmbiguously = false := by simpa [Expr.FollowsCast, hnamed] using h.1
      have := hspares.lt (.inr ⟨hnot, hopens⟩)
      rw [openings_parens]
      omega
    · omega
  | .call _ callee generics args, h, hb => by
    have hargs := openings_exprListUngrouped_le depth args h.2 hb.2
    refine (Expr.Bare.spares depth false callee h.1.2 hb.1).of_head h.1.1 rfl rfl rfl
      (n := Fragment.openings (optTypeArgsLayout generics) + exprListOpenings args + 1) (fun o => ?_) ?_
    · simp only [Expr.ungrouped, Expr.layout, openings_append, openings_calleeSpace, openings_parens, openings_commas]
      omega
    · simp only [Expr.openings]
      omega
  | .member _ object n, h, hb => by
    refine (Expr.Bare.spares depth false object h.2 hb).of_head h.1 rfl rfl rfl
      (n := (TokenKind.ident n).openings) (fun o => ?_) ?_
    · simp [Expr.ungrouped, Expr.layout]
    · simp [Expr.openings]
  | .subscript _ object index, h, hb => by
    have hindex := (Expr.Bare.spares depth true index h.2 hb.2).le
    refine (Expr.Bare.spares depth false object h.1.2 hb.1).of_head h.1.1 rfl rfl rfl
      (n := index.openings) (fun o => ?_) ?_
    · simp [Expr.ungrouped, Expr.layout]
      omega
    · simp [Expr.openings]
  | .conditional _ condition none alternative, h, hb => by
    have hcondition := (Expr.Bare.spares depth false condition h.1.2 hb.1).grouped_le h.1.1
    have halternative := (Expr.Bare.spares depth openRight alternative h.2.2.2 hb.2.2).grouped_le h.2.2.1
    refine .of_le ?_ rfl rfl
    simp [Expr.ungrouped, optExprUngrouped, Expr.layout, Expr.openings, optExprOpenings]
    omega
  | .conditional _ condition (some chosen) alternative, h, hb => by
    have hcondition := (Expr.Bare.spares depth false condition h.1.2 hb.1).grouped_le h.1.1
    have hchosen := (Expr.Bare.spares depth true chosen h.2.1 hb.2.1).le
    have halternative := (Expr.Bare.spares depth openRight alternative h.2.2.2 hb.2.2).grouped_le h.2.2.1
    refine .of_le ?_ rfl rfl
    simp [Expr.ungrouped, optExprUngrouped, Expr.layout, Expr.openings, optExprOpenings]
    omega
  | .paren _ inner, h, hb => by
    have hinner := (Expr.Bare.spares depth true inner h hb).le
    have hopen := inner.ungrouped.openings_layout_edge depth
    refine ⟨?_, fun _ => Nat.lt_succ_of_le hinner⟩
    cases openRight <;> simp only [Expr.ungrouped, Expr.openings] <;> omega
  | .ident _ _, _, _ | .rawName _ _, _, _ | .number _ _, _, _ | .str _ _, _, _ | .bool _ _, _, _ | .char _ _, _, _
  | .sigil _ _ none, _, _ =>
    .of_le (by simp [Expr.ungrouped, optExprListUngrouped, Expr.layout, Expr.openings]) rfl rfl
  | .qualified _ path, _, _ => by
    refine .of_le ?_ rfl rfl
    simp [Expr.ungrouped, Expr.layout, Expr.openings, openings_separated, Function.comp_def]
  | .array _ element isStatic elements, h, hb => by
    have helements := openings_exprListUngrouped_le depth elements h hb
    refine .of_le ?_ rfl rfl
    cases element with
    | none => cases isStatic <;> simpa [Expr.ungrouped, Expr.layout, Expr.openings] using helements
    | some type =>
      have hspace : Fragment.openings (if exprListUngrouped elements = [] then [] else [space]) = 0 := by
        split <;> rfl
      cases isStatic <;> simpa [Expr.ungrouped, Expr.layout, Expr.openings, hspace] using helements
  | .tuple _ first second, h, hb => by
    have hfirst := (Expr.Bare.spares depth true first h.1 hb.1).le
    have hsecond := (Expr.Bare.spares depth true second h.2 hb.2).le
    refine .of_le ?_ rfl rfl
    simp [Expr.ungrouped, Expr.layout, Expr.openings]
    omega
  | .triple _ first second third, h, hb => by
    have hfirst := (Expr.Bare.spares depth true first h.1 hb.1).le
    have hsecond := (Expr.Bare.spares depth true second h.2.1 hb.2.1).le
    have hthird := (Expr.Bare.spares depth true third h.2.2 hb.2.2).le
    refine .of_le ?_ rfl rfl
    simp [Expr.ungrouped, Expr.layout, Expr.openings]
    omega
  | .structLit _ n generics fields, h, hb => by
    have hfields := openings_fieldInitListUngrouped_le depth fields h hb
    refine .of_le ?_ rfl rfl
    simp only [Expr.ungrouped, Expr.layout, Expr.openings]
    split
    · simp
    · simp
      omega
  | .lambda _ params body, h, hb => by
    have hbody := (Expr.Bare.spares depth openRight body h.2 hb.2).grouped_le h.1
    refine .of_le ?_ rfl rfl
    simp [Expr.ungrouped, Expr.layout, Expr.openings, ParamList.layout, hb.1.1, hb.1.2, metaLayout]
    omega
  | .directive _ directive, h, hb => .of_le (Directive.openings_ungrouped_le depth directive h hb) rfl rfl
  | .sigil _ n (some args), h, hb => by
    have hargs := openings_exprListUngrouped_le depth args h hb
    refine .of_le ?_ rfl rfl
    simp [Expr.ungrouped, optExprListUngrouped, Expr.layout, Expr.openings] at hargs ⊢
    omega

theorem openings_exprListUngrouped_le (depth : Nat) : (es : List Expr) → exprListBare es →
    exprListHandBuilt (exprListUngrouped es) →
    ((exprListLayout depth (exprListUngrouped es)).map Fragment.openings).sum ≤ exprListOpenings es
  | [], _, _ => Nat.le_refl _
  | e :: es, h, hb => Nat.add_le_add (Expr.Bare.spares depth true e h.1 hb.1).le
    (openings_exprListUngrouped_le depth es h.2 hb.2)

theorem openings_fieldInitListUngrouped_le (depth : Nat) : (fs : List FieldInit) → fieldInitListBare fs →
    fieldInitListHandBuilt (fieldInitListUngrouped fs) →
    ((fieldInitListLayout depth (fieldInitListUngrouped fs)).map Fragment.openings).sum ≤ fieldInitListOpenings fs
  | [], _, _ => Nat.le_refl _
  | .mk _ n value :: fs, h, hb => by
    have hvalue := (Expr.Bare.spares depth true value h.1 hb.1).le
    have hfields := openings_fieldInitListUngrouped_le depth fs h.2 hb.2
    rw [fieldInitListOpenings, FieldInit.openings, fieldInitListUngrouped, fieldInitListLayout]
    simp at hfields ⊢
    omega

theorem Directive.openings_ungrouped_le (depth : Nat) : (d : Directive) → d.Bare → d.ungrouped.HandBuilt →
    Fragment.openings (d.ungrouped.layout depth) ≤ d.openings
  | .len value, h, hb | .free value, h, hb | .setAllocator value, h, hb => by
    have hvalue := (Expr.Bare.spares depth true value h hb).le
    simp [Directive.ungrouped, Directive.layout, Directive.openings]
    omega
  | .size _, _, _ | .ident _, _, _ | .env, _, _ | .resetAllocator, _, _ | .alloc _ none, _, _ => by
    simp [Directive.ungrouped, optExprUngrouped, Directive.layout, Directive.openings, optExprOpenings]
  | .alloc _ (some count), h, hb => by
    have hcount := (Expr.Bare.spares depth true count h hb).le
    simp [Directive.ungrouped, optExprUngrouped, Directive.layout, Directive.openings, optExprOpenings]
    omega
  | .realloc pointer _ none, h, hb => by
    have hpointer := (Expr.Bare.spares depth true pointer h.1 hb.1).le
    simp [Directive.ungrouped, optExprUngrouped, Directive.layout, Directive.openings, optExprOpenings]
    omega
  | .realloc pointer _ (some count), h, hb => by
    have hpointer := (Expr.Bare.spares depth true pointer h.1 hb.1).le
    have hcount := (Expr.Bare.spares depth true count h.2 hb.2).le
    simp [Directive.ungrouped, optExprUngrouped, Directive.layout, Directive.openings, optExprOpenings]
    omega

end

/-! ### The value in a program -/

namespace Parser

variable {g : Inner} {s s' : ParseState} (hg : g.Settled) (hy : g.Opening)

include hg in
/-- Reading on never passes fewer than no parentheses. -/
theorem openings_of_alike {α : Type} {R : α → α → Prop} {p : Parser α} {a : α}
    (hp : ∀ ts, SameLayout ts ts → Steady ts ts g → Alike ts ts R p p) (h : p.run s = (.ok a, s')) : Opens s 0 s' :=
  .of_advances (advances_run (Alike.advances fun ts => hp ts (.refl ts) (hg.steady ts)) h)

section
include hg hy

theorem openings_statement {statement : Stmt} {value : Expr} (hv : statement.boundValue? = some value)
    (h : (Parser.statement g).run s = (.ok statement, s')) : Opens s value.openings s' := by
  have hinitializer {header : Bool} {s s' : ParseState} (h : (initializer g header).run s = (.ok (some value), s')) :
      Opens s value.openings s' := by
    rcases initializer_ok.1 h with ⟨-, e, he, hr⟩ | ⟨-, he, -⟩
    · cases he
      exact ((Opens.of_advances (.advance _)).trans (hy.expression hr)).cast (by simp)
    · cases he
  obtain ⟨form, hform, rfl⟩ := statement_ok.1 h
  rcases statementForm_ok.1 hform with ⟨-, parts, hif, rfl⟩ | ⟨-, condition, s₁, body, hc, hb, rfl⟩ | ⟨-, h⟩ |
    ⟨-, e, s₁, he, -, -, rfl⟩ | ⟨-, h⟩ | ⟨-, -, -, rfl⟩ | ⟨-, -, -, rfl⟩ | ⟨-, body, hb, rfl⟩ | ⟨-, s₁, hs, -, rfl⟩
  · cases hv
  · cases hv
  · obtain ⟨-, ⟨name, iterable, s₁, body, -, -, hi, hb, rfl⟩ | ⟨-, h⟩⟩ := forStatement_ok.1 h
    · cases hv
    · obtain ⟨init, condition, step, body, rfl, -⟩ := forLoopRest_ok.1 h
      cases hv
  · cases hv
  · rcases returnStatement_ok.1 h with ⟨-, -, rfl⟩ | ⟨-, e, s₁, he, -, -, rfl⟩ <;> cases hv
  · cases hv
  · cases hv
  · cases hv
  · rcases (simpleStatement_ok hg).1 hs with ⟨binding, hb, rfl⟩ |
      ⟨-, target, s₂, ht, ⟨op, value, ha, rfl⟩ | ⟨-, -, rfl⟩⟩
    · rcases (binding?_some hg).1 hb with ⟨-, name, init, -, hi, rfl⟩ | ⟨-, name, e, -, he, rfl⟩ |
        ⟨-, -, r, s₂, hr, hb⟩
      · obtain rfl : init = some value := hv
        exact ((Opens.of_advances (.advance _)).trans ((Opens.of_advances (.advance _)).trans
          ((hinitializer hi).trans (.of_advances (.advance _))))).cast (by simp)
      · obtain rfl : e = value := Option.some.inj hv
        exact ((Opens.of_advances (.advance _)).trans ((Opens.of_advances (.advance _)).trans
          ((hy.expression he).trans (.of_advances (.advance _))))).cast (by simp)
      · have hpass := openings_of_alike hg (fun _ hl hs => Alike.typeAndName hl hs) hr
        rcases typedBinding_ok.1 hb with ⟨-, size, s₃, hsize, -, -, rfl⟩ | ⟨-, init, hi, rfl⟩
        · cases hv
        · obtain rfl : init = some value := hv
          exact (hpass.trans ((hinitializer hi).trans (.of_advances (.advance _)))).cast (by simp)
    · cases hv
    · cases hv

theorem openings_statements {ss : List Stmt} {value : Expr} (hv : ss.head?.bind Stmt.boundValue? = some value)
    (h : Statements g s ss s') : Opens s value.openings s' := by
  have hrest {s s' : ParseState} {ss : List Stmt} (h : Statements g s ss s') : Opens s 0 s' := by
    induction h with
    | nil _ => exact .of_advances (.advance _)
    | stray _ _ ih => exact (Opens.of_advances (.advance _)).trans ih
    | cons _ _ _ hst _ ih => exact (openings_of_alike hg (fun _ hl hs => Alike.statement hl hs) hst).trans ih
  induction h with
  | nil _ => cases hv
  | stray _ _ ih => exact ((Opens.of_advances (.advance _)).trans (ih hv)).cast (by simp)
  | cons _ _ _ hst h _ => exact ((openings_statement hg hy hv hst).trans (hrest h)).cast (by simp)

end

/-- The parenthesis of its parameters stands before the body of a function. -/
theorem openings_declaration {limit room : Nat} {d : Declaration} {value : Expr} (hv : d.firstValue? = some value)
    (h : (declaration (Inner.ofRoom ⟨limit, false⟩ room)).run s = (.ok d, s')) : Opens s (value.openings + 1) s' := by
  have hg := settled_ofRoom ⟨limit, false⟩ room
  obtain ⟨form, hform, rfl⟩ := declaration_ok.1 h
  rcases declarationForm_ok.1 hform with ⟨-, path, -, rfl⟩ | ⟨-, options, -, rfl⟩ | ⟨-, name, -, rfl⟩ | ⟨-, -, -, hm⟩
  · cases hv
  · cases hv
  · cases hv
  obtain ⟨ms, s₁, hms, ⟨-, f, hf, rfl⟩ | ⟨-, c, -, rfl⟩ | ⟨-, c, -, rfl⟩⟩ := modifiedForm_ok.1 hm
  · have hbody : f.body.bind Block.firstValue? = some value := by
      unfold functionForm at hv
      split at hv
      · cases hv
      · exact hv
    obtain ⟨-, -, s₂, s₃, s₄, s₅, s₆, hn, ht, hp, ha, hr, hb⟩ := (functionDecl_ok hg).1 hf
    rcases functionBody_ok.1 hb with ⟨-, -, body, heq, hblock⟩ | ⟨-, heq, -⟩
    · rw [heq] at hbody
      cases room with
      | zero => exact absurd (tooDeep_ok.1 hblock) id
      | succ room =>
        obtain ⟨-, ss, hss, rfl⟩ := (blockBody_stopping (settled_ofRoom ⟨limit, false⟩ room)).1 hblock
        have hvalue := openings_statements (settled_ofRoom ⟨limit, false⟩ room) (opening_ofRoom ⟨limit, false⟩ room)
          hbody hss
        have hfront := (openings_of_alike hg (fun _ hl _ => Alike.modifierList hl) (modifierList_ok.2 hms)).trans
          ((Opens.of_advances (.advance _)).trans
            ((openings_of_alike hg (fun _ hl _ => Alike.declName hl) hn).trans
              (openings_of_alike hg (fun _ hl _ => Alike.typeParams hl) ht)))
        have hback := (openings_of_alike hg (fun _ hl hs => Alike.attributeList hl hs)
            ((attributeList_ok hg).2 ha)).trans
          ((openings_of_alike hg (fun _ hl hs => Alike.returnType hl hs) hr).trans (.of_advances (.advance _)))
        exact (((hfront.trans (openings_paramList hg hp)).trans hback).trans hvalue).cast (by simp [Nat.add_comm])
    · rw [heq] at hbody
      cases hbody
  · cases hv
  · cases hv

/-- The function at the head of a program passes the parentheses of its value. -/
theorem openings_declared {o : ParseOptions} {ds : List Declaration} {value : Expr}
    (hv : ds.head?.bind Declaration.firstValue? = some value) (h : Declared (Inner.ofRoom o o.maxDepth) s ds s')
    (he : s'.errors = []) : Opens s (value.openings + 1) s' := by
  induction h with
  | nil _ => cases hv
  | stray _ _ ih => exact ((Opens.of_advances (.advance _)).trans (ih hv he)).cast (by simp)
  | cons _ _ hd hrest _ =>
    have hadvances := advances_of_declared (settled_ofRoom o o.maxDepth) hrest
    have hd := declaration_stopping (hadvances.errors_nil he) hd
    exact ((openings_declaration hv hd).trans (.of_advances hadvances)).cast (by simp)

end Parser

/-! ### Texts with fewer parentheses -/

/-- What is read behind the head of a program passes no more parentheses than there are in the text. -/
theorem openings_lt_count {source : String} {tokens : List Token} {o : ParseOptions} {p : Program} {value : Expr}
    (hlex : tokenize source = .ok tokens) (h : parseTokens tokens o = .ok p) (hv : p.firstValue? = some value) :
    value.openings < source.toList.count '(' := by
  obtain ⟨herrors, rfl⟩ : (lex source).errors = [] ∧ (lex source).tokens = tokens := by
    unfold tokenize at hlex
    dsimp only at hlex
    split at hlex
    · rename_i hclean
      exact ⟨by simpa using hclean, Except.ok.inj hlex⟩
    · cases hlex
  obtain ⟨s', he, hds⟩ := parseTokens_ok.1 h
  have hpass := Parser.openings_declared hv hds he
  have hcount := openingsOf_lex_le herrors
  simp only [Opens, ParseState.openings, ParseState.kinds] at hpass
  omega

/-- The value that a bare program begins with is bare. -/
theorem Program.Bare.firstValue {p : Program} (h : p.Bare) {value : Expr} (hv : p.firstValue? = some value) :
    value.Bare true := by
  obtain ⟨_ | ⟨d, ds⟩⟩ := p
  · cases hv
  have hd := h d List.mem_cons_self
  cases d with
  | function _ decl =>
    obtain ⟨body, hbody, hfirst⟩ := Option.bind_eq_some_iff.1 (show decl.body.bind Block.firstValue? = _ from hv)
    obtain ⟨statement, hstatement, hbound⟩ := Option.bind_eq_some_iff.1 hfirst
    obtain ⟨span, statements⟩ := body
    have hstatements : stmtListBare statements := hd.2 _ hbody
    have hbare := stmtListBare_iff.1 hstatements statement (List.mem_of_mem_head? hstatement)
    cases statement with
    | varDecl _ _ _ _ init =>
      obtain rfl : init = some value := hbound
      exact hbare
    | _ => cases hbound
  | _ => cases hv

theorem count_bindingSource (value : String) :
    (bindingSource value).toList.count '(' = value.toList.count '(' + 1 := by
  have hfront : "fn m() \x7b let v = ".toList.count '(' = 1 := by decide
  unfold bindingSource
  rw [String.toList_append, String.toList_append, List.count_append, List.count_append, hfront, Nat.add_comm 1]
  have hback : "; \x7d".toList.count '(' = 0 := by decide
  exact congrArg (value.toList.count '(' + 1 + ·) hback

theorem count_parenthesized (before within behind : String) :
    (before ++ "(" ++ within ++ ")" ++ behind).toList.count '(' =
      (before ++ within ++ behind).toList.count '(' + 1 := by
  have hopen (text : List Char) : ("(".toList ++ text).count '(' = text.count '(' + 1 := List.count_cons_self
  have hclose (text : List Char) : (")".toList ++ text).count '(' = text.count '(' := List.count_cons_of_ne (by decide)
  simp only [String.toList_append, List.append_assoc]
  rw [List.count_append, hopen, List.count_append, hclose, List.count_append, List.count_append]
  omega

/-- Taking a pair of parentheses from the printed text of a tree, wherever it stands, leaves a text that is not read as
the same tree. -/
theorem print_needs_parens {e : Expr} (he : e.HandBuilt) (before within behind : String)
    (hprint : e.print = before ++ "(" ++ within ++ ")" ++ behind) {tokens : List Token} {o : ParseOptions}
    {p : Program} {value : Expr} (hlex : tokenize (bindingSource (before ++ within ++ behind)) = .ok tokens)
    (h : parseTokens tokens o = .ok p) (hv : p.firstValue? = some value) : ¬ SameExpr value.ungrouped e := by
  intro hsame
  have hbare : value.Bare true := by
    refine Program.Bare.firstValue ?_ hv
    have hpartial : (parsePartial tokens o).1 = p := by
      unfold parseTokens at h
      dsimp only at h
      split at h
      · exact Except.ok.inj h
      · cases h
    exact hpartial ▸ (parsePartial_bare tokens o).1
  have hread := openings_lt_count hlex h hv
  have hspared : openings (e.layout 0 true) ≤ value.openings := by
    have hlayout : value.ungrouped.layout 0 true = e.layout 0 true := by
      have hsame : value.ungrouped.mapSpans noSpan = e.mapSpans noSpan := hsame
      rw [← Expr.layout_mapSpans noSpan, hsame, Expr.layout_mapSpans]
    exact hlayout ▸ (Expr.Bare.spares 0 true value hbare (hsame.handBuilt he)).le
  have hwritten : e.print.toList.count '(' = openings (e.layout 0 true) := count_render _ _
  rw [hprint, count_parenthesized] at hwritten
  rw [count_bindingSource] at hread
  omega

/-- `(a + b) * c`. -/
def productOfSum : Expr :=
  .binary .zero (.binary .zero (.ident .zero "a") .add (.ident .zero "b")) .mul (.ident .zero "c")

theorem print_needs_parens_product : productOfSum.print = "(a + b) * c" ∧ ∃ tokens p value,
    tokenize (bindingSource "a + b * c") = .ok tokens ∧ parseTokens tokens {} = .ok p ∧
      p.firstValue? = some value ∧ ¬ SameExpr value.ungrouped productOfSum := by
  have hprint : productOfSum.print = "(a + b) * c" := by decide +kernel
  have hlex : tokenize (bindingSource "a + b * c") = .ok (lex (bindingSource "a + b * c")).tokens := by
    have herrors : (lex (bindingSource "a + b * c")).errors = [] := by decide +kernel
    rw [tokenize, herrors]
    rfl
  have haccepted : ((parseTokens (lex (bindingSource "a + b * c")).tokens {}).toOption.bind
      Program.firstValue?).isSome = true := by decide +kernel
  refine ⟨hprint, ?_⟩
  cases hp : parseTokens (lex (bindingSource "a + b * c")).tokens {} with
  | error errors => simp [hp, Except.toOption] at haccepted
  | ok p =>
    obtain ⟨value, hv⟩ := Option.isSome_iff_exists.1 (show p.firstValue?.isSome = true by
      simpa [hp, Except.toOption] using haccepted)
    have htext : "a + b * c" = "" ++ "a + b" ++ " * c" := by decide +kernel
    have hbuilt : productOfSum.HandBuilt := ⟨⟨trivial, trivial⟩, trivial⟩
    exact ⟨_, p, value, hlex, hp, hv, print_needs_parens hbuilt "" "a + b" " * c"
      (hprint.trans (by decide +kernel)) (htext ▸ hlex) hp hv⟩

end ElleFrontEnd
