import ElleFrontEnd.Grammar.Declaration
import ElleFrontEnd.Proofs.TwinRun

/-!
# Layout does not matter

Every parser of the grammar runs alike on two streams of the same layout (`SameLayout`), and yields trees that differ
in their spans only.  The parsers of nested constructs are assumed to do so (`Steady`), which holds at every depth
(`steady_ofRoom`).
-/

namespace ElleFrontEnd

/-- The map that resets a span. -/
abbrev noSpan : Span → Span := fun _ => .zero

/-- Types that differ in their spans only. -/
abbrev SameType : TypeExpr → TypeExpr → Prop := Same (TypeExpr.mapSpans noSpan)

/-- Expressions that differ in their spans only. -/
abbrev SameExpr : Expr → Expr → Prop := Same (Expr.mapSpans noSpan)

/-! ### Lists and parts of trees -/

theorem typeListMapSpans_eq_map (f : Span → Span) (ts : List TypeExpr) :
    typeListMapSpans f ts = ts.map (TypeExpr.mapSpans f) := by
  induction ts with
  | nil => rfl
  | cons t ts ih => rw [typeListMapSpans, ih, List.map_cons]

theorem exprListMapSpans_eq_map (f : Span → Span) (es : List Expr) :
    exprListMapSpans f es = es.map (Expr.mapSpans f) := by
  induction es with
  | nil => rfl
  | cons e es ih => rw [exprListMapSpans, ih, List.map_cons]

theorem stmtListMapSpans_eq_map (f : Span → Span) (ss : List Stmt) :
    stmtListMapSpans f ss = ss.map (Stmt.mapSpans f) := by
  induction ss with
  | nil => rfl
  | cons s ss ih => rw [stmtListMapSpans, ih, List.map_cons]

/-- Lists whose elements are the same for `f` have one image. -/
theorem map_eq_of_same {α γ : Type} {f : α → γ} {as bs : List α} (h : List.Forall₂ (Same f) as bs) :
    as.map f = bs.map f := by
  induction h with
  | nil => rfl
  | cons hab _ ih => rw [List.map_cons, List.map_cons, hab, ih]

theorem forall₂_same_of_map {f : Span → Span} {es es' : List Expr} (h : Same (exprListMapSpans f) es es') :
    List.Forall₂ (Same (Expr.mapSpans f)) es es' := by
  unfold Same at h
  rw [exprListMapSpans_eq_map, exprListMapSpans_eq_map] at h
  induction es generalizing es' with
  | nil => rw [List.map_eq_nil_iff.1 h.symm]; exact .nil
  | cons e es ih =>
    cases es' with
    | nil => simp at h
    | cons e' es' =>
      rw [List.map_cons, List.map_cons, List.cons.injEq] at h
      exact .cons h.1 (ih h.2)

theorem eq_of_forall₂_eq {α : Type} {as bs : List α} (h : List.Forall₂ Eq as bs) : as = bs := by
  rwa [List.forall₂_eq_eq_eq] at h

namespace TypeExpr

theorem isNamed_mapSpans (f : Span → Span) (t : TypeExpr) : (t.mapSpans f).isNamed = t.isNamed := by
  cases t <;> rfl

end TypeExpr

variable {ts us : List Token}

namespace Alike

variable (hl : SameLayout ts us)
include hl

/-! ### Types -/

omit hl in
theorem tooDeep {α β : Type} {R : α → β → Prop} (limit : Nat) :
    Alike ts us R (Parser.tooDeep limit) (Parser.tooDeep limit) :=
  fun s _ ht => .error (.of_cause rfl rfl) ht (.refl s)

theorem noType {α β : Type} {R : α → β → Prop} : Alike ts us R Parser.noType Parser.noType := by
  intro s u ht
  unfold Parser.noType
  rw [ht.kind hl]
  exact .error (.of_cause rfl rfl) ht (.refl s)

omit hl in
theorem owed : Alike ts us Eq Parser.owed Parser.owed := .look fun _ _ ht => ht.owed

theorem atEmptyBrackets : Alike ts us Eq Parser.atEmptyBrackets Parser.atEmptyBrackets :=
  .look fun s u ht => by rw [ht.kind hl, ht.kindAt hl]

omit hl in
theorem spanFrom (start start' : Nat) : Alike ts us Unrelated (Parser.spanFrom start) (Parser.spanFrom start') :=
  .look fun _ _ _ => trivial

omit hl in
theorem start : Alike ts us Unrelated Parser.nextStart Parser.nextStart := .look fun _ _ _ => trivial

omit hl in
theorem span : Alike ts us Unrelated Parser.nextSpan Parser.nextSpan := .look fun _ _ _ => trivial

omit hl in
/-- A tree whose span is taken at the end. -/
theorem spanned {α γ : Type} {f : α → γ} {start start' : Nat} {build build' : Span → α}
    (h : ∀ a b, f (build a) = f (build' b)) :
    Alike ts us (Same f) (do pure (build (← Parser.spanFrom start))) (do pure (build' (← Parser.spanFrom start'))) :=
  (Alike.spanFrom start start').bind fun a b _ => .done (h a b)

theorem starRun : Alike ts us Eq Parser.starRun Parser.starRun := by
  unfold Parser.starRun
  refine .grow hl (fun a b hab => ?_) rfl
  subst hab
  exact (Alike.accept hl _).thenEq fun more => .ite (.done rfl) (.done trivial)

theorem bracketRun : Alike ts us Eq Parser.bracketRun Parser.bracketRun := by
  unfold Parser.bracketRun
  refine .grow hl (fun a b hab => ?_) rfl
  subst hab
  refine (Alike.atEmptyBrackets hl).thenEq fun more => .ite ?_ (.done trivial)
  refine (Alike.skip hl).bind fun _ _ _ => (Alike.skip hl).bind fun _ _ _ => .done rfl

theorem typeSuffix (start start' : Nat) {t t' : TypeExpr} (ht : SameType t t') :
    Alike ts us (OptionRel SameType) (Parser.typeSuffix start t) (Parser.typeSuffix start' t') := by
  unfold Parser.typeSuffix
  refine Alike.owed.thenEq fun owed => .ite (.done trivial) ?_
  refine (Alike.isAt hl _).thenEq fun stars => .ite ?_ ?_
  · refine (Alike.starRun hl).thenEq fun depth => (Alike.spanFrom _ _).bind fun a b _ => .done ?_
    exact congrArg (TypeExpr.pointer .zero · depth) ht
  · refine (Alike.atEmptyBrackets hl).thenEq fun brackets => .ite ?_ (.done trivial)
    refine (Alike.bracketRun hl).thenEq fun dims => (Alike.spanFrom _ _).bind fun a b _ => .done ?_
    exact congrArg (TypeExpr.array .zero · dims) ht

theorem closeAngle (angles : Nat) : Alike ts us Unrelated (Parser.closeAngle angles) (Parser.closeAngle angles) := by
  unfold Parser.closeAngle
  refine Alike.owed.thenEq fun owed => .ite (.change fun s u ht => ⟨ht.withOwed (· - 1), .withOwed s _⟩) ?_
  refine (Alike.accept hl _).thenEq fun closes => .ite (.done trivial) ?_
  refine .ite ?_ (Alike.unexpected hl _)
  refine (Alike.accept hl _).thenEq fun both => .ite ?_ (Alike.unexpected hl _)
  exact .change fun s u ht => ⟨ht.withOwed (· + 1), .withOwed s _⟩

variable {type : Nat → Parser TypeExpr} (hg : ∀ angles, Alike ts us SameType (type angles) (type angles))
include hg

theorem typeArgs (angles : Nat) :
    Alike ts us (Same (typeListMapSpans noSpan)) (Parser.typeArgs type angles) (Parser.typeArgs type angles) := by
  unfold Parser.typeArgs
  refine (Alike.expect hl _ _).bind fun _ _ _ => ?_
  refine (Alike.collect (R := SameType) hl ?_).bind fun as bs hab => (Alike.closeAngle hl _).bind fun _ _ _ => .done ?_
  · refine (hg _).bind fun t t' ht => Alike.owed.thenEq fun owed => .ite (.done ht) ?_
    exact (Alike.accept hl _).thenEq fun more => .ite (.done ht) (.done ht)
  · unfold Same
    rw [typeListMapSpans_eq_map, typeListMapSpans_eq_map]
    exact map_eq_of_same hab

theorem namedType (angles start start' : Nat) (name : String) :
    Alike ts us SameType (Parser.namedType type angles start name) (Parser.namedType type angles start' name) := by
  unfold Parser.namedType
  refine (Alike.skip hl).bind fun _ _ _ => .touchingLt hl (fun _ => rfl) (fun _ => rfl) fun opens touches => .ite ?_ ?_
  · refine (Alike.typeArgs hl hg angles).bind fun as bs hab => .spanned fun a b => ?_
    exact congrArg (TypeExpr.generic .zero name) hab
  · exact .spanned fun a b => rfl

theorem tupleType (angles start start' : Nat) :
    Alike ts us SameType (Parser.tupleType type angles start) (Parser.tupleType type angles start') := by
  unfold Parser.tupleType
  refine (Alike.skip hl).bind fun opened opened' _ => (hg angles).bind fun t t' ht => ?_
  refine (Alike.accept hl _).thenEq fun comma => .ite ?_ ?_
  · exact (Alike.spanFrom _ _).bind fun a b _ => .fail (.of_cause rfl rfl)
  · refine (hg angles).bind fun r r' hr => (Alike.isAt hl _).thenEq fun more => .ite ?_ ?_
    · exact Alike.span.bind fun a b _ => .fail (.of_cause rfl rfl)
    · refine (Alike.closing hl _ _ _).thenEq fun _ => .spanned fun a b => ?_
      exact congrArg₂ (TypeExpr.tuple .zero) ht hr

theorem baseType (angles start start' : Nat) :
    Alike ts us SameType (Parser.baseType type angles start) (Parser.baseType type angles start') := by
  unfold Parser.baseType
  refine (Alike.kind hl).thenEq fun kind => ?_
  split
  · exact (Alike.skip hl).bind fun _ _ _ => .spanned fun a b => rfl
  · exact Alike.namedType hl hg _ _ _ _
  · exact Alike.tupleType hl hg _ _ _
  · exact Alike.noType hl

theorem typeBody (angles : Nat) : Alike ts us SameType (Parser.typeBody type angles) (Parser.typeBody type angles) := by
  unfold Parser.typeBody
  refine Alike.start.bind fun a b _ => (Alike.baseType hl hg _ _ _).bind fun t t' ht => ?_
  exact .grow hl (fun _ _ => Alike.typeSuffix hl _ _) ht

omit hg in
theorem typeExpr (limit room : Nat) (angles : Nat) :
    Alike ts us SameType (Parser.typeExpr limit room angles) (Parser.typeExpr limit room angles) := by
  induction room generalizing angles with
  | zero => exact Alike.tooDeep limit
  | succ room ih => exact Alike.typeBody hl ih angles

omit hg in
theorem typeParams : Alike ts us Eq Parser.typeParams Parser.typeParams := by
  unfold Parser.typeParams
  refine (Alike.accept hl _).thenEq fun opens => .ite ?_ (.done rfl)
  refine (Alike.separatedBy hl _ (Alike.identifier hl)).bind fun as bs hab => ?_
  exact (Alike.expect hl _ _).bind fun _ _ _ => .done (eq_of_forall₂_eq hab)

end Alike

/-! ### Expressions -/

/-- Fields of a struct literal that differ in their spans only. -/
abbrev SameField : FieldInit → FieldInit → Prop := Same fun field => fieldInitListMapSpans noSpan [field]

theorem fieldInitListMapSpans_eq {fs fs' : List FieldInit} (h : List.Forall₂ SameField fs fs') :
    fieldInitListMapSpans noSpan fs = fieldInitListMapSpans noSpan fs' := by
  induction h with
  | nil => rfl
  | @cons f f' fs fs' hf _ ih =>
    cases f
    cases f'
    simp only [SameField, Same, fieldInitListMapSpans, List.cons.injEq, and_true] at hf
    rw [fieldInitListMapSpans, fieldInitListMapSpans, hf, ih]

/-- Parts of an `if` that differ in their spans only. -/
structure SameIf (p q : IfParts) : Prop where
  condition : SameExpr p.condition q.condition
  body : Same (Block.mapSpans noSpan) p.body q.body
  otherwise : Same (Else.mapSpans noSpan) p.otherwise q.otherwise

/-- The parsers of nested constructs run alike on both streams. -/
structure Steady (ts us : List Token) (g : Inner) : Prop where
  type : ∀ angles, Alike ts us SameType (g.type angles) (g.type angles)
  expression : ∀ header, Alike ts us SameExpr (g.expression header) (g.expression header)
  chain : ∀ header level, Alike ts us SameExpr (g.chain header level) (g.chain header level)
  unary : ∀ header, Alike ts us SameExpr (g.unary header) (g.unary header)
  block : Alike ts us (Same (Block.mapSpans noSpan)) g.block g.block
  elseIf : Alike ts us SameIf g.elseIf g.elseIf

theorem takesGenerics_mapSpans (f : Span → Span) (e : Expr) : (e.mapSpans f).takesGenerics = e.takesGenerics := by
  cases e with
  | conditional s c o a => cases o <;> rfl
  | sigil s n o => cases o <;> rfl
  | _ => rfl

theorem unparenthesized_mapSpans (f : Span → Span) (e : Expr) :
    (e.mapSpans f).unparenthesized = e.unparenthesized.mapSpans f := by
  cases e with
  | conditional s c o a => cases o <;> rfl
  | sigil s n o => cases o <;> rfl
  | _ => rfl

namespace Alike

variable (hl : SameLayout ts us) {g : Inner} (hg : Steady ts us g)

section
include hl

theorem noExpression {α β : Type} {R : α → β → Prop} : Alike ts us R Parser.noExpression Parser.noExpression := by
  intro s u ht
  unfold Parser.noExpression
  rw [ht.kind hl]
  exact .error (.of_cause rfl rfl) ht (.refl s)

theorem requireOperand (op : Operator) : Alike ts us Eq (Parser.requireOperand op) (Parser.requireOperand op) := by
  intro s u ht
  unfold Parser.requireOperand
  rw [ht.kind hl]
  split
  · exact .ok rfl ht (.refl s)
  · exact .error (.of_cause rfl rfl) ht (.refl s)

theorem pathTail : Alike ts us Eq Parser.pathTail Parser.pathTail := by
  unfold Parser.pathTail
  refine (Alike.collect (R := Eq) hl ?_).mono fun _ _ => eq_of_forall₂_eq
  refine (Alike.accept hl _).thenEq fun more => .ite ?_ (.done trivial)
  exact (Alike.identifier hl).thenEq fun name => .done rfl

theorem metaBinding : Alike ts us Eq Parser.metaBinding Parser.metaBinding := by
  unfold Parser.metaBinding
  refine (Alike.isAt hl _).thenEq fun marks => ?_
  refine Alike.thenEq (.look fun s u ht => by rw [ht.kindAt hl]) fun names => .ite ?_ (.done rfl)
  refine (Alike.skip hl).bind fun _ _ _ => (Alike.identifier hl).thenEq fun name => ?_
  refine (Alike.isAt hl _).thenEq fun closes => .ite (.done rfl) ?_
  exact (Alike.expect hl _ _).bind fun _ _ _ => .done rfl

theorem atStructBody : Alike ts us Eq Parser.atStructBody Parser.atStructBody :=
  .look fun s u ht => by rw [ht.kind hl, ht.kindAt hl, ht.kindAt hl]

theorem wrongOperands {α β : Type} {R : α → β → Prop} (d : DirectiveName) :
    Alike ts us R (Parser.wrongOperands d) (Parser.wrongOperands d) := by
  intro s u ht
  unfold Parser.wrongOperands
  rw [ht.kind hl]
  exact .error (.of_cause rfl rfl) ht (.refl s)

theorem operand {α β : Type} {R : α → β → Prop} (d : DirectiveName) (isFirst : Bool) {p : Parser α} {q : Parser β}
    (hp : Alike ts us R p q) : Alike ts us R (Parser.operand d isFirst p) (Parser.operand d isFirst q) := by
  have hw : Alike ts us R (Parser.wrongOperands d) (Parser.wrongOperands d) := Alike.wrongOperands hl d
  have hrest (separated : Bool) : Alike ts us R
      (if !separated then Parser.wrongOperands d
        else do if ← Parser.atMark .rParen then Parser.wrongOperands d else p)
      (if !separated then Parser.wrongOperands d
        else do if ← Parser.atMark .rParen then Parser.wrongOperands d else q) :=
    .ite hw ((Alike.isAt hl _).thenEq fun closes => .ite hw hp)
  unfold Parser.operand
  cases isFirst with
  | true => exact hrest true
  | false => exact (Alike.accept hl _).thenEq fun separated => hrest separated

theorem operandList {α β : Type} {R : α → β → Prop} (d : DirectiveName) {p : Parser α} {q : Parser β}
    (hp : Alike ts us R p q) : Alike ts us R (Parser.operandList d p) (Parser.operandList d q) := by
  unfold Parser.operandList
  refine (Alike.onError (Alike.expect hl _ _) fun d e h => h.withHint _).bind fun opened opened' _ => ?_
  refine hp.bind fun a b hab => (Alike.isAt hl _).thenEq fun closes => (Alike.atEnd hl).thenEq fun ends => ?_
  exact .ite (Alike.wrongOperands hl d) ((Alike.closing hl _ _ _).thenEq fun _ => .done hab)

end

include hl hg

theorem exprList (close : Punctuation) (opened opened' : Span) :
    Alike ts us (Same (exprListMapSpans noSpan)) (Parser.exprList g close opened)
      (Parser.exprList g close opened') := by
  unfold Parser.exprList
  refine (Alike.commaList hl close (hg.expression false)).bind fun as bs hab => ?_
  refine (Alike.closing hl _ _ _).thenEq fun _ => .done ?_
  unfold Same
  rw [exprListMapSpans_eq_map, exprListMapSpans_eq_map]
  exact map_eq_of_same hab

theorem arguments : Alike ts us (Same (exprListMapSpans noSpan)) (Parser.arguments g) (Parser.arguments g) := by
  unfold Parser.arguments
  exact (Alike.expect hl _ _).bind fun _ _ _ => Alike.exprList hl hg _ _ _

theorem param : Alike ts us (Same (Param.mapSpans noSpan)) (Parser.param g) (Parser.param g) := by
  unfold Parser.param
  refine Alike.start.bind fun start start' _ => (Alike.accept hl _).thenEq fun variadic => .ite ?_ ?_
  · refine (Alike.atIdent hl).thenEq fun named => .ite ?_ (.spanned fun a b => rfl)
    exact (Alike.identifier hl).thenEq fun name => .spanned fun a b => rfl
  · refine (Alike.isAt hl _).thenEq fun marked => (Alike.isAhead hl _ _).thenEq fun noFormat => .ite ?_ ?_
    · refine (Alike.skip hl).bind fun _ _ _ => (Alike.skip hl).bind fun _ _ _ => (hg.type 0).bind fun t t' ht => ?_
      exact (Alike.identifier hl).thenEq fun name => .spanned fun a b => congrArg (Param.noFormat .zero · name) ht
    · refine (hg.type 0).bind fun t t' ht => (Alike.atIdent hl).thenEq fun named => .ite ?_ ?_
      · exact (Alike.identifier hl).thenEq fun name => .spanned fun a b => congrArg (Param.named .zero · name) ht
      · exact .spanned fun a b => congrArg (Param.unnamed .zero) ht

theorem paramList : Alike ts us (Same (ParamList.mapSpans noSpan)) (Parser.paramList g) (Parser.paramList g) := by
  unfold Parser.paramList
  refine (Alike.expect hl _ _).bind fun _ _ _ => (Alike.metaBinding hl).thenEq fun metaName => ?_
  refine (Alike.commaList hl _ (Alike.param hl hg)).bind fun as bs hab => ?_
  refine (Alike.closing hl _ _ _).thenEq fun _ => .done ?_
  exact congrArg (ParamList.mk metaName) (map_eq_of_same hab)

theorem lambda (header : Bool) : Alike ts us SameExpr (Parser.lambda g header) (Parser.lambda g header) := by
  unfold Parser.lambda
  refine (Alike.expect hl _ _).bind fun _ _ _ => (Alike.paramList hl hg).bind fun ps ps' hps => ?_
  refine (Alike.isAt hl _).thenEq fun braced => .ite ?_ ?_
  · exact hg.block.bind fun b b' hb => .spanned fun _ _ => congrArg₂ (Expr.blockLambda .zero) hps hb
  · exact (hg.expression header).bind fun e e' he => .spanned fun _ _ => congrArg₂ (Expr.lambda .zero) hps he

theorem fieldInit : Alike ts us SameField (Parser.fieldInit g) (Parser.fieldInit g) := by
  unfold Parser.fieldInit
  refine Alike.start.bind fun _ _ _ => (Alike.identifier hl).thenEq fun name =>
    (Alike.expect hl _ _).bind fun _ _ _ => ?_
  exact (hg.expression false).bind fun e e' he => .spanned fun _ _ => congrArg (fun e => [FieldInit.mk .zero name e]) he

theorem structTypeArgs : Alike ts us (OptionRel (Same (Option.map (typeListMapSpans noSpan))))
    (Parser.structTypeArgs g) (Parser.structTypeArgs g) := by
  unfold Parser.structTypeArgs
  refine .touchingLt hl (fun _ => rfl) (fun _ => rfl) fun opens touches => .ite ?_ (.done rfl)
  refine (Alike.attempt (Alike.typeArgs hl hg.type 0)).bind fun o o' ho => ?_
  match o, o', ho with
  | none, none, _ => exact .done trivial
  | some args, some args', ho =>
    exact Alike.owed.thenEq fun owed => .ite (.done (congrArg some ho)) (.done trivial)

theorem structLiteral? (start start' : Nat) (name : String) : Alike ts us (OptionRel SameExpr)
    (Parser.structLiteral? g start name) (Parser.structLiteral? g start' name) := by
  unfold Parser.structLiteral?
  refine AlikeFrom.save fun saved saved' hs => .bind (Alike.structTypeArgs hl hg) fun o o' ho => ?_
  match o, o', ho with
  | none, none, _ => exact .rewind hs trivial
  | some generics, some generics', ho =>
    refine .thenEq (Alike.atStructBody hl) fun opens => .ite (.of_alike ?_) (.rewind hs trivial)
    refine (Alike.skip hl).bind fun _ _ _ => (Alike.commaList hl _ (Alike.fieldInit hl hg)).bind fun fs fs' hf => ?_
    refine (Alike.closing hl _ _ _).thenEq fun _ => (Alike.spanFrom _ _).bind fun _ _ _ => .done ?_
    exact congrArg₂ (Expr.structLit .zero name) ho (fieldInitListMapSpans_eq hf)

theorem nameExpr (header : Bool) : Alike ts us SameExpr (Parser.nameExpr g header) (Parser.nameExpr g header) := by
  unfold Parser.nameExpr
  refine Alike.start.bind fun start start' _ => (Alike.identifier hl).thenEq fun name => ?_
  refine (Alike.isAt hl _).thenEq fun path => .ite ?_ (.ite (.spanned fun _ _ => rfl) ?_)
  · exact (Alike.pathTail hl).thenEq fun tail => .spanned fun _ _ => rfl
  · refine (Alike.structLiteral? hl hg _ _ _).bind fun o o' ho => ?_
    match o, o', ho with
    | none, none, _ => exact .spanned fun _ _ => rfl
    | some literal, some literal', ho => exact .done ho

theorem arrayLiteral (start start' : Nat) (isStatic : Bool) : Alike ts us SameExpr
    (Parser.arrayLiteral g start isStatic) (Parser.arrayLiteral g start' isStatic) := by
  unfold Parser.arrayLiteral
  refine (Alike.expect hl _ _).bind fun _ _ _ => ?_
  refine Alike.bind (R := OptionRel SameType) (.attempt ?_) fun element element' he => ?_
  · exact (hg.type 0).bind fun t t' ht => (Alike.expect hl _ _).bind fun _ _ _ => .done ht
  · refine (Alike.exprList hl hg _ _ _).bind fun es es' hes => .spanned fun _ _ => ?_
    have he : element.map (TypeExpr.mapSpans noSpan) = element'.map (TypeExpr.mapSpans noSpan) := by
      match element, element', he with
      | none, none, _ => rfl
      | some t, some t', ht => exact congrArg some ht
    exact congrArg₂ (Expr.array .zero · isStatic ·) he hes

theorem optionalOperand :
    Alike ts us (OptionRel SameExpr) (Parser.optionalOperand g) (Parser.optionalOperand g) := by
  unfold Parser.optionalOperand
  refine (Alike.accept hl _).thenEq fun more => .ite ?_ (.done trivial)
  exact (hg.expression false).bind fun e e' he => .done he

omit hl in
theorem typeOperand (d : DirectiveName) : Alike ts us SameType (Parser.typeOperand g d) (Parser.typeOperand g d) :=
  .onError (hg.type 0) fun _ _ h => h.withHint _

theorem directiveOf (d : DirectiveName) :
    Alike ts us (Same (Directive.mapSpans noSpan)) (Parser.directiveOf g d) (Parser.directiveOf g d) := by
  have hvalue {build : Expr → Directive}
    (hb : ∀ e e', SameExpr e e' → Same (Directive.mapSpans noSpan) (build e) (build e')) :
      Alike ts us (Same (Directive.mapSpans noSpan))
        (Parser.operandList d do pure (build (← Parser.operand d true (g.expression false))))
        (Parser.operandList d do pure (build (← Parser.operand d true (g.expression false)))) :=
    Alike.operandList hl d ((Alike.operand hl d true (hg.expression false)).bind fun e e' he => .done (hb e e' he))
  have htype (isFirst : Bool) := Alike.operand hl d isFirst (Alike.typeOperand hg d)
  cases d with
  | len => exact hvalue fun e e' he => congrArg Directive.len he
  | free => exact hvalue fun e e' he => congrArg Directive.free he
  | setAllocator => exact hvalue fun e e' he => congrArg Directive.setAllocator he
  | size => exact Alike.operandList hl _ ((htype true).bind fun t t' ht => .done (congrArg Directive.size ht))
  | ident =>
    exact Alike.operandList hl _ ((Alike.operand hl _ true (Alike.identifier hl)).thenEq fun name => .done rfl)
  | env => exact (Alike.isAt hl _).thenEq fun opens => .ite (Alike.wrongOperands hl _) (.done rfl)
  | resetAllocator => exact Alike.operandList hl _ (.done rfl)
  | alloc =>
    refine Alike.operandList hl _ ((htype true).bind fun t t' ht => ?_)
    refine (Alike.optionalOperand hl hg).bind fun o o' ho => .done ?_
    match o, o', ho with
    | none, none, _ => exact congrArg (Directive.alloc · none) ht
    | some e, some e', he => exact congrArg₂ (Directive.alloc · <| some ·) ht he
  | realloc =>
    refine Alike.operandList hl _ ?_
    refine (Alike.operand hl _ true (hg.expression false)).bind fun p p' hp => (htype false).bind fun t t' ht => ?_
    refine (Alike.optionalOperand hl hg).bind fun o o' ho => .done ?_
    match o, o', ho with
    | none, none, _ => exact congrArg₂ (Directive.realloc · · none) hp ht
    | some e, some e', he =>
      change Directive.realloc _ _ (some _) = Directive.realloc _ _ (some _)
      rw [hp, ht, he]

theorem hashExpr : Alike ts us SameExpr (Parser.hashExpr g) (Parser.hashExpr g) := by
  unfold Parser.hashExpr
  refine (Alike.expect hl _ _).bind fun opened opened' _ => (Alike.isAt hl _).thenEq fun array => .ite ?_ ?_
  · exact Alike.arrayLiteral hl hg _ _ true
  · refine (Alike.kind hl).thenEq fun kind => ?_
    split
    · refine (Alike.skip hl).bind fun _ _ _ => ?_
      split
      · exact .fail (.of_cause rfl rfl)
      · refine (Alike.directiveOf hl hg _).bind fun d d' hd => .spanned fun _ _ => ?_
        exact congrArg (Expr.directive .zero) hd
    · exact Alike.unexpected hl _

omit hl hg in
theorem wrongSize {α β : Type} {R : α → β → Prop} (form : FixedLiteral) {n m : Nat} (h : n = m) (start start' : Nat) :
    Alike ts us R (Parser.wrongSize form n start) (Parser.wrongSize form m start') :=
  (Alike.spanFrom _ _).bind fun _ _ _ => .fail (.of_cause (by rw [h]) rfl)

/-- A form that begins with `$` looks at gaps behind a `$` and before the parenthesis of a sigil only. -/
theorem dollarExpr : Alike ts us SameExpr (Parser.dollarExpr g) (Parser.dollarExpr g) := by
  rintro s u ⟨n, ht⟩
  refine AlikeAt.expect hl (by simp) _ (fun hd opened opened' => ?_) s u ht
  have hd := getElem?_of_kindNumber hd (by simp)
  refine .look (R := fun a b => kindNumber ts (n + 1) ≠ .eof → a = b) (fun s u ht hk => ?_)
    fun touch touch' htouch => ?_
  · exact ht.isAdjacent hl (ht.kind_left ▸ hk) (.inr (.inl hd))
  have hand (kind : TokenKind) (hk : kind ≠ .eof) : (touch && decide (kindNumber ts (n + 1) = kind)) =
      (touch' && decide (kindNumber ts (n + 1) = kind)) := by
    by_cases h : kindNumber ts (n + 1) = kind
    · rw [htouch (h ▸ hk)]
    · simp [h]
  refine .isAt hl _ (.isAhead hl _ _ ?_)
  refine .look (R := fun a b => kindNumber ts (n + 1) = .punctuation .dollar →
    kindNumber ts (n + 1 + 1) = .punctuation .lParen → a = b) (fun s u ht hk hk' => ?_) fun next next' hnext => ?_
  · exact ht.nextIsAdjacent hl (by simp [hk]) (by simp [hk']) (.inr (.inl (getElem?_of_kindNumber hk (by simp))))
  refine .ite ?_ (fun _ => ?_) ?_
  · rw [hand _ (by simp)]
    by_cases h : kindNumber ts (n + 1) = .punctuation .dollar
    · by_cases h' : kindNumber ts (n + 1 + 1) = .punctuation .lParen
      · rw [hnext h h']
      · simp [h']
    · simp [h]
  · refine .of_alike ((Alike.skip hl).bind fun _ _ _ => (Alike.arguments hl hg).bind fun as as' has => ?_)
    rcases forall₂_same_of_map has with _ | ⟨ha, _ | ⟨hb, _ | ⟨hc, _ | ⟨hd, hes⟩⟩⟩⟩
    · exact Alike.wrongSize _ rfl _ _
    · exact Alike.wrongSize _ rfl _ _
    · exact Alike.wrongSize _ rfl _ _
    · refine .spanned fun _ _ => ?_
      change Expr.triple _ _ _ _ = Expr.triple _ _ _ _
      rw [ha, hb, hc]
    · exact Alike.wrongSize _ (by simp [hes.length_eq]) _ _
  refine .isAt hl _ (.ite (by rw [hand _ (by simp)]) (fun _ => ?_) ?_)
  · refine .of_alike ((Alike.arguments hl hg).bind fun as as' has => ?_)
    rcases forall₂_same_of_map has with _ | ⟨ha, _ | ⟨hb, _ | ⟨hc, hes⟩⟩⟩
    · exact Alike.wrongSize _ rfl _ _
    · exact Alike.wrongSize _ rfl _ _
    · exact .spanned fun _ _ => congrArg₂ (Expr.tuple .zero) ha hb
    · exact Alike.wrongSize _ (by simp [hes.length_eq]) _ _
  refine .look (R := fun a b => a = (kindNumber ts (n + 1)).ident?.isSome ∧ b = a) (fun s u ht => ?_) fun a b hab => ?_
  · rw [← ht.kind hl, ht.kind_left]
    exact ⟨rfl, rfl⟩
  obtain ⟨ha, rfl⟩ := hab
  refine .ite ?_ (fun _ => ?_) (.of_alike (Alike.unexpected hl _))
  · cases b with
    | false => simp
    | true => rw [htouch (fun h => by simp [h, TokenKind.ident?] at ha)]
  refine .identifier hl fun name => .isAt hl _ ?_
  refine .look (R := fun a b => kindNumber ts (n + 1 + 1) = .punctuation .lParen → a = b) (fun s u ht hk => ?_)
    fun near near' hnear => ?_
  · refine ht.isAdjacent hl (by simp [ht.kind_left, hk]) (.inr (.inr ⟨by omega, by simpa using hd, ?_⟩))
    exact getElem?_of_kindNumber hk (by simp)
  refine .ite ?_ (fun _ => ?_) (.of_alike (.spanned fun _ _ => rfl))
  · by_cases h : kindNumber ts (n + 1 + 1) = .punctuation .lParen
    · rw [hnear h]
    · simp [h]
  · refine .of_alike ((Alike.arguments hl hg).bind fun as as' has => .spanned fun _ _ => ?_)
    exact congrArg (Expr.sigil .zero name ∘ some) has

theorem parenthesized (start start' : Nat) :
    Alike ts us SameExpr (Parser.parenthesized g start) (Parser.parenthesized g start') := by
  unfold Parser.parenthesized
  refine (Alike.skip hl).bind fun _ _ _ => (hg.expression false).bind fun e e' he => ?_
  exact (Alike.closing hl _ _ _).thenEq fun _ => .spanned fun _ _ => congrArg (Expr.paren .zero) he

omit hg in
theorem literal (start start' : Nat) {build : Span → Expr} (hb : ∀ a b, SameExpr (build a) (build b)) :
    Alike ts us SameExpr (Parser.literal start build) (Parser.literal start' build) :=
  (Alike.skip hl).bind fun _ _ _ => .spanned hb

theorem primary (header : Bool) : Alike ts us SameExpr (Parser.primary g header) (Parser.primary g header) := by
  unfold Parser.primary
  refine Alike.start.bind fun start start' _ => (Alike.kind hl).thenEq fun kind => ?_
  split
  case h_6 => exact Alike.lambda hl hg header
  case h_7 => exact Alike.nameExpr hl hg header
  case h_8 => exact Alike.parenthesized hl hg _ _
  case h_9 => exact Alike.arrayLiteral hl hg _ _ false
  case h_10 => exact Alike.hashExpr hl hg
  case h_11 => exact Alike.dollarExpr hl hg
  case h_12 => exact Alike.noExpression hl
  all_goals exact Alike.literal hl _ _ fun _ _ => rfl

theorem callTypeArgs :
    Alike ts us (Same (typeListMapSpans noSpan)) (Parser.callTypeArgs g) (Parser.callTypeArgs g) := by
  unfold Parser.callTypeArgs
  refine (Alike.typeArgs hl hg.type 0).bind fun as as' has => Alike.owed.thenEq fun owed => ?_
  refine .ite (Alike.unexpected hl _) ?_
  exact (Alike.isAt hl _).thenEq fun opens => .ite (.done has) (Alike.unexpected hl _)

theorem genericCall? (start start' : Nat) {callee callee' : Expr} (hc : SameExpr callee callee') :
    Alike ts us (OptionRel SameExpr) (Parser.genericCall? g start callee) (Parser.genericCall? g start' callee') := by
  unfold Parser.genericCall?
  refine (Alike.attempt (Alike.callTypeArgs hl hg)).bind fun o o' ho => ?_
  match o, o', ho with
  | none, none, _ => exact .done trivial
  | some generics, some generics', ho =>
    refine (Alike.arguments hl hg).bind fun as as' has => (Alike.spanFrom _ _).bind fun _ _ _ => .done ?_
    have ho : typeListMapSpans noSpan generics = typeListMapSpans noSpan generics' := ho
    change Expr.call .zero _ (some _) _ = Expr.call .zero _ (some _) _
    rw [hc, ho, has]

theorem suffixStep (start start' : Nat) {e e' : Expr} (he : SameExpr e e') :
    Alike ts us (OptionRel SameExpr) (Parser.suffixStep g start e) (Parser.suffixStep g start' e') := by
  have htakes : e.takesGenerics = e'.takesGenerics := by
    rw [← takesGenerics_mapSpans noSpan e, he, takesGenerics_mapSpans]
  unfold Parser.suffixStep
  rw [htakes]
  refine (Alike.isAt hl _).thenEq fun opens => .ite ?_ ?_
  · refine (Alike.arguments hl hg).bind fun as as' has => (Alike.spanFrom _ _).bind fun _ _ _ => .done ?_
    exact congrArg₂ (Expr.call .zero · none ·) he has
  refine .touchingLt hl (fun _ => rfl) (fun _ => rfl) fun lt touches => .ite (Alike.genericCall? hl hg _ _ he) ?_
  refine (Alike.accept hl _).thenEq fun dot => .ite ?_ ?_
  · refine (Alike.identifier hl).thenEq fun name => (Alike.spanFrom _ _).bind fun _ _ _ => .done ?_
    exact congrArg (Expr.member .zero · name) he
  refine (Alike.isAt hl _).thenEq fun bracket => .ite ?_ (.done trivial)
  refine (Alike.skip hl).bind fun _ _ _ => (hg.expression false).bind fun i i' hi => ?_
  refine (Alike.closing hl _ _ _).thenEq fun _ => (Alike.spanFrom _ _).bind fun _ _ _ => .done ?_
  exact congrArg₂ (Expr.subscript .zero) he hi

theorem operandExpr (header : Bool) :
    Alike ts us SameExpr (Parser.operandExpr g header) (Parser.operandExpr g header) := by
  unfold Parser.operandExpr
  refine Alike.start.bind fun start start' _ => (Alike.primary hl hg header).bind fun e e' he => ?_
  exact .grow hl (fun _ _ => Alike.suffixStep hl hg _ _) he

/-! ### Operators and casts -/

theorem castType : Alike ts us SameType (Parser.castType g) (Parser.castType g) := by
  unfold Parser.castType
  exact (hg.type 0).bind fun t t' ht => (Alike.expect hl _ _).bind fun _ _ _ => .done ht

theorem cast? (header : Bool) :
    Alike ts us (OptionRel SameExpr) (Parser.cast? g header) (Parser.cast? g header) := by
  unfold Parser.cast?
  refine AlikeFrom.save fun saved saved' hs => .bind (Alike.skip hl) fun _ _ _ => ?_
  refine .bind (Alike.attempt (Alike.castType hl hg)) fun o o' ho => ?_
  match o, o', ho with
  | none, none, _ => exact .rewind hs trivial
  | some type, some type', ho =>
    have hnamed : type.isNamed = type'.isNamed := by
      have ho : type.mapSpans noSpan = type'.mapSpans noSpan := ho
      rw [← TypeExpr.isNamed_mapSpans noSpan type, ho, TypeExpr.isNamed_mapSpans]
    dsimp only
    rw [hnamed]
    refine .thenEq (Alike.kind hl) fun kind => .ite (.of_alike ?_) (.rewind hs trivial)
    refine (hg.unary header).bind fun e e' he => (Alike.spanFrom _ _).bind fun _ _ _ => .done ?_
    exact congrArg₂ (Expr.cast .zero) ho he

theorem doubleAddress (header : Bool) (start start' : Nat) :
    Alike ts us SameExpr (Parser.doubleAddress g header start) (Parser.doubleAddress g header start') := by
  unfold Parser.doubleAddress
  refine (Alike.skip hl).bind fun _ _ _ => (Alike.requireOperand hl _).thenEq fun _ => ?_
  exact (hg.unary header).bind fun e e' he => .spanned fun _ _ =>
    congrArg (fun e => Expr.unary .zero .addrOf (.unary .zero .addrOf e)) he

theorem unaryBody (header : Bool) : Alike ts us SameExpr (Parser.unaryBody g header) (Parser.unaryBody g header) := by
  unfold Parser.unaryBody
  refine Alike.start.bind fun start start' _ => (Alike.kind hl).thenEq fun kind => ?_
  split
  · split
    · refine (Alike.skip hl).bind fun _ _ _ => (Alike.requireOperand hl _).thenEq fun _ => ?_
      exact (hg.unary header).bind fun e e' he => .spanned fun _ _ => congrArg (Expr.unary .zero _) he
    · exact .ite (Alike.doubleAddress hl hg _ _ _) (Alike.operandExpr hl hg _)
  · refine (Alike.cast? hl hg header).bind fun o o' ho => ?_
    match o, o', ho with
    | none, none, _ => exact Alike.operandExpr hl hg _
    | some e, some e', he => exact .done he
  · exact Alike.operandExpr hl hg _

omit hl hg in
theorem joined? (op : Operator) {l l' r r' : Expr} (hleft : SameExpr l l') (hright : SameExpr r r') :
    OptionRel SameExpr (Parser.joined? op l r) (Parser.joined? op l' r') := by
  unfold Parser.joined?
  split
  · exact congrArg₂ (Expr.range .zero · · false) hleft hright
  · exact congrArg₂ (Expr.range .zero · · true) hleft hright
  · cases BinaryOp.ofOperator? op with
    | none => trivial
    | some binary => exact congrArg₂ (Expr.binary .zero · binary ·) hleft hright

theorem chainStep (header : Bool) (level : Nat) {l l' : Expr} (hleft : SameExpr l l') :
    Alike ts us (OptionRel SameExpr) (Parser.chainStep g header level l) (Parser.chainStep g header level l') := by
  unfold Parser.chainStep
  refine (Alike.kind hl).thenEq fun kind => ?_
  split
  · exact .done trivial
  split
  · exact .done trivial
  refine .ite (.done trivial) ?_
  refine (Alike.skip hl).bind fun _ _ _ => (Alike.requireOperand hl _).thenEq fun _ => ?_
  exact (hg.chain header _).bind fun r r' hright => .done (Alike.joined? _ hleft hright)

theorem chainBody (header : Bool) (level : Nat) :
    Alike ts us SameExpr (Parser.chainBody g header level) (Parser.chainBody g header level) := by
  unfold Parser.chainBody
  exact (Alike.unaryBody hl hg header).bind fun e e' he => .grow hl (fun _ _ => Alike.chainStep hl hg _ _) he

theorem consequence (header : Bool) :
    Alike ts us (OptionRel SameExpr) (Parser.consequence g header) (Parser.consequence g header) := by
  unfold Parser.consequence
  refine (Alike.isAt hl _).thenEq fun left => .ite (.done trivial) ?_
  exact (hg.expression header).bind fun e e' he => .done he

theorem expressionBody (header : Bool) :
    Alike ts us SameExpr (Parser.expressionBody g header) (Parser.expressionBody g header) := by
  unfold Parser.expressionBody
  refine (Alike.chainBody hl hg header 1).bind fun c c' hc => (Alike.accept hl _).thenEq fun question => ?_
  refine .ite ?_ (.done hc)
  refine (Alike.consequence hl hg header).bind fun o o' ho => (Alike.expect hl _ _).bind fun _ _ _ => ?_
  refine (hg.expression header).bind fun a a' ha => .done ?_
  match o, o', ho with
  | none, none, _ => exact congrArg₂ (Expr.conditional .zero · none ·) hc ha
  | some e, some e', he =>
    have he : e.mapSpans noSpan = e'.mapSpans noSpan := he
    change Expr.conditional .zero _ (some _) _ = Expr.conditional .zero _ (some _) _
    rw [hc, he, ha]

end Alike

end ElleFrontEnd
