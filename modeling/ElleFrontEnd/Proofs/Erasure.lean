import ElleFrontEnd.Proofs.Visiting

/-!
# Resetting spans

Given the spans of a congruent tree, one after the other, a tree turns into that tree (`Program.Congruent.refit`).  So the
listed spans are all that a program carries, and resetting them leaves exactly what congruent programs have in common
(`Program.withoutSpans_of_visit`).
-/

namespace ElleFrontEnd

/-! ### Spans tell congruent trees apart -/

section Refit

/-- Answers with the spans of a list, one after the other. -/
def nextSpan (_ : Span) : StateM (List Span) Span := fun ss => (ss.headD .zero, ss.tail)

@[simp] theorem run_nextSpan (s s' : Span) (rest : List Span) : (nextSpan s).run (s' :: rest) = pure (s', rest) := rfl

theorem refit_mapM {α : Type} {R : α → α → Prop} {f : α → StateM (List Span) α} {spans : α → List Span}
    (hR : ∀ a b, R a b → ∀ rest, (f a).run (spans b ++ rest) = pure (b, rest)) {l l' : List α}
    (h : List.Forall₂ R l l') (rest : List Span) : (l.mapM f).run (l'.flatMap spans ++ rest) = pure (l', rest) := by
  induction h with
  | nil => simp
  | cons h _ ih => simp [hR _ _ h, ih]

mutual

theorem TypeExpr.Congruent.refit : {t u : TypeExpr} → t.Congruent u → (rest : List Span) →
    (t.visit nextSpan).run (u.spans ++ rest) = pure (u, rest)
  | _, _, .primitive, _ | _, _, .named, _ => by simp [TypeExpr.visit, TypeExpr.spans]
  | _, _, .array h, _ | _, _, .pointer h, _ => by simp [TypeExpr.visit, TypeExpr.spans, h.refit]
  | _, _, .generic h, _ => by simp [TypeExpr.visit, TypeExpr.spans, h.refit]
  | _, _, .tuple h₁ h₂, _ => by simp [TypeExpr.visit, TypeExpr.spans, h₁.refit, h₂.refit]

theorem TypesCongruent.refit : {ts us : List TypeExpr} → TypesCongruent ts us → (rest : List Span) →
    (typeListVisit nextSpan ts).run (typeListSpans us ++ rest) = pure (us, rest)
  | _, _, .nil, _ => by simp [typeListVisit, typeListSpans]
  | _, _, .cons h hs, _ => by simp [typeListVisit, typeListSpans, h.refit, hs.refit]

end

theorem refit_optTypeVisit {t u : Option TypeExpr} (h : Option.Rel TypeExpr.Congruent t u) (rest : List Span) :
    (optTypeVisit nextSpan t).run (optTypeSpans u ++ rest) = pure (u, rest) := by
  cases h with
  | none => simp [optTypeVisit, optTypeSpans]
  | some h => simp [optTypeVisit, optTypeSpans, h.refit]

theorem refit_optTypeListVisit {ts us : Option (List TypeExpr)} (h : Option.Rel TypesCongruent ts us)
    (rest : List Span) : (optTypeListVisit nextSpan ts).run (optTypeListSpans us ++ rest) = pure (us, rest) := by
  cases h with
  | none => simp [optTypeListVisit, optTypeListSpans]
  | some h => simp [optTypeListVisit, optTypeListSpans, h.refit]

theorem Param.Congruent.refit {p q : Param} (h : p.Congruent q) (rest : List Span) :
    (p.visit nextSpan).run (q.spans ++ rest) = pure (q, rest) := by
  cases h with
  | named h | unnamed h | noFormat h => simp [Param.visit, Param.spans, h.refit]
  | variadic => simp [Param.visit, Param.spans]

theorem ParamList.Congruent.refit : {p q : ParamList} → p.Congruent q → (rest : List Span) →
    (p.visit nextSpan).run (q.spans ++ rest) = pure (q, rest)
  | _, _, .mk h, _ => by
    simp [ParamList.visit, ParamList.spans, refit_mapM (fun _ _ h => Param.Congruent.refit h) h]

mutual

theorem Expr.Congruent.refit : {e f : Expr} → e.Congruent f → (rest : List Span) →
    (e.visit nextSpan).run (f.spans ++ rest) = pure (f, rest)
  | _, _, .binary h₁ h₂, _ => by simp [Expr.visit, Expr.spans, h₁.refit, h₂.refit]
  | _, _, .unary h, _ => by simp [Expr.visit, Expr.spans, h.refit]
  | _, _, .call h hg hs, _ => by simp [Expr.visit, Expr.spans, h.refit, refit_optTypeListVisit hg, hs.refit]
  | _, _, .member h, _ => by simp [Expr.visit, Expr.spans, h.refit]
  | _, _, .subscript h₁ h₂, _ => by simp [Expr.visit, Expr.spans, h₁.refit, h₂.refit]
  | _, _, .orElse h₁ h₂, _ => by simp [Expr.visit, Expr.spans, h₁.refit, h₂.refit]
  | _, _, .conditional h₁ h₂ h₃, _ => by simp [Expr.visit, Expr.spans, h₁.refit, h₂.refit, h₃.refit]
  | _, _, .cast ht h, _ => by simp [Expr.visit, Expr.spans, ht.refit, h.refit]
  | _, _, .paren h, _ => by simp [Expr.visit, Expr.spans, h.refit]
  | _, _, .ident, _ | _, _, .qualified, _ | _, _, .rawName, _
  | _, _, .number, _ | _, _, .str, _ | _, _, .bool, _ | _, _, .char, _ => by
    simp [Expr.visit, Expr.spans]
  | _, _, .array ht hs, _ => by simp [Expr.visit, Expr.spans, refit_optTypeVisit ht, hs.refit]
  | _, _, .tuple h₁ h₂, _ => by simp [Expr.visit, Expr.spans, h₁.refit, h₂.refit]
  | _, _, .triple h₁ h₂ h₃, _ => by simp [Expr.visit, Expr.spans, h₁.refit, h₂.refit, h₃.refit]
  | _, _, .structLit hg hs, _ => by simp [Expr.visit, Expr.spans, refit_optTypeListVisit hg, hs.refit]
  | _, _, .lambda hp h, _ => by simp [Expr.visit, Expr.spans, hp.refit, h.refit]
  | _, _, .blockLambda hp h, _ => by simp [Expr.visit, Expr.spans, hp.refit, h.refit]
  | _, _, .range h₁ h₂, _ => by simp [Expr.visit, Expr.spans, h₁.refit, h₂.refit]
  | _, _, .directive h, _ => by simp [Expr.visit, Expr.spans, h.refit]
  | _, _, .sigil, _ => by simp [Expr.visit, Expr.spans]
  | _, _, .sigilCall hs, _ => by simp [Expr.visit, Expr.spans, hs.refit]

theorem ExprsCongruent.refit : {es fs : List Expr} → ExprsCongruent es fs → (rest : List Span) →
    (exprListVisit nextSpan es).run (exprListSpans fs ++ rest) = pure (fs, rest)
  | _, _, .nil, _ => by simp [exprListVisit, exprListSpans]
  | _, _, .cons h hs, _ => by simp [exprListVisit, exprListSpans, h.refit, hs.refit]

theorem FieldInitsCongruent.refit : {fs gs : List FieldInit} → FieldInitsCongruent fs gs → (rest : List Span) →
    (fieldInitListVisit nextSpan fs).run (fieldInitListSpans gs ++ rest) = pure (gs, rest)
  | _, _, .nil, _ => by simp [fieldInitListVisit, fieldInitListSpans]
  | _, _, .cons h hs, _ => by simp [fieldInitListVisit, fieldInitListSpans, h.refit, hs.refit]

theorem Directive.Congruent.refit : {d d' : Directive} → d.Congruent d' → (rest : List Span) →
    (d.visit nextSpan).run (d'.spans ++ rest) = pure (d', rest)
  | _, _, .len h, _ => by simp [Directive.visit, Directive.spans, h.refit]
  | _, _, .size ht, _ => by simp [Directive.visit, Directive.spans, ht.refit]
  | _, _, .ident, _ | _, _, .env, _ => by simp [Directive.visit, Directive.spans]
  | _, _, .allocOne ht, _ => by simp [Directive.visit, Directive.spans, ht.refit]
  | _, _, .alloc ht h, _ => by simp [Directive.visit, Directive.spans, ht.refit, h.refit]
  | _, _, .reallocOne h ht, _ => by simp [Directive.visit, Directive.spans, h.refit, ht.refit]
  | _, _, .realloc h₁ ht h₂, _ => by simp [Directive.visit, Directive.spans, h₁.refit, ht.refit, h₂.refit]
  | _, _, .free h, _ => by simp [Directive.visit, Directive.spans, h.refit]
  | _, _, .setAllocator h, _ => by simp [Directive.visit, Directive.spans, h.refit]
  | _, _, .resetAllocator, _ => by simp [Directive.visit, Directive.spans]

theorem Block.Congruent.refit : {b b' : Block} → b.Congruent b' → (rest : List Span) →
    (b.visit nextSpan).run (b'.spans ++ rest) = pure (b', rest)
  | _, _, .mk hs, _ => by simp [Block.visit, Block.spans, hs.refit]

theorem StmtsCongruent.refit : {as bs : List Stmt} → StmtsCongruent as bs → (rest : List Span) →
    (stmtListVisit nextSpan as).run (stmtListSpans bs ++ rest) = pure (bs, rest)
  | _, _, .nil, _ => by simp [stmtListVisit, stmtListSpans]
  | _, _, .cons h hs, _ => by simp [stmtListVisit, stmtListSpans, h.refit, hs.refit]

theorem Stmt.Congruent.refit : {a b : Stmt} → a.Congruent b → (rest : List Span) →
    (a.visit nextSpan).run (b.spans ++ rest) = pure (b, rest)
  | _, _, .expr h, _ => by simp [Stmt.visit, Stmt.spans, h.refit]
  | _, _, .varDecl ht, _ => by simp [Stmt.visit, Stmt.spans, refit_optTypeVisit ht]
  | _, _, .varInit ht h, _ => by simp [Stmt.visit, Stmt.spans, refit_optTypeVisit ht, h.refit]
  | _, _, .assign h₁ h₂, _ => by simp [Stmt.visit, Stmt.spans, h₁.refit, h₂.refit]
  | _, _, .ifElse h hb ho, _ => by simp [Stmt.visit, Stmt.spans, h.refit, hb.refit, ho.refit]
  | _, _, .whileLoop h hb, _ => by simp [Stmt.visit, Stmt.spans, h.refit, hb.refit]
  | _, _, .forLoop hi h hs hb, _ => by simp [Stmt.visit, Stmt.spans, hi.refit, h.refit, hs.refit, hb.refit]
  | _, _, .forEach h hb, _ => by simp [Stmt.visit, Stmt.spans, h.refit, hb.refit]
  | _, _, .defer h, _ => by simp [Stmt.visit, Stmt.spans, h.refit]
  | _, _, .returnNone, _ => by simp [Stmt.visit, Stmt.spans]
  | _, _, .returnValue h, _ => by simp [Stmt.visit, Stmt.spans, h.refit]
  | _, _, .breakLoop, _ | _, _, .continueLoop, _ => by simp [Stmt.visit, Stmt.spans]
  | _, _, .block hs, _ => by simp [Stmt.visit, Stmt.spans, hs.refit]
  | _, _, .buffer ht h, _ => by simp [Stmt.visit, Stmt.spans, ht.refit, h.refit]

theorem Else.Congruent.refit : {o o' : Else} → o.Congruent o' → (rest : List Span) →
    (o.visit nextSpan).run (o'.spans ++ rest) = pure (o', rest)
  | _, _, .absent, _ => by simp [Else.visit, Else.spans]
  | _, _, .block hb, _ => by simp [Else.visit, Else.spans, hb.refit]
  | _, _, .elseIf h hb ho, _ => by simp [Else.visit, Else.spans, h.refit, hb.refit, ho.refit]

theorem ForInit.Congruent.refit : {i i' : ForInit} → i.Congruent i' → (rest : List Span) →
    (i.visit nextSpan).run (i'.spans ++ rest) = pure (i', rest)
  | _, _, .varDecl ht, _ => by simp [ForInit.visit, ForInit.spans, refit_optTypeVisit ht]
  | _, _, .varInit ht h, _ => by simp [ForInit.visit, ForInit.spans, refit_optTypeVisit ht, h.refit]
  | _, _, .expr h, _ => by simp [ForInit.visit, ForInit.spans, h.refit]

theorem ForStep.Congruent.refit : {i i' : ForStep} → i.Congruent i' → (rest : List Span) →
    (i.visit nextSpan).run (i'.spans ++ rest) = pure (i', rest)
  | _, _, .assign h₁ h₂, _ => by simp [ForStep.visit, ForStep.spans, h₁.refit, h₂.refit]
  | _, _, .expr h, _ => by simp [ForStep.visit, ForStep.spans, h.refit]

end

theorem refit_optBlockVisit {b b' : Option Block} (h : Option.Rel Block.Congruent b b') (rest : List Span) :
    (optBlockVisit nextSpan b).run (optBlockSpans b' ++ rest) = pure (b', rest) := by
  cases h with
  | none => simp [optBlockVisit, optBlockSpans]
  | some h => simp [optBlockVisit, optBlockSpans, h.refit]

theorem DeclName.Congruent.refit {n n' : DeclName} (h : n.Congruent n') (rest : List Span) :
    (n.visit nextSpan).run (n'.span :: rest) = pure (n', rest) := by
  cases h <;> simp [DeclName.visit, DeclName.span]

theorem Attribute.Congruent.refit {a b : Attribute} (h : a.Congruent b) (rest : List Span) :
    (a.visit nextSpan).run (b.spans ++ rest) = pure (b, rest) := by
  cases h with
  | plain => simp [Attribute.visit, Attribute.spans]
  | call h => simp [Attribute.visit, Attribute.spans, h.refit]

theorem FunctionDecl.Congruent.refit {d d' : FunctionDecl} (h : d.Congruent d') (rest : List Span) :
    (d.visit nextSpan).run (d'.spans ++ rest) = pure (d', rest) := by
  cases h with
  | mk hn hp ha ht hb =>
    simp [FunctionDecl.visit, FunctionDecl.spans, hn.refit, hp.refit, refit_optTypeVisit ht, refit_optBlockVisit hb,
      refit_mapM (fun _ _ h => Attribute.Congruent.refit h) ha]

theorem ConstDecl.Congruent.refit {d d' : ConstDecl} (h : d.Congruent d') (rest : List Span) :
    (d.visit nextSpan).run (d'.spans ++ rest) = pure (d', rest) := by
  cases h with
  | mk ht h => simp [ConstDecl.visit, ConstDecl.spans, refit_optTypeVisit ht, h.refit]

theorem Field.Congruent.refit {d d' : Field} (h : d.Congruent d') (rest : List Span) :
    (d.visit nextSpan).run (d'.spans ++ rest) = pure (d', rest) := by
  cases h with
  | mk ht => simp [Field.visit, Field.spans, ht.refit]

theorem StructDecl.Congruent.refit {d d' : StructDecl} (h : d.Congruent d') (rest : List Span) :
    (d.visit nextSpan).run (d'.spans ++ rest) = pure (d', rest) := by
  cases h with
  | mk ha hf =>
    simp [StructDecl.visit, StructDecl.spans, refit_mapM (fun _ _ h => Attribute.Congruent.refit h) ha,
      refit_mapM (fun _ _ h => Field.Congruent.refit h) hf]

theorem Declaration.Congruent.refit {d d' : Declaration} (h : d.Congruent d') (rest : List Span) :
    (d.visit nextSpan).run (d'.spans ++ rest) = pure (d', rest) := by
  cases h with
  | importModule | globalOptions | moduleName => simp [Declaration.visit, Declaration.spans]
  | function h | externalFunction h => simp [Declaration.visit, Declaration.spans, h.refit]
  | constant h => simp [Declaration.visit, Declaration.spans, h.refit]
  | struct h => simp [Declaration.visit, Declaration.spans, h.refit]

/-- A program that is given the spans of a congruent one turns into it. -/
theorem Program.Congruent.refit {p q : Program} (h : p.Congruent q) (rest : List Span) :
    (p.visit nextSpan).run (q.spans ++ rest) = pure (q, rest) := by
  cases h with
  | mk h => simp [Program.visit, Program.spans, refit_mapM (fun _ _ h => Declaration.Congruent.refit h) h]

end Refit

/-! ### Visitors that remember nothing -/

section Stateless

variable {m : Type → Type} [Monad m] [LawfulMonad m] (f : Span → Span)

theorem mapM_eq_pure {α : Type} {g : α → m α} {k : α → α} (h : ∀ a, g a = pure (k a)) (l : List α) :
    l.mapM g = pure (l.map k) := by
  rw [funext h, List.mapM_pure]

mutual

theorem TypeExpr.visit_pure : (t : TypeExpr) → t.visit (fun s => pure (f s)) = (pure (t.mapSpans f) : m TypeExpr)
  | .primitive _ _ | .named _ _ => by simp [TypeExpr.visit, TypeExpr.mapSpans]
  | .array _ element _ => by simp [TypeExpr.visit, TypeExpr.mapSpans, element.visit_pure]
  | .pointer _ base _ => by simp [TypeExpr.visit, TypeExpr.mapSpans, base.visit_pure]
  | .generic _ _ args => by simp [TypeExpr.visit, TypeExpr.mapSpans, typeListVisit_pure args]
  | .tuple _ first second => by simp [TypeExpr.visit, TypeExpr.mapSpans, first.visit_pure, second.visit_pure]

theorem typeListVisit_pure : (ts : List TypeExpr) →
    typeListVisit (fun s => pure (f s)) ts = (pure (typeListMapSpans f ts) : m (List TypeExpr))
  | [] => by simp [typeListVisit, typeListMapSpans]
  | t :: ts => by simp [typeListVisit, typeListMapSpans, t.visit_pure, typeListVisit_pure ts]

end

theorem optTypeVisit_pure (t : Option TypeExpr) :
    optTypeVisit (fun s => pure (f s)) t = (pure (t.map (TypeExpr.mapSpans f)) : m (Option TypeExpr)) := by
  cases t <;> simp [optTypeVisit, TypeExpr.visit_pure]

theorem optTypeListVisit_pure (ts : Option (List TypeExpr)) :
    optTypeListVisit (fun s => pure (f s)) ts = (pure (ts.map (typeListMapSpans f)) : m (Option (List TypeExpr))) := by
  cases ts <;> simp [optTypeListVisit, typeListVisit_pure]

theorem Param.visit_pure (p : Param) : p.visit (fun s => pure (f s)) = (pure (p.mapSpans f) : m Param) := by
  cases p <;> simp [Param.visit, Param.mapSpans, TypeExpr.visit_pure]

theorem ParamList.visit_pure (list : ParamList) :
    list.visit (fun s => pure (f s)) = (pure (list.mapSpans f) : m ParamList) := by
  simp [ParamList.visit, ParamList.mapSpans, mapM_eq_pure (Param.visit_pure f)]

mutual

theorem Expr.visit_pure : (e : Expr) → e.visit (fun s => pure (f s)) = (pure (e.mapSpans f) : m Expr)
  | .binary _ left _ right => by simp [Expr.visit, Expr.mapSpans, left.visit_pure, right.visit_pure]
  | .unary _ _ operand => by simp [Expr.visit, Expr.mapSpans, operand.visit_pure]
  | .call _ callee _ args => by
    simp [Expr.visit, Expr.mapSpans, callee.visit_pure, optTypeListVisit_pure, exprListVisit_pure args]
  | .member _ object _ => by simp [Expr.visit, Expr.mapSpans, object.visit_pure]
  | .subscript _ object index => by simp [Expr.visit, Expr.mapSpans, object.visit_pure, index.visit_pure]
  | .conditional _ condition none alternative => by
    simp [Expr.visit, Expr.mapSpans, condition.visit_pure, alternative.visit_pure]
  | .conditional _ condition (some consequence) alternative => by
    simp [Expr.visit, Expr.mapSpans, condition.visit_pure, consequence.visit_pure, alternative.visit_pure]
  | .cast _ _ operand => by simp [Expr.visit, Expr.mapSpans, TypeExpr.visit_pure, operand.visit_pure]
  | .paren _ inner => by simp [Expr.visit, Expr.mapSpans, inner.visit_pure]
  | .ident _ _ | .qualified _ _ | .rawName _ _ | .number _ _ | .str _ _ | .bool _ _ | .char _ _ => by
    simp [Expr.visit, Expr.mapSpans]
  | .array _ _ _ elements => by simp [Expr.visit, Expr.mapSpans, optTypeVisit_pure, exprListVisit_pure elements]
  | .tuple _ first second => by simp [Expr.visit, Expr.mapSpans, first.visit_pure, second.visit_pure]
  | .triple _ first second third => by
    simp [Expr.visit, Expr.mapSpans, first.visit_pure, second.visit_pure, third.visit_pure]
  | .structLit _ _ _ fields => by
    simp [Expr.visit, Expr.mapSpans, optTypeListVisit_pure, fieldInitListVisit_pure fields]
  | .lambda _ _ body => by simp [Expr.visit, Expr.mapSpans, ParamList.visit_pure, body.visit_pure]
  | .blockLambda _ _ body => by simp [Expr.visit, Expr.mapSpans, ParamList.visit_pure, body.visit_pure]
  | .range _ start stop _ => by simp [Expr.visit, Expr.mapSpans, start.visit_pure, stop.visit_pure]
  | .directive _ directive => by simp [Expr.visit, Expr.mapSpans, directive.visit_pure]
  | .sigil _ _ none => by simp [Expr.visit, Expr.mapSpans]
  | .sigil _ _ (some args) => by simp [Expr.visit, Expr.mapSpans, exprListVisit_pure args]

theorem exprListVisit_pure : (es : List Expr) →
    exprListVisit (fun s => pure (f s)) es = (pure (exprListMapSpans f es) : m (List Expr))
  | [] => by simp [exprListVisit, exprListMapSpans]
  | e :: es => by simp [exprListVisit, exprListMapSpans, e.visit_pure, exprListVisit_pure es]

theorem fieldInitListVisit_pure : (fields : List FieldInit) →
    fieldInitListVisit (fun s => pure (f s)) fields = (pure (fieldInitListMapSpans f fields) : m (List FieldInit))
  | [] => by simp [fieldInitListVisit, fieldInitListMapSpans]
  | .mk _ _ value :: fields => by
    simp [fieldInitListVisit, fieldInitListMapSpans, value.visit_pure, fieldInitListVisit_pure fields]

theorem Directive.visit_pure : (d : Directive) →
    d.visit (fun s => pure (f s)) = (pure (d.mapSpans f) : m Directive)
  | .len value | .free value | .setAllocator value => by simp [Directive.visit, Directive.mapSpans, value.visit_pure]
  | .size _ | .alloc _ none => by simp [Directive.visit, Directive.mapSpans, TypeExpr.visit_pure]
  | .ident _ | .env | .resetAllocator => by simp [Directive.visit, Directive.mapSpans]
  | .alloc _ (some count) => by simp [Directive.visit, Directive.mapSpans, TypeExpr.visit_pure, count.visit_pure]
  | .realloc pointer _ none => by
    simp [Directive.visit, Directive.mapSpans, TypeExpr.visit_pure, pointer.visit_pure]
  | .realloc pointer _ (some count) => by
    simp [Directive.visit, Directive.mapSpans, TypeExpr.visit_pure, pointer.visit_pure, count.visit_pure]

theorem Block.visit_pure : (b : Block) → b.visit (fun s => pure (f s)) = (pure (b.mapSpans f) : m Block)
  | .mk _ statements => by simp [Block.visit, Block.mapSpans, stmtListVisit_pure statements]

theorem stmtListVisit_pure : (ss : List Stmt) →
    stmtListVisit (fun s => pure (f s)) ss = (pure (stmtListMapSpans f ss) : m (List Stmt))
  | [] => by simp [stmtListVisit, stmtListMapSpans]
  | s :: ss => by simp [stmtListVisit, stmtListMapSpans, s.visit_pure, stmtListVisit_pure ss]

theorem Stmt.visit_pure : (s : Stmt) → s.visit (fun s => pure (f s)) = (pure (s.mapSpans f) : m Stmt)
  | .expr _ value | .defer _ value => by simp [Stmt.visit, Stmt.mapSpans, value.visit_pure]
  | .varDecl _ _ _ _ none => by simp [Stmt.visit, Stmt.mapSpans, optTypeVisit_pure]
  | .varDecl _ _ _ _ (some init) => by simp [Stmt.visit, Stmt.mapSpans, optTypeVisit_pure, init.visit_pure]
  | .assign _ target _ value => by simp [Stmt.visit, Stmt.mapSpans, target.visit_pure, value.visit_pure]
  | .ifElse _ condition body otherwise => by
    simp [Stmt.visit, Stmt.mapSpans, condition.visit_pure, body.visit_pure, otherwise.visit_pure]
  | .whileLoop _ condition body => by simp [Stmt.visit, Stmt.mapSpans, condition.visit_pure, body.visit_pure]
  | .forLoop _ init condition step body => by
    simp [Stmt.visit, Stmt.mapSpans, init.visit_pure, condition.visit_pure, step.visit_pure, body.visit_pure]
  | .forEach _ _ iterable body => by simp [Stmt.visit, Stmt.mapSpans, iterable.visit_pure, body.visit_pure]
  | .returnValue _ none | .breakLoop _ | .continueLoop _ => by simp [Stmt.visit, Stmt.mapSpans]
  | .returnValue _ (some value) => by simp [Stmt.visit, Stmt.mapSpans, value.visit_pure]
  | .block _ statements => by simp [Stmt.visit, Stmt.mapSpans, stmtListVisit_pure statements]
  | .buffer _ _ _ size => by simp [Stmt.visit, Stmt.mapSpans, TypeExpr.visit_pure, size.visit_pure]

theorem Else.visit_pure : (o : Else) → o.visit (fun s => pure (f s)) = (pure (o.mapSpans f) : m Else)
  | .absent => by simp [Else.visit, Else.mapSpans]
  | .block body => by simp [Else.visit, Else.mapSpans, body.visit_pure]
  | .elseIf _ condition body otherwise => by
    simp [Else.visit, Else.mapSpans, condition.visit_pure, body.visit_pure, otherwise.visit_pure]

theorem ForInit.visit_pure : (i : ForInit) → i.visit (fun s => pure (f s)) = (pure (i.mapSpans f) : m ForInit)
  | .varDecl _ _ _ _ none => by simp [ForInit.visit, ForInit.mapSpans, optTypeVisit_pure]
  | .varDecl _ _ _ _ (some init) => by simp [ForInit.visit, ForInit.mapSpans, optTypeVisit_pure, init.visit_pure]
  | .expr value => by simp [ForInit.visit, ForInit.mapSpans, value.visit_pure]

theorem ForStep.visit_pure : (s : ForStep) → s.visit (fun s => pure (f s)) = (pure (s.mapSpans f) : m ForStep)
  | .assign _ target _ value => by simp [ForStep.visit, ForStep.mapSpans, target.visit_pure, value.visit_pure]
  | .expr value => by simp [ForStep.visit, ForStep.mapSpans, value.visit_pure]

end

theorem optBlockVisit_pure (b : Option Block) :
    optBlockVisit (fun s => pure (f s)) b = (pure (b.map (Block.mapSpans f)) : m (Option Block)) := by
  cases b <;> simp [optBlockVisit, Block.visit_pure]

theorem DeclName.visit_pure (n : DeclName) : n.visit (fun s => pure (f s)) = (pure (n.mapSpans f) : m DeclName) := by
  cases n <;> simp [DeclName.visit, DeclName.mapSpans]

theorem Attribute.visit_pure (a : Attribute) :
    a.visit (fun s => pure (f s)) = (pure (a.mapSpans f) : m Attribute) := by
  rcases a with ⟨_, _, _ | args⟩ <;> simp [Attribute.visit, Attribute.mapSpans, exprListVisit_pure]

theorem FunctionDecl.visit_pure (d : FunctionDecl) :
    d.visit (fun s => pure (f s)) = (pure (d.mapSpans f) : m FunctionDecl) := by
  simp [FunctionDecl.visit, FunctionDecl.mapSpans, DeclName.visit_pure, ParamList.visit_pure,
    mapM_eq_pure (Attribute.visit_pure f), optTypeVisit_pure, optBlockVisit_pure]

theorem ConstDecl.visit_pure (d : ConstDecl) :
    d.visit (fun s => pure (f s)) = (pure (d.mapSpans f) : m ConstDecl) := by
  simp [ConstDecl.visit, ConstDecl.mapSpans, optTypeVisit_pure, Expr.visit_pure]

theorem Field.visit_pure (d : Field) : d.visit (fun s => pure (f s)) = (pure (d.mapSpans f) : m Field) := by
  simp [Field.visit, Field.mapSpans, TypeExpr.visit_pure]

theorem StructDecl.visit_pure (d : StructDecl) :
    d.visit (fun s => pure (f s)) = (pure (d.mapSpans f) : m StructDecl) := by
  simp [StructDecl.visit, StructDecl.mapSpans, mapM_eq_pure (Attribute.visit_pure f),
    mapM_eq_pure (Field.visit_pure f)]

theorem Declaration.visit_pure (d : Declaration) :
    d.visit (fun s => pure (f s)) = (pure (d.mapSpans f) : m Declaration) := by
  cases d <;> simp [Declaration.visit, Declaration.mapSpans, FunctionDecl.visit_pure, ConstDecl.visit_pure,
    StructDecl.visit_pure]

/-- A visitor that remembers nothing replaces every span by its answer to it. -/
theorem Program.visit_pure (p : Program) :
    p.visit (fun s => pure (f s)) = (pure (p.mapSpans f) : m Program) := by
  simp [Program.visit, Program.mapSpans, mapM_eq_pure (Declaration.visit_pure f)]

end Stateless

/-! ### Programs up to their spans -/

theorem run_mapM_nextSpan : ∀ {l ss : List Span}, ss.length = l.length → (l.mapM nextSpan).run ss = pure (ss, [])
  | [], [], _ => rfl
  | _ :: _, _ :: _, h => by simp [run_mapM_nextSpan (Nat.succ.inj h)]

theorem length_run_mapM (v : Span → StateM (List Span) Span) : ∀ (l ss : List Span),
    ((l.mapM v).run ss).1.length = l.length
  | [], _ => rfl
  | _ :: l, _ => by
    rw [List.mapM_cons]
    exact congrArg (· + 1) (length_run_mapM v l _)

namespace Program

theorem spans_mapSpans (f : Span → Span) (p : Program) : (p.mapSpans f).spans = p.spans.map f := by
  have h := p.spans_visit (m := Id) fun s => pure (f s)
  rw [visit_pure, List.mapM_pure] at h
  exact h

theorem congruent_mapSpans (f : Span → Span) (p : Program) : p.Congruent (p.mapSpans f) := by
  have h := p.congruent_visit (fun s => (pure (f s) : StateM Unit Span)) ()
  rw [visit_pure] at h
  exact h

namespace Congruent

variable {p q r : Program}

theorem refl (p : Program) : p.Congruent p := (p.congruent_mapSpans id).of_common (p.congruent_mapSpans id)

theorem symm (h : p.Congruent q) : q.Congruent p := (refl q).of_common h

theorem trans (h : p.Congruent q) (k : q.Congruent r) : p.Congruent r := h.of_common k.symm

/-- Given exactly the spans of a congruent program, a program turns into it. -/
theorem refit_nil (h : p.Congruent q) : (p.visit nextSpan).run q.spans = pure (q, []) := by
  simpa using h.refit []

theorem length_spans (h : p.Congruent q) : p.spans.length = q.spans.length := by
  have hlength := length_run_mapM nextSpan p.spans q.spans
  rw [← p.spans_visit nextSpan, StateT.run_map, h.refit_nil] at hlength
  exact hlength.symm

/-- Congruent programs are told apart by their spans. -/
theorem eq_of_spans_eq (hq : p.Congruent q) (hr : p.Congruent r) (h : q.spans = r.spans) : q = r := by
  have hboth := hq.refit_nil
  rw [h, hr.refit_nil] at hboth
  exact (congrArg Prod.fst hboth).symm

end Congruent

/-- Any spans, as long as there are as many as a program has, are those of a congruent program. -/
theorem exists_congruent (p : Program) {ss : List Span} (h : ss.length = p.spans.length) :
    ∃ q, p.Congruent q ∧ q.spans = ss := by
  refine ⟨((p.visit nextSpan).run ss).1, p.congruent_visit nextSpan ss, ?_⟩
  have hspans := congrArg (fun x => (x.run ss).1) (p.spans_visit nextSpan)
  simp only [StateT.run_map, run_mapM_nextSpan h] at hspans
  exact hspans

theorem spans_withoutSpans (p : Program) : p.withoutSpans.spans = List.replicate p.spans.length .zero := by
  rw [withoutSpans, spans_mapSpans, List.map_const']

theorem congruent_withoutSpans (p : Program) : p.Congruent p.withoutSpans := p.congruent_mapSpans _

theorem withoutSpans_withoutSpans (p : Program) : p.withoutSpans.withoutSpans = p.withoutSpans := by
  have h := p.congruent_withoutSpans
  refine (h.trans p.withoutSpans.congruent_withoutSpans).eq_of_spans_eq h ?_
  rw [spans_withoutSpans, spans_withoutSpans, List.length_replicate]

/-- Programs have the same rest without their spans exactly if they are congruent. -/
theorem withoutSpans_eq_iff {p q : Program} : p.withoutSpans = q.withoutSpans ↔ p.Congruent q := by
  constructor
  · intro h
    have hp := p.congruent_withoutSpans
    rw [h] at hp
    exact hp.of_common q.congruent_withoutSpans
  · intro h
    refine p.congruent_withoutSpans.eq_of_spans_eq (h.trans q.congruent_withoutSpans) ?_
    rw [spans_withoutSpans, spans_withoutSpans, h.length_spans]

/-- What a visitor is told of a program, and what it can do to it. -/
structure Visited (p : Program) : Prop where
  /-- the visitor is told the spans of the program one after the other, and its answers take their places -/
  order : ∀ {σ : Type} (v : Span → StateM σ Span), spans <$> p.visit v = p.spans.mapM v
  /-- nothing but spans is changed, whatever the visitor answers -/
  frame : ∀ {σ : Type} (v : Span → StateM σ Span) (st : σ), p.Congruent ((p.visit v).run st).1
  /-- these are all spans of the program, and each is told once: there is exactly one program with any others in their
  places -/
  once : ∀ ss : List Span, ss.length = p.spans.length → ∃! q, p.Congruent q ∧ q.spans = ss

/-- What is left of a program when its spans are reset. -/
structure Erased (p : Program) : Prop where
  /-- the spans are reset by a visitor that always gives the same answer -/
  visit : p.visit (fun _ => pure .zero) = (pure p.withoutSpans : Id Program)
  zero : ∀ s ∈ p.withoutSpans.spans, s = .zero
  frame : p.Congruent p.withoutSpans
  again : p.withoutSpans.withoutSpans = p.withoutSpans

theorem visited (p : Program) : p.Visited where
  order := p.spans_visit
  frame := p.congruent_visit
  once ss h := by
    obtain ⟨q, hq, hspans⟩ := p.exists_congruent h
    exact ⟨q, ⟨hq, hspans⟩, fun r hr => hr.1.eq_of_spans_eq hq (hr.2.trans hspans.symm)⟩

theorem erased (p : Program) : p.Erased where
  visit := p.visit_pure _
  zero s hs := by
    rw [spans_withoutSpans] at hs
    exact List.eq_of_mem_replicate hs
  frame := p.congruent_withoutSpans
  again := p.withoutSpans_withoutSpans

/-- Visitors are told every span of a program exactly once and change nothing else; so resetting the spans of two
programs leaves the same exactly if they are the same but for their spans. -/
theorem withoutSpans_of_visit (p q : Program) :
    p.Visited ∧ p.Erased ∧ (p.withoutSpans = q.withoutSpans ↔ p.Congruent q) :=
  ⟨p.visited, p.erased, withoutSpans_eq_iff⟩

end Program

end ElleFrontEnd
