import ElleFrontEnd.Layout.Program
import ElleFrontEnd.Proofs.TwinGrammar
import ElleFrontEnd.Tree.Spans

/-!
# Printing does not look at stretches

A tree is printed in the same way wherever its parts stood in a source.  So programs that are equal up to their
stretches have the same printed form (`Program.print_eq_of_withoutSpans_eq`).
-/

namespace ElleFrontEnd

open Fragment

variable (f : Span → Span)

/-! ### Types and parameters -/

mutual

@[simp] theorem TypeExpr.layout_mapSpans : (t : TypeExpr) → (t.mapSpans f).layout = t.layout
  | .primitive _ _ | .named _ _ => rfl
  | .array _ element _ => by simp only [TypeExpr.mapSpans, TypeExpr.layout, element.layout_mapSpans]
  | .pointer _ base _ => by simp only [TypeExpr.mapSpans, TypeExpr.layout, base.layout_mapSpans]
  | .generic _ _ args => by simp only [TypeExpr.mapSpans, TypeExpr.layout, typeListLayout_mapSpans args]
  | .tuple _ first second => by simp only [TypeExpr.mapSpans, TypeExpr.layout, first.layout_mapSpans,
    second.layout_mapSpans]

@[simp] theorem typeListLayout_mapSpans : (ts : List TypeExpr) →
    typeListLayout (typeListMapSpans f ts) = typeListLayout ts
  | [] => rfl
  | t :: ts => by simp only [typeListMapSpans, typeListLayout, t.layout_mapSpans, typeListLayout_mapSpans ts]

end

@[simp] theorem optTypeArgsLayout_mapSpans (generics : Option (List TypeExpr)) :
    optTypeArgsLayout (generics.map (typeListMapSpans f)) = optTypeArgsLayout generics := by
  cases generics <;> simp [optTypeArgsLayout]

@[simp] theorem Param.layout_mapSpans (p : Param) : (p.mapSpans f).layout = p.layout := by
  rcases p with _ | _ | ⟨_, _ | _⟩ | _ <;> simp [mapSpans, layout]

@[simp] theorem ParamList.layout_mapSpans (list : ParamList) : (list.mapSpans f).layout = list.layout := by
  simp [mapSpans, layout, Function.comp_def]

/-! ### What printing asks of an expression -/

namespace Expr

theorem mapSpans_conditional (s : Span) (condition : Expr) (consequence : Option Expr) (alternative : Expr) :
    (conditional s condition consequence alternative).mapSpans f =
      conditional (f s) (condition.mapSpans f) (consequence.map (mapSpans f)) (alternative.mapSpans f) := by
  cases consequence <;> rfl

theorem mapSpans_sigil (s : Span) (n : String) (args : Option (List Expr)) :
    (sigil s n args).mapSpans f = sigil (f s) n (args.map (exprListMapSpans f)) := by
  cases args <;> rfl

@[simp] theorem level_mapSpans (e : Expr) : (e.mapSpans f).level = e.level := by
  cases e <;> first | rfl | rw [mapSpans_conditional]; rfl | rw [mapSpans_sigil]; rfl

@[simp] theorem endsInBody_mapSpans (e : Expr) : (e.mapSpans f).endsInBody = e.endsInBody := by
  cases e <;> first | rfl | rw [mapSpans_conditional]; rfl | rw [mapSpans_sigil]; rfl

@[simp] theorem isParen_mapSpans (e : Expr) : (e.mapSpans f).isParen = e.isParen := by
  cases e <;> first | rfl | rw [mapSpans_conditional]; rfl | rw [mapSpans_sigil]; rfl

@[simp] theorem opensAmbiguously_mapSpans (e : Expr) : (e.mapSpans f).opensAmbiguously = e.opensAmbiguously := by
  induction e using opensAmbiguously.induct with
  | case6 e _ _ hcall _ _ =>
    cases e with
    | call => exact absurd rfl (hcall _ _ _ _)
    | _ => simp_all [mapSpans, mapSpans_conditional, mapSpans_sigil, opensAmbiguously]
  | _ => simp_all [mapSpans, opensAmbiguously]

end Expr

@[simp] theorem grouped_mapSpans (level : Nat) (openRight : Bool) (e : Expr) :
    grouped level openRight (e.mapSpans f) = grouped level openRight e := by
  funext inner
  simp [grouped, Expr.needsGroup]

@[simp] theorem unarySpace_mapSpans (op : UnaryOp) (e : Expr) : unarySpace op (e.mapSpans f) = unarySpace op e := by
  cases e <;> first | rfl | rw [Expr.mapSpans_conditional]; rfl | rw [Expr.mapSpans_sigil]; rfl

@[simp] theorem calleeSpace_mapSpans (e : Expr) : calleeSpace (e.mapSpans f) = calleeSpace e := by
  cases e with
  | conditional => rw [Expr.mapSpans_conditional]; rfl
  | sigil _ _ args => cases args <;> rfl
  | _ => rfl

@[simp] theorem headerLayout_mapSpans (e : Expr) (inner : List Fragment) :
    headerLayout (e.mapSpans f) inner = headerLayout e inner := by
  simp [headerLayout]

@[simp] theorem bindingLayout_mapSpans (binding : Binding) (type : Option TypeExpr) (n : String)
    (init : Option (List Fragment)) :
    bindingLayout binding (type.map (TypeExpr.mapSpans f)) n init = bindingLayout binding type n init := by
  cases binding <;> cases type <;> cases init <;> simp [bindingLayout]

/-! ### Expressions and statements -/

mutual

@[simp] theorem Expr.layout_mapSpans (depth : Nat) : (e : Expr) → (openRight : Bool) →
    (e.mapSpans f).layout depth openRight = e.layout depth openRight
  | .binary _ left _ right, _ => by
    simp [Expr.mapSpans, Expr.layout, left.layout_mapSpans depth, right.layout_mapSpans depth]
  | .range _ start stop _, _ => by
    simp [Expr.mapSpans, Expr.layout, start.layout_mapSpans depth, stop.layout_mapSpans depth]
  | .unary _ _ operand, _ => by simp [Expr.mapSpans, Expr.layout, operand.layout_mapSpans depth]
  | .cast _ _ operand, _ => by
    simp [Expr.mapSpans, Expr.layout, TypeExpr.isNamed_mapSpans, operand.layout_mapSpans depth]
  | .call _ callee _ args, _ => by
    simp [Expr.mapSpans, Expr.layout, callee.layout_mapSpans depth, exprListLayout_mapSpans depth args]
  | .member _ object _, _ => by simp [Expr.mapSpans, Expr.layout, object.layout_mapSpans depth]
  | .subscript _ object index, _ => by
    simp [Expr.mapSpans, Expr.layout, object.layout_mapSpans depth, index.layout_mapSpans depth]
  | .conditional _ condition none alternative, _ => by
    simp [Expr.mapSpans, Expr.layout, condition.layout_mapSpans depth, alternative.layout_mapSpans depth]
  | .conditional _ condition (some chosen) alternative, _ => by
    simp [Expr.mapSpans, Expr.layout, condition.layout_mapSpans depth, chosen.layout_mapSpans depth,
      alternative.layout_mapSpans depth]
  | .paren _ inner, _ => by simp [Expr.mapSpans, Expr.layout, inner.layout_mapSpans depth]
  | .ident _ _, _ | .qualified _ _, _ | .rawName _ _, _ | .number _ _, _ | .str _ _, _ | .bool _ _, _
  | .char _ _, _ => rfl
  | .array _ none _ elements, _ => by
    simp [Expr.mapSpans, Expr.layout, exprListLayout_mapSpans depth elements]
  | .array _ (some t) _ elements, _ => by
    have hempty : (exprListMapSpans f elements).isEmpty = elements.isEmpty := by cases elements <;> rfl
    simp [Expr.mapSpans, Expr.layout, exprListLayout_mapSpans depth elements, hempty]
  | .tuple _ first second, _ => by
    simp [Expr.mapSpans, Expr.layout, first.layout_mapSpans depth, second.layout_mapSpans depth]
  | .triple _ first second third, _ => by
    simp [Expr.mapSpans, Expr.layout, first.layout_mapSpans depth, second.layout_mapSpans depth,
      third.layout_mapSpans depth]
  | .structLit _ _ _ fields, _ => by
    have hempty : (fieldInitListMapSpans f fields).isEmpty = fields.isEmpty := by rcases fields with _ | ⟨⟨⟩, _⟩ <;> rfl
    simp [Expr.mapSpans, Expr.layout, fieldInitListLayout_mapSpans depth fields, hempty]
  | .lambda _ _ body, _ => by simp [Expr.mapSpans, Expr.layout, body.layout_mapSpans depth]
  | .blockLambda _ _ body, _ => by simp [Expr.mapSpans, Expr.layout, body.layout_mapSpans depth]
  | .directive _ d, _ => by simp [Expr.mapSpans, Expr.layout, d.layout_mapSpans depth]
  | .sigil _ _ none, _ => rfl
  | .sigil _ _ (some args), _ => by simp [Expr.mapSpans, Expr.layout, exprListLayout_mapSpans depth args]

@[simp] theorem exprListLayout_mapSpans (depth : Nat) : (es : List Expr) →
    exprListLayout depth (exprListMapSpans f es) = exprListLayout depth es
  | [] => rfl
  | e :: es => by
    simp [exprListMapSpans, exprListLayout, e.layout_mapSpans depth, exprListLayout_mapSpans depth es]

@[simp] theorem fieldInitListLayout_mapSpans (depth : Nat) : (fields : List FieldInit) →
    fieldInitListLayout depth (fieldInitListMapSpans f fields) = fieldInitListLayout depth fields
  | [] => rfl
  | .mk _ _ value :: fields => by
    simp [fieldInitListMapSpans, fieldInitListLayout, value.layout_mapSpans depth,
      fieldInitListLayout_mapSpans depth fields]

@[simp] theorem Directive.layout_mapSpans (depth : Nat) : (d : Directive) →
    (d.mapSpans f).layout depth = d.layout depth
  | .len value | .free value | .setAllocator value => by
    simp [Directive.mapSpans, Directive.layout, value.layout_mapSpans depth]
  | .ident _ | .env | .resetAllocator => rfl
  | .size _ | .alloc _ none => by simp [Directive.mapSpans, Directive.layout]
  | .alloc _ (some count) => by simp [Directive.mapSpans, Directive.layout, count.layout_mapSpans depth]
  | .realloc pointer _ none => by simp [Directive.mapSpans, Directive.layout, pointer.layout_mapSpans depth]
  | .realloc pointer _ (some count) => by
    simp [Directive.mapSpans, Directive.layout, pointer.layout_mapSpans depth, count.layout_mapSpans depth]

@[simp] theorem Block.layout_mapSpans (depth : Nat) : (b : Block) → (b.mapSpans f).layout depth = b.layout depth
  | .mk _ statements => by simp [Block.mapSpans, Block.layout, stmtListLayout_mapSpans (depth + 1) statements]

@[simp] theorem stmtListLayout_mapSpans (depth : Nat) : (ss : List Stmt) →
    stmtListLayout depth (stmtListMapSpans f ss) = stmtListLayout depth ss
  | [] => rfl
  | s :: ss => by
    simp [stmtListMapSpans, stmtListLayout, s.layout_mapSpans depth, stmtListLayout_mapSpans depth ss]

@[simp] theorem Stmt.layout_mapSpans (depth : Nat) : (s : Stmt) → (s.mapSpans f).layout depth = s.layout depth
  | .expr _ value | .defer _ value => by simp [Stmt.mapSpans, Stmt.layout, value.layout_mapSpans depth]
  | .varDecl _ _ _ _ none => by simp [Stmt.mapSpans, Stmt.layout]
  | .varDecl _ _ _ _ (some init) => by simp [Stmt.mapSpans, Stmt.layout, init.layout_mapSpans depth]
  | .assign _ target _ value => by
    simp [Stmt.mapSpans, Stmt.layout, target.layout_mapSpans depth, value.layout_mapSpans depth]
  | .ifElse _ condition body otherwise => by
    simp [Stmt.mapSpans, Stmt.layout, condition.layout_mapSpans depth, body.layout_mapSpans depth,
      otherwise.layout_mapSpans depth]
  | .whileLoop _ condition body => by
    simp [Stmt.mapSpans, Stmt.layout, condition.layout_mapSpans depth, body.layout_mapSpans depth]
  | .forLoop _ init condition step body => by
    simp [Stmt.mapSpans, Stmt.layout, init.layout_mapSpans depth, condition.layout_mapSpans depth,
      step.layout_mapSpans depth, body.layout_mapSpans depth]
  | .forEach _ _ iterable body => by
    simp [Stmt.mapSpans, Stmt.layout, iterable.layout_mapSpans depth, body.layout_mapSpans depth]
  | .returnValue _ none | .breakLoop _ | .continueLoop _ => rfl
  | .returnValue _ (some value) => by simp [Stmt.mapSpans, Stmt.layout, value.layout_mapSpans depth]
  | .block _ statements => by simp [Stmt.mapSpans, Stmt.layout, stmtListLayout_mapSpans (depth + 1) statements]
  | .buffer _ _ _ size => by simp [Stmt.mapSpans, Stmt.layout, size.layout_mapSpans depth]

@[simp] theorem Else.layout_mapSpans (depth : Nat) : (o : Else) → (o.mapSpans f).layout depth = o.layout depth
  | .absent => rfl
  | .block body => by simp [Else.mapSpans, Else.layout, body.layout_mapSpans depth]
  | .elseIf _ condition body otherwise => by
    simp [Else.mapSpans, Else.layout, condition.layout_mapSpans depth, body.layout_mapSpans depth,
      otherwise.layout_mapSpans depth]

@[simp] theorem ForInit.layout_mapSpans (depth : Nat) : (i : ForInit) → (i.mapSpans f).layout depth = i.layout depth
  | .varDecl _ _ _ _ none => by simp [ForInit.mapSpans, ForInit.layout]
  | .varDecl _ _ _ _ (some init) => by simp [ForInit.mapSpans, ForInit.layout, init.layout_mapSpans depth]
  | .expr value => by simp [ForInit.mapSpans, ForInit.layout, value.layout_mapSpans depth]

@[simp] theorem ForStep.layout_mapSpans (depth : Nat) : (s : ForStep) → (s.mapSpans f).layout depth = s.layout depth
  | .assign _ target _ value => by
    simp [ForStep.mapSpans, ForStep.layout, target.layout_mapSpans depth, value.layout_mapSpans depth]
  | .expr value => by simp [ForStep.mapSpans, ForStep.layout, value.layout_mapSpans depth]

end

/-! ### Programs -/

@[simp] theorem DeclName.layout_mapSpans (n : DeclName) : (n.mapSpans f).layout = n.layout := by
  cases n <;> rfl

@[simp] theorem Attribute.layout_mapSpans (depth : Nat) (a : Attribute) :
    (a.mapSpans f).layout depth = a.layout depth := by
  rcases a with ⟨_, _, _ | _⟩ <;> simp [mapSpans, layout]

theorem FunctionDecl.layout_mapSpans (depth : Nat) (d : FunctionDecl) :
    (d.mapSpans f).layout depth = d.layout depth := by
  rcases d with ⟨_, _, _, _, _, _ | _, _ | _⟩ <;> simp [mapSpans, layout, List.flatMap_map]

theorem ConstDecl.layout_mapSpans (depth : Nat) (d : ConstDecl) : (d.mapSpans f).layout depth = d.layout depth := by
  rcases d with ⟨_, _ | _, _, _⟩ <;> simp [mapSpans, layout]

theorem StructDecl.layout_mapSpans (depth : Nat) (d : StructDecl) :
    (d.mapSpans f).layout depth = d.layout depth := by
  have hfield : Field.layout ∘ Field.mapSpans f = Field.layout := by
    funext field
    simp [Field.mapSpans, Field.layout]
  simp [mapSpans, layout, List.flatMap_map, hfield]

@[simp] theorem Declaration.layout_mapSpans (d : Declaration) : (d.mapSpans f).layout = d.layout := by
  cases d with
  | importModule | globalOptions | moduleName => rfl
  | function _ decl | externalFunction _ decl => exact decl.layout_mapSpans f 0
  | constant _ decl => exact decl.layout_mapSpans f 0
  | struct _ decl => exact decl.layout_mapSpans f 0

@[simp] theorem blankLinesBetween_mapSpans (blankLines : Nat) (d d' : Declaration) :
    blankLinesBetween blankLines (d.mapSpans f) (d'.mapSpans f) = blankLinesBetween blankLines d d' := by
  cases d <;> cases d' <;> rfl

theorem Program.layout_mapSpans (blankLines : Nat) (p : Program) :
    (p.mapSpans f).layout blankLines = p.layout blankLines := by
  have hlater (d : Declaration) (ds : List Declaration) :
      laterDeclarations blankLines (d.mapSpans f) (ds.map (Declaration.mapSpans f)) =
        laterDeclarations blankLines d ds := by
    induction ds generalizing d with
    | nil => rfl
    | cons d' ds ih => simp [laterDeclarations, ih]
  rcases p with ⟨_ | ⟨d, ds⟩⟩
  · rfl
  · simp [mapSpans, layout, declarationsLayout, hlater]

/-- Programs that are equal up to their stretches are printed in the same way. -/
theorem Program.print_eq_of_withoutSpans_eq {p p' : Program} (h : p'.withoutSpans = p.withoutSpans)
    (config : LayoutConfig) : p'.print config = p.print config := by
  unfold print
  rw [← p'.layout_mapSpans fun _ => .zero, ← p.layout_mapSpans fun _ => .zero]
  exact congrArg (fun q => render config.indent (q.layout config.blankLines)) h

end ElleFrontEnd
