import ElleFrontEnd.Proofs.Congruent
import ElleFrontEnd.Tree.Visit
import Mathlib.Data.List.Basic

/-!
# What a visitor sees and leaves behind

A visitor is told the spans of a tree one after the other, each once, and its answers are the spans of the tree that it
leaves behind (`Program.spans_visit`).  Whatever it answers, that tree is congruent to the one that was visited
(`Program.congruent_visit`).
-/

namespace ElleFrontEnd

/-! ### Each span once and in order -/

section Order

variable {m : Type → Type} [Monad m] [LawfulMonad m] (v : Span → m Span)

/-- Lists are visited in the order of what they hold. -/
theorem flatMap_mapM {α : Type} {f : α → m α} {spans : α → List Span} (h : ∀ a, spans <$> f a = (spans a).mapM v)
    (l : List α) : List.flatMap spans <$> l.mapM f = (l.flatMap spans).mapM v := by
  induction l with
  | nil => simp
  | cons a l ih => simp [← h, ← ih]

mutual

theorem TypeExpr.spans_visit : (t : TypeExpr) → TypeExpr.spans <$> t.visit v = t.spans.mapM v
  | .primitive _ _ | .named _ _ => by simp [TypeExpr.visit, TypeExpr.spans]
  | .array _ element _ => by simp [TypeExpr.visit, TypeExpr.spans, ← element.spans_visit]
  | .pointer _ base _ => by simp [TypeExpr.visit, TypeExpr.spans, ← base.spans_visit]
  | .generic _ _ args => by simp [TypeExpr.visit, TypeExpr.spans, ← typeListSpans_visit args]
  | .tuple _ first second => by
    simp [TypeExpr.visit, TypeExpr.spans, ← first.spans_visit, ← second.spans_visit]

theorem typeListSpans_visit : (ts : List TypeExpr) →
    typeListSpans <$> typeListVisit v ts = (typeListSpans ts).mapM v
  | [] => by simp [typeListVisit, typeListSpans]
  | t :: ts => by simp [typeListVisit, typeListSpans, ← t.spans_visit, ← typeListSpans_visit ts]

end

theorem optTypeSpans_visit : (t : Option TypeExpr) → optTypeSpans <$> optTypeVisit v t = (optTypeSpans t).mapM v
  | none => by simp [optTypeVisit, optTypeSpans]
  | some t => by simp [optTypeVisit, optTypeSpans, ← t.spans_visit]

theorem optTypeListSpans_visit : (ts : Option (List TypeExpr)) →
    optTypeListSpans <$> optTypeListVisit v ts = (optTypeListSpans ts).mapM v
  | none => by simp [optTypeListVisit, optTypeListSpans]
  | some ts => by simp [optTypeListVisit, optTypeListSpans, ← typeListSpans_visit]

theorem Param.spans_visit : (p : Param) → Param.spans <$> p.visit v = p.spans.mapM v
  | .named _ type _ | .unnamed _ type | .noFormat _ type _ => by
    simp [Param.visit, Param.spans, ← type.spans_visit]
  | .variadic _ _ => by simp [Param.visit, Param.spans]

theorem ParamList.spans_visit (list : ParamList) : ParamList.spans <$> list.visit v = list.spans.mapM v := by
  simp [ParamList.visit, ParamList.spans, ← flatMap_mapM v (Param.spans_visit v)]

mutual

theorem Expr.spans_visit : (e : Expr) → Expr.spans <$> e.visit v = e.spans.mapM v
  | .binary _ left _ right => by simp [Expr.visit, Expr.spans, ← left.spans_visit, ← right.spans_visit]
  | .unary _ _ operand => by simp [Expr.visit, Expr.spans, ← operand.spans_visit]
  | .call _ callee generics args => by
    simp [Expr.visit, Expr.spans, ← callee.spans_visit, ← optTypeListSpans_visit, ← exprListSpans_visit args]
  | .member _ object _ => by simp [Expr.visit, Expr.spans, ← object.spans_visit]
  | .subscript _ object index => by simp [Expr.visit, Expr.spans, ← object.spans_visit, ← index.spans_visit]
  | .conditional _ condition none alternative => by
    simp [Expr.visit, Expr.spans, ← condition.spans_visit, ← alternative.spans_visit]
  | .conditional _ condition (some consequence) alternative => by
    simp [Expr.visit, Expr.spans, ← condition.spans_visit, ← consequence.spans_visit, ← alternative.spans_visit]
  | .cast _ type operand => by simp [Expr.visit, Expr.spans, ← type.spans_visit, ← operand.spans_visit]
  | .paren _ inner => by simp [Expr.visit, Expr.spans, ← inner.spans_visit]
  | .ident _ _ | .qualified _ _ | .rawName _ _ | .number _ _ | .str _ _ | .bool _ _ | .char _ _ => by
    simp [Expr.visit, Expr.spans]
  | .array _ element _ elements => by
    simp [Expr.visit, Expr.spans, ← optTypeSpans_visit, ← exprListSpans_visit elements]
  | .tuple _ first second => by simp [Expr.visit, Expr.spans, ← first.spans_visit, ← second.spans_visit]
  | .triple _ first second third => by
    simp [Expr.visit, Expr.spans, ← first.spans_visit, ← second.spans_visit, ← third.spans_visit]
  | .structLit _ _ generics fields => by
    simp [Expr.visit, Expr.spans, ← optTypeListSpans_visit, ← fieldInitListSpans_visit fields]
  | .lambda _ params body => by simp [Expr.visit, Expr.spans, ← params.spans_visit, ← body.spans_visit]
  | .blockLambda _ params body => by simp [Expr.visit, Expr.spans, ← params.spans_visit, ← body.spans_visit]
  | .range _ start stop _ => by simp [Expr.visit, Expr.spans, ← start.spans_visit, ← stop.spans_visit]
  | .directive _ directive => by simp [Expr.visit, Expr.spans, ← directive.spans_visit]
  | .sigil _ _ none => by simp [Expr.visit, Expr.spans]
  | .sigil _ _ (some args) => by simp [Expr.visit, Expr.spans, ← exprListSpans_visit args]

theorem exprListSpans_visit : (es : List Expr) → exprListSpans <$> exprListVisit v es = (exprListSpans es).mapM v
  | [] => by simp [exprListVisit, exprListSpans]
  | e :: es => by simp [exprListVisit, exprListSpans, ← e.spans_visit, ← exprListSpans_visit es]

theorem fieldInitListSpans_visit : (fields : List FieldInit) →
    fieldInitListSpans <$> fieldInitListVisit v fields = (fieldInitListSpans fields).mapM v
  | [] => by simp [fieldInitListVisit, fieldInitListSpans]
  | .mk _ _ value :: fields => by
    simp [fieldInitListVisit, fieldInitListSpans, ← value.spans_visit, ← fieldInitListSpans_visit fields]

theorem Directive.spans_visit : (d : Directive) → Directive.spans <$> d.visit v = d.spans.mapM v
  | .len value | .free value | .setAllocator value => by simp [Directive.visit, Directive.spans, ← value.spans_visit]
  | .size type => by simp [Directive.visit, Directive.spans, ← type.spans_visit]
  | .ident _ | .env | .resetAllocator => by simp [Directive.visit, Directive.spans]
  | .alloc type none => by simp [Directive.visit, Directive.spans, ← type.spans_visit]
  | .alloc type (some count) => by
    simp [Directive.visit, Directive.spans, ← type.spans_visit, ← count.spans_visit]
  | .realloc pointer type none => by
    simp [Directive.visit, Directive.spans, ← pointer.spans_visit, ← type.spans_visit]
  | .realloc pointer type (some count) => by
    simp [Directive.visit, Directive.spans, ← pointer.spans_visit, ← type.spans_visit, ← count.spans_visit]

theorem Block.spans_visit : (b : Block) → Block.spans <$> b.visit v = b.spans.mapM v
  | .mk _ statements => by simp [Block.visit, Block.spans, ← stmtListSpans_visit statements]

theorem stmtListSpans_visit : (ss : List Stmt) → stmtListSpans <$> stmtListVisit v ss = (stmtListSpans ss).mapM v
  | [] => by simp [stmtListVisit, stmtListSpans]
  | s :: ss => by simp [stmtListVisit, stmtListSpans, ← s.spans_visit, ← stmtListSpans_visit ss]

theorem Stmt.spans_visit : (s : Stmt) → Stmt.spans <$> s.visit v = s.spans.mapM v
  | .expr _ value | .defer _ value => by simp [Stmt.visit, Stmt.spans, ← value.spans_visit]
  | .varDecl _ _ type _ none => by simp [Stmt.visit, Stmt.spans, ← optTypeSpans_visit]
  | .varDecl _ _ type _ (some init) => by simp [Stmt.visit, Stmt.spans, ← optTypeSpans_visit, ← init.spans_visit]
  | .assign _ target _ value => by simp [Stmt.visit, Stmt.spans, ← target.spans_visit, ← value.spans_visit]
  | .ifElse _ condition body otherwise => by
    simp [Stmt.visit, Stmt.spans, ← condition.spans_visit, ← body.spans_visit, ← otherwise.spans_visit]
  | .whileLoop _ condition body => by simp [Stmt.visit, Stmt.spans, ← condition.spans_visit, ← body.spans_visit]
  | .forLoop _ init condition step body => by
    simp [Stmt.visit, Stmt.spans, ← init.spans_visit, ← condition.spans_visit, ← step.spans_visit, ← body.spans_visit]
  | .forEach _ _ iterable body => by simp [Stmt.visit, Stmt.spans, ← iterable.spans_visit, ← body.spans_visit]
  | .returnValue _ none | .breakLoop _ | .continueLoop _ => by simp [Stmt.visit, Stmt.spans]
  | .returnValue _ (some value) => by simp [Stmt.visit, Stmt.spans, ← value.spans_visit]
  | .block _ statements => by simp [Stmt.visit, Stmt.spans, ← stmtListSpans_visit statements]
  | .buffer _ type _ size => by simp [Stmt.visit, Stmt.spans, ← type.spans_visit, ← size.spans_visit]

theorem Else.spans_visit : (o : Else) → Else.spans <$> o.visit v = o.spans.mapM v
  | .absent => by simp [Else.visit, Else.spans]
  | .block body => by simp [Else.visit, Else.spans, ← body.spans_visit]
  | .elseIf _ condition body otherwise => by
    simp [Else.visit, Else.spans, ← condition.spans_visit, ← body.spans_visit, ← otherwise.spans_visit]

theorem ForInit.spans_visit : (i : ForInit) → ForInit.spans <$> i.visit v = i.spans.mapM v
  | .varDecl _ _ type _ none => by simp [ForInit.visit, ForInit.spans, ← optTypeSpans_visit]
  | .varDecl _ _ type _ (some init) => by
    simp [ForInit.visit, ForInit.spans, ← optTypeSpans_visit, ← init.spans_visit]
  | .expr value => by simp [ForInit.visit, ForInit.spans, ← value.spans_visit]

theorem ForStep.spans_visit : (s : ForStep) → ForStep.spans <$> s.visit v = s.spans.mapM v
  | .assign _ target _ value => by simp [ForStep.visit, ForStep.spans, ← target.spans_visit, ← value.spans_visit]
  | .expr value => by simp [ForStep.visit, ForStep.spans, ← value.spans_visit]

end

theorem optBlockSpans_visit : (b : Option Block) → optBlockSpans <$> optBlockVisit v b = (optBlockSpans b).mapM v
  | none => by simp [optBlockVisit, optBlockSpans]
  | some b => by simp [optBlockVisit, optBlockSpans, ← b.spans_visit]

theorem DeclName.span_visit (n : DeclName) : DeclName.span <$> n.visit v = v n.span := by
  cases n <;> simp [DeclName.visit, DeclName.span]

theorem Attribute.spans_visit (a : Attribute) : Attribute.spans <$> a.visit v = a.spans.mapM v := by
  rcases a with ⟨_, _, _ | args⟩ <;> simp [Attribute.visit, Attribute.spans, ← exprListSpans_visit]

theorem FunctionDecl.spans_visit (d : FunctionDecl) : FunctionDecl.spans <$> d.visit v = d.spans.mapM v := by
  simp [FunctionDecl.visit, FunctionDecl.spans, ← d.name.span_visit, ← d.params.spans_visit,
    ← flatMap_mapM v (Attribute.spans_visit v), ← optTypeSpans_visit, ← optBlockSpans_visit]

theorem ConstDecl.spans_visit (d : ConstDecl) : ConstDecl.spans <$> d.visit v = d.spans.mapM v := by
  simp [ConstDecl.visit, ConstDecl.spans, ← optTypeSpans_visit, ← d.value.spans_visit]

theorem Field.spans_visit (d : Field) : Field.spans <$> d.visit v = d.spans.mapM v := by
  simp [Field.visit, Field.spans, ← d.type.spans_visit]

theorem StructDecl.spans_visit (d : StructDecl) : StructDecl.spans <$> d.visit v = d.spans.mapM v := by
  simp [StructDecl.visit, StructDecl.spans, ← flatMap_mapM v (Attribute.spans_visit v),
    ← flatMap_mapM v (Field.spans_visit v)]

theorem Declaration.spans_visit : (d : Declaration) → Declaration.spans <$> d.visit v = d.spans.mapM v
  | .importModule _ _ | .globalOptions _ _ | .moduleName _ _ => by simp [Declaration.visit, Declaration.spans]
  | .function _ d | .externalFunction _ d => by simp [Declaration.visit, Declaration.spans, ← d.spans_visit]
  | .constant _ d => by simp [Declaration.visit, Declaration.spans, ← d.spans_visit]
  | .struct _ d => by simp [Declaration.visit, Declaration.spans, ← d.spans_visit]

/-- A visitor is told the spans of a program one after the other, and its answers are the spans of the program that it
leaves behind. -/
theorem Program.spans_visit (p : Program) : Program.spans <$> p.visit v = p.spans.mapM v := by
  simp [Program.visit, Program.spans, ← flatMap_mapM v (Declaration.spans_visit v)]

end Order

/-! ### Nothing but spans -/

section Frame

variable {σ : Type} (v : Span → StateM σ Span)

theorem forall₂_mapM {α : Type} {R : α → α → Prop} {f : α → StateM σ α} (h : ∀ a st, R a ((f a).run st).1) :
    ∀ (l : List α) (st : σ), List.Forall₂ R l ((l.mapM f).run st).1
  | [], _ => .nil
  | a :: l, st => by simpa using .cons (h a st) (forall₂_mapM h l _)

mutual

theorem TypeExpr.congruent_visit : (t : TypeExpr) → (st : σ) → t.Congruent ((t.visit v).run st).1
  | .primitive _ _, _ => .primitive
  | .named _ _, _ => .named
  | .array _ element _, _ => .array (element.congruent_visit _)
  | .pointer _ base _, _ => .pointer (base.congruent_visit _)
  | .generic _ _ args, _ => .generic (typesCongruent_visit args _)
  | .tuple _ first second, _ => .tuple (first.congruent_visit _) (second.congruent_visit _)

theorem typesCongruent_visit : (ts : List TypeExpr) → (st : σ) → TypesCongruent ts ((typeListVisit v ts).run st).1
  | [], _ => .nil
  | t :: ts, _ => .cons (t.congruent_visit _) (typesCongruent_visit ts _)

end

theorem rel_optTypeVisit : (t : Option TypeExpr) → (st : σ) →
    Option.Rel TypeExpr.Congruent t ((optTypeVisit v t).run st).1
  | none, _ => .none
  | some t, _ => .some (t.congruent_visit v _)

theorem rel_optTypeListVisit : (ts : Option (List TypeExpr)) → (st : σ) →
    Option.Rel TypesCongruent ts ((optTypeListVisit v ts).run st).1
  | none, _ => .none
  | some ts, _ => .some (typesCongruent_visit v ts _)

theorem Param.congruent_visit : (p : Param) → (st : σ) → p.Congruent ((p.visit v).run st).1
  | .named _ type _, _ => .named (type.congruent_visit v _)
  | .unnamed _ type, _ => .unnamed (type.congruent_visit v _)
  | .variadic _ _, _ => .variadic
  | .noFormat _ type _, _ => .noFormat (type.congruent_visit v _)

theorem ParamList.congruent_visit (list : ParamList) (st : σ) : list.Congruent ((list.visit v).run st).1 :=
  .mk (forall₂_mapM (Param.congruent_visit v) list.params st)

mutual

theorem Expr.congruent_visit : (e : Expr) → (st : σ) → e.Congruent ((e.visit v).run st).1
  | .binary _ left _ right, _ => .binary (left.congruent_visit _) (right.congruent_visit _)
  | .unary _ _ operand, _ => .unary (operand.congruent_visit _)
  | .call _ callee generics args, _ =>
    .call (callee.congruent_visit _) (rel_optTypeListVisit v generics _) (exprsCongruent_visit args _)
  | .member _ object _, _ => .member (object.congruent_visit _)
  | .subscript _ object index, _ => .subscript (object.congruent_visit _) (index.congruent_visit _)
  | .conditional _ condition none alternative, _ =>
    .orElse (condition.congruent_visit _) (alternative.congruent_visit _)
  | .conditional _ condition (some consequence) alternative, _ =>
    .conditional (condition.congruent_visit _) (consequence.congruent_visit _) (alternative.congruent_visit _)
  | .cast _ type operand, _ => .cast (type.congruent_visit v _) (operand.congruent_visit _)
  | .paren _ inner, _ => .paren (inner.congruent_visit _)
  | .ident _ _, _ => .ident
  | .qualified _ _, _ => .qualified
  | .rawName _ _, _ => .rawName
  | .number _ _, _ => .number
  | .str _ _, _ => .str
  | .bool _ _, _ => .bool
  | .char _ _, _ => .char
  | .array _ element _ elements, _ => .array (rel_optTypeVisit v element _) (exprsCongruent_visit elements _)
  | .tuple _ first second, _ => .tuple (first.congruent_visit _) (second.congruent_visit _)
  | .triple _ first second third, _ =>
    .triple (first.congruent_visit _) (second.congruent_visit _) (third.congruent_visit _)
  | .structLit _ _ generics fields, _ =>
    .structLit (rel_optTypeListVisit v generics _) (fieldInitsCongruent_visit fields _)
  | .lambda _ params body, _ => .lambda (params.congruent_visit v _) (body.congruent_visit _)
  | .blockLambda _ params body, _ => .blockLambda (params.congruent_visit v _) (body.congruent_visit _)
  | .range _ start stop _, _ => .range (start.congruent_visit _) (stop.congruent_visit _)
  | .directive _ directive, _ => .directive (directive.congruent_visit _)
  | .sigil _ _ none, _ => .sigil
  | .sigil _ _ (some args), _ => .sigilCall (exprsCongruent_visit args _)

theorem exprsCongruent_visit : (es : List Expr) → (st : σ) → ExprsCongruent es ((exprListVisit v es).run st).1
  | [], _ => .nil
  | e :: es, _ => .cons (e.congruent_visit _) (exprsCongruent_visit es _)

theorem fieldInitsCongruent_visit : (fields : List FieldInit) → (st : σ) →
    FieldInitsCongruent fields ((fieldInitListVisit v fields).run st).1
  | [], _ => .nil
  | .mk _ _ value :: fields, _ => .cons (value.congruent_visit _) (fieldInitsCongruent_visit fields _)

theorem Directive.congruent_visit : (d : Directive) → (st : σ) → d.Congruent ((d.visit v).run st).1
  | .len value, _ => .len (value.congruent_visit _)
  | .size type, _ => .size (type.congruent_visit v _)
  | .ident _, _ => .ident
  | .env, _ => .env
  | .alloc type none, _ => .allocOne (type.congruent_visit v _)
  | .alloc type (some count), _ => .alloc (type.congruent_visit v _) (count.congruent_visit _)
  | .realloc pointer type none, _ => .reallocOne (pointer.congruent_visit _) (type.congruent_visit v _)
  | .realloc pointer type (some count), _ =>
    .realloc (pointer.congruent_visit _) (type.congruent_visit v _) (count.congruent_visit _)
  | .free value, _ => .free (value.congruent_visit _)
  | .setAllocator value, _ => .setAllocator (value.congruent_visit _)
  | .resetAllocator, _ => .resetAllocator

theorem Block.congruent_visit : (b : Block) → (st : σ) → b.Congruent ((b.visit v).run st).1
  | .mk _ statements, _ => .mk (stmtsCongruent_visit statements _)

theorem stmtsCongruent_visit : (ss : List Stmt) → (st : σ) → StmtsCongruent ss ((stmtListVisit v ss).run st).1
  | [], _ => .nil
  | s :: ss, _ => .cons (s.congruent_visit _) (stmtsCongruent_visit ss _)

theorem Stmt.congruent_visit : (s : Stmt) → (st : σ) → s.Congruent ((s.visit v).run st).1
  | .expr _ value, _ => .expr (value.congruent_visit _)
  | .varDecl _ _ type _ none, _ => .varDecl (rel_optTypeVisit v type _)
  | .varDecl _ _ type _ (some init), _ => .varInit (rel_optTypeVisit v type _) (init.congruent_visit _)
  | .assign _ target _ value, _ => .assign (target.congruent_visit _) (value.congruent_visit _)
  | .ifElse _ condition body otherwise, _ =>
    .ifElse (condition.congruent_visit _) (body.congruent_visit _) (otherwise.congruent_visit _)
  | .whileLoop _ condition body, _ => .whileLoop (condition.congruent_visit _) (body.congruent_visit _)
  | .forLoop _ init condition step body, _ =>
    .forLoop (init.congruent_visit _) (condition.congruent_visit _) (step.congruent_visit _) (body.congruent_visit _)
  | .forEach _ _ iterable body, _ => .forEach (iterable.congruent_visit _) (body.congruent_visit _)
  | .defer _ value, _ => .defer (value.congruent_visit _)
  | .returnValue _ none, _ => .returnNone
  | .returnValue _ (some value), _ => .returnValue (value.congruent_visit _)
  | .breakLoop _, _ => .breakLoop
  | .continueLoop _, _ => .continueLoop
  | .block _ statements, _ => .block (stmtsCongruent_visit statements _)
  | .buffer _ type _ size, _ => .buffer (type.congruent_visit v _) (size.congruent_visit _)

theorem Else.congruent_visit : (o : Else) → (st : σ) → o.Congruent ((o.visit v).run st).1
  | .absent, _ => .absent
  | .block body, _ => .block (body.congruent_visit _)
  | .elseIf _ condition body otherwise, _ =>
    .elseIf (condition.congruent_visit _) (body.congruent_visit _) (otherwise.congruent_visit _)

theorem ForInit.congruent_visit : (i : ForInit) → (st : σ) → i.Congruent ((i.visit v).run st).1
  | .varDecl _ _ type _ none, _ => .varDecl (rel_optTypeVisit v type _)
  | .varDecl _ _ type _ (some init), _ => .varInit (rel_optTypeVisit v type _) (init.congruent_visit _)
  | .expr value, _ => .expr (value.congruent_visit _)

theorem ForStep.congruent_visit : (s : ForStep) → (st : σ) → s.Congruent ((s.visit v).run st).1
  | .assign _ target _ value, _ => .assign (target.congruent_visit _) (value.congruent_visit _)
  | .expr value, _ => .expr (value.congruent_visit _)

end

theorem rel_optBlockVisit : (b : Option Block) → (st : σ) →
    Option.Rel Block.Congruent b ((optBlockVisit v b).run st).1
  | none, _ => .none
  | some b, _ => .some (b.congruent_visit v _)

theorem DeclName.congruent_visit : (n : DeclName) → (st : σ) → n.Congruent ((n.visit v).run st).1
  | .plain _ _, _ => .plain
  | .qualified _ _, _ => .qualified
  | .rawName _ _, _ => .rawName

theorem Attribute.congruent_visit : (a : Attribute) → (st : σ) → a.Congruent ((a.visit v).run st).1
  | ⟨_, _, none⟩, _ => .plain
  | ⟨_, _, some args⟩, _ => .call (exprsCongruent_visit v args _)

theorem FunctionDecl.congruent_visit (d : FunctionDecl) (st : σ) : d.Congruent ((d.visit v).run st).1 :=
  .mk (d.name.congruent_visit v _) (d.params.congruent_visit v _)
    (forall₂_mapM (Attribute.congruent_visit v) d.attributes _) (rel_optTypeVisit v d.returnType _)
    (rel_optBlockVisit v d.body _)

theorem ConstDecl.congruent_visit (d : ConstDecl) (st : σ) : d.Congruent ((d.visit v).run st).1 :=
  .mk (rel_optTypeVisit v d.type _) (d.value.congruent_visit v _)

theorem Field.congruent_visit (d : Field) (st : σ) : d.Congruent ((d.visit v).run st).1 :=
  .mk (d.type.congruent_visit v _)

theorem StructDecl.congruent_visit (d : StructDecl) (st : σ) : d.Congruent ((d.visit v).run st).1 :=
  .mk (forall₂_mapM (Attribute.congruent_visit v) d.attributes _) (forall₂_mapM (Field.congruent_visit v) d.fields _)

theorem Declaration.congruent_visit : (d : Declaration) → (st : σ) → d.Congruent ((d.visit v).run st).1
  | .importModule _ _, _ => .importModule
  | .globalOptions _ _, _ => .globalOptions
  | .moduleName _ _, _ => .moduleName
  | .function _ d, _ => .function (d.congruent_visit v _)
  | .externalFunction _ d, _ => .externalFunction (d.congruent_visit v _)
  | .constant _ d, _ => .constant (d.congruent_visit v _)
  | .struct _ d, _ => .struct (d.congruent_visit v _)

/-- Whatever a visitor answers, nothing but spans is changed. -/
theorem Program.congruent_visit (p : Program) (st : σ) : p.Congruent ((p.visit v).run st).1 :=
  .mk (forall₂_mapM (Declaration.congruent_visit v) p.declarations st)

end Frame

end ElleFrontEnd
