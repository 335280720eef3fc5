import ElleFrontEnd.Token.Lexeme
import ElleFrontEnd.Tree.Spans

/-!
# Outlines of trees

The outline of a tree forgets what kind of node stands where.  It keeps the stretch of each node, the words and literals
that the node holds, and the outlines of its parts in source order.  So what is said of the stretches of all nodes is
said of outlines once, and not of each kind of node.  The stretches of an outline, a node before its parts, are those of
the tree (`spans_outlines`).

An outline is laminar where each part stands inside the node that holds it and behind the parts before (`Laminar`).  The
stretches of laminar outlines begin in the order in which they are listed (`sorted_starts`).
-/

namespace ElleFrontEnd

/-- A node with its stretch, the words and literals that it holds, and its parts. -/
inductive Outline
  | node (span : Span) (words : List TokenKind) (parts : List Outline)

namespace Outline

/-- The stretch of a node. -/
def span : Outline → Span
  | .node s _ _ => s

end Outline

mutual

/-- The stretches of an outline, a node before its parts. -/
def Outline.spans : Outline → List Span
  | .node s _ parts => s :: outlinesSpans parts

/-- The stretches of several outlines, one after another. -/
def outlinesSpans : List Outline → List Span
  | [] => []
  | t :: ts => t.spans ++ outlinesSpans ts

end

mutual

/-- The words of an outline, those of a node before those of its parts. -/
def Outline.words : Outline → List TokenKind
  | .node _ words parts => words ++ outlinesWords parts

/-- The words of several outlines, one after another. -/
def outlinesWords : List Outline → List TokenKind
  | [] => []
  | t :: ts => t.words ++ outlinesWords ts

end

@[simp] theorem outlinesSpans_nil : outlinesSpans [] = [] := rfl

@[simp] theorem outlinesSpans_cons (t : Outline) (ts : List Outline) :
    outlinesSpans (t :: ts) = t.spans ++ outlinesSpans ts := rfl

@[simp] theorem outlinesSpans_append (ts us : List Outline) :
    outlinesSpans (ts ++ us) = outlinesSpans ts ++ outlinesSpans us := by
  induction ts with
  | nil => rfl
  | cons t ts ih => rw [List.cons_append, outlinesSpans_cons, outlinesSpans_cons, ih, List.append_assoc]

@[simp] theorem outlinesWords_nil : outlinesWords [] = [] := rfl

@[simp] theorem outlinesWords_cons (t : Outline) (ts : List Outline) :
    outlinesWords (t :: ts) = t.words ++ outlinesWords ts := rfl

@[simp] theorem outlinesWords_append (ts us : List Outline) :
    outlinesWords (ts ++ us) = outlinesWords ts ++ outlinesWords us := by
  induction ts with
  | nil => rfl
  | cons t ts ih => rw [List.cons_append, outlinesWords_cons, outlinesWords_cons, ih, List.append_assoc]

theorem mem_outlinesWords {t : Outline} {ts : List Outline} {k : TokenKind} (ht : t ∈ ts) (hk : k ∈ t.words) :
    k ∈ outlinesWords ts := by
  induction ts with
  | nil => simp at ht
  | cons u ts ih =>
    rw [outlinesWords_cons, List.mem_append]
    rcases List.mem_cons.1 ht with rfl | ht
    · exact .inl hk
    · exact .inr (ih ht)

@[simp] theorem words_node (s : Span) (words : List TokenKind) (parts : List Outline) :
    (Outline.node s words parts).words = words ++ outlinesWords parts := rfl

@[simp] theorem span_node (s : Span) (words : List TokenKind) (parts : List Outline) :
    (Outline.node s words parts).span = s := rfl

@[simp] theorem spans_node (s : Span) (words : List TokenKind) (parts : List Outline) :
    (Outline.node s words parts).spans = s :: outlinesSpans parts := rfl

/-! ### Parts inside nodes -/

/-- Whether outlines stand one behind another between two offsets. -/
structure Standing (lo hi : Nat) (ts : List Outline) : Prop where
  between : ∀ t ∈ ts, lo ≤ t.span.start ∧ t.span.stop ≤ hi
  apart : ts.Pairwise fun t u => t.span.stop ≤ u.span.start

/-- Whether all nodes of an outline have stretches that are not empty and begin and end at offsets of a kind, and the
parts of each stand inside of it, one behind another. -/
inductive Outline.Laminar (Bound : Nat → Prop) : Outline → Prop
  | node {s : Span} {words : List TokenKind} {parts : List Outline} (nonempty : s.start < s.stop)
    (start : Bound s.start) (stop : Bound s.stop) (standing : Standing s.start s.stop parts)
    (laminar : ∀ t ∈ parts, t.Laminar Bound) : (Outline.node s words parts).Laminar Bound

namespace Standing

variable {lo lo' mid mid' hi hi' : Nat} {t : Outline} {ts us : List Outline}

theorem nil (lo hi : Nat) : Standing lo hi [] := ⟨by simp, .nil⟩

theorem singleton (hlo : lo ≤ t.span.start) (hhi : t.span.stop ≤ hi) : Standing lo hi [t] :=
  ⟨by simp [hlo, hhi], List.pairwise_singleton _ _⟩

theorem mono (h : Standing lo hi ts) (hlo : lo' ≤ lo) (hhi : hi ≤ hi') : Standing lo' hi' ts :=
  ⟨fun t ht => ⟨Nat.le_trans hlo (h.between t ht).1, Nat.le_trans (h.between t ht).2 hhi⟩, h.apart⟩

theorem append (ht : Standing lo mid ts) (hu : Standing mid' hi us) (hlo : lo ≤ mid') (hmid : mid ≤ mid')
    (hhi : mid ≤ hi) : Standing lo hi (ts ++ us) := by
  refine ⟨fun t h => ?_, List.pairwise_append.2 ⟨ht.apart, hu.apart, fun t h u h' => ?_⟩⟩
  · rcases List.mem_append.1 h with h | h
    · exact (ht.mono (Nat.le_refl _) hhi).between t h
    · exact (hu.mono hlo (Nat.le_refl _)).between t h
  · exact Nat.le_trans (ht.between t h).2 (Nat.le_trans hmid (hu.between u h').1)

end Standing

namespace Outline.Laminar

variable {Bound : Nat → Prop} {t : Outline}

theorem start_lt_stop (h : t.Laminar Bound) : t.span.start < t.span.stop := by
  cases h with
  | node hlt _ _ _ _ => exact hlt

theorem bound_start (h : t.Laminar Bound) : Bound t.span.start := by
  cases h with
  | node _ hstart _ _ _ => exact hstart

theorem bound_stop (h : t.Laminar Bound) : Bound t.span.stop := by
  cases h with
  | node _ _ hstop _ _ => exact hstop

end Outline.Laminar

/-- Whether stretches lie between two offsets and begin in the order of a list. -/
structure Sorted (lo hi : Nat) (spans : List Span) : Prop where
  between : ∀ s ∈ spans, lo ≤ s.start ∧ s.start < s.stop ∧ s.stop ≤ hi
  ordered : spans.Pairwise fun s u => s.start ≤ u.start

/-- Where the nodes of each outline are sorted, the nodes of outlines one behind another are. -/
theorem sorted_of_standing {lo hi : Nat} {ts : List Outline} (h : Standing lo hi ts)
    (hs : ∀ t ∈ ts, Sorted t.span.start t.span.stop t.spans) : Sorted lo hi (outlinesSpans ts) := by
  induction ts with
  | nil => exact ⟨by simp, .nil⟩
  | cons t ts ih =>
    have hfirst := h.between t List.mem_cons_self
    have ht := hs t List.mem_cons_self
    have hrest := ih ⟨fun u hu => h.between u (List.mem_cons_of_mem _ hu), (List.pairwise_cons.1 h.apart).2⟩
      fun u hu => hs u (List.mem_cons_of_mem _ hu)
    refine ⟨fun s hin => ?_, ?_⟩
    · rw [outlinesSpans_cons, List.mem_append] at hin
      rcases hin with hin | hin
      · have := ht.between s hin
        exact ⟨by omega, by omega, by omega⟩
      · exact hrest.between s hin
    · rw [outlinesSpans_cons, List.pairwise_append]
      refine ⟨ht.ordered, hrest.ordered, fun s hin u hu => ?_⟩
      obtain ⟨t', ht', hu⟩ := exists_of_mem hu
      have := ht.between s hin
      have := (hs t' (List.mem_cons_of_mem _ ht')).between u hu
      have := (List.pairwise_cons.1 h.apart).1 t' ht'
      omega
where
  exists_of_mem {ts : List Outline} {s : Span} (h : s ∈ outlinesSpans ts) : ∃ t ∈ ts, s ∈ t.spans := by
    induction ts with
    | nil => simp at h
    | cons t ts ih =>
      rcases List.mem_append.1 h with h | h
      · exact ⟨t, List.mem_cons_self, h⟩
      · obtain ⟨u, hu, h⟩ := ih h
        exact ⟨u, List.mem_cons_of_mem _ hu, h⟩

/-- In a laminar outline, the nodes begin in the order in which they are listed. -/
theorem Outline.Laminar.sorted {Bound : Nat → Prop} {t : Outline} (h : t.Laminar Bound) :
    Sorted t.span.start t.span.stop t.spans := by
  induction h with
  | @node s words parts hlt _ _ hstanding _ ih =>
    have hparts := sorted_of_standing hstanding ih
    refine ⟨List.forall_mem_cons.2 ⟨⟨Nat.le_refl _, hlt, Nat.le_refl _⟩, hparts.between⟩, ?_⟩
    exact List.pairwise_cons.2 ⟨fun u hu => (hparts.between u hu).1, hparts.ordered⟩

/-- In laminar outlines one behind another, the nodes begin in the order in which they are listed. -/
theorem sorted_starts {Bound : Nat → Prop} {lo hi : Nat} {ts : List Outline} (h : Standing lo hi ts)
    (hl : ∀ t ∈ ts, t.Laminar Bound) : (outlinesSpans ts).Pairwise fun s u => s.start ≤ u.start :=
  (sorted_of_standing h fun t ht => (hl t ht).sorted).ordered

/-! ### Types -/

mutual

/-- The outline of a type. -/
def TypeExpr.outline : TypeExpr → Outline
  | .primitive s _ => .node s [] []
  | .named s name => .node s [.ident name] []
  | .array s element _ => .node s [] [element.outline]
  | .pointer s base _ => .node s [] [base.outline]
  | .generic s name args => .node s [.ident name] (typeListOutlines args)
  | .tuple s first second => .node s [] [first.outline, second.outline]

/-- The outlines of several types. -/
def typeListOutlines : List TypeExpr → List Outline
  | [] => []
  | t :: ts => t.outline :: typeListOutlines ts

end

/-- The outline of a type that may be absent. -/
def optTypeOutlines : Option TypeExpr → List Outline
  | none => []
  | some t => [t.outline]

/-- The outlines of type arguments that may be absent. -/
def optTypeListOutlines : Option (List TypeExpr) → List Outline
  | none => []
  | some ts => typeListOutlines ts

/-- Names as words. -/
def nameWords (names : List String) : List TokenKind := names.map .ident

/-- The outline of a parameter. -/
def Param.outline : Param → Outline
  | .named s type name | .noFormat s type name => .node s [.ident name] [type.outline]
  | .unnamed s type => .node s [] [type.outline]
  | .variadic s name => .node s (nameWords name.toList) []

/-- The outlines of the parameters in a list. -/
def ParamList.outlines (list : ParamList) : List Outline := list.params.map Param.outline

/-- The words in a parameter list that belong to no parameter. -/
def ParamList.words (list : ParamList) : List TokenKind := nameWords list.metaName.toList

/-! ### Expressions and statements -/

/-- The words within a directive that belong to none of its operands. -/
def Directive.words : Directive → List TokenKind
  | .ident name => [.ident name]
  | _ => []

mutual

/-- The outline of an expression. -/
def Expr.outline : Expr → Outline
  | .binary s left _ right => .node s [] [left.outline, right.outline]
  | .unary s _ operand => .node s [] [operand.outline]
  | .call s callee generics args =>
    .node s [] (callee.outline :: (optTypeListOutlines generics ++ exprListOutlines args))
  | .member s object name => .node s [.ident name] [object.outline]
  | .subscript s object index => .node s [] [object.outline, index.outline]
  | .conditional s condition consequence alternative =>
    .node s [] (condition.outline :: (optExprOutlines consequence ++ [alternative.outline]))
  | .cast s type operand => .node s [] [type.outline, operand.outline]
  | .paren s inner => .node s [] [inner.outline]
  | .ident s name => .node s [.ident name] []
  | .qualified s path => .node s (nameWords path) []
  | .rawName s raw => .node s [.rawName raw] []
  | .number s literal => .node s [.number literal] []
  | .str s parts => .node s [.str parts] []
  | .bool s _ => .node s [] []
  | .char s part => .node s [.char part] []
  | .array s element _ elements => .node s [] (optTypeOutlines element ++ exprListOutlines elements)
  | .tuple s first second => .node s [] [first.outline, second.outline]
  | .triple s first second third => .node s [] [first.outline, second.outline, third.outline]
  | .structLit s name generics fields =>
    .node s [.ident name] (optTypeListOutlines generics ++ fieldInitListOutlines fields)
  | .lambda s params body => .node s params.words (params.outlines ++ [body.outline])
  | .blockLambda s params body => .node s params.words (params.outlines ++ [body.outline])
  | .range s start stop _ => .node s [] [start.outline, stop.outline]
  | .directive s directive => .node s directive.words directive.outlines
  | .sigil s name args => .node s [.ident name] (optExprListOutlines args)

/-- The outlines of several expressions. -/
def exprListOutlines : List Expr → List Outline
  | [] => []
  | e :: es => e.outline :: exprListOutlines es

/-- The outline of an expression that may be left out. -/
def optExprOutlines : Option Expr → List Outline
  | none => []
  | some e => [e.outline]

/-- The outlines of arguments that may be left out. -/
def optExprListOutlines : Option (List Expr) → List Outline
  | none => []
  | some es => exprListOutlines es

/-- The outline of a field of a struct literal. -/
def FieldInit.outline : FieldInit → Outline
  | .mk s name value => .node s [.ident name] [value.outline]

/-- The outlines of the fields of a struct literal. -/
def fieldInitListOutlines : List FieldInit → List Outline
  | [] => []
  | f :: fs => f.outline :: fieldInitListOutlines fs

/-- The outlines of the operands of a directive. -/
def Directive.outlines : Directive → List Outline
  | .len value | .free value | .setAllocator value => [value.outline]
  | .size type => [type.outline]
  | .ident _ | .env | .resetAllocator => []
  | .alloc type count => type.outline :: optExprOutlines count
  | .realloc pointer type count => pointer.outline :: type.outline :: optExprOutlines count

/-- The outline of a block. -/
def Block.outline : Block → Outline
  | .mk s statements => .node s [] (stmtListOutlines statements)

/-- The outlines of several statements. -/
def stmtListOutlines : List Stmt → List Outline
  | [] => []
  | s :: ss => s.outline :: stmtListOutlines ss

/-- The outline of a statement. -/
def Stmt.outline : Stmt → Outline
  | .expr s value | .defer s value => .node s [] [value.outline]
  | .varDecl s _ type name init => .node s [.ident name] (optTypeOutlines type ++ optExprOutlines init)
  | .assign s target _ value => .node s [] [target.outline, value.outline]
  | .ifElse s condition body otherwise =>
    .node s [] (condition.outline :: body.outline :: otherwise.outlines)
  | .whileLoop s condition body => .node s [] [condition.outline, body.outline]
  | .forLoop s init condition step body =>
    .node s [] [init.outline, condition.outline, step.outline, body.outline]
  | .forEach s name iterable body => .node s [.ident name] [iterable.outline, body.outline]
  | .returnValue s value => .node s [] (optExprOutlines value)
  | .breakLoop s | .continueLoop s => .node s [] []
  | .block s statements => .node s [] (stmtListOutlines statements)
  | .buffer s type name size => .node s [.ident name] [type.outline, size.outline]

/-- The outline of what follows the block of an `if`. -/
def Else.outlines : Else → List Outline
  | .absent => []
  | .block body => [body.outline]
  | .elseIf s condition body otherwise =>
    [.node s [] (condition.outline :: body.outline :: otherwise.outlines)]

/-- The outline of what a `for` loop starts with. -/
def ForInit.outline : ForInit → Outline
  | .varDecl s _ type name init => .node s [.ident name] (optTypeOutlines type ++ optExprOutlines init)
  | .expr value => value.outline

/-- The outline of what a `for` loop does after each round. -/
def ForStep.outline : ForStep → Outline
  | .assign s target _ value => .node s [] [target.outline, value.outline]
  | .expr value => value.outline

end

/-! ### Declarations -/

/-- The outline of a block that may be absent. -/
def optBlockOutlines : Option Block → List Outline
  | none => []
  | some b => [b.outline]

/-- The outline of a declared name. -/
def DeclName.outline : DeclName → Outline
  | .plain s name => .node s [.ident name] []
  | .qualified s path => .node s (nameWords path) []
  | .rawName s raw => .node s [.rawName raw] []

/-- The outline of an attribute. -/
def Attribute.outline (a : Attribute) : Outline := .node a.span [.ident a.name] (optExprListOutlines a.args)

/-- The outlines of the parts of a function. -/
def FunctionDecl.outlines (f : FunctionDecl) : List Outline :=
  f.name.outline :: (f.params.outlines ++ (f.attributes.map Attribute.outline ++
    (optTypeOutlines f.returnType ++ optBlockOutlines f.body)))

/-- The outlines of the parts of a constant. -/
def ConstDecl.outlines (c : ConstDecl) : List Outline := optTypeOutlines c.type ++ [c.value.outline]

/-- The outline of a field of a struct. -/
def Field.outline (f : Field) : Outline := .node f.span [.ident f.name] [f.type.outline]

/-- The outlines of the parts of a struct. -/
def StructDecl.outlines (d : StructDecl) : List Outline :=
  d.attributes.map Attribute.outline ++ d.fields.map Field.outline

/-- The outline of a declaration. -/
def Declaration.outline : Declaration → Outline
  | .importModule s path => .node s (path.segments.map wordKind) []
  | .globalOptions s _ => .node s [] []
  | .moduleName s name => .node s [.ident name] []
  | .function s decl | .externalFunction s decl =>
    .node s (nameWords decl.generics ++ decl.params.words) decl.outlines
  | .constant s decl => .node s [.ident decl.name] decl.outlines
  | .struct s decl => .node s (nameWords (decl.name :: decl.generics)) decl.outlines

/-- The outlines of the declarations of a program. -/
def Program.outlines (p : Program) : List Outline := p.declarations.map Declaration.outline

/-! ### The stretches of a tree -/

mutual

theorem TypeExpr.spans_outline : (t : TypeExpr) → t.outline.spans = t.spans
  | .primitive _ _ | .named _ _ => rfl
  | .array _ element _ => by simp [TypeExpr.outline, TypeExpr.spans, element.spans_outline]
  | .pointer _ base _ => by simp [TypeExpr.outline, TypeExpr.spans, base.spans_outline]
  | .generic _ _ args => by simp [TypeExpr.outline, TypeExpr.spans, spans_typeListOutlines args]
  | .tuple _ first second => by simp [TypeExpr.outline, TypeExpr.spans, first.spans_outline, second.spans_outline]

theorem spans_typeListOutlines : (ts : List TypeExpr) → outlinesSpans (typeListOutlines ts) = typeListSpans ts
  | [] => rfl
  | t :: ts => by simp [typeListOutlines, typeListSpans, t.spans_outline, spans_typeListOutlines ts]

end

@[simp] theorem spans_optTypeOutlines (type : Option TypeExpr) :
    outlinesSpans (optTypeOutlines type) = optTypeSpans type := by
  cases type <;> simp [optTypeOutlines, optTypeSpans, TypeExpr.spans_outline]

@[simp] theorem spans_optTypeListOutlines (types : Option (List TypeExpr)) :
    outlinesSpans (optTypeListOutlines types) = optTypeListSpans types := by
  cases types <;> simp [optTypeListOutlines, optTypeListSpans, spans_typeListOutlines]

theorem Param.spans_outline (p : Param) : p.outline.spans = p.spans := by
  cases p <;> simp [Param.outline, Param.spans, TypeExpr.spans_outline]

theorem outlinesSpans_map {α : Type} {f : α → Outline} {g : α → List Span} (h : ∀ a, (f a).spans = g a)
    (as : List α) : outlinesSpans (as.map f) = as.flatMap g := by
  induction as with
  | nil => rfl
  | cons a as ih => rw [List.map_cons, outlinesSpans_cons, h, ih, List.flatMap_cons]

@[simp] theorem ParamList.spans_outlines (list : ParamList) : outlinesSpans list.outlines = list.spans :=
  outlinesSpans_map Param.spans_outline list.params

mutual

theorem Expr.spans_outline : (e : Expr) → e.outline.spans = e.spans
  | .binary _ left _ right => by simp [Expr.outline, Expr.spans, left.spans_outline, right.spans_outline]
  | .unary _ _ operand => by simp [Expr.outline, Expr.spans, operand.spans_outline]
  | .call _ callee generics args => by
    simp [Expr.outline, Expr.spans, callee.spans_outline, spans_exprListOutlines args]
  | .member _ object _ => by simp [Expr.outline, Expr.spans, object.spans_outline]
  | .subscript _ object index => by simp [Expr.outline, Expr.spans, object.spans_outline, index.spans_outline]
  | .conditional _ condition none alternative => by
    simp [Expr.outline, Expr.spans, optExprOutlines, condition.spans_outline, alternative.spans_outline]
  | .conditional _ condition (some consequence) alternative => by
    simp [Expr.outline, Expr.spans, optExprOutlines, condition.spans_outline, consequence.spans_outline,
      alternative.spans_outline]
  | .cast _ type operand => by simp [Expr.outline, Expr.spans, type.spans_outline, operand.spans_outline]
  | .paren _ inner => by simp [Expr.outline, Expr.spans, inner.spans_outline]
  | .ident _ _ | .qualified _ _ | .rawName _ _ | .number _ _ | .str _ _ | .bool _ _ | .char _ _ => rfl
  | .array _ element _ elements => by simp [Expr.outline, Expr.spans, spans_exprListOutlines elements]
  | .tuple _ first second => by simp [Expr.outline, Expr.spans, first.spans_outline, second.spans_outline]
  | .triple _ first second third => by
    simp [Expr.outline, Expr.spans, first.spans_outline, second.spans_outline, third.spans_outline]
  | .structLit _ _ generics fields => by simp [Expr.outline, Expr.spans, spans_fieldInitListOutlines fields]
  | .lambda _ params body => by simp [Expr.outline, Expr.spans, body.spans_outline]
  | .blockLambda _ params body => by simp [Expr.outline, Expr.spans, body.spans_outline]
  | .range _ start stop _ => by simp [Expr.outline, Expr.spans, start.spans_outline, stop.spans_outline]
  | .directive _ directive => by simp [Expr.outline, Expr.spans, directive.spans_outlines]
  | .sigil _ _ none => rfl
  | .sigil _ _ (some args) => by simp [Expr.outline, Expr.spans, optExprListOutlines, spans_exprListOutlines args]

theorem spans_exprListOutlines : (es : List Expr) → outlinesSpans (exprListOutlines es) = exprListSpans es
  | [] => rfl
  | e :: es => by simp [exprListOutlines, exprListSpans, e.spans_outline, spans_exprListOutlines es]

theorem spans_fieldInitListOutlines :
    (fs : List FieldInit) → outlinesSpans (fieldInitListOutlines fs) = fieldInitListSpans fs
  | [] => rfl
  | .mk _ _ value :: fs => by
    simp [fieldInitListOutlines, FieldInit.outline, fieldInitListSpans, value.spans_outline,
      spans_fieldInitListOutlines fs]

theorem Directive.spans_outlines : (d : Directive) → outlinesSpans d.outlines = d.spans
  | .len value | .free value | .setAllocator value => by simp [Directive.outlines, Directive.spans, value.spans_outline]
  | .size type => by simp [Directive.outlines, Directive.spans, type.spans_outline]
  | .ident _ | .env | .resetAllocator => rfl
  | .alloc type none => by simp [Directive.outlines, Directive.spans, optExprOutlines, type.spans_outline]
  | .alloc type (some count) => by
    simp [Directive.outlines, Directive.spans, optExprOutlines, type.spans_outline, count.spans_outline]
  | .realloc pointer type none => by
    simp [Directive.outlines, Directive.spans, optExprOutlines, pointer.spans_outline, type.spans_outline]
  | .realloc pointer type (some count) => by
    simp [Directive.outlines, Directive.spans, optExprOutlines, pointer.spans_outline, type.spans_outline,
      count.spans_outline]

theorem Block.spans_outline : (b : Block) → b.outline.spans = b.spans
  | .mk _ statements => by simp [Block.outline, Block.spans, spans_stmtListOutlines statements]

theorem spans_stmtListOutlines : (ss : List Stmt) → outlinesSpans (stmtListOutlines ss) = stmtListSpans ss
  | [] => rfl
  | s :: ss => by simp [stmtListOutlines, stmtListSpans, s.spans_outline, spans_stmtListOutlines ss]

theorem Stmt.spans_outline : (s : Stmt) → s.outline.spans = s.spans
  | .expr _ value | .defer _ value => by simp [Stmt.outline, Stmt.spans, value.spans_outline]
  | .varDecl _ _ type _ none => by simp [Stmt.outline, Stmt.spans, optExprOutlines]
  | .varDecl _ _ type _ (some init) => by simp [Stmt.outline, Stmt.spans, optExprOutlines, init.spans_outline]
  | .assign _ target _ value => by simp [Stmt.outline, Stmt.spans, target.spans_outline, value.spans_outline]
  | .ifElse _ condition body otherwise => by
    simp [Stmt.outline, Stmt.spans, condition.spans_outline, body.spans_outline, otherwise.spans_outlines]
  | .whileLoop _ condition body => by simp [Stmt.outline, Stmt.spans, condition.spans_outline, body.spans_outline]
  | .forLoop _ init condition step body => by
    simp [Stmt.outline, Stmt.spans, init.spans_outline, condition.spans_outline, step.spans_outline, body.spans_outline]
  | .forEach _ _ iterable body => by simp [Stmt.outline, Stmt.spans, iterable.spans_outline, body.spans_outline]
  | .returnValue _ none | .breakLoop _ | .continueLoop _ => rfl
  | .returnValue _ (some value) => by simp [Stmt.outline, Stmt.spans, optExprOutlines, value.spans_outline]
  | .block _ statements => by simp [Stmt.outline, Stmt.spans, spans_stmtListOutlines statements]
  | .buffer _ type _ size => by simp [Stmt.outline, Stmt.spans, type.spans_outline, size.spans_outline]

theorem Else.spans_outlines : (o : Else) → outlinesSpans o.outlines = o.spans
  | .absent => rfl
  | .block body => by simp [Else.outlines, Else.spans, body.spans_outline]
  | .elseIf _ condition body otherwise => by
    simp [Else.outlines, Else.spans, condition.spans_outline, body.spans_outline, otherwise.spans_outlines]

theorem ForInit.spans_outline : (i : ForInit) → i.outline.spans = i.spans
  | .varDecl _ _ type _ none => by simp [ForInit.outline, ForInit.spans, optExprOutlines]
  | .varDecl _ _ type _ (some init) => by simp [ForInit.outline, ForInit.spans, optExprOutlines, init.spans_outline]
  | .expr value => by simp [ForInit.outline, ForInit.spans, value.spans_outline]

theorem ForStep.spans_outline : (s : ForStep) → s.outline.spans = s.spans
  | .assign _ target _ value => by simp [ForStep.outline, ForStep.spans, target.spans_outline, value.spans_outline]
  | .expr value => by simp [ForStep.outline, ForStep.spans, value.spans_outline]

end

theorem Attribute.spans_outline (a : Attribute) : a.outline.spans = a.spans := by
  cases h : a.args <;> simp [Attribute.outline, Attribute.spans, optExprListOutlines, spans_exprListOutlines, h]

theorem Field.spans_outline (f : Field) : f.outline.spans = f.spans := by
  simp [Field.outline, Field.spans, f.type.spans_outline]

theorem FunctionDecl.spans_outlines (f : FunctionDecl) : outlinesSpans f.outlines = f.spans := by
  have hname : f.name.outline.spans = [f.name.span] := by cases f.name <;> rfl
  have hbody : outlinesSpans (optBlockOutlines f.body) = optBlockSpans f.body := by
    cases f.body <;> simp [optBlockOutlines, optBlockSpans, Block.spans_outline]
  simp [FunctionDecl.outlines, FunctionDecl.spans, hname, hbody, outlinesSpans_map Attribute.spans_outline]

theorem StructDecl.spans_outlines (d : StructDecl) : outlinesSpans d.outlines = d.spans := by
  simp [StructDecl.outlines, StructDecl.spans, outlinesSpans_map Attribute.spans_outline,
    outlinesSpans_map Field.spans_outline]

theorem Declaration.spans_outline (d : Declaration) : d.outline.spans = d.spans := by
  cases d with
  | importModule _ _ | globalOptions _ _ | moduleName _ _ => rfl
  | function _ decl | externalFunction _ decl => simp [Declaration.outline, Declaration.spans, decl.spans_outlines]
  | constant _ decl => simp [Declaration.outline, Declaration.spans, ConstDecl.outlines, ConstDecl.spans,
    decl.value.spans_outline]
  | struct _ decl => simp [Declaration.outline, Declaration.spans, decl.spans_outlines]

/-- The stretches of the outlines of a program are those of the program, in the same order. -/
theorem Program.spans_outlines (p : Program) : outlinesSpans p.outlines = p.spans :=
  outlinesSpans_map Declaration.spans_outline p.declarations

end ElleFrontEnd
