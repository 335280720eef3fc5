import ElleFrontEnd.Layout.Program
import ElleFrontEnd.Proofs.TwinGrammar
import ElleFrontEnd.Tree.Spans

/-!
# Trees that were not read

A tree that is built by hand holds no node for parentheses: which of them its text needs is left to the printer.  Such a
tree is compared with what is read of its text after the nodes for parentheses are taken out there
(`Expr.ungrouped`).
-/

namespace ElleFrontEnd

mutual

/-- Whether an expression holds no parentheses of its own, and no lambda with parameters or with a block for a body. -/
def Expr.HandBuilt : Expr → Prop
  | .binary _ left _ right => left.HandBuilt ∧ right.HandBuilt
  | .range _ start stop _ => start.HandBuilt ∧ stop.HandBuilt
  | .unary _ _ operand | .cast _ _ operand => operand.HandBuilt
  | .call _ callee _ args => callee.HandBuilt ∧ exprListHandBuilt args
  | .member _ object _ => object.HandBuilt
  | .subscript _ object index => object.HandBuilt ∧ index.HandBuilt
  | .conditional _ condition consequence alternative =>
    condition.HandBuilt ∧ optExprHandBuilt consequence ∧ alternative.HandBuilt
  | .paren _ _ | .blockLambda _ _ _ => False
  | .ident _ _ | .qualified _ _ | .rawName _ _ | .number _ _ | .str _ _ | .bool _ _ | .char _ _ => True
  | .array _ _ _ elements => exprListHandBuilt elements
  | .tuple _ first second => first.HandBuilt ∧ second.HandBuilt
  | .triple _ first second third => first.HandBuilt ∧ second.HandBuilt ∧ third.HandBuilt
  | .structLit _ _ _ fields => fieldInitListHandBuilt fields
  | .lambda _ params body => (params.metaName = none ∧ params.params = []) ∧ body.HandBuilt
  | .directive _ directive => directive.HandBuilt
  | .sigil _ _ args => optExprListHandBuilt args

/-- Whether all expressions of a list are built by hand. -/
def exprListHandBuilt : List Expr → Prop
  | [] => True
  | e :: es => e.HandBuilt ∧ exprListHandBuilt es

/-- Whether an expression that may be left out is built by hand. -/
def optExprHandBuilt : Option Expr → Prop
  | none => True
  | some e => e.HandBuilt

/-- Whether arguments that may be left out are built by hand. -/
def optExprListHandBuilt : Option (List Expr) → Prop
  | none => True
  | some es => exprListHandBuilt es

/-- Whether the value of a field is built by hand. -/
def FieldInit.HandBuilt : FieldInit → Prop
  | .mk _ _ value => value.HandBuilt

/-- Whether the values of all fields are built by hand. -/
def fieldInitListHandBuilt : List FieldInit → Prop
  | [] => True
  | f :: fs => f.HandBuilt ∧ fieldInitListHandBuilt fs

/-- Whether what a directive holds is built by hand. -/
def Directive.HandBuilt : Directive → Prop
  | .len value | .free value | .setAllocator value => value.HandBuilt
  | .size _ | .ident _ | .env | .resetAllocator => True
  | .alloc _ count => optExprHandBuilt count
  | .realloc pointer _ count => pointer.HandBuilt ∧ optExprHandBuilt count

end

mutual

/-- An expression without the nodes for parentheses.  Blocks are left as they are. -/
def Expr.ungrouped : Expr → Expr
  | .binary s left op right => .binary s left.ungrouped op right.ungrouped
  | .range s start stop inclusive => .range s start.ungrouped stop.ungrouped inclusive
  | .unary s op operand => .unary s op operand.ungrouped
  | .cast s type operand => .cast s type operand.ungrouped
  | .call s callee generics args => .call s callee.ungrouped generics (exprListUngrouped args)
  | .member s object n => .member s object.ungrouped n
  | .subscript s object index => .subscript s object.ungrouped index.ungrouped
  | .conditional s condition consequence alternative =>
    .conditional s condition.ungrouped (optExprUngrouped consequence) alternative.ungrouped
  | .paren _ inner => inner.ungrouped
  | .ident s n => .ident s n
  | .qualified s path => .qualified s path
  | .rawName s raw => .rawName s raw
  | .number s literal => .number s literal
  | .str s parts => .str s parts
  | .bool s value => .bool s value
  | .char s part => .char s part
  | .array s element isStatic elements => .array s element isStatic (exprListUngrouped elements)
  | .tuple s first second => .tuple s first.ungrouped second.ungrouped
  | .triple s first second third => .triple s first.ungrouped second.ungrouped third.ungrouped
  | .structLit s n generics fields => .structLit s n generics (fieldInitListUngrouped fields)
  | .lambda s params body => .lambda s params body.ungrouped
  | .blockLambda s params body => .blockLambda s params body
  | .directive s directive => .directive s directive.ungrouped
  | .sigil s n args => .sigil s n (optExprListUngrouped args)

/-- Expressions without the nodes for parentheses. -/
def exprListUngrouped : List Expr → List Expr
  | [] => []
  | e :: es => e.ungrouped :: exprListUngrouped es

/-- An expression that may be left out, without the nodes for parentheses. -/
def optExprUngrouped : Option Expr → Option Expr
  | none => none
  | some e => some e.ungrouped

/-- Arguments that may be left out, without the nodes for parentheses. -/
def optExprListUngrouped : Option (List Expr) → Option (List Expr)
  | none => none
  | some es => some (exprListUngrouped es)

/-- Fields without the nodes for parentheses in their values. -/
def fieldInitListUngrouped : List FieldInit → List FieldInit
  | [] => []
  | .mk s n value :: fs => .mk s n value.ungrouped :: fieldInitListUngrouped fs

/-- A directive without the nodes for parentheses in what it holds. -/
def Directive.ungrouped : Directive → Directive
  | .len value => .len value.ungrouped
  | .size type => .size type
  | .ident n => .ident n
  | .env => .env
  | .alloc type count => .alloc type (optExprUngrouped count)
  | .realloc pointer type count => .realloc pointer.ungrouped type (optExprUngrouped count)
  | .free value => .free value.ungrouped
  | .setAllocator value => .setAllocator value.ungrouped
  | .resetAllocator => .resetAllocator

end

/-- A source with a text for the value of a variable. -/
def bindingSource (value : String) : String := "fn m() \x7b let v = " ++ value ++ "; \x7d"

/-- The value of a variable that a statement declares. -/
def Stmt.boundValue? : Stmt → Option Expr
  | .varDecl _ _ _ _ init => init
  | _ => none

/-- The value of the variable that a block begins with. -/
def Block.firstValue? (b : Block) : Option Expr := b.statements.head?.bind Stmt.boundValue?

/-- The value of the variable that a function begins with. -/
def Declaration.firstValue? : Declaration → Option Expr
  | .function _ decl => decl.body.bind Block.firstValue?
  | _ => none

/-- The value of the variable that the function at the head of a program begins with. -/
def Program.firstValue? (p : Program) : Option Expr := p.declarations.head?.bind Declaration.firstValue?

/-! ### Stretches do not matter -/

section
variable (f : Span → Span)

mutual

theorem Expr.handBuilt_mapSpans : (e : Expr) → ((e.mapSpans f).HandBuilt ↔ e.HandBuilt)
  | .binary _ left _ right => and_congr left.handBuilt_mapSpans right.handBuilt_mapSpans
  | .range _ start stop _ => and_congr start.handBuilt_mapSpans stop.handBuilt_mapSpans
  | .unary _ _ operand | .cast _ _ operand => operand.handBuilt_mapSpans
  | .call _ callee _ args => and_congr callee.handBuilt_mapSpans (exprListHandBuilt_mapSpans args)
  | .member _ object _ => object.handBuilt_mapSpans
  | .subscript _ object index => and_congr object.handBuilt_mapSpans index.handBuilt_mapSpans
  | .conditional _ condition none alternative =>
    and_congr condition.handBuilt_mapSpans (and_congr .rfl alternative.handBuilt_mapSpans)
  | .conditional _ condition (some chosen) alternative =>
    and_congr condition.handBuilt_mapSpans (and_congr chosen.handBuilt_mapSpans alternative.handBuilt_mapSpans)
  | .paren _ _ | .blockLambda _ _ _ | .ident _ _ | .qualified _ _ | .rawName _ _ | .number _ _ | .str _ _ | .bool _ _
  | .char _ _ | .sigil _ _ none => .rfl
  | .array _ _ _ elements => exprListHandBuilt_mapSpans elements
  | .tuple _ first second => and_congr first.handBuilt_mapSpans second.handBuilt_mapSpans
  | .triple _ first second third =>
    and_congr first.handBuilt_mapSpans (and_congr second.handBuilt_mapSpans third.handBuilt_mapSpans)
  | .structLit _ _ _ fields => fieldInitListHandBuilt_mapSpans fields
  | .lambda _ _ body =>
    and_congr (by simp [ParamList.mapSpans]) body.handBuilt_mapSpans
  | .directive _ directive => directive.handBuilt_mapSpans
  | .sigil _ _ (some args) => exprListHandBuilt_mapSpans args

theorem exprListHandBuilt_mapSpans : (es : List Expr) →
    (exprListHandBuilt (exprListMapSpans f es) ↔ exprListHandBuilt es)
  | [] => .rfl
  | e :: es => and_congr e.handBuilt_mapSpans (exprListHandBuilt_mapSpans es)

theorem fieldInitListHandBuilt_mapSpans : (fs : List FieldInit) →
    (fieldInitListHandBuilt (fieldInitListMapSpans f fs) ↔ fieldInitListHandBuilt fs)
  | [] => .rfl
  | .mk _ _ value :: fs => and_congr value.handBuilt_mapSpans (fieldInitListHandBuilt_mapSpans fs)

theorem Directive.handBuilt_mapSpans : (d : Directive) → ((d.mapSpans f).HandBuilt ↔ d.HandBuilt)
  | .len value | .free value | .setAllocator value => value.handBuilt_mapSpans
  | .size _ | .ident _ | .env | .resetAllocator | .alloc _ none => .rfl
  | .alloc _ (some count) => count.handBuilt_mapSpans
  | .realloc pointer _ none => and_congr pointer.handBuilt_mapSpans .rfl
  | .realloc pointer _ (some count) => and_congr pointer.handBuilt_mapSpans count.handBuilt_mapSpans

end

end

/-- Trees that are the same up to their stretches are built by hand alike. -/
theorem SameExpr.handBuilt {e e' : Expr} (h : SameExpr e e') (he : e'.HandBuilt) : e.HandBuilt := by
  have hsame : e.mapSpans noSpan = e'.mapSpans noSpan := h
  rwa [← e.handBuilt_mapSpans noSpan, hsame, e'.handBuilt_mapSpans noSpan]

end ElleFrontEnd
