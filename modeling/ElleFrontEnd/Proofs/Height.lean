import ElleFrontEnd.Proofs.ReadDeclaration

/-!
# How high trees grow

The height of a tree is the number of nodes on its longest way down.  Nodes are expressions, types, statements and
blocks; a field of a struct literal, a parameter, an attribute or a declaration is part of the node that holds it.

A chain of operators, calls, members and subscripts, or a type with runs of `*` and `[]` behind it, is read in a loop,
and each round puts a node on top of the operand read so far.  The family `height link` counts `link` for a step into
such an operand and one for any other step.  So `height 1` is the height of a tree, and `height 0` tells how deep its
nodes nest when a chain counts as one level.

The limit of nesting bounds `height 0`, at three levels of the tree for each level of the parser.  It does not bound
`height 1`: a chain of any length is read at every limit.
-/

namespace ElleFrontEnd

/-- The greatest of the values of `f`, zero for no elements. -/
def highest {α : Type} (f : α → Nat) : List α → Nat
  | [] => 0
  | a :: as => max (f a) (highest f as)

theorem highest_le {α : Type} {f : α → Nat} {as : List α} {n : Nat} : highest f as ≤ n ↔ ∀ a ∈ as, f a ≤ n := by
  induction as with
  | nil => simp [highest]
  | cons a as ih => simp [highest, Nat.max_le, ih]

/-- The height of a part that may be left out. -/
def optHeight {α : Type} (f : α → Nat) : Option α → Nat
  | none => 0
  | some a => f a

section
variable (link : Nat)

mutual

/-- The height of a type. -/
def TypeExpr.height : TypeExpr → Nat
  | .primitive _ _ | .named _ _ => 1
  | .array _ element _ => element.height + link
  | .pointer _ base _ => base.height + link
  | .generic _ _ args => typeListHeight args + 1
  | .tuple _ first second => max first.height second.height + 1

/-- The height of the highest of some types. -/
def typeListHeight : List TypeExpr → Nat
  | [] => 0
  | t :: ts => max t.height (typeListHeight ts)

end

/-- The height of the type of a parameter. -/
def Param.height : Param → Nat
  | .named _ type _ | .unnamed _ type | .noFormat _ type _ => type.height link
  | .variadic _ _ => 0

/-- The height of the types in a parameter list. -/
def ParamList.height (list : ParamList) : Nat := highest (Param.height link) list.params

mutual

/-- The height of an expression. -/
def Expr.height : Expr → Nat
  | .binary _ left _ right => max (left.height + link) (right.height + 1)
  | .unary _ _ operand => operand.height + 1
  | .call _ callee generics args =>
    max (callee.height + link) (max (optHeight (typeListHeight link) generics) (exprListHeight args) + 1)
  | .member _ object _ => object.height + link
  | .subscript _ object index => max (object.height + link) (index.height + 1)
  | .conditional _ condition consequence alternative =>
    max condition.height (max (optExprHeight consequence) alternative.height) + 1
  | .cast _ type operand => max (type.height link) operand.height + 1
  | .paren _ inner => inner.height + 1
  | .ident _ _ | .qualified _ _ | .rawName _ _ | .number _ _ | .str _ _ | .bool _ _ | .char _ _ => 1
  | .array _ element _ elements => max (optHeight (TypeExpr.height link) element) (exprListHeight elements) + 1
  | .tuple _ first second => max first.height second.height + 1
  | .triple _ first second third => max first.height (max second.height third.height) + 1
  | .structLit _ _ generics fields => max (optHeight (typeListHeight link) generics) (fieldInitListHeight fields) + 1
  | .lambda _ params body => max (params.height link) body.height + 1
  | .blockLambda _ params body => max (params.height link) body.height + 1
  | .range _ start stop _ => max (start.height + link) (stop.height + 1)
  | .directive _ directive => directive.height + 1
  | .sigil _ _ args => optExprListHeight args + 1

/-- The height of the highest of some expressions. -/
def exprListHeight : List Expr → Nat
  | [] => 0
  | e :: es => max e.height (exprListHeight es)

/-- The height of an expression that may be left out. -/
def optExprHeight : Option Expr → Nat
  | none => 0
  | some e => e.height

/-- The height of arguments that may be left out. -/
def optExprListHeight : Option (List Expr) → Nat
  | none => 0
  | some es => exprListHeight es

/-- The height of the value of a field. -/
def FieldInit.height : FieldInit → Nat
  | .mk _ _ value => value.height

/-- The height of the highest value of some fields. -/
def fieldInitListHeight : List FieldInit → Nat
  | [] => 0
  | f :: fs => max f.height (fieldInitListHeight fs)

/-- The height of what a directive holds. -/
def Directive.height : Directive → Nat
  | .len value | .free value | .setAllocator value => value.height
  | .size type => type.height link
  | .ident _ | .env | .resetAllocator => 0
  | .alloc type count => max (type.height link) (optExprHeight count)
  | .realloc pointer type count => max pointer.height (max (type.height link) (optExprHeight count))

/-- The height of a block. -/
def Block.height : Block → Nat
  | .mk _ statements => stmtListHeight statements + 1

/-- The height of the highest of some statements. -/
def stmtListHeight : List Stmt → Nat
  | [] => 0
  | s :: ss => max s.height (stmtListHeight ss)

/-- The height of a statement. -/
def Stmt.height : Stmt → Nat
  | .expr _ value | .defer _ value => value.height + 1
  | .varDecl _ _ type _ init => max (optHeight (TypeExpr.height link) type) (optExprHeight init) + 1
  | .assign _ target _ value => max target.height value.height + 1
  | .ifElse _ condition body otherwise => max condition.height (max body.height otherwise.height) + 1
  | .whileLoop _ condition body => max condition.height body.height + 1
  | .forLoop _ init condition step body =>
    max (max init.height condition.height) (max step.height body.height) + 1
  | .forEach _ _ iterable body => max iterable.height body.height + 1
  | .returnValue _ value => optExprHeight value + 1
  | .breakLoop _ | .continueLoop _ => 1
  | .block _ statements => stmtListHeight statements + 1
  | .buffer _ type _ size => max (type.height link) size.height + 1

/-- The height of what follows the block of an `if`; an `if` there is a node of its own. -/
def Else.height : Else → Nat
  | .absent => 0
  | .block body => body.height
  | .elseIf _ condition body otherwise => max condition.height (max body.height otherwise.height) + 1

/-- The height of what a `for` loop starts with. -/
def ForInit.height : ForInit → Nat
  | .varDecl _ _ type _ init => max (optHeight (TypeExpr.height link) type) (optExprHeight init) + 1
  | .expr value => value.height

/-- The height of what a `for` loop does after each round. -/
def ForStep.height : ForStep → Nat
  | .assign _ target _ value => max target.height value.height + 1
  | .expr value => value.height

end

/-- The height of the arguments of an attribute. -/
def Attribute.height (a : Attribute) : Nat := optHeight (exprListHeight link) a.args

/-- The height of what a function holds. -/
def FunctionDecl.height (f : FunctionDecl) : Nat :=
  max (max (f.params.height link) (highest (Attribute.height link) f.attributes))
    (max (optHeight (TypeExpr.height link) f.returnType) (optHeight (Block.height link) f.body))

/-- The height of what a constant holds. -/
def ConstDecl.height (c : ConstDecl) : Nat := max (optHeight (TypeExpr.height link) c.type) (c.value.height link)

/-- The height of what a struct holds. -/
def StructDecl.height (d : StructDecl) : Nat :=
  max (highest (Attribute.height link) d.attributes) (highest (fun f => f.type.height link) d.fields)

/-- The height of what a declaration holds. -/
def Declaration.height : Declaration → Nat
  | .importModule _ _ | .globalOptions _ _ | .moduleName _ _ => 0
  | .function _ decl | .externalFunction _ decl => decl.height link
  | .constant _ decl => decl.height link
  | .struct _ decl => decl.height link

/-- The height of the highest tree in a program. -/
def Program.height (p : Program) : Nat := highest (Declaration.height link) p.declarations

end

/-! ### Lists of trees -/

section
variable {link : Nat}

theorem typeListHeight_eq (ts : List TypeExpr) : typeListHeight link ts = highest (TypeExpr.height link) ts := by
  induction ts with
  | nil => rfl
  | cons t ts ih => simp only [typeListHeight, highest, ih]

theorem exprListHeight_eq (es : List Expr) : exprListHeight link es = highest (Expr.height link) es := by
  induction es with
  | nil => rfl
  | cons e es ih => simp only [exprListHeight, highest, ih]

theorem stmtListHeight_eq (ss : List Stmt) : stmtListHeight link ss = highest (Stmt.height link) ss := by
  induction ss with
  | nil => rfl
  | cons s ss ih => simp only [stmtListHeight, highest, ih]

theorem fieldInitListHeight_eq (fs : List FieldInit) :
    fieldInitListHeight link fs = highest (FieldInit.height link) fs := by
  induction fs with
  | nil => rfl
  | cons f fs ih => simp only [fieldInitListHeight, highest, ih]

theorem TypeExpr.height_pos (t : TypeExpr) : 0 < t.height link := by
  cases t with
  | primitive | named => exact Nat.one_pos
  | array _ element _ => exact Nat.add_pos_left element.height_pos link
  | pointer _ base _ => exact Nat.add_pos_left base.height_pos link
  | generic | tuple => exact Nat.succ_pos _

mutual

/-- Counting the runs of `*` and `[]` makes no type lower. -/
theorem TypeExpr.height_zero_le : (t : TypeExpr) → t.height 0 ≤ t.height link
  | .primitive _ _ | .named _ _ => Nat.le_refl _
  | .array _ t _ | .pointer _ t _ => Nat.le_trans t.height_zero_le (Nat.le_add_right _ _)
  | .generic _ _ args => Nat.succ_le_succ (typeListHeight_zero_le args)
  | .tuple _ first second =>
    Nat.succ_le_succ (Nat.max_le.2 ⟨Nat.le_trans first.height_zero_le (Nat.le_max_left _ _),
      Nat.le_trans second.height_zero_le (Nat.le_max_right _ _)⟩)

theorem typeListHeight_zero_le : (ts : List TypeExpr) → typeListHeight 0 ts ≤ typeListHeight link ts
  | [] => Nat.le_refl _
  | t :: ts => Nat.max_le.2 ⟨Nat.le_trans t.height_zero_le (Nat.le_max_left _ _),
      Nat.le_trans (typeListHeight_zero_le ts) (Nat.le_max_right _ _)⟩

end

theorem height_unparenthesized (e : Expr) : e.unparenthesized.height link ≤ e.height link := by
  cases e <;> simp [Expr.unparenthesized, Expr.height]

theorem height_joined {op : Operator} {left right e : Expr} (h : Parser.joined? op left right = some e) :
    e.height link = max (left.height link + link) (right.height link + 1) := by
  rcases Parser.joined?_some h with ⟨span, binary, rfl⟩ | ⟨span, inclusive, rfl⟩ <;> rfl

end

/-- The parsers of nested constructs yield trees of at most a height. -/
structure Inner.Within (g : Inner) (n : Nat) : Prop where
  type : ∀ angles, (g.type angles).Yields (·.height 0 ≤ n)
  expression : ∀ header, (g.expression header).Yields (·.height 0 ≤ n)
  chain : ∀ header level, (g.chain header level).Yields (·.height 0 ≤ n)
  unary : ∀ header, (g.unary header).Yields (·.height 0 ≤ n)
  block : g.block.Yields (·.height 0 ≤ n)
  elseIf : g.elseIf.Yields fun parts =>
    max (parts.condition.height 0) (max (parts.body.height 0) (parts.otherwise.height 0)) ≤ n

/-! ### Types -/

namespace Parser

variable {n : Nat} {g : Inner} {header : Bool}

section
variable {type : Nat → Parser TypeExpr} (hadv : ∀ angles s, Advances s (type angles s).2)
  (ht : ∀ angles, (type angles).Yields (·.height 0 ≤ n))
include hadv ht

theorem typeArgs_height (angles : Nat) : (typeArgs type angles).Yields (typeListHeight 0 · ≤ n) := by
  intro s args s' h
  obtain ⟨-, s₁, hargs, -⟩ := (typeArgs_ok hadv).1 h
  rw [typeListHeight_eq, highest_le]
  exact Yields.listed (ht _) hargs

theorem typeBody_height (angles : Nat) : (typeBody type angles).Yields (·.height 0 ≤ n + 1) := by
  intro s t s' h
  obtain ⟨base, s₁, hbase, hrest⟩ := typeBody_ok.1 h
  have hbase : base.height 0 ≤ n + 1 := by
    rcases baseType_ok.1 hbase with ⟨p, -, -, rfl⟩ | ⟨name, -, h⟩ | ⟨-, h⟩
    · simp [TypeExpr.height]
    · rcases namedType_ok.1 h with ⟨-, -, args, hargs, rfl⟩ | ⟨-, -, rfl⟩
      · have := typeArgs_height hadv ht _ _ _ _ hargs
        simp only [TypeExpr.height]
        omega
      · simp [TypeExpr.height]
    · obtain ⟨first, s₂, second, s₃, hfirst, -, hsecond, -, -, rfl⟩ := tupleType_ok.1 h
      have := ht _ _ _ _ hfirst
      have := ht _ _ _ _ hsecond
      simp only [TypeExpr.height]
      omega
  -- a run of stars or brackets counts nothing
  refine Yields.grows (P := (·.height 0 ≤ n + 1)) (fun t ht s o s' h t' ho => ?_) hrest hbase
  obtain rfl := ho
  obtain ⟨-, ⟨-, k, -, rfl⟩ | ⟨-, -, k, -, rfl⟩⟩ := typeSuffix_some.1 h <;> exact ht

end

theorem typeExpr_height (limit room angles : Nat) : (typeExpr limit room angles).Yields (·.height 0 ≤ room) := by
  induction room generalizing angles with
  | zero => exact fun s t s' h => absurd h (by simp [typeExpr])
  | succ room ih =>
    exact typeBody_height (fun angles => Alike.advances fun ts => Alike.typeExpr (.refl ts) _ _ _) ih angles

/-! ### Expressions -/

section
variable (hg : g.Settled) (hn : g.Within n)
include hn

theorem commaListed_height {close : Punctuation} {s s' : ParseState} {es : List Expr}
    (h : CommaListed close (g.expression false) s es s') : exprListHeight 0 es ≤ n := by
  rw [exprListHeight_eq, highest_le]
  exact Yields.listed (hn.expression false) h

theorem param_height : (param g).Yields (Param.height 0 · ≤ n) := by
  intro s p s' h
  rcases param_ok.1 h with ⟨-, ⟨name, -, -, rfl⟩ | ⟨-, -, rfl⟩⟩ | ⟨-, -, type, s₁, name, ht, -, -, rfl⟩ |
    ⟨-, -, type, s₁, ht, ⟨name, -, -, rfl⟩ | ⟨-, -, rfl⟩⟩
  · simp [Param.height]
  · simp [Param.height]
  · exact hn.type 0 _ _ _ ht
  · exact hn.type 0 _ _ _ ht
  · exact hn.type 0 _ _ _ ht

theorem optionalOperand_height : (optionalOperand g).Yields (optExprHeight 0 · ≤ n) := by
  intro s o s' h
  rcases optionalOperand_ok.1 h with ⟨-, e, rfl, he⟩ | ⟨-, rfl, -⟩
  · exact hn.expression false _ _ _ he
  · simp [optExprHeight]

theorem operands_height {s s' : ParseState} {d : Directive} (h : Operands g s s' d) : d.height 0 ≤ n := by
  cases d with
  | len e | free e | setAllocator e => exact hn.expression false _ _ _ h.2
  | size type => exact hn.type 0 _ _ _ h.2
  | ident | env | resetAllocator => simp [Directive.height]
  | alloc type count =>
    obtain ⟨-, s₁, ht, hc⟩ := h
    have := hn.type 0 _ _ _ ht
    have := optionalOperand_height hn _ _ _ hc
    simp only [Directive.height]
    omega
  | realloc e type count =>
    obtain ⟨-, s₁, s₂, he, -, -, ht, hc⟩ := h
    have := hn.expression false _ _ _ he
    have := hn.type 0 _ _ _ ht
    have := optionalOperand_height hn _ _ _ hc
    simp only [Directive.height]
    omega

include hg

theorem arguments_height : (arguments g).Yields (exprListHeight 0 · ≤ n) := by
  intro s es s' h
  obtain ⟨-, s₁, hes, -⟩ := (arguments_ok hg).1 h
  exact commaListed_height hn hes

theorem paramList_height : (paramList g).Yields (ParamList.height 0 · ≤ n) := by
  intro s list s' h
  obtain ⟨-, s₁, s₂, -, hps, -⟩ := (paramList_ok hg).1 h
  rw [ParamList.height, highest_le]
  exact Yields.listed (param_height hn) hps

theorem lambda_height : (lambda g header).Yields (·.height 0 ≤ n + 1) := by
  intro s e s' h
  obtain ⟨-, params, s₁, hps, ⟨-, body, hb, rfl⟩ | ⟨-, body, hb, rfl⟩⟩ := lambda_ok.1 h
  all_goals have := paramList_height hg hn _ _ _ hps
  · have := hn.block _ _ _ hb
    simp only [Expr.height]
    omega
  · have := hn.expression header _ _ _ hb
    simp only [Expr.height]
    omega

theorem structLiteral?_height (start : Nat) (name : String) :
    (structLiteral? g start name).Yields fun o => ∀ e ∈ o, e.height 0 ≤ n + 1 := by
  intro s o s' h e ho
  obtain rfl := ho
  obtain ⟨generics, s₁, fields, s₂, hgen, -, hfs, -, -, rfl⟩ := (structLiteral?_some hg).1 h
  have hgen : optHeight (typeListHeight 0) generics ≤ n := by
    rcases (structTypeArgs_some hg).1 hgen with ⟨-, -, args, rfl, hargs, -⟩ | ⟨-, rfl, -⟩
    · exact typeArgs_height hg.type hn.type 0 _ _ _ hargs
    · simp [optHeight]
  have hfield : (fieldInit g).Yields (FieldInit.height 0 · ≤ n) := by
    intro s f s' h
    obtain ⟨name, value, -, -, hv, rfl⟩ := fieldInit_ok.1 h
    exact hn.expression false _ _ _ hv
  have hfs : fieldInitListHeight 0 fields ≤ n := by
    rw [fieldInitListHeight_eq, highest_le]
    exact Yields.listed hfield hfs
  simp only [Expr.height]
  omega

theorem nameExpr_height : (nameExpr g header).Yields (·.height 0 ≤ n + 1) := by
  intro s e s' h
  obtain ⟨name, -, ⟨-, names, -, rfl⟩ | ⟨-, -, h⟩ | ⟨-, -, -, rfl⟩⟩ := (nameExpr_ok hg).1 h
  · simp [Expr.height]
  · exact structLiteral?_height hg hn _ _ _ _ _ h _ rfl
  · simp [Expr.height]

theorem arrayLiteral_height (start : Nat) (isStatic : Bool) :
    (arrayLiteral g start isStatic).Yields (·.height 0 ≤ n + 1) := by
  intro s e s' h
  obtain ⟨-, element, s₁, elements, s₂, hes, -, -, rfl, htag⟩ := (arrayLiteral_ok hg).1 h
  have htag : optHeight (TypeExpr.height 0) element ≤ n := by
    rcases htag with ⟨type, s₀, rfl, ht, -⟩ | ⟨rfl, -⟩
    · exact hn.type 0 _ _ _ ht
    · simp [optHeight]
  have := commaListed_height hn hes
  simp only [Expr.height]
  omega

theorem hashExpr_height : (hashExpr g).Yields (·.height 0 ≤ n + 1) := by
  intro s e s' h
  obtain ⟨-, ⟨-, h⟩ | ⟨name, d, -, -, hd, rfl⟩⟩ := hashExpr_ok.1 h
  · exact arrayLiteral_height hg hn _ _ _ _ _ h
  · obtain ⟨-, ⟨henv, -⟩ | ⟨-, -, s₁, hops, -⟩⟩ := directiveOf_ok.1 hd
    · cases d <;> simp [Directive.name] at henv
      simp [Expr.height, Directive.height]
    · exact Nat.succ_le_succ (operands_height hn hops)

theorem dollarExpr_height : (dollarExpr g).Yields (·.height 0 ≤ n + 1) := by
  intro s e s' h
  obtain ⟨-, -, ⟨-, -, -, a, b, c, hargs, rfl⟩ | ⟨-, a, b, hargs, rfl⟩ |
    ⟨name, -, ⟨-, -, args, hargs, rfl⟩ | ⟨-, -, rfl⟩⟩⟩ := dollarExpr_ok.1 h
  · have := arguments_height hg hn _ _ _ hargs
    simp only [exprListHeight] at this
    simp only [Expr.height]
    omega
  · have := arguments_height hg hn _ _ _ hargs
    simp only [exprListHeight] at this
    simp only [Expr.height]
    omega
  · exact Nat.succ_le_succ (arguments_height hg hn _ _ _ hargs)
  · simp [Expr.height, optExprListHeight]

theorem primary_height : (primary g header).Yields (·.height 0 ≤ n + 1) := by
  intro s e s' h
  rcases primary_ok.1 h with ⟨h, -⟩ | ⟨-, h⟩ | ⟨-, h⟩ | ⟨-, h⟩ | ⟨-, h⟩ | ⟨-, h⟩ | ⟨-, h⟩
  · unfold literalOf? at h
    split at h <;> cases h <;> simp [Expr.height]
  · exact lambda_height hg hn _ _ _ h
  · exact nameExpr_height hg hn _ _ _ h
  · obtain ⟨inner, s₁, hi, -, -, rfl⟩ := parenthesized_ok.1 h
    exact Nat.succ_le_succ (hn.expression false _ _ _ hi)
  · exact arrayLiteral_height hg hn _ _ _ _ _ h
  · exact hashExpr_height hg hn _ _ _ h
  · exact dollarExpr_height hg hn _ _ _ h

theorem operandExpr_height : (operandExpr g header).Yields (·.height 0 ≤ n + 1) := by
  intro s e s' h
  obtain ⟨first, s₁, hfirst, hrest⟩ := (operandExpr_ok hg).1 h
  -- what stands behind the operand has the height of the operand, or that of what it holds
  have hprimary := primary_height hg hn _ _ _ hfirst
  refine Yields.grows (P := (·.height 0 ≤ n + 1)) (fun e he s o s' h e' ho => ?_) hrest hprimary
  obtain rfl := ho
  rcases (suffixStep_some hg).1 h with ⟨-, args, hargs, rfl⟩ | ⟨-, -, -, generics, s₂, args, hgen, hargs, rfl⟩ |
    ⟨-, name, -, -, rfl⟩ | ⟨-, index, s₂, hi, -, -, rfl⟩
  · have := arguments_height hg hn _ _ _ hargs
    simp only [Expr.height, optHeight]
    omega
  · have := typeArgs_height hg.type hn.type 0 _ _ _ (callTypeArgs_ok.1 hgen).1
    have := arguments_height hg hn _ _ _ hargs
    simp only [Expr.height, optHeight]
    omega
  · exact he
  · have := hn.expression false _ _ _ hi
    simp only [Expr.height]
    omega

theorem unaryBody_height : (unaryBody g header).Yields (·.height 0 ≤ n + 2) := by
  intro s e s' h
  rcases (unaryBody_ok hg).1 h with ⟨op, unary, inner, -, -, -, hi, rfl⟩ | ⟨-, h⟩ | ⟨-, h⟩ | ⟨-, -, h⟩
  · have := hn.unary header _ _ _ hi
    simp only [Expr.height]
    omega
  · -- one token makes two nodes, so a level has to have room for both
    obtain ⟨-, inner, hi, rfl⟩ := doubleAddress_ok.1 h
    exact Nat.add_le_add_right (hn.unary header _ _ _ hi) 2
  · obtain ⟨type, s₁, inner, ht, -, hi, rfl⟩ := (cast?_some hg).1 h
    obtain ⟨s₂, ht, -⟩ := castType_ok.1 ht
    have := hn.type 0 _ _ _ ht
    have := hn.unary header _ _ _ hi
    simp only [Expr.height]
    omega
  · have := operandExpr_height hg hn _ _ _ h
    omega

theorem chainBody_height (level : Nat) : (chainBody g header level).Yields (·.height 0 ≤ n + 2) := by
  intro s e s' h
  obtain ⟨first, s₁, hfirst, hrest⟩ := (chainBody_ok hg).1 h
  -- a further operand stands one level further in, however long the chain
  have hunary := unaryBody_height hg hn _ _ _ hfirst
  refine Yields.grows (P := (·.height 0 ≤ n + 2)) (fun e he s o s' h e' ho => ?_) hrest hunary
  obtain rfl := ho
  obtain ⟨op, right, -, -, -, -, hright, hj⟩ := chainStep_some.1 h
  have := hn.chain header _ _ _ _ hright
  rw [height_joined hj]
  omega

theorem expressionBody_height : (expressionBody g header).Yields (·.height 0 ≤ n + 3) := by
  intro s e s' h
  obtain ⟨condition, s₁, hc, ⟨-, rfl, -⟩ | ⟨-, chosen, s₂, alternative, hchosen, -, ha, rfl⟩⟩ := expressionBody_ok.1 h
  all_goals have := chainBody_height hg hn _ _ _ _ hc
  · omega
  · have hchosen : optExprHeight 0 chosen ≤ n := by
      rcases consequence_ok.1 hchosen with ⟨-, rfl, -⟩ | ⟨-, e, rfl, he⟩
      · simp [optExprHeight]
      · exact hn.expression header _ _ _ he
    have := hn.expression header _ _ _ ha
    simp only [Expr.height]
    omega

/-! ### Statements -/

omit hg in
theorem initializer_height : (initializer g header).Yields (optExprHeight 0 · ≤ n) := by
  intro s o s' h
  rcases initializer_ok.1 h with ⟨-, e, rfl, he⟩ | ⟨-, rfl, -⟩
  · exact hn.expression header _ _ _ he
  · simp [optExprHeight]

/-- The height of what a declaration of a variable holds. -/
def BindingForm.height : BindingForm → Nat
  | .variable _ type _ init => max (optHeight (TypeExpr.height 0) type) (optExprHeight 0 init)
  | .buffer type _ size => max (type.height 0) (size.height 0)

theorem binding?_height : (binding? g header).Yields fun o => ∀ form ∈ o, form.height ≤ n := by
  intro s o s' h form ho
  obtain rfl := ho
  rcases (binding?_some hg).1 h with ⟨-, name, init, -, hi, rfl⟩ | ⟨-, name, e, -, he, -, rfl⟩ |
    ⟨-, -, ⟨type, name⟩, s₁, ht, hb⟩
  · have := initializer_height hn _ _ _ hi
    simpa [BindingForm.height, optHeight] using this
  · have := hn.expression header _ _ _ he
    simpa [BindingForm.height, optHeight, optExprHeight] using this
  · obtain ⟨s₂, ht, -⟩ := typeAndName_ok.1 ht
    have : type.height 0 ≤ n := hn.type 0 _ _ _ ht
    rcases typedBinding_ok.1 hb with ⟨-, size, s₃, hs, -, -, rfl⟩ | ⟨-, init, hi, rfl⟩
    · have := hn.expression false _ _ _ hs
      simp only [BindingForm.height]
      omega
    · have := initializer_height hn _ _ _ hi
      simp only [BindingForm.height, optHeight]
      omega

theorem simpleStatement_height : (simpleStatement g).Yields fun form => ∀ span, (form span).height 0 ≤ n + 1 := by
  intro s form s' h span
  rcases (simpleStatement_ok hg).1 h with ⟨binding, hb, rfl⟩ | ⟨-, target, s₁, ht, ⟨op, value, ha, rfl⟩ | ⟨-, -, rfl⟩⟩
  · have := binding?_height hg hn _ _ _ hb _ rfl
    cases binding <;> exact Nat.succ_le_succ this
  · obtain ⟨-, -, -, -, hv⟩ := assignment?_some.1 ha
    have := hn.expression false _ _ _ ht
    have := hn.expression false _ _ _ hv
    simp only [Stmt.height]
    omega
  · exact Nat.succ_le_succ (hn.expression false _ _ _ ht)

omit hg in
theorem headerCondition_height : (headerCondition g).Yields (·.height 0 ≤ n) := by
  intro s e s' h
  obtain ⟨e₀, he, rfl⟩ := headerCondition_ok.1 h
  exact Nat.le_trans (height_unparenthesized e₀) (hn.expression true _ _ _ he)

omit hg in
theorem ifBody_height : (ifBody g).Yields fun parts =>
    max (parts.condition.height 0) (max (parts.body.height 0) (parts.otherwise.height 0)) ≤ n + 1 := by
  intro s parts s' h
  obtain ⟨-, s₁, s₂, hc, hb, he⟩ := ifBody_ok.1 h
  have := headerCondition_height hn _ _ _ hc
  have := hn.block _ _ _ hb
  have : parts.otherwise.height 0 ≤ n + 1 := by
    -- an `else if` is read one level further in, so that its node fits
    rcases elsePart_ok.1 he with ⟨-, -, parts', hp, hotherwise⟩ | ⟨-, -, body, hb, hotherwise⟩ | ⟨-, hotherwise, -⟩
    all_goals rw [hotherwise]
    · exact Nat.succ_le_succ (hn.elseIf _ _ _ hp)
    · exact Nat.le_succ_of_le (hn.block _ _ _ hb)
    · simp [Else.height]
  omega

theorem forHeader_height : (forHeader g header).Yields fun parts =>
    max (parts.1.height 0) (max (parts.2.1.height 0) (parts.2.2.height 0)) ≤ n + 1 := by
  intro s parts s' h
  obtain ⟨s₁, s₂, hi, -, hc, -, hs⟩ := forHeader_ok.1 h
  have := hn.expression header _ _ _ hc
  have : parts.1.height 0 ≤ n + 1 := by
    rcases (forInit_ok hg).1 hi with ⟨binding, type, name, value, hb, hinit⟩ | ⟨-, e, he, hinit⟩
    all_goals rw [hinit]
    · exact Nat.succ_le_succ (binding?_height hg hn _ _ _ hb _ rfl)
    · exact Nat.le_succ_of_le (hn.expression header _ _ _ he)
  have : parts.2.2.height 0 ≤ n + 1 := by
    obtain ⟨target, s₃, ht, ⟨op, value, ha, hstep⟩ | ⟨-, -, hstep⟩⟩ := forStep_ok.1 hs
    all_goals
      rw [hstep]
      have := hn.expression header _ _ _ ht
    · obtain ⟨-, -, -, -, hv⟩ := assignment?_some.1 ha
      have := hn.expression header _ _ _ hv
      simp only [ForStep.height]
      omega
    · simp only [ForStep.height]
      omega
  omega

theorem statementForm_height : (statementForm g).Yields fun form => ∀ span, (form span).height 0 ≤ n + 2 := by
  intro s form s' h span
  rcases statementForm_ok.1 h with ⟨-, parts, hif, rfl⟩ | ⟨-, condition, s₁, body, hc, hb, rfl⟩ | ⟨-, h⟩ |
    ⟨-, e, s₁, he, -, -, rfl⟩ | ⟨-, h⟩ | ⟨-, -, -, rfl⟩ | ⟨-, -, -, rfl⟩ | ⟨-, body, hb, rfl⟩ | ⟨-, s₁, hs, -, -⟩
  · exact Nat.succ_le_succ (ifBody_height hn _ _ _ hif)
  · have := headerCondition_height hn _ _ _ hc
    have := hn.block _ _ _ hb
    simp only [Stmt.height]
    omega
  · obtain ⟨-, ⟨name, iterable, s₁, body, -, -, hi, hb, rfl⟩ | ⟨-, h⟩⟩ := forStatement_ok.1 h
    · have := hn.expression true _ _ _ hi
      have := hn.block _ _ _ hb
      simp only [Stmt.height]
      omega
    · obtain ⟨init, condition, step, body, rfl, ⟨-, s₁, hh, -, hb⟩ | ⟨-, s₁, hh, hb⟩⟩ := forLoopRest_ok.1 h
      all_goals
        have := forHeader_height hg hn _ _ _ hh
        dsimp only at this
        have := hn.block _ _ _ hb
        simp only [Stmt.height]
        omega
  · have := hn.expression false _ _ _ he
    simp only [Stmt.height]
    omega
  · rcases returnStatement_ok.1 h with ⟨-, -, rfl⟩ | ⟨-, e, s₁, he, -, -, rfl⟩
    · simp [Stmt.height, optExprHeight]
    · have := hn.expression false _ _ _ he
      simp only [Stmt.height, optExprHeight]
      omega
  · simp [Stmt.height]
  · simp [Stmt.height]
  · have := hn.block _ _ _ hb
    cases body with
    | mk blockSpan statements =>
      simp only [Block.height] at this
      simp only [Stmt.height, Block.statements]
      omega
  · exact Nat.le_succ_of_le (simpleStatement_height hg hn _ _ _ hs span)

/-- Every statement of a block has been read without failing, whatever was recorded besides. -/
theorem blockBody_height (o : ParseOptions) : (blockBody o g).Yields (·.height 0 ≤ n + 3) := by
  have hround (opened : Span) : (blockRound o g opened).Yields (Yields.OfRound (·.height 0 ≤ n + 2)) := by
    intro s r s' h
    cases r with
    | stop => trivial
    | none => trivial
    | last st => exact absurd h blockRound_last
    | more st =>
      obtain ⟨form, hform, rfl⟩ := statement_ok.1 (blockRound_more.1 h).2.2.2
      exact statementForm_height hg hn _ _ _ hform _
  intro s body s' h
  simp [blockBody, expectMark, spanFrom] at h
  obtain ⟨-, statements, h, rfl⟩ := h
  refine Nat.succ_le_succ ?_
  rw [stmtListHeight_eq, highest_le]
  exact Yields.collect (hround _) _ _ _ h

/-! ### Declarations -/

theorem attributed_height {s s' : ParseState} {as : List Attribute} (h : Attributed g s as s') :
    highest (Attribute.height 0) as ≤ n := by
  induction h with
  | nil _ => simp [highest]
  | bare _ _ _ _ ih => simpa [highest, Attribute.height, optHeight] using ih
  | called _ _ _ hargs _ ih => exact Nat.max_le.2 ⟨arguments_height hg hn _ _ _ hargs, ih⟩

theorem functionDecl_height (modifiers : List Modifier) : (functionDecl g modifiers).Yields (·.height 0 ≤ n) := by
  intro s f s' h
  obtain ⟨-, -, s₁, s₂, s₃, s₄, s₅, -, -, hps, has, hr, hb⟩ := (functionDecl_ok hg).1 h
  have := paramList_height hg hn _ _ _ hps
  have := attributed_height hg hn has
  have : optHeight (TypeExpr.height 0) f.returnType ≤ n := by
    rcases returnType_ok.1 hr with ⟨-, t, ht, h⟩ | ⟨-, ht, -⟩
    all_goals rw [ht]
    · exact hn.type 0 _ _ _ h
    · exact Nat.zero_le n
  have : optHeight (Block.height 0) f.body ≤ n := by
    rcases functionBody_ok.1 hb with ⟨-, -, body, hbody, h⟩ | ⟨-, hbody, -⟩
    all_goals rw [hbody]
    · exact hn.block _ _ _ h
    · exact Nat.zero_le n
  unfold FunctionDecl.height
  omega

omit hg in
theorem constDecl_height (modifiers : List Modifier) : (constDecl g modifiers).Yields (·.height 0 ≤ n) := by
  intro s c s' h
  obtain ⟨-, -, s₁, s₂, ht, -, -, hv, -⟩ := constDecl_ok.1 h
  have := hn.expression false _ _ _ hv
  have : optHeight (TypeExpr.height 0) c.type ≤ n := by
    rcases constType_ok.1 ht with ⟨-, -, htype, -⟩ | ⟨-, t, htype, h⟩
    all_goals rw [htype]
    · exact Nat.zero_le n
    · exact hn.type 0 _ _ _ h
  unfold ConstDecl.height
  omega

omit hg in
theorem fields_height {s s' : ParseState} {fs : List Field} (h : Fields g s fs s') :
    highest (fun f => f.type.height 0) fs ≤ n := by
  have hfield {s s' : ParseState} {f : Field} (h : (structField g).run s = (.ok f, s')) : f.type.height 0 ≤ n := by
    obtain ⟨-, ⟨-, -, ht⟩ | ⟨-, s₁, ht, -⟩⟩ := structField_ok.1 h <;> exact hn.type 0 _ _ _ ht
  induction h with
  | nil _ => exact Nat.zero_le n
  | ended _ hf _ _ ih => exact Nat.max_le.2 ⟨hfield hf, ih⟩
  | last _ hf _ _ => exact Nat.max_le.2 ⟨hfield hf, Nat.zero_le n⟩

theorem structDecl_height (modifiers : List Modifier) : (structDecl g modifiers).Yields (·.height 0 ≤ n) := by
  intro s d s' h
  obtain ⟨-, -, -, s₁, s₂, s₃, -, has, -, hfs, -⟩ := (structDecl_ok hg).1 h
  exact Nat.max_le.2 ⟨attributed_height hg hn has, fields_height hn hfs⟩

theorem declaration_height : (declaration g).Yields (·.height 0 ≤ n) := by
  intro s d s' h
  obtain ⟨form, hform, rfl⟩ := declaration_ok.1 h
  rcases declarationForm_ok.1 hform with ⟨-, path, -, rfl⟩ | ⟨-, options, -, rfl⟩ | ⟨-, name, -, rfl⟩ | ⟨-, -, -, h⟩
  · exact Nat.zero_le n
  · exact Nat.zero_le n
  · exact Nat.zero_le n
  obtain ⟨ms, s₁, -, ⟨-, decl, hd, rfl⟩ | ⟨-, decl, hd, rfl⟩ | ⟨-, decl, hd, rfl⟩⟩ := modifiedForm_ok.1 h
  · unfold functionForm
    split <;> exact functionDecl_height hg hn ms _ _ _ hd
  · exact constDecl_height hn ms _ _ _ hd
  · exact structDecl_height hg hn ms _ _ _ hd

end

end Parser

/-- Each level of nesting makes room for three nodes at most: of an expression, two operators of address and a
conditional. -/
theorem within_ofRoom (o : ParseOptions) (room : Nat) : (Inner.ofRoom o room).Within (3 * room) := by
  induction room with
  | zero =>
    have hdeep {α : Type} {P : α → Prop} : (Parser.tooDeep o.maxDepth).Yields P :=
      fun s a s' h => absurd (Parser.tooDeep_ok.1 h) id
    exact ⟨fun _ => hdeep, fun _ => hdeep, fun _ _ => hdeep, fun _ => hdeep, hdeep, hdeep⟩
  | succ room ih =>
    have hg := settled_ofRoom o room
    exact
      { type := fun angles s t s' h => Nat.le_trans (Parser.typeExpr_height _ _ _ _ _ _ h) (by omega)
        expression := fun header => Parser.expressionBody_height hg ih
        chain := fun header level s e s' h => Nat.le_succ_of_le (Parser.chainBody_height hg ih level s e s' h)
        unary := fun header s e s' h => Nat.le_succ_of_le (Parser.unaryBody_height hg ih s e s' h)
        block := Parser.blockBody_height hg ih o
        elseIf := fun s parts s' h => Nat.le_trans (Parser.ifBody_height ih s parts s' h) (by omega) }

/-- The limit of nesting bounds the height of what is read, chains apart, also where reading has gone on after
failures. -/
theorem parsePartial_height_le (tokens : List Token) (o : ParseOptions) :
    (parsePartial tokens o).1.height 0 ≤ 3 * o.maxDepth := by
  have hround : (Parser.programRound o).Yields (Parser.Yields.OfRound (·.height 0 ≤ 3 * o.maxDepth)) := by
    intro s r s' h
    cases r with
    | stop => trivial
    | none => trivial
    | last d => exact absurd h Parser.programRound_last
    | more d =>
      obtain ⟨-, -, hd⟩ := Parser.programRound_more.1 h
      exact Parser.declaration_height (settled_ofRoom o _) (within_ofRoom o _) _ _ _ hd
  unfold parsePartial
  split
  · rename_i declarations s h
    exact highest_le.2 (Parser.Yields.collect hround _ _ _ h)
  · exact Nat.zero_le _

/-! ### Chains without a bound -/

/-- A token of no extent. -/
def bareToken (kind : TokenKind) : Token := { kind, span := .zero, pos := .first }

/-- The members `.b.b…`, `n` of them, and the semicolon behind them. -/
def membersThenEnd : (n : Nat) → List Token
  | 0 => [bareToken (.punctuation .semicolon)]
  | n + 1 => bareToken (.punctuation .dot) :: bareToken (.ident "b") :: membersThenEnd n

/-- The constant `const a = true.b.b…;`, with `n` members behind its value. -/
def memberChain (n : Nat) : List Token :=
  bareToken (.keyword .constKw) :: bareToken (.ident "a") :: bareToken (.operator .eq) ::
    bareToken (.keyword (.boolean true)) :: membersThenEnd n

namespace Parser

variable {g : Inner} (hg : g.Settled)
include hg

/-- Each member stands on top of the expression read so far. -/
theorem grows_members (start n : Nat) (e : Expr) (last : Option Token) :
    ∃ e' last', Grows (suffixStep g start) e { last, rest := membersThenEnd n } e'
      { last := last', rest := membersThenEnd 0 } ∧ e'.height 1 = e.height 1 + n := by
  induction n generalizing e last with
  | zero =>
    have hk : ({ last, rest := membersThenEnd 0 } : ParseState).peek.kind = .punctuation .semicolon := rfl
    exact ⟨e, last, .stop ((suffixStep_none hg).2 ⟨rfl, by simp [hk]⟩), rfl⟩
  | succ n ih =>
    obtain ⟨e', last', hrest, hheight⟩ := ih (.member ⟨start, 0⟩ e "b") (some (bareToken (.ident "b")))
    refine ⟨e', last', .next ((suffixStep_some hg).2 (.inr (.inr (.inl ⟨rfl, "b", rfl, rfl, rfl⟩)))) hrest, ?_⟩
    rw [hheight, Expr.height]
    omega

/-- The value of the constant is the whole chain. -/
theorem expressionBody_members (n : Nat) (last : Option Token) :
    ∃ e last', (expressionBody g false).run { last, rest := bareToken (.keyword (.boolean true)) :: membersThenEnd n } =
      (.ok e, { last := last', rest := membersThenEnd 0 }) ∧ e.height 1 = n + 1 := by
  obtain ⟨e, last', hrest, hheight⟩ :=
    grows_members hg 0 n (.bool .zero true) (some (bareToken (.keyword (.boolean true))))
  refine ⟨e, last', ?_, by rw [hheight, Expr.height]; omega⟩
  have hk : ({ last := last', rest := membersThenEnd 0 } : ParseState).peek.kind = .punctuation .semicolon := rfl
  have hprimary : (primary g false).run { last, rest := bareToken (.keyword (.boolean true)) :: membersThenEnd n } =
      (.ok (.bool .zero true), { last := some (bareToken (.keyword (.boolean true))), rest := membersThenEnd n }) :=
    primary_ok.2 (.inl ⟨rfl, rfl⟩)
  have hoperand := (operandExpr_ok hg).2 ⟨_, _, hprimary, hrest⟩
  have hfirst : ({ last, rest := bareToken (.keyword (.boolean true)) :: membersThenEnd n } : ParseState).peek.kind =
      .keyword (.boolean true) := rfl
  have hunary := (unaryBody_ok hg).2 (.inr (.inr (.inr ⟨by simp [hfirst], by simp [hfirst], hoperand⟩)))
  have hstop : Grows (chainStep g false 1) e { last := last', rest := membersThenEnd 0 } e _ :=
    .stop (chainStep_none.2 ⟨rfl, by simp [hk]⟩)
  exact expressionBody_ok.2 ⟨e, _, (chainBody_ok hg).2 ⟨e, _, hunary, hstop⟩, .inl ⟨by simp [hk], rfl, rfl⟩⟩

end Parser

/-- A chain of any length is read at every limit that lets anything be read. -/
theorem parsePartial_memberChain (limit n : Nat) :
    (parsePartial (memberChain n) { maxDepth := limit + 1 }).1.height 1 = n + 1 := by
  have hg := settled_ofRoom { maxDepth := limit + 1 } limit
  obtain ⟨e, last, hvalue, hheight⟩ := Parser.expressionBody_members hg n (some (bareToken (.operator .eq)))
  have hconst : (Parser.constDecl (Inner.ofRoom { maxDepth := limit + 1 } (limit + 1)) []).run
      { rest := memberChain n } = (.ok { modifiers := [], type := none, name := "a", value := e },
        { last := some (bareToken (.punctuation .semicolon)), rest := [] }) :=
    Parser.constDecl_ok.2
      ⟨rfl, rfl, _, _, Parser.constType_ok.2 (.inl ⟨rfl, rfl, rfl, rfl⟩), rfl, rfl, hvalue, rfl, rfl⟩
  have hk : ({ rest := memberChain n } : ParseState).peek.kind = .keyword .constKw := rfl
  have hform := Parser.modifiedForm_ok.2
    ⟨[], { rest := memberChain n }, .nil nofun rfl, .inr (.inl ⟨hk, _, hconst, rfl⟩)⟩
  have hdecl := Parser.declaration_ok.2
    ⟨_, Parser.declarationForm_ok.2 (.inr (.inr (.inr ⟨by simp [hk], by simp [hk], by simp [hk], hform⟩))), rfl⟩
  have hprogram : (Parser.program { maxDepth := limit + 1 }).run { rest := memberChain n } = _ :=
    (Parser.program_ok rfl).2 (.cons rfl (by simp [hk]) hdecl (.nil rfl))
  unfold parsePartial
  rw [show Parser.program { maxDepth := limit + 1 } { rest := memberChain n } = _ from hprogram]
  exact (Nat.max_zero _).trans ((Nat.zero_max _).trans hheight)

/-- So no bound on the height holds of all that is read at a limit. -/
theorem height_unbounded : ¬ ∀ limit, ∃ bound, ∀ tokens o, o.maxDepth = limit →
    (parsePartial tokens o).1.height 1 ≤ bound := by
  intro h
  obtain ⟨bound, h⟩ := h 1
  have := h (memberChain bound) { maxDepth := 1 } rfl
  rw [parsePartial_memberChain 0 bound] at this
  omega

end ElleFrontEnd
