import ElleFrontEnd.Proofs.TypeLookahead
import ElleFrontEnd.Layout.Program

/-!
# The words of a printed tree

The words of a source are its tokens but for those that only group or separate: `(`, `)`, `,` and `;`.  A `&&` counts as
two `&` and a `>>` as two `>`, since the printer writes them so before an operand and behind type arguments.

Parentheses are all that the printed forms of an expression differ in, so that its words do not depend on the place
where it is printed (`Expr.kept_layout`).  A part of the words, those of which `keep` holds, is spoken of throughout.
-/

namespace ElleFrontEnd

open Fragment

/-- The words of a token. -/
def TokenKind.words : TokenKind → List TokenKind
  | .punctuation .lParen | .punctuation .rParen | .punctuation .comma | .punctuation .semicolon => []
  | .operator .andAnd => [.operator .amp, .operator .amp]
  | .operator .shr => [.operator .gt, .operator .gt]
  | kind => [kind]

/-- The words of a token that are kept. -/
def TokenKind.kept (keep : TokenKind → Bool) (kind : TokenKind) : List TokenKind := kind.words.filter keep

/-- The words of tokens that are kept. -/
def wordsOf (keep : TokenKind → Bool) (kinds : List TokenKind) : List TokenKind := kinds.flatMap (TokenKind.kept keep)

/-- The words of fragments that are kept. -/
def Fragment.kept (keep : TokenKind → Bool) (f : List Fragment) : List TokenKind := wordsOf keep (tokens f)

variable {keep : TokenKind → Bool}

@[simp] theorem kept_lParen : (TokenKind.punctuation .lParen).kept keep = [] := rfl

@[simp] theorem kept_rParen : (TokenKind.punctuation .rParen).kept keep = [] := rfl

@[simp] theorem kept_comma : (TokenKind.punctuation .comma).kept keep = [] := rfl

@[simp] theorem kept_semicolon : (TokenKind.punctuation .semicolon).kept keep = [] := rfl

theorem kept_andAnd :
    (TokenKind.operator .andAnd).kept keep =
      (TokenKind.operator .amp).kept keep ++ (TokenKind.operator .amp).kept keep := by
  simp [TokenKind.kept, TokenKind.words, List.filter_cons]
  split <;> rfl

theorem kept_shr :
    (TokenKind.operator .shr).kept keep =
      (TokenKind.operator .gt).kept keep ++ (TokenKind.operator .gt).kept keep := by
  simp [TokenKind.kept, TokenKind.words, List.filter_cons]
  split <;> rfl

@[simp] theorem wordsOf_nil : wordsOf keep [] = [] := rfl

@[simp] theorem wordsOf_cons (k : TokenKind) (ks : List TokenKind) :
    wordsOf keep (k :: ks) = k.kept keep ++ wordsOf keep ks := rfl

@[simp] theorem wordsOf_append (ks ls : List TokenKind) :
    wordsOf keep (ks ++ ls) = wordsOf keep ks ++ wordsOf keep ls := List.flatMap_append

/-- What is kept of the words is what is kept of all words. -/
theorem wordsOf_eq_filter (ks : List TokenKind) : wordsOf keep ks = (wordsOf (fun _ => true) ks).filter keep := by
  induction ks with
  | nil => rfl
  | cons k ks ih => simp [ih, TokenKind.kept]

/-! ### Fragments -/

namespace Fragment

@[simp] theorem kept_nil : kept keep [] = [] := rfl

@[simp] theorem kept_token (k : TokenKind) (f : List Fragment) :
    kept keep (.token k :: f) = k.kept keep ++ kept keep f :=
  rfl

@[simp] theorem kept_space (f : List Fragment) : kept keep (space :: f) = kept keep f := rfl

@[simp] theorem kept_line (d : Nat) (f : List Fragment) : kept keep (line d :: f) = kept keep f := rfl

@[simp] theorem kept_append (f g : List Fragment) : kept keep (f ++ g) = kept keep f ++ kept keep g := by
  simp [kept]

@[simp] theorem kept_flatten (items : List (List Fragment)) :
    kept keep items.flatten = items.flatMap (kept keep) := by
  induction items with
  | nil => rfl
  | cons item items ih => simp [ih]

@[simp] theorem kept_parens (f : List Fragment) : kept keep (parens f) = kept keep f := by simp [parens]

@[simp] theorem kept_angles (f : List Fragment) : kept keep (angles f) =
    (TokenKind.operator .lt).kept keep ++ (kept keep f ++ (TokenKind.operator .gt).kept keep) := by
  simp [angles]

theorem kept_separated (sep item : List Fragment) (items : List (List Fragment)) :
    kept keep (separated sep (item :: items)) =
      kept keep item ++ items.flatMap fun i => kept keep sep ++ kept keep i := by
  induction items generalizing item with
  | nil => simp [separated]
  | cons next items ih =>
    have := ih next
    simp [separated] at this
    simp [separated, this]

@[simp] theorem kept_commas (items : List (List Fragment)) : kept keep (commas items) = items.flatMap (kept keep) := by
  cases items with
  | nil => rfl
  | cons item items => simp [commas, kept_separated, commaSpace]

end Fragment

/-! ### Types, expressions and statements -/

theorem typeListLayout_eq_map (ts : List TypeExpr) : typeListLayout ts = ts.map TypeExpr.layout := by
  induction ts with
  | nil => rfl
  | cons t ts ih => rw [typeListLayout, ih, List.map_cons]

variable (keep) in
/-- The words of an expression. -/
def Expr.kept (e : Expr) : List TokenKind := Fragment.kept keep (e.layout 0 true)

variable (keep) in
/-- The words of a directive. -/
def Directive.kept (d : Directive) : List TokenKind := Fragment.kept keep (d.layout 0)

variable (keep) in
/-- The words of a field of a struct literal. -/
def FieldInit.kept : FieldInit → List TokenKind
  | .mk _ n value => (TokenKind.ident n).kept keep ++ ((TokenKind.operator .eq).kept keep ++ value.kept keep)

variable (keep) in
/-- The words of a block. -/
def Block.kept (b : Block) : List TokenKind := Fragment.kept keep (b.layout 0)

variable (keep) in
/-- The words of a statement. -/
def Stmt.kept (s : Stmt) : List TokenKind := Fragment.kept keep (s.layout 0)

variable (keep) in
/-- The words of what follows the block of an `if`. -/
def Else.kept (o : Else) : List TokenKind := Fragment.kept keep (o.layout 0)

variable (keep) in
/-- The words of what a `for` loop starts with. -/
def ForInit.kept (i : ForInit) : List TokenKind := Fragment.kept keep (i.layout 0)

variable (keep) in
/-- The words of what a `for` loop does after each round. -/
def ForStep.kept (step : ForStep) : List TokenKind := Fragment.kept keep (step.layout 0)

/-- Parentheses that the printer adds do not change the words. -/
theorem kept_grouped {e : Expr} {depth : Nat} (h : ∀ o, Fragment.kept keep (e.layout depth o) = e.kept keep)
    (level : Nat) (openRight : Bool) :
    Fragment.kept keep (grouped level openRight e fun o => e.layout depth o) = e.kept keep := by
  unfold grouped
  split
  · rw [kept_parens, h]
  · exact h _

@[simp] theorem kept_headerLayout (condition : Expr) (f : List Fragment) :
    Fragment.kept keep (headerLayout condition f) = Fragment.kept keep f := by
  unfold headerLayout
  split <;> simp

@[simp] theorem kept_unarySpace (op : UnaryOp) (e : Expr) : Fragment.kept keep (unarySpace op e) = [] := by
  unfold unarySpace
  split
  · split <;> simp
  · rfl

@[simp] theorem kept_calleeSpace (e : Expr) : Fragment.kept keep (calleeSpace e) = [] := by
  unfold calleeSpace
  split <;> simp

@[simp] theorem kept_braces (depth : Nat) (statements : List (List Fragment)) :
    Fragment.kept keep (braces depth statements) = (TokenKind.punctuation .lBrace).kept keep ++
      (statements.flatMap (Fragment.kept keep) ++ (TokenKind.punctuation .rBrace).kept keep) := by
  unfold braces
  split
  · simp_all
  · have h : (Fragment.kept keep ∘ fun s => line (depth + 1) :: s) = Fragment.kept keep := by
      funext s
      simp
    simp [List.flatMap_map, Function.comp_def] at h ⊢

@[simp] theorem kept_ifLayout (condition body : List Fragment) :
    Fragment.kept keep (ifLayout condition body) = (TokenKind.keyword .ifKw).kept keep ++
      (Fragment.kept keep condition ++ Fragment.kept keep body) := by
  simp [ifLayout]

@[simp] theorem kept_assignLayout (target value : List Fragment) (form : AssignOp) :
    Fragment.kept keep (assignLayout target form value) = Fragment.kept keep target ++
      ((TokenKind.operator form.operator).kept keep ++ Fragment.kept keep value) := by
  simp [assignLayout]

/-- A declaration of a variable has the same words wherever its value is printed. -/
theorem kept_bindingLayout {binding : Binding} {type : Option TypeExpr} {n : String} {v w : List Fragment}
    (h : Fragment.kept keep v = Fragment.kept keep w) :
    Fragment.kept keep (bindingLayout binding type n (some v)) =
      Fragment.kept keep (bindingLayout binding type n (some w)) := by
  cases binding <;> cases type <;> simp [bindingLayout, h]

mutual

/-- The words of an expression are the same wherever it is printed. -/
theorem Expr.kept_layout (d : Nat) (o : Bool) : (e : Expr) → Fragment.kept keep (e.layout d o) = e.kept keep
  | .binary _ left _ right => by
    rw [Expr.kept]
    simp [Expr.layout, kept_grouped (left.kept_layout _), kept_grouped (right.kept_layout _)]
  | .range _ start stop _ => by
    rw [Expr.kept]
    simp [Expr.layout, kept_grouped (start.kept_layout _), kept_grouped (stop.kept_layout _)]
  | .unary _ _ operand => by
    rw [Expr.kept]
    simp [Expr.layout, kept_grouped (operand.kept_layout _)]
  | .cast _ _ operand => by
    rw [Expr.kept]
    simp only [Expr.layout]
    split <;> simp [operand.kept_layout, kept_grouped (operand.kept_layout _)]
  | .call _ callee _ args => by
    rw [Expr.kept]
    simp [Expr.layout, kept_grouped (callee.kept_layout _), kept_exprListLayout _ args]
  | .member _ object _ => by
    rw [Expr.kept]
    simp [Expr.layout, kept_grouped (object.kept_layout _)]
  | .subscript _ object index => by
    rw [Expr.kept]
    simp [Expr.layout, kept_grouped (object.kept_layout _), index.kept_layout]
  | .conditional _ condition none alternative => by
    rw [Expr.kept]
    simp [Expr.layout, kept_grouped (condition.kept_layout _), kept_grouped (alternative.kept_layout _)]
  | .conditional _ condition (some chosen) alternative => by
    rw [Expr.kept]
    simp [Expr.layout, kept_grouped (condition.kept_layout _), chosen.kept_layout,
      kept_grouped (alternative.kept_layout _)]
  | .paren _ inner => by
    rw [Expr.kept]
    simp [Expr.layout, inner.kept_layout]
  | .ident _ _ | .qualified _ _ | .rawName _ _ | .number _ _ | .str _ _ | .bool _ _ | .char _ _ | .sigil _ _ none => by
    rw [Expr.kept, Expr.layout, Expr.layout]
  | .array _ _ _ elements => by
    rw [Expr.kept]
    simp [Expr.layout, kept_exprListLayout _ elements]
  | .tuple _ first second => by
    rw [Expr.kept]
    simp [Expr.layout, first.kept_layout, second.kept_layout]
  | .triple _ first second third => by
    rw [Expr.kept]
    simp [Expr.layout, first.kept_layout, second.kept_layout, third.kept_layout]
  | .structLit _ _ _ fields => by
    rw [Expr.kept]
    simp only [Expr.layout]
    split <;> simp [kept_fieldInitListLayout _ fields]
  | .lambda _ _ body => by
    rw [Expr.kept]
    simp [Expr.layout, kept_grouped (body.kept_layout _)]
  | .blockLambda _ _ body => by
    rw [Expr.kept]
    simp [Expr.layout, body.kept_layout]
  | .directive _ directive => by
    rw [Expr.kept]
    simp [Expr.layout, directive.kept_layout]
  | .sigil _ _ (some args) => by
    rw [Expr.kept]
    simp [Expr.layout, kept_exprListLayout _ args]

theorem kept_exprListLayout (d : Nat) : (es : List Expr) →
    (exprListLayout d es).flatMap (Fragment.kept keep) = es.flatMap (Expr.kept keep)
  | [] => by rw [exprListLayout, List.flatMap_nil, List.flatMap_nil]
  | e :: es => by rw [exprListLayout, List.flatMap_cons, List.flatMap_cons, e.kept_layout, kept_exprListLayout d es]

theorem kept_fieldInitListLayout (d : Nat) : (fields : List FieldInit) →
    (fieldInitListLayout d fields).flatMap (Fragment.kept keep) = fields.flatMap (FieldInit.kept keep)
  | [] => by rw [fieldInitListLayout, List.flatMap_nil, List.flatMap_nil]
  | .mk _ _ value :: fields => by
    rw [fieldInitListLayout, List.flatMap_cons, List.flatMap_cons, kept_fieldInitListLayout d fields, FieldInit.kept]
    simp [value.kept_layout]

theorem Directive.kept_layout (d : Nat) : (x : Directive) → Fragment.kept keep (x.layout d) = x.kept keep
  | .len value | .free value | .setAllocator value => by
    rw [Directive.kept]
    simp [Directive.layout, value.kept_layout]
  | .size _ | .ident _ | .env | .alloc _ none | .resetAllocator => by
    rw [Directive.kept, Directive.layout, Directive.layout]
  | .alloc _ (some count) => by
    rw [Directive.kept]
    simp [Directive.layout, count.kept_layout]
  | .realloc pointer _ none => by
    rw [Directive.kept]
    simp [Directive.layout, pointer.kept_layout]
  | .realloc pointer _ (some count) => by
    rw [Directive.kept]
    simp [Directive.layout, pointer.kept_layout, count.kept_layout]

theorem Block.kept_layout (d : Nat) : (b : Block) → Fragment.kept keep (b.layout d) = b.kept keep
  | .mk _ statements => by
    rw [Block.kept]
    simp [Block.layout, kept_stmtListLayout _ statements]

theorem kept_stmtListLayout (d : Nat) : (ss : List Stmt) →
    (stmtListLayout d ss).flatMap (Fragment.kept keep) = ss.flatMap (Stmt.kept keep)
  | [] => by rw [stmtListLayout, List.flatMap_nil, List.flatMap_nil]
  | s :: ss => by rw [stmtListLayout, List.flatMap_cons, List.flatMap_cons, s.kept_layout, kept_stmtListLayout d ss]

theorem Stmt.kept_layout (d : Nat) : (s : Stmt) → Fragment.kept keep (s.layout d) = s.kept keep
  | .expr _ value | .defer _ value | .returnValue _ (some value) => by
    rw [Stmt.kept]
    simp [Stmt.layout, value.kept_layout]
  | .varDecl _ _ _ _ none | .breakLoop _ | .continueLoop _ | .returnValue _ none => by
    rw [Stmt.kept, Stmt.layout, Stmt.layout]
  | .varDecl _ _ _ _ (some init) => by
    rw [Stmt.kept, Stmt.layout, Stmt.layout, kept_append, kept_append,
      kept_bindingLayout ((init.kept_layout d true).trans (init.kept_layout 0 true).symm)]
  | .assign _ target _ value => by
    rw [Stmt.kept]
    simp [Stmt.layout, target.kept_layout, value.kept_layout]
  | .ifElse _ condition body otherwise => by
    rw [Stmt.kept]
    simp [Stmt.layout, condition.kept_layout, body.kept_layout, otherwise.kept_layout]
  | .whileLoop _ condition body => by
    rw [Stmt.kept]
    simp [Stmt.layout, condition.kept_layout, body.kept_layout]
  | .forLoop _ init condition step body => by
    rw [Stmt.kept]
    simp [Stmt.layout, init.kept_layout, condition.kept_layout, step.kept_layout, body.kept_layout]
  | .forEach _ _ iterable body => by
    rw [Stmt.kept]
    simp [Stmt.layout, iterable.kept_layout, body.kept_layout]
  | .block _ statements => by
    rw [Stmt.kept]
    simp [Stmt.layout, kept_stmtListLayout _ statements]
  | .buffer _ _ _ size => by
    rw [Stmt.kept]
    simp [Stmt.layout, size.kept_layout]

theorem Else.kept_layout (d : Nat) : (o : Else) → Fragment.kept keep (o.layout d) = o.kept keep
  | .absent => rfl
  | .block body => by
    rw [Else.kept]
    simp [Else.layout, body.kept_layout]
  | .elseIf _ condition body otherwise => by
    rw [Else.kept]
    simp [Else.layout, condition.kept_layout, body.kept_layout, otherwise.kept_layout]

theorem ForInit.kept_layout (d : Nat) : (i : ForInit) → Fragment.kept keep (i.layout d) = i.kept keep
  | .varDecl _ _ _ _ none => by rw [ForInit.kept, ForInit.layout, ForInit.layout]
  | .varDecl _ _ _ _ (some init) => by
    rw [ForInit.kept, ForInit.layout, ForInit.layout,
      kept_bindingLayout ((init.kept_layout d true).trans (init.kept_layout 0 true).symm)]
  | .expr value => by
    rw [ForInit.kept]
    simp [ForInit.layout, value.kept_layout]

theorem ForStep.kept_layout (d : Nat) : (step : ForStep) → Fragment.kept keep (step.layout d) = step.kept keep
  | .assign _ target _ value => by
    rw [ForStep.kept]
    simp [ForStep.layout, target.kept_layout, value.kept_layout]
  | .expr value => by
    rw [ForStep.kept]
    simp [ForStep.layout, value.kept_layout]

end

attribute [simp] Expr.kept_layout kept_exprListLayout kept_fieldInitListLayout Directive.kept_layout
  Block.kept_layout kept_stmtListLayout Stmt.kept_layout Else.kept_layout ForInit.kept_layout ForStep.kept_layout

@[simp] theorem kept_grouped_layout (e : Expr) (depth level : Nat) (openRight : Bool) :
    Fragment.kept keep (grouped level openRight e fun o => e.layout depth o) = e.kept keep :=
  kept_grouped (e.kept_layout depth) level openRight

/-- An expression has the same words in parentheses and without them. -/
theorem Expr.kept_unparenthesized (e : Expr) : e.unparenthesized.kept keep = e.kept keep := by
  cases e with
  | paren span inner =>
    rw [Expr.kept.eq_def keep (.paren span inner)]
    simp [Expr.layout, Expr.unparenthesized]
  | _ => rfl

end ElleFrontEnd
