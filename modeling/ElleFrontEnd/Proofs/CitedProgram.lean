import ElleFrontEnd.Proofs.Cited
import ElleFrontEnd.Proofs.OutlineProgram

/-!
# Where the diagnostics of the grammar point

Every parser of the grammar fails with, and records, only what points into the source (`Parser.Cites`).  Nearly all
failures point to the next token.  The others point back to the token that opened the construct, or to a part of it that
has been read: a tuple of the wrong size, a directive that is not known, a buffer at the head of a loop, the body of an
external function.
-/

namespace ElleFrontEnd

/-- The parsers of nested constructs only cite what stands in the text. -/
structure Inner.Cites (text : List Char) (g : Inner) : Prop where
  type : ∀ angles n, (g.type angles).Cites text n
  expression : ∀ header n, (g.expression header).Cites text n
  chain : ∀ header level n, (g.chain header level).Cites text n
  unary : ∀ header n, (g.unary header).Cites text n
  block : ∀ n, g.block.Cites text n
  elseIf : ∀ n, g.elseIf.Cites text n

namespace Parser

namespace Cites

variable {α : Type} {text : List Char} {n : Nat} {s : ParseState}

/-! ### Types -/

theorem tooDeep (limit : Nat) : Cites text n (Parser.tooDeep limit : Parser α) := fun _ hc hn => .fails hc hn hc.peek

theorem starRun : Cites text n Parser.starRun :=
  grow (fun _ => (accept _).bind fun _ => ite (pure _) (pure _)) 0

theorem bracketRun : Cites text n Parser.bracketRun :=
  grow (fun _ => (look _).bind fun _ => ite (skip.bind fun _ => skip.bind fun _ => pure _) (pure _)) 0

theorem typeSuffix (start : Nat) (t : TypeExpr) : Cites text n (Parser.typeSuffix start t) := by
  refine (look _).bind fun _ => ite (pure _) ((look _).bind fun _ => ite ?_ ((look _).bind fun _ => ite ?_ (pure _)))
  · exact starRun.bind fun _ => (look _).bind fun _ => pure _
  · exact bracketRun.bind fun _ => (look _).bind fun _ => pure _

theorem closeAngle (angles : Nat) : Cites text n (Parser.closeAngle angles) := by
  have howed (f : Nat → Nat) : Cites text n (Parser.change fun s => { s with owed := f s.owed }) :=
    change (fun _ => rfl) (fun _ => rfl) fun _ => rfl
  refine (look _).bind fun _ => ite (howed (· - 1)) ((accept _).bind fun _ => ite (pure _) ?_)
  exact ite ((accept _).bind fun _ => ite (howed (· + 1)) (unexpected _)) (unexpected _)

theorem typeParams : Cites text n Parser.typeParams := by
  refine (accept _).bind fun _ => ite ?_ (pure _)
  exact (separatedBy _ identifier).bind fun _ => (expect _ _).bind fun _ => pure _

section
variable {type : Nat → Parser TypeExpr} (ht : ∀ angles n, Cites text n (type angles))
include ht

theorem typeArgs (angles : Nat) : Cites text n (Parser.typeArgs type angles) := by
  refine (expect _ _).bind fun _ => (collect ?_).bind fun _ => (closeAngle _).bind fun _ => pure _
  exact (ht _ _).bind fun _ => (look _).bind fun _ => ite (pure _) ((accept _).bind fun _ => ite (pure _) (pure _))

theorem namedType (angles start : Nat) (name : String) : Cites text n (Parser.namedType type angles start name) := by
  refine skip.bind fun _ => (look _).bind fun _ => (look _).bind fun _ => ite ?_ ((look _).bind fun _ => pure _)
  exact (typeArgs ht angles).bind fun _ => (look _).bind fun _ => pure _

/-- A pair without its comma is cited from its parenthesis on. -/
theorem kept_tupleType (angles : Nat) (hc : Cited text s) (hn : n ≤ s.readStop) (hk : s.peek.kind ≠ .eof) :
    Kept text n (Parser.tupleType type angles s.start s) := by
  unfold Parser.tupleType
  refine kept_skip hc hn hk fun hb => (ht _ _).bind fun _ => (accept _).bind fun _ => ite (failFrom hb fun _ => rfl) ?_
  refine (ht _ _).bind fun _ => (look _).bind fun _ => ite (failHere fun _ => rfl) ?_
  exact (closing _ _).bind fun _ => (look _).bind fun _ => pure _

theorem kept_baseType (angles : Nat) (hc : Cited text s) (hn : n ≤ s.readStop) :
    Kept text n (Parser.baseType type angles s.start s) := by
  unfold Parser.baseType
  refine kept_look ?_
  generalize hk : s.peek.kind = kind
  split
  · exact skip.bind (fun _ => (look _).bind fun _ => pure _) s hc hn
  · exact namedType ht _ _ _ s hc hn
  · exact kept_tupleType ht _ hc hn (by simp [hk])
  · exact .fails hc hn hc.peek

theorem typeBody (angles : Nat) : Cites text n (Parser.typeBody type angles) :=
  fun _ hc hn => (kept_baseType ht angles hc hn).bind fun _ s' _ hc' hn' => grow (typeSuffix _) _ s' hc' hn'

omit ht in
theorem typeExpr (limit room angles : Nat) : ∀ n, Cites text n (Parser.typeExpr limit room angles) := by
  induction room generalizing angles with
  | zero => exact fun _ => tooDeep limit
  | succ room ih => exact fun _ => typeBody ih angles

end

/-! ### Expressions -/

theorem requireOperand (op : Operator) : Cites text n (Parser.requireOperand op) := by
  intro s hc hn
  unfold Parser.requireOperand
  split
  · exact .ok hc hn _
  · exact .fails hc hn hc.peek

theorem pathTail : Cites text n Parser.pathTail :=
  collect ((accept _).bind fun _ => ite (identifier.bind fun _ => pure _) (pure _))

theorem metaBinding : Cites text n Parser.metaBinding := by
  refine (look _).bind fun _ => (look _).bind fun _ => ite ?_ (pure _)
  refine skip.bind fun _ => identifier.bind fun _ => (look _).bind fun _ => ite (pure _) ?_
  exact (expect _ _).bind fun _ => pure _

theorem wrongOperands (d : DirectiveName) : Cites text n (Parser.wrongOperands d : Parser α) :=
  fun _ hc hn => .fails hc hn hc.peek

theorem operand (d : DirectiveName) (isFirst : Bool) {p : Parser α} (hp : Cites text n p) :
    Cites text n (Parser.operand d isFirst p) := by
  have hrest (separated : Bool) : Cites text n
      (if !separated then Parser.wrongOperands d
        else do if ← Parser.atMark .rParen then Parser.wrongOperands d else p) :=
    ite (wrongOperands d) ((look _).bind fun _ => ite (wrongOperands d) hp)
  cases isFirst with
  | true => exact hrest true
  | false => exact (accept _).bind hrest

theorem operandList (d : DirectiveName) {p : Parser α} (hp : Cites text n p) :
    Cites text n (Parser.operandList d p) := by
  refine (withHint _ (expect _ _)).bind fun _ => hp.bind fun _ => (look _).bind fun _ => ?_
  exact (look _).bind fun _ => ite (wrongOperands d) ((closing _ _).bind fun _ => pure _)

/-- A literal of the wrong size is cited as a whole. -/
theorem wrongSize (form : FixedLiteral) (found : Nat) (hb : OnBoundary text n) :
    Cites text n (Parser.wrongSize form found n : Parser α) := failFrom hb fun _ => rfl

theorem literal (start : Nat) (build : Span → Expr) : Cites text n (Parser.literal start build) :=
  skip.bind fun _ => (look _).bind fun _ => pure _

section
variable {g : Inner} {header : Bool} (hg : g.Cites text)
include hg

theorem exprList (close : Punctuation) (opened : Span) : Cites text n (Parser.exprList g close opened) :=
  (commaList _ (hg.expression _ _)).bind fun _ => (closing _ _).bind fun _ => pure _

theorem arguments : Cites text n (Parser.arguments g) := (expect _ _).bind fun _ => exprList hg _ _

theorem param : Cites text n (Parser.param g) := by
  refine (look _).bind fun _ => (accept _).bind fun _ =>
    ite ?_ ((look _).bind fun _ => (look _).bind fun _ => ite ?_ ?_)
  · refine (look _).bind fun _ => ite ?_ ((look _).bind fun _ => pure _)
    exact identifier.bind fun _ => (look _).bind fun _ => pure _
  · refine skip.bind fun _ => skip.bind fun _ => (hg.type _ _).bind fun _ => ?_
    exact identifier.bind fun _ => (look _).bind fun _ => pure _
  · refine (hg.type _ _).bind fun _ => (look _).bind fun _ => ite ?_ ((look _).bind fun _ => pure _)
    exact identifier.bind fun _ => (look _).bind fun _ => pure _

theorem paramList : Cites text n (Parser.paramList g) := by
  refine (expect _ _).bind fun _ => metaBinding.bind fun _ => (commaList _ (param hg)).bind fun _ => ?_
  exact (closing _ _).bind fun _ => pure _

theorem lambda : Cites text n (Parser.lambda g header) := by
  refine (expect _ _).bind fun _ => (paramList hg).bind fun _ => (look _).bind fun _ => ite ?_ ?_
  · exact (hg.block _).bind fun _ => (look _).bind fun _ => pure _
  · exact (hg.expression _ _).bind fun _ => (look _).bind fun _ => pure _

theorem fieldInit : Cites text n (Parser.fieldInit g) := by
  refine (look _).bind fun _ => identifier.bind fun _ => (expect _ _).bind fun _ => ?_
  exact (hg.expression _ _).bind fun _ => (look _).bind fun _ => pure _

theorem structTypeArgs : Cites text n (Parser.structTypeArgs g) := by
  refine (look _).bind fun _ => (look _).bind fun _ => ite ?_ (pure _)
  refine (typeArgs hg.type 0).attempt.bind fun o => ?_
  cases o with
  | none => exact pure _
  | some args => exact (look _).bind fun _ => ite (pure _) (pure _)

theorem structLiteral? (start : Nat) (name : String) : Cites text n (Parser.structLiteral? g start name) := by
  refine save fun saved hp hn => (structTypeArgs hg).bind fun o => ?_
  have hback : Cites text n (do Parser.change (·.rewindTo saved); Pure.pure none : Parser (Option Expr)) :=
    (rewind hp hn).bind fun _ => pure _
  cases o with
  | none => exact hback
  | some generics =>
    refine (look _).bind fun _ => ite ?_ hback
    refine skip.bind fun _ => (commaList _ (fieldInit hg)).bind fun _ => (closing _ _).bind fun _ => ?_
    exact (look _).bind fun _ => pure _

theorem nameExpr : Cites text n (Parser.nameExpr g header) := by
  have hname (start : Nat) (name : String) :
      Cites text n (do Pure.pure (.ident (← Parser.spanFrom start) name) : Parser Expr) := (look _).bind fun _ => pure _
  refine (look _).bind fun _ => identifier.bind fun _ => (look _).bind fun _ => ite ?_ (ite (hname _ _) ?_)
  · exact pathTail.bind fun _ => (look _).bind fun _ => pure _
  · refine (structLiteral? hg _ _).bind fun o => ?_
    cases o with
    | none => exact hname _ _
    | some literal => exact pure _

theorem arrayLiteral (start : Nat) (isStatic : Bool) : Cites text n (Parser.arrayLiteral g start isStatic) := by
  have helement : Cites text n (do
      let type ← g.type 0
      let _ ← expectMark .semicolon
      Pure.pure type) := (hg.type _ _).bind fun _ => (expect _ _).bind fun _ => pure _
  refine (expect _ _).bind fun _ => helement.attempt.bind fun _ => (exprList hg _ _).bind fun _ => ?_
  exact (look _).bind fun _ => pure _

theorem optionalOperand : Cites text n (Parser.optionalOperand g) :=
  (accept _).bind fun _ => ite ((hg.expression _ _).bind fun _ => pure _) (pure _)

theorem typeOperand (d : DirectiveName) : Cites text n (Parser.typeOperand g d) :=
  withHint _ (hg.type _ _)

theorem directiveOf (d : DirectiveName) : Cites text n (Parser.directiveOf g d) := by
  have hvalue (isFirst : Bool) : Cites text n (Parser.operand d isFirst (g.expression false)) :=
    operand d isFirst (hg.expression _ _)
  have htype (isFirst : Bool) : Cites text n (Parser.operand d isFirst (Parser.typeOperand g d)) :=
    operand d isFirst (typeOperand hg d)
  cases d with
  | len => exact operandList _ ((hvalue _).bind fun _ => pure _)
  | size => exact operandList _ ((htype _).bind fun _ => pure _)
  | ident => exact operandList _ ((operand _ _ identifier).bind fun _ => pure _)
  | env => exact (look _).bind fun _ => ite (wrongOperands _) (pure _)
  | alloc => exact operandList _ ((htype _).bind fun _ => (optionalOperand hg).bind fun _ => pure _)
  | realloc =>
    refine operandList _ ((hvalue _).bind fun _ => (htype _).bind fun _ => ?_)
    exact (optionalOperand hg).bind fun _ => pure _
  | free => exact operandList _ ((hvalue _).bind fun _ => pure _)
  | setAllocator => exact operandList _ ((hvalue _).bind fun _ => pure _)
  | resetAllocator => exact operandList _ (pure _)

/-- A directive that is not known is cited with its `#`. -/
theorem hashExpr : Cites text n (Parser.hashExpr g) := by
  refine opened (by simp) fun opened hb => (look _).bind fun _ => ite (arrayLiteral hg _ _) ?_
  refine (look _).bind fun kind => ?_
  split
  · rename_i name
    intro s hc hn
    refine (skip s hc hn).bind fun nameSpan s' hskip hc' hn' => ?_
    cases DirectiveName.ofSpelling? name with
    | none =>
      obtain ⟨rfl, -⟩ : s.peek.span = nameSpan ∧ s.advance = s' := by simpa [run, Parser.skip] using hskip
      have hle := (hn.trans hc.placed.readStop_le_start).trans hc.placed.peek.le
      exact .fails hc' hn' (.intro hb hc.placed.peek.stop hle)
    | some d => exact ((directiveOf hg d).bind fun _ => (look _).bind fun _ => pure _) s' hc' hn'
  · exact unexpected _

theorem dollarExpr : Cites text n (Parser.dollarExpr g) := by
  refine opened (by simp) fun opened hb => (look _).bind fun _ => (look _).bind fun _ => (look _).bind fun _ => ?_
  refine (look _).bind fun _ => ite ?_ ((look _).bind fun _ => ite ?_ ((look _).bind fun _ => ite ?_ (unexpected _)))
  · refine skip.bind fun _ => (arguments hg).bind fun items => ?_
    split
    · exact (look _).bind fun _ => pure _
    · exact wrongSize _ _ hb
  · refine (arguments hg).bind fun items => ?_
    split
    · exact (look _).bind fun _ => pure _
    · exact wrongSize _ _ hb
  · refine identifier.bind fun _ => (look _).bind fun _ => (look _).bind fun _ => ite ?_ ((look _).bind fun _ => pure _)
    exact (arguments hg).bind fun _ => (look _).bind fun _ => pure _

theorem parenthesized (start : Nat) : Cites text n (Parser.parenthesized g start) := by
  refine skip.bind fun _ => (hg.expression _ _).bind fun _ => (closing _ _).bind fun _ => ?_
  exact (look _).bind fun _ => pure _

theorem primary : Cites text n (Parser.primary g header) := by
  refine (look _).bind fun _ => (look _).bind fun kind => ?_
  split
  · exact literal _ _
  · exact literal _ _
  · exact literal _ _
  · exact literal _ _
  · exact literal _ _
  · exact lambda hg
  · exact nameExpr hg
  · exact parenthesized hg _
  · exact arrayLiteral hg _ _
  · exact hashExpr hg
  · exact dollarExpr hg
  · exact fun _ hc hn => .fails hc hn hc.peek

theorem callTypeArgs : Cites text n (Parser.callTypeArgs g) := by
  refine (typeArgs hg.type 0).bind fun _ => (look _).bind fun _ => ite (unexpected _) ?_
  exact (look _).bind fun _ => ite (pure _) (unexpected _)

theorem genericCall? (start : Nat) (callee : Expr) : Cites text n (Parser.genericCall? g start callee) := by
  refine (callTypeArgs hg).attempt.bind fun o => ?_
  cases o with
  | none => exact pure _
  | some generics => exact (arguments hg).bind fun _ => (look _).bind fun _ => pure _

theorem suffixStep (start : Nat) (e : Expr) : Cites text n (Parser.suffixStep g start e) := by
  refine (look _).bind fun _ => ite ?_ ((look _).bind fun _ => (look _).bind fun _ => ite (genericCall? hg _ _) ?_)
  · exact (arguments hg).bind fun _ => (look _).bind fun _ => pure _
  · refine (accept _).bind fun _ => ite ?_ ((look _).bind fun _ => ite ?_ (pure _))
    · exact identifier.bind fun _ => (look _).bind fun _ => pure _
    · refine skip.bind fun _ => (hg.expression _ _).bind fun _ => (closing _ _).bind fun _ => ?_
      exact (look _).bind fun _ => pure _

theorem operandExpr : Cites text n (Parser.operandExpr g header) :=
  (look _).bind fun _ => (primary hg).bind fun _ => grow (suffixStep hg _) _

theorem castType : Cites text n (Parser.castType g) := (hg.type _ _).bind fun _ => (expect _ _).bind fun _ => pure _

theorem cast? : Cites text n (Parser.cast? g header) := by
  refine save fun saved hp hn => skip.bind fun _ => (castType hg).attempt.bind fun o => ?_
  have hback : Cites text n (do Parser.change (·.rewindTo saved); Pure.pure none : Parser (Option Expr)) :=
    (rewind hp hn).bind fun _ => pure _
  cases o with
  | none => exact hback
  | some type =>
    refine (look _).bind fun _ => ite ?_ hback
    exact (hg.unary _ _).bind fun _ => (look _).bind fun _ => pure _

theorem unaryBody : Cites text n (Parser.unaryBody g header) := by
  refine (look _).bind fun _ => (look _).bind fun kind => ?_
  split
  · split
    · refine skip.bind fun _ => (requireOperand _).bind fun _ => (hg.unary _ _).bind fun _ => ?_
      exact (look _).bind fun _ => pure _
    · refine ite ?_ (operandExpr hg)
      refine skip.bind fun _ => (requireOperand _).bind fun _ => (hg.unary _ _).bind fun _ => ?_
      exact (look _).bind fun _ => pure _
  · refine (cast? hg).bind fun o => ?_
    cases o with
    | none => exact operandExpr hg
    | some e => exact pure _
  · exact operandExpr hg

theorem chainStep (level : Nat) (left : Expr) : Cites text n (Parser.chainStep g header level left) := by
  refine (look _).bind fun kind => ?_
  split
  · exact pure _
  · split
    · exact pure _
    · refine ite (pure _) (skip.bind fun _ => (requireOperand _).bind fun _ => ?_)
      exact (hg.chain _ _ _).bind fun _ => pure _

theorem chainBody (level : Nat) : Cites text n (Parser.chainBody g header level) :=
  (unaryBody hg).bind fun _ => grow (chainStep hg _) _

theorem expressionBody : Cites text n (Parser.expressionBody g header) := by
  refine (chainBody hg 1).bind fun _ => (accept _).bind fun _ => ite ?_ (pure _)
  have hchosen : Cites text n (Parser.consequence g header) :=
    (look _).bind fun _ => ite (pure _) ((hg.expression _ _).bind fun _ => pure _)
  exact hchosen.bind fun _ => (expect _ _).bind fun _ => (hg.expression _ _).bind fun _ => pure _

/-! ### Statements -/

theorem initializer : Cites text n (Parser.initializer g header) :=
  (accept _).bind fun _ => ite ((hg.expression _ _).bind fun _ => pure _) (pure _)

theorem typeAndName : Cites text n (Parser.typeAndName g) :=
  (hg.type _ _).bind fun _ => identifier.bind fun _ => pure _

theorem typedBinding (type : TypeExpr) (name : String) : Cites text n (Parser.typedBinding g header type name) := by
  refine (look _).bind fun _ => ite ?_ ((initializer hg).bind fun _ => pure _)
  exact skip.bind fun _ => (hg.expression _ _).bind fun _ => (closing _ _).bind fun _ => pure _

theorem binding? : Cites text n (Parser.binding? g header) := by
  refine (accept _).bind fun _ => ite ?_ ((look _).bind fun _ => (look _).bind fun _ => ite ?_ ?_)
  · exact identifier.bind fun _ => (initializer hg).bind fun _ => pure _
  · exact identifier.bind fun _ => skip.bind fun _ => (hg.expression _ _).bind fun _ => pure _
  · refine (look _).bind fun _ => (look _).bind fun _ => ite (pure _) ((typeAndName hg).attempt.bind fun o => ?_)
    cases o with
    | none => exact pure _
    | some parts => exact (typedBinding hg _ _).bind fun _ => pure _

theorem assignment? : Cites text n (Parser.assignment? g header) := by
  refine (look _).bind fun kind => ?_
  split
  · exact pure _
  · split
    · exact pure _
    · exact skip.bind fun _ => (requireOperand _).bind fun _ => (hg.expression _ _).bind fun _ => pure _

theorem simpleStatement : Cites text n (Parser.simpleStatement g) := by
  refine (binding? hg).bind fun o => ?_
  cases o with
  | some form => exact pure _
  | none =>
    refine (hg.expression _ _).bind fun _ => (assignment? hg).bind fun o => ?_
    cases o <;> exact pure _

theorem headerCondition : Cites text n (Parser.headerCondition g) := (hg.expression _ _).bind fun _ => pure _

theorem elsePart : Cites text n (Parser.elsePart g) := by
  refine (accept _).bind fun _ => ite ((look _).bind fun _ => ite ?_ ?_) (pure _)
  · exact (look _).bind fun _ => (hg.elseIf _).bind fun _ => (look _).bind fun _ => pure _
  · exact (hg.block _).bind fun _ => pure _

theorem ifBody : Cites text n (Parser.ifBody g) := by
  refine (expect _ _).bind fun _ => (headerCondition hg).bind fun _ => (hg.block _).bind fun _ => ?_
  exact (elsePart hg).bind fun _ => pure _

theorem forStep : Cites text n (Parser.forStep g header) := by
  refine (look _).bind fun _ => (hg.expression _ _).bind fun _ => (assignment? hg).bind fun o => ?_
  cases o with
  | none => exact pure _
  | some parts => exact (look _).bind fun _ => pure _

theorem forEachRest : Cites text n (Parser.forEachRest g) := by
  refine identifier.bind fun _ => skip.bind fun _ => (hg.expression _ _).bind fun _ => ?_
  exact (hg.block _).bind fun _ => pure _

theorem returnStatement : Cites text n (Parser.returnStatement g) := by
  refine skip.bind fun _ => (look _).bind fun _ => ite (semicolon.bind fun _ => pure _) ?_
  exact (hg.expression _ _).bind fun _ => semicolon.bind fun _ => pure _

section
variable (ho : g.Outlined text) (hs : g.Settled)
include ho hs

/-- A buffer at the head of a loop is cited as a whole. -/
theorem forInit : Cites text n (Parser.forInit g header) := by
  intro s hc hn
  unfold Parser.forInit
  refine kept_look ((binding? hg s hc hn).bind fun o s' hrun hc' hn' => ?_)
  match o, hrun with
  | some (.variable binding type name init), _ => exact ((look _).bind fun _ => pure _) s' hc' hn'
  | some (.buffer type name size), hrun =>
    have hlt := start_lt_of_binding ho hs hc.placed hrun
    exact (failFrom hc.placed.peek.start (fun _ => rfl) s' hc' hlt.le).mono (hn.trans hc.placed.readStop_le_start)
  | none, _ => exact ((hg.expression _ _).bind fun _ => pure _) s' hc' hn'

theorem forHeader : Cites text n (Parser.forHeader g header) := by
  refine (forInit hg ho hs).bind fun _ => semicolon.bind fun _ => (hg.expression _ _).bind fun _ => ?_
  exact semicolon.bind fun _ => (forStep hg).bind fun _ => pure _

theorem forLoopRest : Cites text n (Parser.forLoopRest g) := by
  refine (look _).bind fun _ => ite ?_ ?_
  · refine skip.bind fun _ => (forHeader hg ho hs).bind fun _ => (closing _ _).bind fun _ => ?_
    exact (hg.block _).bind fun _ => pure _
  · exact (forHeader hg ho hs).bind fun _ => (hg.block _).bind fun _ => pure _

theorem forStatement : Cites text n (Parser.forStatement g) :=
  (expect _ _).bind fun _ => (look _).bind fun _ => (look _).bind fun _ => ite (forEachRest hg) (forLoopRest hg ho hs)

theorem statementForm : Cites text n (Parser.statementForm g) := by
  refine (look _).bind fun kind => ?_
  split
  · exact (ifBody hg).bind fun _ => pure _
  · exact skip.bind fun _ => (headerCondition hg).bind fun _ => (hg.block _).bind fun _ => pure _
  · exact forStatement hg ho hs
  · exact skip.bind fun _ => (hg.expression _ _).bind fun _ => semicolon.bind fun _ => pure _
  · exact returnStatement hg
  · exact skip.bind fun _ => semicolon.bind fun _ => pure _
  · exact skip.bind fun _ => semicolon.bind fun _ => pure _
  · exact (hg.block _).bind fun _ => pure _
  · exact (simpleStatement hg).bind fun _ => semicolon.bind fun _ => pure _

theorem statement : Cites text n (Parser.statement g) :=
  (look _).bind fun _ => (statementForm hg ho hs).bind fun _ => (look _).bind fun _ => pure _

omit hg ho hs in
theorem toNextStatement : Cites text n (Parser.change Parser.toNextStatement) :=
  advances (Alike.advances fun ts => Alike.toNextStatement (.refl ts)) fun _ => rfl

theorem blockRound (o : ParseOptions) (opened : Span) : Cites text n (Parser.blockRound o g opened) := by
  refine (accept _).bind fun _ => ite (pure _) ((look _).bind fun _ => ite (failHere fun _ => rfl) ?_)
  refine (accept _).bind fun _ => ite (pure _) (outcome (statement hg ho hs) (fun _ => pure _) fun e he => ?_)
  exact ite ((record he).bind fun _ => toNextStatement.bind fun _ => pure _) (fail he)

theorem blockBody (o : ParseOptions) : Cites text n (Parser.blockBody o g) :=
  (expect _ _).bind fun _ => (collect (blockRound hg ho hs o _)).bind fun _ => (look _).bind fun _ => pure _

end

end

/-- At every depth, the parsers of nested constructs only cite what stands in the text. -/
theorem ofRoom (text : List Char) (o : ParseOptions) (room : Nat) : (Inner.ofRoom o room).Cites text := by
  induction room with
  | zero =>
    exact ⟨fun _ _ => tooDeep _, fun _ _ => tooDeep _, fun _ _ _ => tooDeep _, fun _ _ => tooDeep _,
      fun _ => tooDeep _, fun _ => tooDeep _⟩
  | succ room ih =>
    have ho := outlined_ofRoom text o room
    have hs := settled_ofRoom o room
    exact ⟨typeExpr o.maxDepth (room + 1), fun _ _ => expressionBody ih, fun _ _ _ => chainBody ih _,
      fun _ _ => unaryBody ih, fun _ => blockBody ih ho hs o, fun _ => ifBody ih⟩

/-! ### Declarations -/

theorem importPath : Cites text n Parser.importPath := by
  have hsegment : Cites text n Parser.pathSegment := by
    refine (look _).bind fun kind => ?_
    split
    · exact skip.bind fun _ => pure _
    · exact identifier
  exact (expect _ _).bind fun _ => (separatedBy _ hsegment).bind fun _ => semicolon.bind fun _ => pure _

theorem globalLine : Cites text n Parser.globalLine := by
  have hoption : Cites text n Parser.globalOption := by
    refine (look _).bind fun kind => ?_
    split
    · exact skip.bind fun _ => pure _
    · exact skip.bind fun _ => pure _
    · exact unexpected _
  exact (expect _ _).bind fun _ => (separatedBy _ hoption).bind fun _ => semicolon.bind fun _ => pure _

theorem moduleLine : Cites text n Parser.moduleLine :=
  skip.bind fun _ => identifier.bind fun _ => semicolon.bind fun _ => pure _

theorem modifierList : Cites text n Parser.modifierList := by
  refine collect ((look _).bind fun _ => ite ((look _).bind fun kind => ?_) ((look _).bind fun kind => ?_))
  · split
    · exact skip.bind fun _ => skip.bind fun _ => pure _
    · exact skip.bind fun _ => unexpected _
  · split
    · exact skip.bind fun _ => pure _
    · exact pure _

theorem declName : Cites text n Parser.declName := by
  refine (look _).bind fun _ => (look _).bind fun kind => ?_
  split
  · exact skip.bind fun _ => (look _).bind fun _ => pure _
  · refine identifier.bind fun _ => (look _).bind fun _ => ite ?_ ((look _).bind fun _ => pure _)
    exact pathTail.bind fun _ => (look _).bind fun _ => pure _

section
variable {g : Inner} (hg : g.Cites text)
include hg

theorem attributeList : Cites text n (Parser.attributeList g) := by
  refine collect ((look _).bind fun _ => ite ?_ (pure _))
  refine skip.bind fun _ => identifier.bind fun _ => (look _).bind fun _ => ite ?_ ((look _).bind fun _ => pure _)
  exact (arguments hg).bind fun _ => (look _).bind fun _ => pure _

theorem returnType : Cites text n (Parser.returnType g) :=
  (accept _).bind fun _ => ite ((hg.type _ _).bind fun _ => pure _) (pure _)

/-- The body of an external function is cited as a whole. -/
theorem functionBody (ho : g.Outlined text) (modifiers : List Modifier) (name : DeclName) :
    Cites text n (Parser.functionBody g modifiers name) := by
  refine (look _).bind fun _ => ite ?_ ((withHint _ semicolon).bind fun _ => pure _)
  refine (hg.block _).bindOf fun s body s' hp hb => ite (fail ?_) (pure _)
  have hlaminar := (ho.block s body s' hp hb).laminar _ (List.mem_singleton_self _)
  have hspan : body.outline.span = body.span := by
    cases body
    rfl
  rw [← hspan]
  exact .intro hlaminar.bound_start hlaminar.bound_stop hlaminar.start_lt_stop.le

theorem functionDecl (ho : g.Outlined text) (modifiers : List Modifier) :
    Cites text n (Parser.functionDecl g modifiers) := by
  refine (expect _ _).bind fun _ => declName.bind fun _ => typeParams.bind fun _ => (paramList hg).bind fun _ => ?_
  refine (attributeList hg).bind fun _ => (returnType hg).bind fun _ => (functionBody hg ho _ _).bind fun _ => ?_
  exact pure _

theorem constDecl (modifiers : List Modifier) : Cites text n (Parser.constDecl g modifiers) := by
  have htype : Cites text n (Parser.constType g) :=
    (look _).bind fun _ => (look _).bind fun _ => ite (pure _) ((hg.type _ _).bind fun _ => pure _)
  refine (expect _ _).bind fun _ => htype.bind fun _ => identifier.bind fun _ => (expect _ _).bind fun _ => ?_
  exact (hg.expression _ _).bind fun _ => semicolon.bind fun _ => pure _

theorem structField : Cites text n (Parser.structField g) := by
  refine (look _).bind fun _ => (look _).bind fun _ => (look _).bind fun _ => ite ?_ ?_
  · exact identifier.bind fun _ => skip.bind fun _ => (hg.type _ _).bind fun _ => (look _).bind fun _ => pure _
  · exact (hg.type _ _).bind fun _ => identifier.bind fun _ => (look _).bind fun _ => pure _

theorem fieldRound (opened : Span) : Cites text n (Parser.fieldRound g opened) := by
  refine (accept _).bind fun _ => ite (pure _) ((look _).bind fun _ => (look _).bind fun _ => (look _).bind fun _ => ?_)
  refine ite ((look _).bind fun _ => failHere fun _ => rfl) ((structField hg).bind fun _ => ?_)
  refine (accept _).bind fun _ => ite (pure _) ((accept _).bind fun _ => ite (pure _) ?_)
  exact (look _).bind fun _ => ite (pure _) (unexpected _)

theorem structDecl (modifiers : List Modifier) : Cites text n (Parser.structDecl g modifiers) := by
  refine (expect _ _).bind fun _ => identifier.bind fun _ => typeParams.bind fun _ =>
    (attributeList hg).bind fun _ => ?_
  refine (expect _ _).bind fun _ => (collect (fieldRound hg _)).bind fun _ => (accept _).bind fun _ => ?_
  exact pure _

theorem modifiedForm (ho : g.Outlined text) : Cites text n (Parser.modifiedForm g) := by
  refine modifierList.bind fun _ => (look _).bind fun kind => ?_
  split
  · exact (functionDecl hg ho _).bind fun _ => ite (pure _) (pure _)
  · exact (constDecl hg _).bind fun _ => pure _
  · exact (structDecl hg _).bind fun _ => pure _
  · exact fun _ hc hn => .fails hc hn hc.peek

theorem declaration (ho : g.Outlined text) : Cites text n (Parser.declaration g) := by
  refine (look _).bind fun _ => bind ?_ fun _ => (look _).bind fun _ => pure _
  refine (look _).bind fun kind => ?_
  split
  · exact importPath.bind fun _ => pure _
  · exact globalLine.bind fun _ => pure _
  · exact moduleLine.bind fun _ => pure _
  · exact modifiedForm hg ho

end

theorem toNextDeclaration : Cites text n (Parser.change Parser.toNextDeclaration) :=
  advances (Alike.advances fun ts => Alike.toNextDeclaration (.refl ts)) fun _ => rfl

/-- A program records only what points into the source. -/
theorem program (o : ParseOptions) : Cites text n (Parser.program o) := by
  refine collect ((look _).bind fun _ => ite (pure _) ((accept _).bind fun _ => ite (pure _) ?_))
  have hdeclaration := declaration (n := n) (ofRoom text o o.maxDepth) (outlined_ofRoom text o o.maxDepth)
  refine outcome hdeclaration (fun _ => pure _) fun e he => (record he).bind fun _ => ite ?_ (pure _)
  exact toNextDeclaration.bind fun _ => pure _

end Cites

end Parser

end ElleFrontEnd
