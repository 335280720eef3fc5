import ElleFrontEnd.Proofs.ReadDeclaration
import ElleFrontEnd.Proofs.RecoveryProgram
import ElleFrontEnd.Proofs.TieExpr

/-!
# Statements, blocks and declarations in tied runs

The rest of the grammar is walked, up to the declarations.  Behind a statement that failed, a block goes on from tied
states again, since a tie is kept up by what a block does then.  At every depth, all parsers end alike
(`tied_ofRoom`).
-/

namespace ElleFrontEnd

open ElleFrontEnd.Parser (Round)

namespace Tie.Runs

variable {α : Type} {K : Tie} {g g' : Inner}

section
variable (hg : K.Tied g g')
include hg

/-! ### Simple statements -/

theorem initializer (header : Bool) : K.Ties (Parser.initializer g header) (Parser.initializer g' header) :=
  (accept _).bind fun _ => ite ((hg.expression header).bind fun _ => done _) (done none)

theorem typedBinding (header : Bool) (type : TypeExpr) (name : String) :
    K.Ties (Parser.typedBinding g header type name) (Parser.typedBinding g' header type name) := by
  refine (isAt _).bind fun _ => ite ?_ ((initializer hg header).bind fun _ => done _)
  exact skip.bind fun _ => (hg.expression false).bind fun _ => (closing _ _).bind fun _ => done _

theorem binding? (header : Bool) : K.Ties (Parser.binding? g header) (Parser.binding? g' header) := by
  refine (accept _).bind fun _ => ite ?_ ?_
  · exact identifier.bind fun _ => (initializer hg header).bind fun _ => done _
  refine identBefore _ (fun _ => rfl) (fun _ => rfl) fun _ _ => ite ?_ ?_
  · exact identifier.bind fun _ => skip.bind fun _ => (hg.expression header).bind fun _ => done _
  refine kindBefore rfl _ (fun _ => rfl) (fun _ => rfl) fun _ _ => ite (done none) ?_
  refine hg.typeAndName.attempt.bind fun o => ?_
  cases o with
  | none => exact done none
  | some named => exact (typedBinding hg header _ _).bind fun _ => done _

theorem assignment? (header : Bool) : K.Ties (Parser.assignment? g header) (Parser.assignment? g' header) := by
  refine nextKind.bind fun kind => ?_
  split
  · exact done none
  split
  · exact done none
  · exact skip.bind fun _ => (requireOperand _).bind fun _ => (hg.expression header).bind fun _ => done _

theorem simpleStatement : K.Ties (Parser.simpleStatement g) (Parser.simpleStatement g') := by
  refine (binding? hg false).bind fun o => ?_
  cases o with
  | some form => exact done _
  | none =>
    refine (hg.expression false).bind fun target => (assignment? hg false).bind fun o => ?_
    cases o with
    | none => exact done _
    | some assigned => exact done _

/-! ### Control flow -/

theorem headerCondition : K.Ties (Parser.headerCondition g) (Parser.headerCondition g') :=
  (hg.expression true).bind fun _ => done _

theorem elsePart : K.Ties (Parser.elsePart g) (Parser.elsePart g') := by
  refine (accept _).bind fun _ => ite ((isAt _).bind fun _ => ite ?_ ?_) (done _)
  · exact nextStart.bind fun _ => hg.elseIf.spanned
  · exact hg.block.bind fun _ => done _

theorem ifBody : K.Ties (Parser.ifBody g) (Parser.ifBody g') := by
  refine (expect _ _).bind fun _ => (headerCondition hg).bind fun _ => hg.block.bind fun _ => ?_
  exact (elsePart hg).bind fun _ => done _

theorem forInit (header : Bool) : K.Ties (Parser.forInit g header) (Parser.forInit g' header) := by
  refine nextStart.bind fun _ => (binding? hg header).bind fun o => ?_
  match o with
  | some (.variable _ _ _ _) => exact (spanFrom _).bind fun _ => done _
  | some (.buffer _ _ _) => exact (spanFrom _).bind fun _ => fail _
  | none => exact (hg.expression header).bind fun _ => done _

theorem forStep (header : Bool) : K.Ties (Parser.forStep g header) (Parser.forStep g' header) := by
  refine nextStart.bind fun _ => (hg.expression header).bind fun target => (assignment? hg header).bind fun o => ?_
  cases o with
  | none => exact done _
  | some assigned => exact (spanFrom _).bind fun _ => done _

theorem forHeader (header : Bool) : K.Ties (Parser.forHeader g header) (Parser.forHeader g' header) := by
  refine (forInit hg header).bind fun _ => semicolon.bind fun _ => (hg.expression header).bind fun _ => ?_
  exact semicolon.bind fun _ => (forStep hg header).bind fun _ => done _

theorem forStatement : K.Ties (Parser.forStatement g) (Parser.forStatement g') := by
  refine (expect _ _).bind fun _ => identBefore _ (fun _ => rfl) (fun _ => rfl) fun _ _ => ite ?_ ?_
  · refine identifier.bind fun _ => skip.bind fun _ => (hg.expression true).bind fun _ => ?_
    exact hg.block.bind fun _ => done _
  refine (isAt _).bind fun _ => ite ?_ ?_
  · refine skip.bind fun _ => (forHeader hg false).bind fun _ => (closing _ _).bind fun _ => ?_
    exact hg.block.bind fun _ => done _
  · exact (forHeader hg true).bind fun _ => hg.block.bind fun _ => done _

theorem returnStatement : K.Ties (Parser.returnStatement g) (Parser.returnStatement g') := by
  refine skip.bind fun _ => (isAt _).bind fun _ => ite (semicolon.bind fun _ => done _) ?_
  exact (hg.expression false).bind fun _ => semicolon.bind fun _ => done _

theorem statement : K.Ties (Parser.statement g) (Parser.statement g') := by
  have hword {form : Span → Stmt} :
      K.Ties (do let _ ← Parser.skip; Parser.semicolon; pure form)
        (do let _ ← Parser.skip; Parser.semicolon; pure form) :=
    skip.bind fun _ => semicolon.bind fun _ => done _
  have hform : K.Ties (Parser.statementForm g) (Parser.statementForm g') := by
    refine nextKind.bind fun kind => ?_
    split
    · exact (ifBody hg).bind fun _ => done _
    · exact skip.bind fun _ => (headerCondition hg).bind fun _ => hg.block.bind fun _ => done _
    · exact forStatement hg
    · exact skip.bind fun _ => (hg.expression false).bind fun _ => semicolon.bind fun _ => done _
    · exact returnStatement hg
    · exact hword
    · exact hword
    · exact hg.block.bind fun _ => done _
    · exact (simpleStatement hg).bind fun _ => semicolon.bind fun _ => done _
  exact nextStart.bind fun _ => hform.spanned

/-! ### Blocks -/

omit hg in
theorem record (e : Diagnostic) : K.Ties (Parser.record e) (Parser.record e) :=
  ⟨fun _ _ hst _ => .same (K.record e hst), fun s => .record s e⟩

omit hg in
theorem toNextStatement : K.Ties (Parser.change Parser.toNextStatement) (Parser.change Parser.toNextStatement) := by
  refine ⟨fun s t hst _ => ?_, Alike.advances fun ts => Alike.toNextStatement (.refl ts)⟩
  rcases K.next hst with hst | hgone
  · exact .same hst
  · exact .gone trivial hgone

theorem blockRound (o : ParseOptions) (opened : Span) :
    K.Ties (Parser.blockRound o g opened) (Parser.blockRound o g' opened) := by
  refine (accept _).bind fun _ => ite (done _) (atEnd.bind fun _ => ite (nextSpan.bind fun _ => fail _) ?_)
  refine (accept _).bind fun _ => ite (done _) ((statement hg).outcome.bind fun r => ?_)
  cases r with
  | ok s => exact done _
  | error e => exact ite ((record e).bind fun _ => toNextStatement.bind fun _ => done _) (fail e)

omit hg in
/-- Blocks whose rounds end alike. -/
theorem blockBody {o : ParseOptions} (hs : g.Settled) {round' : Span → Parser (Round Stmt)}
    (hr : ∀ opened, K.Ties (Parser.blockRound o g opened) (round' opened)) :
    K.Ties (Parser.blockBody o g)
      (do
        let opened ← Parser.expectMark .lBrace
        let statements ← Parser.collect (round' opened)
        pure (.mk (← Parser.spanFrom opened.start) statements)) :=
  (expect _ _).bind fun opened => (collect (hr opened) (Parser.blockRound_shrinks hs o opened)).spanned

/-! ### Heads of declarations -/

omit hg in
theorem pathSegment : K.Ties Parser.pathSegment Parser.pathSegment := by
  refine nextKind.bind fun kind => ?_
  split
  · exact skip.bind fun _ => done _
  · exact identifier

omit hg in
theorem importPath : K.Ties Parser.importPath Parser.importPath := by
  refine (expect _ _).bind fun _ => (separatedBy (by simp) (.inl trivial) pathSegment).bind fun _ => ?_
  exact semicolon.bind fun _ => done _

omit hg in
theorem globalOption : K.Ties Parser.globalOption Parser.globalOption := by
  refine nextKind.bind fun kind => ?_
  split
  · exact skip.bind fun _ => done _
  · exact skip.bind fun _ => done _
  · exact unexpected _

omit hg in
theorem globalLine : K.Ties Parser.globalLine Parser.globalLine := by
  refine (expect _ _).bind fun _ => (separatedBy (by simp) (.inl trivial) globalOption).bind fun _ => ?_
  exact semicolon.bind fun _ => done _

omit hg in
theorem moduleLine : K.Ties Parser.moduleLine Parser.moduleLine :=
  skip.bind fun _ => identifier.bind fun _ => semicolon.bind fun _ => done _

omit hg in
theorem near_negation : Near fun s =>
    if s.peek.kind = .operator .bang then some (s.kindAt 1).visibility? else none := by
  intro s
  by_cases hk : s.peek.kind = .operator .bang
  · have hend : s.peek.kind.endsItem = false := by rw [hk]; rfl
    simp [hk, ParseState.near_kindAt_one hend]
  · simp [hk]

/-- What reads the next modifier once it is known what a `!` stands before, if one comes next. -/
def modifierBehind : Option (Option Visibility) → Parser (Round Modifier)
  | some (some kind) => do
    let _ ← Parser.skip
    let _ ← Parser.skip
    pure (.more { kind, negated := true })
  | some none => do
    let _ ← Parser.skip
    Parser.unexpected .modifierAfterBang
  | none => do
    match (← Parser.nextKind).visibility? with
    | some kind => do
      let _ ← Parser.skip
      pure (.more { kind, negated := false })
    | none => pure .stop

omit hg in
theorem modifierList : K.Ties Parser.modifierList Parser.modifierList := by
  have hround (s : ParseState) : Parser.modifierRound s =
      modifierBehind (if s.peek.kind = .operator .bang then some (s.kindAt 1).visibility? else none) s := by
    change Parser.modifierRound.run s = (modifierBehind _).run s
    unfold Parser.modifierRound Parser.atOperator Parser.isAt
    rw [Parser.look_bind]
    by_cases hk : s.peek.kind = .operator .bang
    · rw [decide_eq_true hk, if_pos rfl, Parser.look_bind, if_pos hk]
      cases (s.kindAt 1).visibility? <;> rfl
    · rw [decide_eq_false hk, if_neg (by simp), if_neg hk]
      rfl
  refine collect (through near_negation hround hround fun kind => ?_) Parser.modifierRound_shrinks
  unfold modifierBehind
  split
  · exact skip.bind fun _ => skip.bind fun _ => done _
  · exact skip.bind fun _ => unexpected _
  · refine nextKind.bind fun kind => ?_
    split
    · exact skip.bind fun _ => done _
    · exact done _

omit hg in
theorem declName : K.Ties Parser.declName Parser.declName := by
  refine nextStart.bind fun _ => nextKind.bind fun kind => ?_
  split
  · exact skip.bind fun _ => (spanFrom _).bind fun _ => done _
  · refine identifier.bind fun _ => (isAt _).bind fun _ => ite (pathTail.bind fun _ => ?_) ?_ <;>
      exact (spanFrom _).bind fun _ => done _

/-! ### Declarations -/

theorem attributeList (hs : g.Settled) : K.Ties (Parser.attributeList g) (Parser.attributeList g') := by
  refine collect ((isAt _).bind fun _ => ite ?_ (done _)) (Parser.attributeRound_shrinks hs)
  refine skip.bind fun _ => identifier.bind fun _ => (isAt _).bind fun _ => ite (arguments hg).spanned ?_
  exact (spanFrom _).bind fun _ => done _

theorem returnType : K.Ties (Parser.returnType g) (Parser.returnType g') :=
  (accept _).bind fun _ => ite (hg.type.bind fun _ => done _) (done _)

theorem functionBody (modifiers : List Modifier) (name : DeclName) :
    K.Ties (Parser.functionBody g modifiers name) (Parser.functionBody g' modifiers name) := by
  refine (isAt _).bind fun _ => ite (hg.block.bind fun _ => ite (fail _) (done _)) ?_
  exact (semicolon.onError _).bind fun _ => done _

theorem functionDecl (hs : g.Settled) (modifiers : List Modifier) :
    K.Ties (Parser.functionDecl g modifiers) (Parser.functionDecl g' modifiers) := by
  refine (expect _ _).bind fun _ => declName.bind fun name => typeParams.ties.bind fun _ => ?_
  refine (paramList hg).bind fun _ => (attributeList hg hs).bind fun _ => (returnType hg).bind fun _ => ?_
  exact (functionBody hg modifiers name).bind fun _ => done _

theorem constType : K.Ties (Parser.constType g) (Parser.constType g') :=
  identBefore _ (fun _ => rfl) (fun _ => rfl) fun _ _ => ite (done _) (hg.type.bind fun _ => done _)

theorem constDecl (modifiers : List Modifier) :
    K.Ties (Parser.constDecl g modifiers) (Parser.constDecl g' modifiers) := by
  refine (expect _ _).bind fun _ => (constType hg).bind fun _ => identifier.bind fun _ => (expect _ _).bind fun _ => ?_
  exact (hg.expression false).bind fun _ => semicolon.bind fun _ => done _

theorem structField : K.Ties (Parser.structField g) (Parser.structField g') := by
  refine nextStart.bind fun _ => identBefore _ (fun _ => rfl) (fun _ => rfl) fun _ _ => ite ?_ ?_
  · exact identifier.bind fun _ => skip.bind fun _ => hg.type.spanned
  · exact hg.type.bind fun _ => identifier.spanned

theorem fieldRound (opened : Span) : K.Ties (Parser.fieldRound g opened) (Parser.fieldRound g' opened) := by
  refine (accept _).bind fun _ => ite (done _) (atEnd.bind fun _ => (isAt _).bind fun _ => (isAt _).bind fun _ => ?_)
  refine ite (nextKind.bind fun _ => nextSpan.bind fun _ => fail _) ((structField hg).bind fun _ => ?_)
  refine (accept _).bind fun _ => ite (done _) ((accept _).bind fun _ => ite (done _) ?_)
  exact (isAt _).bind fun _ => ite (done _) (unexpected _)

theorem structDecl (hs : g.Settled) (modifiers : List Modifier) :
    K.Ties (Parser.structDecl g modifiers) (Parser.structDecl g' modifiers) := by
  refine (expect _ _).bind fun _ => identifier.bind fun _ => typeParams.ties.bind fun _ => ?_
  refine (attributeList hg hs).bind fun _ => (expect _ _).bind fun opened => ?_
  refine (collect (fieldRound hg opened) (Parser.fieldRound_shrinks hs opened)).bind fun _ => ?_
  exact (accept _).bind fun _ => done _

theorem modifiedForm (hs : g.Settled) : K.Ties (Parser.modifiedForm g) (Parser.modifiedForm g') := by
  refine modifierList.bind fun modifiers => nextKind.bind fun kind => ?_
  split
  · exact (functionDecl hg hs modifiers).bind fun _ => ite (done _) (done _)
  · exact (constDecl hg modifiers).bind fun _ => done _
  · exact (structDecl hg hs modifiers).bind fun _ => done _
  · exact token (c := fun _ => false) (fun _ => by simp [Parser.noDeclaration]) (.inl trivial)

theorem declaration (hs : g.Settled) : K.Ties (Parser.declaration g) (Parser.declaration g') := by
  have hform : K.Ties (Parser.declarationForm g) (Parser.declarationForm g') := by
    refine nextKind.bind fun kind => ?_
    split
    · exact importPath.bind fun _ => done _
    · exact globalLine.bind fun _ => done _
    · exact moduleLine.bind fun _ => done _
    · exact modifiedForm hg hs
  exact nextStart.bind fun _ => hform.spanned

end

end Tie.Runs

/-! ### All depths -/

theorem near_atStructBody : Near fun s => decide (s.peek.kind = .punctuation .lBrace) &&
    (decide (s.kindAt 1 = .punctuation .rBrace) ||
      (s.kindAt 1).ident?.isSome && decide (s.kindAt 2 = .operator .eq)) := by
  intro s
  by_cases hk : s.peek.kind = .punctuation .lBrace
  · have hend : s.peek.kind.endsItem = false := by rw [hk]; rfl
    cases hname : (s.kindAt 1).ident?.isSome with
    | false => simp [hk, hname, ParseState.near_kindAt_one hend]
    | true => simp [hk, hname, ParseState.near_kindAt_one hend,
      ParseState.near_kindAt_two hend (endsItem_of_ident? hname)]
  · simp [hk]

/-- The parsers of nested constructs one level above `g`, with parsers of types and blocks of their own. -/
def Inner.around (g : Inner) (type : Nat → Parser TypeExpr) (block : Parser Block) : Inner where
  type := type
  expression := fun header s => Parser.expressionBody g header s
  chain := fun header level s => Parser.chainBody g header level s
  unary := fun header s => Parser.unaryBody g header s
  block := block
  elseIf := fun s => Parser.ifBody g s

/-- The parsers of nested constructs, with blocks that are read by `block`. -/
def Inner.withBlocks (block : Inner → Parser Block) (o : ParseOptions) : (room : Nat) → Inner
  | 0 => .ofRoom o 0
  | room + 1 =>
    (Inner.withBlocks block o room).around (Parser.typeExpr o.maxDepth (room + 1))
      (block (Inner.withBlocks block o room))

theorem Inner.withBlocks_blockBody (o : ParseOptions) (room : Nat) :
    Inner.withBlocks (Parser.blockBody o) o room = .ofRoom o room := by
  induction room with
  | zero => rfl
  | succ room ih =>
    unfold withBlocks
    rw [ih]
    rfl

theorem Inner.withBlocks_type (block : Inner → Parser Block) (o : ParseOptions) (room : Nat) :
    (Inner.withBlocks block o room).type = Parser.typeExpr o.maxDepth room := by
  cases room with
  | zero => rfl
  | succ room => rfl

/-- One level above parsers that are settled, all are, whatever limit the types name. -/
theorem Inner.Settled.around {g : Inner} (hg : g.Settled) (limit room : Nat) (o : ParseOptions) :
    (g.around (Parser.typeExpr limit room) (Parser.blockBody o g)).Settled where
  steady ts :=
    { type := Alike.typeExpr (.refl ts) limit room
      expression := Alike.expressionBody (.refl ts) (hg.steady ts)
      chain := Alike.chainBody (.refl ts) (hg.steady ts)
      unary := Alike.unaryBody (.refl ts) (hg.steady ts)
      block := Alike.blockBody (.refl ts) (hg.steady ts) o
      elseIf := Alike.ifBody (.refl ts) (hg.steady ts) }
  silent := Parser.Silent.typeExpr limit room
  shrinks _ _ _ h := Parser.length_blockBody hg.steady h

namespace Tie

variable {K : Tie} {g g' : Inner} {limit room : Nat}

/-- Whatever types may owe, they are read alike to their end, and so is what is tried. -/
theorem TypesTied.of_owing (hK : K.Owing) (hg : g.type = Parser.typeExpr limit room)
    (hg' : g'.type = Parser.typeExpr limit room) : K.TypesTied g g' := by
  have htype (angles : Nat) : K.Holds (g.type angles) (g'.type angles) := by
    rw [hg, hg']
    exact Runs.typeExpr (Runs.closeAngle hK) limit room angles
  have hargs : K.Holds (Parser.typeArgs g.type 0) (Parser.typeArgs g'.type 0) := by
    rw [hg, hg']
    exact Runs.typeArgs (Runs.closeAngle hK) (Runs.typeExpr (Runs.closeAngle hK) limit room) 0
  have hcast : K.Holds (Parser.castType g) (Parser.castType g') :=
    (htype 0).bind fun _ => (Runs.expect_of (.inr rfl)).bind fun _ => .done _
  refine ⟨(htype 0).ties, .of_holds ?_, .of_holds ?_, .of_holds ?_, .before_expect (htype 0) _ _, .of_holds ?_⟩
  · refine hargs.bind fun _ => Runs.owed.bind fun _ => .ite (.unexpected _) ?_
    exact (Runs.isAt _).bind fun _ => .ite (.done _) (.unexpected _)
  · refine (Runs.expect_of (.inr rfl)).bind fun _ => hcast.bind fun _ => Runs.nextKind.bind fun _ => ?_
    exact .ite (.done _) Runs.noExpression
  · have hstruct : K.Holds (Parser.structTypeArgs g) (Parser.structTypeArgs g') := by
      refine (Runs.isAt _).bind fun _ => Runs.isAdjacent.bind fun _ => .ite (hargs.attempt.bind fun o => ?_) (.done _)
      cases o with
      | none => exact .done _
      | some args => exact Runs.owed.bind fun _ => .ite (.done _) (.done _)
    refine hstruct.bind fun o => ?_
    cases o with
    | none => exact Runs.noExpression
    | some generics => exact (Runs.look near_atStructBody).bind fun _ => .ite (.done _) Runs.noExpression
  · exact (htype 0).bind fun _ => Runs.identifier.bind fun _ => .done _

/-- Where no level is left, nothing is read but types. -/
theorem Tied.tooDeep (ht : K.TypesTied g g') (o : ParseOptions) (hg : g = Inner.ofRoom o 0)
    (hg' : g' = Inner.ofRoom o 0) : K.Tied g g' := by
  subst hg hg'
  exact
    { ht with
      expression := fun _ => (Runs.tooDeep _).ties
      chain := fun _ _ => (Runs.tooDeep _).ties
      unary := fun _ => (Runs.tooDeep _).ties
      block := (Runs.tooDeep _).ties
      elseIf := (Runs.tooDeep _).ties }

/-- One level up, with blocks that end alike. -/
theorem Tied.around {type type' : Nat → Parser TypeExpr} {block block' : Parser Block} (hg : K.Tied g g')
    (hs : g.Settled) (hb : K.Ties block block') (ht : K.TypesTied (g.around type block) (g'.around type' block')) :
    K.Tied (g.around type block) (g'.around type' block') :=
  { ht with
    expression := Runs.expressionBody hg hs
    chain := Runs.chainBody hg hs
    unary := Runs.unaryBody hg hs
    block := hb
    elseIf := Runs.ifBody hg }

/-- At every depth, all parsers end alike from tied states. -/
theorem tied_ofRoom (hK : K.Owing) (o : ParseOptions) (room : Nat) :
    K.Tied (Inner.ofRoom o room) (Inner.ofRoom o room) := by
  have htypes (room : Nat) : K.TypesTied (Inner.ofRoom o room) (Inner.ofRoom o room) :=
    .of_owing hK (Inner.ofRoom_type o room) (Inner.ofRoom_type o room)
  induction room with
  | zero => exact .tooDeep (htypes 0) o rfl rfl
  | succ room ih =>
    have hs := settled_ofRoom o room
    exact ih.around hs (Runs.blockBody hs (Runs.blockRound ih o)) (htypes (room + 1))

end Tie

/-! ### Rounds of a program -/

/-- One round of a program whose declarations are read by `p`. -/
def Parser.roundOf (o : ParseOptions) (p : Parser Declaration) : Parser (Round Declaration) := do
  if ← Parser.atEnd then pure .stop
  else if ← Parser.acceptMark .semicolon then pure .none
  else
    match ← Parser.outcome p with
    | .ok d => pure (.more d)
    | .error e => do
      Parser.record e
      if o.recover then do
        Parser.change Parser.toNextDeclaration
        pure .none
      else pure .stop

theorem Tie.Runs.roundOf {K : Tie} {o : ParseOptions} {p q : Parser Declaration} (hp : K.Ties p q)
    (hnext : K.Ties (Parser.change Parser.toNextDeclaration) (Parser.change Parser.toNextDeclaration)) :
    K.Ties (Parser.roundOf o p) (Parser.roundOf o q) := by
  refine atEnd.bind fun _ => ite (done _) ((accept _).bind fun _ => ite (done _) (hp.outcome.bind fun r => ?_))
  cases r with
  | ok d => exact done _
  | error e => exact (record e).bind fun _ => ite (hnext.bind fun _ => done _) (done _)

end ElleFrontEnd
