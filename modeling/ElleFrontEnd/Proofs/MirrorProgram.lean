import ElleFrontEnd.Proofs.MirrorGrammar
import ElleFrontEnd.Proofs.TieProgram
import ElleFrontEnd.Session.Declaration

/-!
# The methods of statements and declarations

Statements are read under the header flag that their block has cleared, so their parsers are told of no header.  The
methods of nested constructs are tied together by their fuel: where it suffices for the levels that are left, each
mirrors the parser that is allowed as many levels (`Mirroring.ofFuel`).  How blocks are read does not matter to that, as
long as their methods mirror their parsers (`Mirroring.withBlocks`).
-/

namespace ElleFrontEnd

namespace Mirrors

variable {fits : Prop} {r : Registers} {k : Methods} {g : Inner} (hk : Mirroring fits r k g)

section
variable (header : Bool)
include hk

/-! ### Declarations of variables, and assignments -/

theorem initializer : Mirrors False fits { r with header } (Session.initializer k) (Parser.initializer g header) :=
  after (Trait.accept _) fun _ => ite ((hk.expression header).bind fun _ => done _) (done _)

theorem typeAndName {silent : Prop} :
    Mirrors silent fits { r with header } (Session.typeAndName k) (Parser.typeAndName g) :=
  (type hk header).bind fun _ => after Trait.identifier fun _ => done _

theorem typedBinding (type : TypeExpr) (name : String) :
    Mirrors False fits { r with header } (Session.typedBinding k type name)
      (Parser.typedBinding g header type name) := by
  refine looking fun _ => ite ?_ ((initializer hk header).bind fun _ => done _)
  refine after Trait.skip fun _ => (bracketed hk header).bind fun _ => ?_
  exact after (Trait.closing _ _) fun _ => done _

theorem binding? : Mirrors False fits { r with header } (Session.binding? k) (Parser.binding? g header) := by
  refine after (Trait.accept _) fun _ => ite ?_ (looking fun _ => looking fun _ => ite ?_ ?_)
  · exact after Trait.identifier fun _ => (initializer hk header).bind fun _ => done _
  · exact after Trait.identifier fun _ => after Trait.skip fun _ => (hk.expression header).bind fun _ => done _
  refine looking fun _ => looking fun _ => ite (done none) ((typeAndName hk header).attempt.bind fun found => ?_)
  cases found with
  | none => exact done none
  | some found => exact (typedBinding hk header _ _).bind fun _ => done _

theorem assignment? : Mirrors False fits { r with header } (Session.assignment? k) (Parser.assignment? g header) := by
  refine looking fun kind => ?_
  cases kind.operator? with
  | none => exact done none
  | some op =>
    dsimp only
    cases AssignOp.ofOperator? op with
    | none => exact done none
    | some form =>
      refine after Trait.skip fun _ => after (Trait.requireOperand _) fun _ => ?_
      exact (hk.expression header).bind fun _ => done _

theorem simpleStatement {header : Bool} (hh : fits → header = false) :
    Mirrors False fits { r with header } (Session.simpleStatement k) (Parser.simpleStatement g) := by
  refine ((binding? hk header).of id fun h => by rw [hh h]).bind fun found => ?_
  cases found with
  | some form => exact done _
  | none =>
    refine (expression hk hh).bind fun _ => ?_
    refine ((assignment? hk header).of id fun h => by rw [hh h]).bind fun assigned => ?_
    cases assigned with
    | none => exact done _
    | some assigned => exact done _

/-! ### Control flow -/

theorem headerCondition :
    Mirrors False fits { r with header } (Session.headerCondition k) (Parser.headerCondition g) :=
  (withHeader (hk.expression true)).bind fun _ => done _

theorem elsePart : Mirrors False fits { r with header } (Session.elsePart k) (Parser.elsePart g) := by
  refine after (Trait.accept _) fun _ => ite (looking fun _ => ite ?_ ?_) (done _)
  · exact looking fun _ => (hk.elseIf header).spanned
  · exact (hk.block header).bind fun _ => done _

theorem ifBody : Mirrors False fits { r with header } (Session.ifBody k) (Parser.ifBody g) := by
  refine after (Trait.expect _ _) fun _ => (headerCondition hk header).bind fun _ => ?_
  exact (hk.block header).bind fun _ => (elsePart hk header).bind fun _ => done _

theorem whileStatement : Mirrors False fits { r with header } (Session.whileStatement k) (do
    let _ ← Parser.skip
    let condition ← Parser.headerCondition g
    let body ← g.block
    pure (Stmt.whileLoop · condition body)) :=
  after Trait.skip fun _ => (headerCondition hk header).bind fun _ => (hk.block header).bind fun _ => done _

theorem forInit : Mirrors False fits { r with header } (Session.forInit k) (Parser.forInit g header) := by
  refine looking fun _ => (binding? hk header).bind fun found => ?_
  match found with
  | some (.variable _ _ _ _) => exact doneFrom
  | some (.buffer _ _ _) => exact looking fun _ => stuck
  | none => exact (hk.expression header).bind fun _ => done _

theorem forStep : Mirrors False fits { r with header } (Session.forStep k) (Parser.forStep g header) := by
  refine looking fun _ => (hk.expression header).bind fun _ => (assignment? hk header).bind fun assigned => ?_
  cases assigned with
  | none => exact done _
  | some assigned => exact doneFrom

theorem forHeader : Mirrors False fits { r with header } (Session.forHeader k) (Parser.forHeader g header) := by
  refine (forInit hk header).bind fun _ => after Trait.semicolon fun _ => (hk.expression header).bind fun _ => ?_
  exact after Trait.semicolon fun _ => (forStep hk header).bind fun _ => done _

theorem forEachRest : Mirrors False fits { r with header } (Session.forEachRest k) (Parser.forEachRest g) := by
  refine after Trait.identifier fun _ => after Trait.skip fun _ => (withHeader (hk.expression true)).bind fun _ => ?_
  exact (hk.block header).bind fun _ => done _

theorem forLoopRest : Mirrors False fits { r with header } (Session.forLoopRest k) (Parser.forLoopRest g) := by
  refine looking fun _ => ite (after Trait.skip fun _ => (withHeader (forHeader hk false)).bind fun _ => ?_) ?_
  · exact after (Trait.closing _ _) fun _ => (hk.block header).bind fun _ => done _
  · exact (withHeader (forHeader hk true)).bind fun _ => (hk.block header).bind fun _ => done _

theorem forStatement : Mirrors False fits { r with header } (Session.forStatement k) (Parser.forStatement g) := by
  refine after (Trait.expect _ _) fun _ => looking fun _ => looking fun _ => ?_
  exact ite (forEachRest hk header) (forLoopRest hk header)

end

section
variable {header : Bool} (hh : fits → header = false)
include hk hh

theorem returnStatement :
    Mirrors False fits { r with header } (Session.returnStatement k) (Parser.returnStatement g) := by
  refine after Trait.skip fun _ => looking fun _ => ite (after Trait.semicolon fun _ => done _) ?_
  exact (expression hk hh).bind fun _ => after Trait.semicolon fun _ => done _

theorem statementForm : Mirrors False fits { r with header } (Session.statementForm k) (Parser.statementForm g) := by
  have hsimple : Mirrors False fits { r with header }
      (do let form ← Session.simpleStatement k; Parser.semicolon; pure form)
      (do let form ← Parser.simpleStatement g; Parser.semicolon; pure form) :=
    (simpleStatement hk hh).bind fun _ => after Trait.semicolon fun _ => done _
  refine looking fun kind => ?_
  cases kind with
  | keyword word =>
    cases word with
    | ifKw => exact (ifBody hk header).bind fun _ => done _
    | whileKw => exact whileStatement hk header
    | forKw => exact forStatement hk header
    | deferKw =>
      exact after Trait.skip fun _ => (expression hk hh).bind fun _ => after Trait.semicolon fun _ => done _
    | returnKw => exact returnStatement hk hh
    | breakKw => exact after Trait.skip fun _ => after Trait.semicolon fun _ => done _
    | continueKw => exact after Trait.skip fun _ => after Trait.semicolon fun _ => done _
    | _ => exact hsimple
  | punctuation mark =>
    cases mark with
    | lBrace => exact (hk.block header).bind fun _ => done _
    | _ => exact hsimple
  | _ => exact hsimple

theorem statement : Mirrors False fits { r with header } (Session.statement k) (Parser.statement g) :=
  looking fun _ => (statementForm hk hh).spanned

/-! ### Blocks -/

omit hk hh in
/-- Recording is what a method does unless it is silent. -/
theorem recording (e : Diagnostic) : Mirrors False fits r (liftM (Parser.record e)) (Parser.record e) :=
  ⟨fun s => ⟨rfl, .record s e, fun h => h.elim⟩, fun _ _ => rfl⟩

omit hk hh in
theorem toNextStatement {silent : Prop} :
    Mirrors silent fits r (liftM (Parser.change Parser.toNextStatement)) (Parser.change Parser.toNextStatement) :=
  ⟨fun s => ⟨rfl, Alike.advances (fun ts => Alike.toNextStatement (.refl ts)) s, fun _ => rfl⟩, fun _ _ => rfl⟩

omit hk hh in
theorem recoverFrom (e : Diagnostic) : Mirrors False fits r (Session.recoverFrom e)
    (if r.options.recover then Parser.record e else Parser.fail e) :=
  asking (ite (recording e) stuck)

theorem blockRound (opened : Span) :
    Mirrors False fits { r with header } (Session.blockRound k opened) (Parser.blockRound r.options g opened) := by
  refine after (Trait.accept _) fun _ => ite (done _) (looking fun _ => ite (looking fun _ => stuck) ?_)
  refine after (Trait.accept _) fun _ => ite (done _) ((statement hk hh).outcome.bind fun result => ?_)
  cases result with
  | ok s => exact done _
  | error e =>
    refine ((recoverFrom e).bind fun _ => toNextStatement.bind fun _ => done _).of id fun _ => ?_
    dsimp only
    split <;> rfl

theorem blockInner :
    Mirrors False fits { r with header } (Session.blockInner k) (Parser.blockBody r.options g) :=
  after (Trait.expect _ _) fun _ => (collect (blockRound hk hh _)).spanned

omit hh in
theorem blockBody (header : Bool) :
    Mirrors False fits { r with header } (Session.blockBody k) (Parser.blockBody r.options g) :=
  withHeader (blockInner hk fun _ => rfl)

end

/-! ### Declarations -/

section
variable (header : Bool)
include hk

theorem attributeList : Mirrors False fits { r with header } (Session.attributeList k) (Parser.attributeList g) := by
  refine collect (looking fun _ => ite ?_ (done _))
  refine after Trait.skip fun _ => after Trait.identifier fun _ => looking fun _ => ite ?_ doneFrom
  exact (arguments hk header).spanned

theorem returnType : Mirrors False fits { r with header } (Session.returnType k) (Parser.returnType g) :=
  after (Trait.accept _) fun _ => ite ((type hk header).bind fun _ => done _) (done _)

theorem functionBody (modifiers : List Modifier) (name : DeclName) :
    Mirrors False fits { r with header } (Session.functionBody k modifiers name)
      (Parser.functionBody g modifiers name) := by
  refine looking fun _ => ite ?_ (after (Trait.calm.onError _ Trait.semicolon) fun _ => done _)
  exact (hk.block header).bind fun _ => ite stuck (done _)

theorem functionDecl (modifiers : List Modifier) :
    Mirrors False fits { r with header } (Session.functionDecl k modifiers) (Parser.functionDecl g modifiers) := by
  refine after (Trait.expect _ _) fun _ => after Trait.declName fun _ => after Trait.typeParams fun _ => ?_
  refine (paramList hk header).bind fun _ => (attributeList hk header).bind fun _ => ?_
  exact (returnType hk header).bind fun _ => (functionBody hk header _ _).bind fun _ => done _

theorem structField : Mirrors False fits { r with header } (Session.structField k) (Parser.structField g) := by
  refine looking fun _ => looking fun _ => looking fun _ => ite ?_ ?_
  · exact after Trait.identifier fun _ => after Trait.skip fun _ => (type hk header).spanned
  · exact (type hk header).bind fun _ => (reads Trait.identifier).spanned

theorem fieldRound (opened : Span) :
    Mirrors False fits { r with header } (Session.fieldRound k opened) (Parser.fieldRound g opened) := by
  refine after (Trait.accept _) fun _ => ite (done _) ?_
  refine looking fun _ => looking fun _ => looking fun _ => ite (looking fun _ => looking fun _ => stuck) ?_
  refine (structField hk header).bind fun _ => after (Trait.accept _) fun _ => ite (done _) ?_
  exact after (Trait.accept _) fun _ => ite (done _) (looking fun _ => ite (done _) stuck)

theorem structDecl (modifiers : List Modifier) :
    Mirrors False fits { r with header } (Session.structDecl k modifiers) (Parser.structDecl g modifiers) := by
  refine after (Trait.expect _ _) fun _ => after Trait.identifier fun _ => after Trait.typeParams fun _ => ?_
  refine (attributeList hk header).bind fun _ => after (Trait.expect _ _) fun _ => ?_
  exact (collect (fieldRound hk header _)).bind fun _ => after (Trait.accept _) fun _ => done _

end

section
variable {header : Bool} (hh : fits → header = false)
include hk hh

theorem constDecl (modifiers : List Modifier) :
    Mirrors False fits { r with header } (Session.constDecl k modifiers) (Parser.constDecl g modifiers) := by
  have htype : Mirrors False fits { r with header } (Session.constType k) (Parser.constType g) :=
    looking fun _ => looking fun _ => ite (done _) ((type hk header).bind fun _ => done _)
  refine after (Trait.expect _ _) fun _ => htype.bind fun _ => after Trait.identifier fun _ => ?_
  refine after (Trait.expect _ _) fun _ => (expression hk hh).bind fun _ => ?_
  exact after Trait.semicolon fun _ => done _

theorem modifiedForm : Mirrors False fits { r with header } (Session.modifiedForm k) (Parser.modifiedForm g) := by
  refine after Trait.modifierList fun _ => looking fun kind => ?_
  cases kind with
  | keyword word =>
    cases word with
    | primitive p =>
      cases p with
      | fn => exact (functionDecl hk header _).bind fun _ => ite (done _) (done _)
      | _ => exact stuck
    | constKw => exact (constDecl hk hh _).bind fun _ => done _
    | structKw => exact (structDecl hk header _).bind fun _ => done _
    | _ => exact stuck
  | _ => exact stuck

theorem declaration : Mirrors False fits { r with header } (Session.declaration k) (Parser.declaration g) := by
  refine looking fun _ => spanned (looking fun kind => ?_)
  cases kind with
  | keyword word =>
    cases word with
    | useKw => exact after Trait.importPath fun _ => done _
    | globalKw => exact after Trait.globalLine fun _ => done _
    | namespaceKw => exact after Trait.moduleLine fun _ => done _
    | _ => exact modifiedForm hk hh
  | _ => exact modifiedForm hk hh

omit hk hh in
theorem toNextDeclaration {silent : Prop} :
    Mirrors silent fits r (liftM (Parser.change Parser.toNextDeclaration))
      (Parser.change Parser.toNextDeclaration) :=
  ⟨fun s => ⟨rfl, Alike.advances (fun ts => Alike.toNextDeclaration (.refl ts)) s, fun _ => rfl⟩, fun _ _ => rfl⟩

theorem programRound :
    Mirrors False fits { r with header } (Session.programRound k)
      (Parser.roundOf r.options (Parser.declaration g)) := by
  refine looking fun _ => ite (done _) (after (Trait.accept _) fun _ => ite (done _) ?_)
  refine (declaration hk hh).outcome.bind fun result => ?_
  cases result with
  | ok d => exact done _
  | error e => exact (recording e).bind fun _ => asking (ite (toNextDeclaration.bind fun _ => done _) (done _))

/-- The parser of a program allows for all levels. -/
theorem program (hg : fits → Inner.ofRoom r.options r.options.maxDepth = g) :
    Mirrors False fits { r with header } (Session.program k) (Parser.program r.options) :=
  (collect (programRound hk hh)).of id fun h => by rw [← hg h]; rfl

end

end Mirrors

/-! ### Nested constructs -/

/-- The methods of nested constructs one level above `k`, with a method of blocks of their own. -/
def Methods.above (k : Methods) (block : Method Block) : Methods where
  type := .nested (Session.typeBody k.type)
  expression := .nested (Session.expressionBody k)
  chain := fun level => .nested (Session.chainBody k level)
  unary := .nested (Session.unaryBody k)
  block := .nested block
  elseIf := .nested (Session.ifBody k)

/-- The methods of nested constructs, with blocks that are read by `block`. -/
def Methods.withBlocks (block : Methods → Method Block) : (fuel : Nat) → Methods
  | 0 => .ofFuel 0
  | fuel + 1 => (Methods.withBlocks block fuel).above (block (Methods.withBlocks block fuel))

theorem Methods.withBlocks_blockBody (fuel : Nat) : Methods.withBlocks Session.blockBody fuel = .ofFuel fuel := by
  induction fuel with
  | zero => rfl
  | succ fuel ih =>
    unfold withBlocks
    rw [ih]
    rfl

namespace Mirrors

variable {r : Registers}

/-- The level of a nested construct is borrowed for its inside. -/
theorem inside {α : Type} {fits : Prop} {header : Bool} {m : Method α} {g : Nat → Inner} {p : Inner → Parser α}
    (hnone : p (g 0) = Parser.tooDeep r.options.maxDepth)
    (hsome : ∀ room, r.room = room + 1 →
      Mirrors False fits { r with depth := r.depth + 1, header } m (p (g (room + 1)))) :
    Mirrors False fits { r with header } (Method.nested m) (p (g r.room)) := by
  refine nested (fun (h : r.room = 0) => ?_) fun room (h : r.room = room + 1) => ?_
  · rw [h]
    exact hnone
  · rw [h]
    exact hsome room h

/-- By induction on the fuel: a type may be read in any number of argument lists. -/
theorem typeExpr (block : Methods → Method Block) (fuel : Nat) (r : Registers) :
    Mirrors True (r.room < fuel) r (Methods.withBlocks block fuel).type
      (Parser.typeExpr r.options.maxDepth r.room r.angles) := by
  induction fuel generalizing r with
  | zero => exact ⟨fun _ => .refl _, fun h => absurd h (Nat.not_lt_zero _)⟩
  | succ fuel ih =>
    refine nested (fun h => by rw [h]; rfl) fun room hroom => ?_
    rw [hroom]
    refine typeBody (r := { r with depth := r.depth + 1 }) (fun angles => ?_) r.angles
    have hr : Registers.room { r with depth := r.depth + 1, angles } = room := by
      unfold Registers.room at hroom ⊢
      dsimp only
      omega
    refine (ih { r with depth := r.depth + 1, angles }).of (fun h => by omega) fun _ => ?_
    rw [hr]

end Mirrors

/-- With fuel for the levels that are left, and out of all argument lists, the methods mirror the parsers of as many
levels, if the method of blocks mirrors their parser wherever the others do. -/
theorem Mirroring.withBlocks (block : Methods → Method Block) (block' : ParseOptions → Inner → Parser Block)
    (hblock : ∀ {fits : Prop} {r : Registers} {k : Methods} {g : Inner}, Mirroring fits r k g → ∀ header,
      Mirrors False fits { r with header } (block k) (block' r.options g))
    (fuel : Nat) (r : Registers) :
    Mirroring (r.room < fuel ∧ r.angles = 0) r (Methods.withBlocks block fuel)
      (Inner.withBlocks (block' r.options) r.options r.room) := by
  -- types are tied together on their own, since they are read in argument lists as well
  have htype (fuel : Nat) (r : Registers) (angles : Nat) (header : Bool) :
      Mirrors True (r.room < fuel ∧ r.angles = 0) { r with angles, header } (Methods.withBlocks block fuel).type
        ((Inner.withBlocks (block' r.options) r.options r.room).type angles) :=
    (Mirrors.typeExpr block fuel { r with angles, header }).of And.left fun _ =>
      (congrFun (Inner.withBlocks_type ..) angles).symm
  induction fuel generalizing r with
  | zero =>
    have hempty {α : Type} {header : Bool} {p : Parser α} : Mirrors False (r.room < 0 ∧ r.angles = 0)
        { r with header } (do Parser.tooDeep (← Method.register Registers.options).maxDepth) p :=
      ⟨fun _ => .refl _, fun h => absurd h.1 (Nat.not_lt_zero _)⟩
    exact ⟨And.right, htype 0 r, fun _ => hempty, fun _ _ => hempty, fun _ => hempty, fun _ => hempty, fun _ => hempty⟩
  | succ fuel ih =>
    have hk (room : Nat) (hroom : r.room = room + 1) : Mirroring (r.room < fuel + 1 ∧ r.angles = 0)
        { r with depth := r.depth + 1 } (Methods.withBlocks block fuel)
          (Inner.withBlocks (block' r.options) r.options room) := by
      have hr : Registers.room { r with depth := r.depth + 1 } = room := by
        unfold Registers.room at hroom ⊢
        dsimp only
        omega
      have := ih { r with depth := r.depth + 1 }
      rw [hr] at this
      exact this.mono fun h => ⟨by omega, h.2⟩
    open Mirrors in
    exact {
      angles := And.right
      type := htype (fuel + 1) r
      expression := fun header =>
        inside (p := (·.expression header)) rfl fun room h => expressionBody (hk room h) header
      chain := fun header level =>
        inside (p := (·.chain header level)) rfl fun room h => chainBody (hk room h) header level
      unary := fun header => inside (p := (·.unary header)) rfl fun room h => unaryBody (hk room h) header
      block := fun header => inside (p := (·.block)) rfl fun room h => hblock (hk room h) header
      elseIf := fun header => inside (p := (·.elseIf)) rfl fun room h => ifBody (hk room h) header }

/-- With fuel for the levels that are left, and out of all argument lists, the methods mirror the parsers of as many
levels. -/
theorem Mirroring.ofFuel (fuel : Nat) (r : Registers) :
    Mirroring (r.room < fuel ∧ r.angles = 0) r (Methods.ofFuel fuel) (Inner.ofRoom r.options r.room) := by
  rw [← Methods.withBlocks_blockBody, ← Inner.withBlocks_blockBody]
  exact .withBlocks Session.blockBody Parser.blockBody (fun hk header => Mirrors.blockBody hk header) fuel r

end ElleFrontEnd
