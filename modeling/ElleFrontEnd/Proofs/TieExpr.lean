import ElleFrontEnd.Proofs.ReadExpr
import ElleFrontEnd.Proofs.TieType

/-!
# Expressions in tied runs

Every parser of an expression ends alike from tied states, as long as those do that nest in it (`Tie.Tied`).

Where the grammar tries a type and goes back, the runs have to end alike in failure as well.  So what is tried comes
first here, in one piece (`castHead`, `structHead`, `elementTag`).
-/

namespace ElleFrontEnd

namespace Parser

/-! ### What is tried before a cast and before a struct literal -/

/-- A type in parentheses with an operand behind it, which is not passed. -/
def castHead (g : Inner) : Parser (Span × TypeExpr) := do
  let opened ← expectMark .lParen
  let type ← castType g
  if opensOperand (!type.isNamed) (← nextKind) then pure (opened, type) else noExpression

/-- The type arguments of a struct literal with the brace behind them, which is not passed. -/
def structHead (g : Inner) : Parser (Option (List TypeExpr)) := do
  match ← structTypeArgs g with
  | none => noExpression
  | some generics => if ← atStructBody then pure generics else noExpression

variable {g : Inner} {header : Bool}

/-- The same behind any token, for a caller that has seen the parenthesis. -/
def castTrial (g : Inner) : Parser (Span × TypeExpr) := do
  let opened ← skip
  let type ← castType g
  if opensOperand (!type.isNamed) (← nextKind) then pure (opened, type) else noExpression

theorem cast?_eq_trial : cast? g header = (do
    match ← attempt (castTrial g) with
    | none => pure none
    | some (opened, type) => do
      let e ← g.unary header
      pure (some (.cast (← spanFrom opened.start) type e)) : Parser (Option Expr)) := by
  funext s
  change (cast? g header).run s = Parser.run _ s
  unfold cast?
  rw [look_bind, skip_bind]
  have hopened : skip.run s = (.ok s.peek.span, s.advance) := rfl
  rcases hc : (castType g).run s.advance with ⟨e | type, s₁⟩
  · have hhead : (castTrial g).run s = (.error e, s₁) :=
      (run_bind_of_ok hopened).trans (run_bind_of_error hc)
    have htype : (attempt (castType g)).run s.advance = (.ok none, s₁.rewindTo s.advance) := by rw [attempt_run, hc]
    have htried : (attempt (castTrial g)).run s = (.ok none, s₁.rewindTo s) := by rw [attempt_run, hhead]
    refine (run_bind_of_ok htype).trans (Eq.symm ?_)
    exact run_bind_of_ok htried
  · have htype : (attempt (castType g)).run s.advance = (.ok (some type), s₁) := by rw [attempt_run, hc]
    have hhead : (castTrial g).run s = if opensOperand (!type.isNamed) s₁.peek.kind then
        (.ok (s.peek.span, type), s₁) else (noExpression : Parser (Span × TypeExpr)).run s₁ := by
      refine (run_bind_of_ok hopened).trans ((run_bind_of_ok hc).trans ?_)
      unfold nextKind
      rw [look_bind, ite_run]
      rfl
    refine (run_bind_of_ok htype).trans ?_
    unfold nextKind
    rw [look_bind]
    by_cases ho : opensOperand (!type.isNamed) s₁.peek.kind = true
    · rw [if_pos ho] at hhead ⊢
      have htried : (attempt (castTrial g)).run s = (.ok (some (s.peek.span, type)), s₁) := by rw [attempt_run, hhead]
      symm
      exact run_bind_of_ok htried
    · rw [if_neg ho] at hhead ⊢
      have htried : (attempt (castTrial g)).run s = (.ok none, s₁.rewindTo s) := by
        rw [attempt_run, hhead]
        rfl
      symm
      exact run_bind_of_ok htried

theorem cast?_eq {s : ParseState} (hk : s.peek.kind = .punctuation .lParen) :
    cast? g header s = (do
      match ← attempt (castHead g) with
      | none => pure none
      | some (opened, type) => do
        let e ← g.unary header
        pure (some (.cast (← spanFrom opened.start) type e)) : Parser (Option Expr)) s := by
  have hopened : (expectMark .lParen).run s = (.ok s.peek.span, s.advance) := expect_ok.2 ⟨hk, rfl, rfl⟩
  have hhead : castHead g s = castTrial g s := run_bind_of_ok hopened
  rw [cast?_eq_trial]
  change andThen (attempt (castTrial g)) _ s = andThen (attempt (castHead g)) _ s
  unfold andThen attempt
  rw [hhead]

theorem structTypeArgs_total (s : ParseState) :
    ∃ o s', (structTypeArgs g).run s = (.ok o, s') := by
  unfold structTypeArgs atOperator isAt isAdjacent owed
  rw [look_bind, look_bind]
  split
  · rcases hargs : (typeArgs g.type 0).run s with ⟨e | args, s₁⟩
    · have htried : (attempt (typeArgs g.type 0)).run s = (.ok none, s₁.rewindTo s) := by rw [attempt_run, hargs]
      exact ⟨_, _, run_bind_of_ok htried⟩
    · have htried : (attempt (typeArgs g.type 0)).run s = (.ok (some args), s₁) := by rw [attempt_run, hargs]
      rw [run_bind_of_ok htried]
      dsimp only
      rw [look_bind]
      split <;> exact ⟨_, _, rfl⟩
  · exact ⟨_, _, rfl⟩

theorem structLiteral?_eq {start : Nat} {name : String} :
    structLiteral? g start name = (do
      match ← attempt (structHead g) with
      | none => pure none
      | some generics => do
        let opened ← skip
        let fields ← commaList .rBrace (fieldInit g)
        closing .rBrace opened
        pure (some (.structLit (← spanFrom start) name generics fields)) : Parser (Option Expr)) := by
  funext s
  change (structLiteral? g start name).run s = Parser.run _ s
  unfold structLiteral?
  rw [look_bind]
  obtain ⟨o, s₁, hargs⟩ := structTypeArgs_total (g := g) s
  refine (run_bind_of_ok hargs).trans ?_
  cases o with
  | none =>
    have hhead : (structHead g).run s = (noExpression : Parser (Option (List TypeExpr))).run s₁ := run_bind_of_ok hargs
    have htried : (attempt (structHead g)).run s = (.ok none, s₁.rewindTo s) := by
      rw [attempt_run, hhead]
      rfl
    symm
    exact run_bind_of_ok htried
  | some generics =>
    have hhead : (structHead g).run s = (do
        if ← atStructBody then pure generics else noExpression : Parser (Option (List TypeExpr))).run s₁ :=
      run_bind_of_ok hargs
    unfold atStructBody at hhead ⊢
    dsimp only
    rw [look_bind] at hhead ⊢
    split at hhead
    · rename_i hb
      rw [if_pos hb]
      have htried : (attempt (structHead g)).run s = (.ok (some generics), s₁) := by
        rw [attempt_run, hhead]
        rfl
      symm
      exact run_bind_of_ok htried
    · rename_i hb
      rw [if_neg hb]
      have htried : (attempt (structHead g)).run s = (.ok none, s₁.rewindTo s) := by
        rw [attempt_run, hhead]
        rfl
      symm
      exact run_bind_of_ok htried

/-- The element type of an array literal with the semicolon behind it. -/
def elementTag (g : Inner) : Parser TypeExpr := do
  let type ← g.type 0
  let _ ← expectMark .semicolon
  pure type

end Parser

/-- Types end alike from tied states, and so does what is tried. -/
structure Tie.TypesTied (K : Tie) (g g' : Inner) : Prop where
  type : K.Ties (g.type 0) (g'.type 0)
  callTypeArgs : K.Tried (Parser.callTypeArgs g) (Parser.callTypeArgs g')
  castHead : K.Tried (Parser.castHead g) (Parser.castHead g')
  structHead : K.Tried (Parser.structHead g) (Parser.structHead g')
  elementTag : K.Tried (Parser.elementTag g) (Parser.elementTag g')
  typeAndName : K.Tried (Parser.typeAndName g) (Parser.typeAndName g')

/-- The parsers of nested constructs end alike from tied states. -/
structure Tie.Tied (K : Tie) (g g' : Inner) : Prop extends K.TypesTied g g' where
  expression : ∀ header, K.Ties (g.expression header) (g'.expression header)
  chain : ∀ header level, K.Ties (g.chain header level) (g'.chain header level)
  unary : ∀ header, K.Ties (g.unary header) (g'.unary header)
  block : K.Ties g.block g'.block
  elseIf : K.Ties g.elseIf g'.elseIf

/-- The kind of the token behind the next one is near, where the next one ends no item. -/
theorem near_isAhead_one {a : ParseState → Bool} (ha : ∀ s, a s = true → s.peek.kind.endsItem = false)
    (kind : TokenKind) (s : ParseState) (hs : a s = true) :
    decide (s.near.kindAt 1 = kind) = decide (s.kindAt 1 = kind) := by
  rw [ParseState.near_kindAt_one (ha s hs)]

theorem endsItem_of_ident? {kind : TokenKind} (h : kind.ident?.isSome = true) : kind.endsItem = false := by
  cases kind <;> first | rfl | simp [TokenKind.ident?] at h

namespace Tie.Runs

open ElleFrontEnd.Parser (Round)

variable {α : Type} {K : Tie} {g g' : Inner}

theorem noExpression {m : Prop} {P : ParseState → Prop} :
    K.Runs m P (Parser.noExpression : Parser α) Parser.noExpression :=
  token (c := fun _ => false) (fun _ => by simp [Parser.noExpression]) (.inr fun _ _ h => by simp at h)

theorem requireOperand (op : Operator) : K.Ties (Parser.requireOperand op) (Parser.requireOperand op) := by
  refine token (c := fun _ => false) (fun s => ?_) (.inl trivial)
  unfold Parser.requireOperand
  by_cases h : Parser.opensOperand true s.peek.kind = true <;> simp [h]

theorem wrongOperands (d : DirectiveName) :
    K.Ties (Parser.wrongOperands d : Parser α) (Parser.wrongOperands d) :=
  token (c := fun _ => false) (fun _ => by simp [Parser.wrongOperands]) (.inl trivial)

theorem pathTail : K.Ties Parser.pathTail Parser.pathTail := by
  refine collect ((accept _).bind fun _ => ite (identifier.bind fun _ => done _) (done _)) ⟨fun s _ s' h => ?_, ?_⟩
  · simp [Parser.acceptMark, ite_eq_iff] at h
    obtain ⟨hk, -, rfl⟩ := h
    have := Parser.length_advance_lt (s := s) (by simp [hk])
    have := (Advances.advance s.advance).length_le
    omega
  · intro s s' h
    simp [Parser.acceptMark, ite_eq_iff] at h

/-- A name that is followed by a token of a kind. -/
theorem identBefore (kind : TokenKind) {k k' : Bool → Bool → Parser α} (hfalse : ∀ y, k false y = k false false)
    (hfalse' : ∀ y, k' false y = k' false false) (hk : ∀ x y, K.Ties (k x y) (k' x y)) :
    K.Ties (do k (← Parser.atIdent) (← Parser.isAhead 1 kind)) (do k' (← Parser.atIdent) (← Parser.isAhead 1 kind)) :=
  both (fun s => by simp) (near_isAhead_one (fun _ h => endsItem_of_ident? h) kind) hfalse hfalse' hk

/-- A token of one kind that is followed by one of another. -/
theorem kindBefore {first : TokenKind} (hf : first.endsItem = false) (kind : TokenKind) {k k' : Bool → Bool → Parser α}
    (hfalse : ∀ y, k false y = k false false) (hfalse' : ∀ y, k' false y = k' false false)
    (hk : ∀ x y, K.Ties (k x y) (k' x y)) :
    K.Ties (do k (← Parser.isAt first) (← Parser.isAhead 1 kind))
      (do k' (← Parser.isAt first) (← Parser.isAhead 1 kind)) :=
  both (fun s => by simp)
    (near_isAhead_one (fun s h => by rw [of_decide_eq_true h]; exact hf) kind) hfalse hfalse' hk

section
variable (hg : K.Tied g g')
include hg

theorem exprList (close : Punctuation) (opened : Span) :
    K.Ties (Parser.exprList g close opened) (Parser.exprList g' close opened) :=
  (commaList _ (hg.expression false)).bind fun _ => (closing _ _).bind fun _ => done _

theorem arguments : K.Ties (Parser.arguments g) (Parser.arguments g') := (expect _ _).bind fun _ => exprList hg _ _

/-! ### Parameter lists and lambdas -/

theorem param : K.Ties (Parser.param g) (Parser.param g') := by
  refine nextStart.bind fun _ => (accept _).bind fun _ => ite ?_ ?_
  · refine atIdent.bind fun _ => ite (identifier.bind fun _ => ?_) ?_ <;> exact (spanFrom _).bind fun _ => done _
  refine kindBefore rfl _ (fun _ => rfl) (fun _ => rfl) fun _ _ => ite ?_ ?_
  · refine skip.bind fun _ => skip.bind fun _ => hg.type.bind fun _ => identifier.bind fun _ => ?_
    exact (spanFrom _).bind fun _ => done _
  · refine hg.type.bind fun _ => atIdent.bind fun _ => ite (identifier.bind fun _ => ?_) ?_ <;>
      exact (spanFrom _).bind fun _ => done _

omit hg in
theorem metaBinding : K.Ties Parser.metaBinding Parser.metaBinding := by
  have hahead (s : ParseState) (h : decide (s.peek.kind = .ident Parser.metaMarker) = true) :
      (s.near.kindAt 1).ident?.isSome = (s.kindAt 1).ident?.isSome := by
    rw [ParseState.near_kindAt_one (by rw [of_decide_eq_true h]; rfl)]
  refine both (fun s => by simp) hahead (fun _ => rfl) (fun _ => rfl) fun _ _ => ite ?_ (done _)
  refine skip.bind fun _ => identifier.bind fun _ => (isAt _).bind fun _ => ite (done _) ?_
  exact (expect _ _).bind fun _ => done _

theorem paramList : K.Ties (Parser.paramList g) (Parser.paramList g') := by
  refine (expect _ _).bind fun _ => metaBinding.bind fun _ => (commaList _ (param hg)).bind fun _ => ?_
  exact (closing _ _).bind fun _ => done _

theorem lambda (header : Bool) : K.Ties (Parser.lambda g header) (Parser.lambda g' header) := by
  refine (expect _ _).bind fun _ => (paramList hg).bind fun _ => (isAt _).bind fun _ => ite ?_ ?_
  · exact hg.block.spanned
  · exact (hg.expression header).spanned

/-! ### Names, arrays, directives -/

theorem fieldInit : K.Ties (Parser.fieldInit g) (Parser.fieldInit g') := by
  refine nextStart.bind fun _ => identifier.bind fun _ => (expect _ _).bind fun _ => ?_
  exact (hg.expression false).spanned

theorem structLiteral? (start : Nat) (name : String) :
    K.Ties (Parser.structLiteral? g start name) (Parser.structLiteral? g' start name) := by
  rw [Parser.structLiteral?_eq, Parser.structLiteral?_eq]
  refine hg.structHead.attempt.bind fun o => ?_
  cases o with
  | none => exact done none
  | some generics =>
    refine skip.bind fun _ => (commaList _ (fieldInit hg)).bind fun _ => (closing _ _).bind fun _ => ?_
    exact (spanFrom _).bind fun _ => done _

theorem nameExpr (header : Bool) : K.Ties (Parser.nameExpr g header) (Parser.nameExpr g' header) := by
  have hspan {start : Nat} {build : Span → Expr} :
      K.Ties (do pure (build (← Parser.spanFrom start))) (do pure (build (← Parser.spanFrom start))) :=
    (spanFrom _).bind fun _ => done _
  refine nextStart.bind fun _ => identifier.bind fun _ => (isAt _).bind fun _ => ite (pathTail.bind fun _ => hspan) ?_
  refine ite hspan ((structLiteral? hg _ _).bind fun o => ?_)
  cases o with
  | none => exact hspan
  | some e => exact done e

theorem arrayLiteral (start : Nat) (isStatic : Bool) :
    K.Ties (Parser.arrayLiteral g start isStatic) (Parser.arrayLiteral g' start isStatic) :=
  (expect _ _).bind fun opened => hg.elementTag.attempt.bind fun _ => (exprList hg _ opened).spanned

omit hg in
theorem operand (d : DirectiveName) (isFirst : Bool) {p q : Parser α} (hp : K.Ties p q) :
    K.Ties (Parser.operand d isFirst p) (Parser.operand d isFirst q) := by
  have hrest (separated : Bool) : K.Ties
      (if !separated then Parser.wrongOperands d
        else do if ← Parser.atMark .rParen then Parser.wrongOperands d else p)
      (if !separated then Parser.wrongOperands d
        else do if ← Parser.atMark .rParen then Parser.wrongOperands d else q) :=
    ite (wrongOperands d) ((isAt _).bind fun _ => ite (wrongOperands d) hp)
  unfold Parser.operand
  cases isFirst with
  | true => exact hrest true
  | false => exact (accept _).bind hrest

omit hg in
theorem operandList (d : DirectiveName) {p q : Parser α} (hp : K.Ties p q) :
    K.Ties (Parser.operandList d p) (Parser.operandList d q) := by
  refine ((expect _ _).onError _).bind fun _ => hp.bind fun _ => (isAt _).bind fun _ => atEnd.bind fun _ => ?_
  exact ite (wrongOperands d) ((closing _ _).bind fun _ => done _)

theorem optionalOperand : K.Ties (Parser.optionalOperand g) (Parser.optionalOperand g') :=
  (accept _).bind fun _ => ite ((hg.expression false).bind fun _ => done _) (done _)

theorem directiveOf (d : DirectiveName) : K.Ties (Parser.directiveOf g d) (Parser.directiveOf g' d) := by
  have hvalue := operand d true (hg.expression false)
  have htype (isFirst : Bool) : K.Ties (Parser.operand d isFirst (Parser.typeOperand g d))
      (Parser.operand d isFirst (Parser.typeOperand g' d)) := operand d isFirst (hg.type.onError _)
  have hcount {build : Option Expr → Directive} : K.Ties (do pure (build (← Parser.optionalOperand g)))
      (do pure (build (← Parser.optionalOperand g'))) := (optionalOperand hg).bind fun _ => done _
  cases d with
  | len | free | setAllocator => exact operandList _ (hvalue.bind fun _ => done _)
  | size => exact operandList _ ((htype true).bind fun _ => done _)
  | ident => exact operandList _ ((operand _ true identifier).bind fun _ => done _)
  | env => exact (isAt _).bind fun _ => ite (wrongOperands _) (done _)
  | resetAllocator => exact operandList _ (done _)
  | alloc => exact operandList _ ((htype true).bind fun _ => hcount)
  | realloc => exact operandList _ (hvalue.bind fun _ => (htype false).bind fun _ => hcount)

theorem hashExpr : K.Ties (Parser.hashExpr g) (Parser.hashExpr g') := by
  refine (expect _ _).bind fun _ => (isAt _).bind fun _ => ite (arrayLiteral hg _ true) (nextKind.bind fun kind => ?_)
  split
  · refine skip.bind fun _ => ?_
    split
    · exact fail _
    · exact (directiveOf hg _).spanned
  · exact unexpected _

omit hg in
theorem near_tripleMark : Near fun s => decide (s.peek.kind = .punctuation .dollar) &&
    decide (s.kindAt 1 = .punctuation .lParen) && s.nextIsAdjacent := by
  intro s
  by_cases hk : s.peek.kind = .punctuation .dollar
  · have hend : s.peek.kind.endsItem = false := by rw [hk]; rfl
    simp [hk, ParseState.near_kindAt_one hend, ParseState.near_nextIsAdjacent hend]
  · simp [hk]

omit hg in
/-- The mark of a triple is seen by three looks, none of which counts unless those before it are true. -/
theorem tripleMark (touching : Bool) {p p' q q' : Parser α} (hp : K.Ties p p') (hq : K.Ties q q') :
    K.Ties
      (do
        if touching && (← Parser.atMark .dollar) && (← Parser.isAhead 1 (.punctuation .lParen)) &&
            (← Parser.look ParseState.nextIsAdjacent) then p else q)
      (do
        if touching && (← Parser.atMark .dollar) && (← Parser.isAhead 1 (.punctuation .lParen)) &&
            (← Parser.look ParseState.nextIsAdjacent) then p' else q') := by
  refine through near_tripleMark (k := fun b => if touching && b then p else q)
    (j := fun b => if touching && b then p' else q') (fun s => ?_) (fun s => ?_) fun _ => ite hp hq <;>
  · rw [← Bool.and_assoc, ← Bool.and_assoc]
    rfl

theorem dollarExpr : K.Ties (Parser.dollarExpr g) (Parser.dollarExpr g') := by
  have hspan {start : Nat} {build : Span → Expr} :
      K.Ties (do pure (build (← Parser.spanFrom start))) (do pure (build (← Parser.spanFrom start))) :=
    (spanFrom _).bind fun _ => done _
  have hsize (form : FixedLiteral) (found start : Nat) :
      K.Ties (Parser.wrongSize form found start : Parser Expr) (Parser.wrongSize form found start) :=
    (spanFrom _).bind fun _ => fail _
  refine (expect _ _).bind fun _ => isAdjacent.bind fun touching => tripleMark touching ?_ ?_
  · refine skip.bind fun _ => (arguments hg).bind fun items => ?_
    split
    · exact hspan
    · exact hsize _ _ _
  refine (isAt _).bind fun _ => ite ?_ ?_
  · refine (arguments hg).bind fun items => ?_
    split
    · exact hspan
    · exact hsize _ _ _
  refine atIdent.bind fun _ => ite ?_ (unexpected _)
  refine identifier.bind fun _ => (isAt _).bind fun _ => isAdjacent.bind fun _ => ite (arguments hg).spanned ?_
  exact hspan

/-! ### Operands and chains -/

theorem primary (header : Bool) : K.Ties (Parser.primary g header) (Parser.primary g' header) := by
  have hliteral (start : Nat) (build : Span → Expr) :
      K.Ties (Parser.literal start build) (Parser.literal start build) :=
    skip.bind fun _ => (spanFrom _).bind fun _ => done _
  refine nextStart.bind fun start => nextKind.bind fun kind => ?_
  split
  case h_6 => exact lambda hg header
  case h_7 => exact nameExpr hg header
  case h_8 =>
    refine skip.bind fun _ => (hg.expression false).bind fun _ => (closing _ _).bind fun _ => ?_
    exact (spanFrom _).bind fun _ => done _
  case h_9 => exact arrayLiteral hg _ false
  case h_10 => exact hashExpr hg
  case h_11 => exact dollarExpr hg
  case h_12 => exact noExpression
  all_goals exact hliteral _ _

theorem suffixStep (start : Nat) (e : Expr) : K.Ties (Parser.suffixStep g start e) (Parser.suffixStep g' start e) := by
  refine (isAt _).bind fun _ => ite (arguments hg).spanned ?_
  refine (isAt _).bind fun _ => isAdjacent.bind fun _ => ite ?_ ((accept _).bind fun _ => ite ?_ ?_)
  · refine hg.callTypeArgs.attempt.bind fun o => ?_
    cases o with
    | none => exact done none
    | some generics => exact (arguments hg).spanned
  · exact identifier.bind fun _ => (spanFrom _).bind fun _ => done _
  refine (isAt _).bind fun _ => ite (skip.bind fun _ => (hg.expression false).bind fun _ => ?_) (done _)
  exact (closing _ _).bind fun _ => (spanFrom _).bind fun _ => done _

variable (hs : g.Settled)
include hs

theorem operandExpr (header : Bool) : K.Ties (Parser.operandExpr g header) (Parser.operandExpr g' header) :=
  nextStart.bind fun start => (primary hg header).bind fun e =>
    grow (suffixStep hg start) (Parser.suffixStep_shrinks hs start) e

/-- A cast, where a parenthesis comes next. -/
theorem cast? (header : Bool) : K.Runs True (fun s => s.peek.kind = .punctuation .lParen) (Parser.cast? g header)
    (Parser.cast? g' header) := by
  have htried : K.Ties
      (do
        match ← Parser.attempt (Parser.castHead g) with
        | none => pure none
        | some (opened, type) => do
          let e ← g.unary header
          pure (some (Expr.cast (← Parser.spanFrom opened.start) type e)))
      (do
        match ← Parser.attempt (Parser.castHead g') with
        | none => pure none
        | some (opened, type) => do
          let e ← g'.unary header
          pure (some (Expr.cast (← Parser.spanFrom opened.start) type e))) := by
    refine hg.castHead.attempt.bind fun o => ?_
    cases o with
    | none => exact done none
    | some head => exact (hg.unary header).spanned
  constructor
  · intro s t hst hk
    rw [Parser.cast?_eq hk, Parser.cast?_eq (kind_eq hst ▸ hk)]
    exact htried.ends s t hst trivial
  · exact Alike.advances fun ts => Alike.cast? (.refl ts) (hs.steady ts) header

theorem unaryBody (header : Bool) : K.Ties (Parser.unaryBody g header) (Parser.unaryBody g' header) := by
  refine nextStart.bind fun start => seeing (fun s => by simp) fun kind => ?_
  split
  · rename_i op
    refine mono (P := fun _ => True) ?_ fun _ _ => trivial
    split
    · exact skip.bind fun _ => (requireOperand _).bind fun _ => (hg.unary header).spanned
    · refine ite ?_ (operandExpr hg hs header)
      exact skip.bind fun _ => (requireOperand _).bind fun _ => (hg.unary header).spanned
  · refine ((cast? hg hs header).mono fun _ h => h.2).bind fun o => ?_
    cases o with
    | none => exact operandExpr hg hs header
    | some e => exact done e
  · exact (operandExpr hg hs header).mono fun _ _ => trivial

theorem chainBody (header : Bool) (level : Nat) :
    K.Ties (Parser.chainBody g header level) (Parser.chainBody g' header level) := by
  refine (unaryBody hg hs header).bind fun e =>
    grow (fun left => nextKind.bind fun kind => ?_) (Parser.chainStep_shrinks hs header level) e
  split
  · exact done none
  split
  · exact done none
  refine ite (done none) (skip.bind fun _ => (requireOperand _).bind fun _ => ?_)
  exact (hg.chain header _).bind fun _ => done _

theorem expressionBody (header : Bool) :
    K.Ties (Parser.expressionBody g header) (Parser.expressionBody g' header) := by
  have hchosen : K.Ties (Parser.consequence g header) (Parser.consequence g' header) :=
    (isAt _).bind fun _ => ite (done none) ((hg.expression header).bind fun _ => done _)
  refine (chainBody hg hs header 1).bind fun _ => (accept _).bind fun _ => ite ?_ (done _)
  exact hchosen.bind fun _ => (expect _ _).bind fun _ => (hg.expression header).bind fun _ => done _

end

end Tie.Runs

end ElleFrontEnd
