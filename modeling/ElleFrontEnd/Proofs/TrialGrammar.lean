import ElleFrontEnd.Proofs.Trial

/-!
# Following through the grammar

`Narrows limit room g g'` compares the parsers of nested constructs at two limits: with `room` levels left, those of
`g` follow those of `g'` to every result whose trials lie within these levels.  Each parser of the grammar hands this
on from the parsers it is made of.  Where a type is read on trial, `g` may run out of levels and give the type up; that
this is no type of the result is what the trials of the result are counted for.
-/

namespace ElleFrontEnd

/-- With `room` levels left, the parsers of `g` follow those of `g'`. -/
structure Inner.Narrows (limit room : Nat) (g g' : Inner) : Prop where
  settled : g.Settled
  settled' : g'.Settled
  type : ∀ angles, Curtails limit (g.type angles) (g'.type angles)
  fit : ∀ angles s t s', (g'.type angles).run s = (.ok t, s') → t.height 0 ≤ room → (g.type angles).run s = (.ok t, s')
  expression : ∀ header, Follows limit (·.trialDepth ≤ room) (g.expression header) (g'.expression header)
  chain : ∀ header level, Follows limit (·.trialDepth ≤ room) (g.chain header level) (g'.chain header level)
  unary : ∀ header, Follows limit (·.trialDepth ≤ room) (g.unary header) (g'.unary header)
  block : Follows limit (·.trialDepth ≤ room) g.block g'.block
  elseIf : Follows limit (fun parts => deeper parts.trialDepth ≤ room) g.elseIf g'.elseIf

/-- The level of trials in a declaration of a variable. -/
def Parser.BindingForm.trialDepth : Parser.BindingForm → Nat
  | .variable _ type _ init => max (optHeight (TypeExpr.height 0) type) (optExprTrialDepth init)
  | .buffer type _ size => max (type.height 0) size.trialDepth

namespace Follows

open ElleFrontEnd.Parser (Yields)

variable {limit room : Nat} {g g' : Inner} {header : Bool} (hg : Inner.Narrows limit room g g')
include hg

/-! ### Lists and lambdas -/

theorem exprList (close : Punctuation) (opened : Span) :
    Follows limit (exprListTrialDepth · ≤ room) (Parser.exprList g close opened) (Parser.exprList g' close opened) := by
  refine (((hg.expression false).commaList close).mono fun es hes => ?_).before fun es => .behind fun _ => .pure id
  rwa [exprListTrialDepth_eq, highest_le] at hes

theorem arguments : Follows limit (exprListTrialDepth · ≤ room) (Parser.arguments g) (Parser.arguments g') :=
  after fun opened => exprList hg _ opened

theorem paramList : Curtails limit (Parser.paramList g) (Parser.paramList g') := by
  have hparam : Curtails limit (Parser.param g) (Parser.param g') := by
    refine .after fun _ => .after fun _ => .ite (.refl _) (.after fun _ => .after fun _ => .ite ?_ ?_)
    · exact .after fun _ => .after fun _ => (hg.type 0).bind fun _ => .refl _
    · exact (hg.type 0).bind fun _ => .refl _
  refine .after fun _ => .after fun _ => Curtails.bind (.collect ?_) fun _ => .refl _
  exact .after fun _ => .ite (.refl _) (.after fun _ => .ite (.refl _) (hparam.bind fun _ => .refl _))

theorem lambda : Follows limit (·.trialDepth ≤ room + 1) (Parser.lambda g header) (Parser.lambda g' header) := by
  refine after fun _ => (of_curtails (paramList hg)).behind fun _ => after fun _ => ite ?_ ?_
  · exact hg.block.spanned fun _ _ h => deeper_le_succ.1 h
  · exact (hg.expression header).spanned fun _ _ h => deeper_le_succ.1 h

/-! ### Struct literals, arrays and directives -/

theorem typeArgs : Curtails limit (Parser.typeArgs g.type 0) (Parser.typeArgs g'.type 0) := .typeArgs hg.type 0

theorem typeArgs_fit {s s' : ParseState} {args : List TypeExpr}
    (h : (Parser.typeArgs g'.type 0).run s = (.ok args, s')) (hargs : typeListHeight 0 args ≤ room) :
    (Parser.typeArgs g.type 0).run s = (.ok args, s') :=
  Parser.typeArgs_fit hg.settled.type hg.settled'.type hg.fit h hargs

/-- Where there are too few levels for type arguments, none are read. -/
theorem structTypeArgs_run {s s' : ParseState} {o : Option (Option (List TypeExpr))}
    (h : (Parser.structTypeArgs g').run s = (.ok o, s')) :
    (Parser.structTypeArgs g).run s = (.ok o, s') ∨ (Parser.structTypeArgs g).run s = (.ok none, s) := by
  -- only where an argument list opens do the two parsers differ at all
  by_cases hopen : s.peek.kind = .operator .lt ∧ s.isAdjacent = true
  · rcases hrun : (Parser.typeArgs g.type 0).run s with ⟨e | args, s₁⟩
    · exact .inr ((Parser.structTypeArgs_none hg.settled).2 ⟨hopen.1, hopen.2, .inl ⟨⟨e, s₁, hrun⟩, rfl⟩⟩)
    · have hrun' := (typeArgs hg).ok hrun
      refine .inl ?_
      cases o with
      | none =>
        obtain ⟨-, -, ⟨⟨e, s₂, he⟩, -⟩ | ⟨args', h', howed⟩⟩ := (Parser.structTypeArgs_none hg.settled').1 h
        · rw [hrun'] at he
          cases he
        · rw [hrun'] at h'
          cases h'
          exact (Parser.structTypeArgs_none hg.settled).2 ⟨hopen.1, hopen.2, .inr ⟨args, hrun, howed⟩⟩
      | some generics =>
        rcases (Parser.structTypeArgs_some hg.settled').1 h with ⟨-, -, args', rfl, h', howed⟩ | ⟨hne, -⟩
        · rw [hrun'] at h'
          cases h'
          exact (Parser.structTypeArgs_some hg.settled).2 (.inl ⟨hopen.1, hopen.2, args, rfl, hrun, howed⟩)
        · exact absurd hopen hne
  · refine .inl ?_
    cases o with
    | none =>
      obtain ⟨hlt, hadj, -⟩ := (Parser.structTypeArgs_none hg.settled').1 h
      exact absurd ⟨hlt, hadj⟩ hopen
    | some generics =>
      rcases (Parser.structTypeArgs_some hg.settled').1 h with ⟨hlt, hadj, -⟩ | h
      · exact absurd ⟨hlt, hadj⟩ hopen
      · exact (Parser.structTypeArgs_some hg.settled).2 (.inr h)

theorem structTypeArgs_fit {s s' : ParseState} {generics : Option (List TypeExpr)}
    (h : (Parser.structTypeArgs g').run s = (.ok (some generics), s'))
    (hfit : optHeight (typeListHeight 0) generics ≤ room) :
    (Parser.structTypeArgs g).run s = (.ok (some generics), s') := by
  refine (Parser.structTypeArgs_some hg.settled).2 ?_
  rcases (Parser.structTypeArgs_some hg.settled').1 h with ⟨hlt, hadj, args, rfl, hargs, howed⟩ | h
  · exact .inl ⟨hlt, hadj, args, rfl, typeArgs_fit hg hargs hfit, howed⟩
  · exact .inr h

theorem fieldInit : Follows limit (FieldInit.trialDepth · ≤ room) (Parser.fieldInit g) (Parser.fieldInit g') :=
  after fun _ => after fun _ => after fun _ => (hg.expression false).spanned fun _ _ h => h

theorem structLiteral? (start : Nat) (name : String) : Follows limit (fun o => ∀ e ∈ o, e.trialDepth ≤ room + 1)
    (Parser.structLiteral? g start name) (Parser.structLiteral? g' start name) := by
  intro s o s' h ho
  cases o with
  | none =>
    -- no literal in many levels: with fewer, the type arguments are read as before or given up
    obtain ⟨rfl, hno⟩ := (Parser.structLiteral?_none hg.settled').1 h
    refine .of_run ((Parser.structLiteral?_none hg.settled).2 ⟨rfl, ?_⟩)
    rcases hno with ⟨s₁, h⟩ | ⟨generics, s₁, h, hbody⟩ <;> rcases structTypeArgs_run hg h with h | h
    · exact .inl ⟨_, h⟩
    · exact .inl ⟨_, h⟩
    · exact .inr ⟨generics, s₁, h, hbody⟩
    · exact .inl ⟨_, h⟩
  | some e =>
    obtain ⟨generics, s₁, fields, s₂, hgen, -, -, -, -, rfl⟩ := (Parser.structLiteral?_some hg.settled').1 h
    have hfit := (Nat.max_le.1 (deeper_le_succ.1 (ho _ rfl))).1
    have hfields : Follows limit (fieldInitListTrialDepth · ≤ room) (Parser.commaList .rBrace (Parser.fieldInit g))
        (Parser.commaList .rBrace (Parser.fieldInit g')) := by
      refine ((fieldInit hg).commaList _).mono fun fs hfs => ?_
      rwa [fieldInitListTrialDepth_eq, highest_le] at hfs
    -- the type arguments are read again, and so is what stands behind them
    unfold Parser.structLiteral? at h ⊢
    rw [Parser.look_bind] at h ⊢
    obtain ⟨o, s₃, hgen', h⟩ := Parser.bind_ok.1 h
    rw [hgen] at hgen'
    cases hgen'
    refine (Reaches.of_run (structTypeArgs_fit hg hgen hfit)).bind ?_
    refine after (P := fun o => ∀ e ∈ o, Expr.trialDepth e ≤ room + 1) (fun _ => ite (after fun _ => ?_) (refl _))
      _ _ _ h ho
    refine hfields.before fun fs => .behind fun _ => .behind fun _ => .pure fun h => ?_
    exact (Nat.max_le.1 (deeper_le_succ.1 (h _ rfl))).2

theorem nameExpr : Follows limit (·.trialDepth ≤ room + 1) (Parser.nameExpr g header) (Parser.nameExpr g' header) := by
  refine after fun _ => after fun _ => after fun _ => ite (refl _) (ite (refl _) ?_)
  refine (structLiteral? hg _ _).before fun o => ?_
  cases o with
  | none => exact fun _ _ _ _ _ _ h => nomatch h
  | some e => exact .pure fun h e' he' => Option.mem_some_iff.1 he' ▸ h

theorem arrayLiteral (start : Nat) (isStatic : Bool) : Follows limit (·.trialDepth ≤ room + 1)
    (Parser.arrayLiteral g start isStatic) (Parser.arrayLiteral g' start isStatic) := by
  have htag {g : Inner} (hg : g.Settled) : (do
      let type ← g.type 0
      let _ ← Parser.expectMark .semicolon
      pure type : Parser TypeExpr).Silent :=
    (hg.silent 0).bind fun _ => (Parser.Silent.expect _ _).bind fun _ => .pure _
  refine after fun opened => attempt (htag hg.settled) (htag hg.settled') ?_ (fun element => ?_) ?_
  · exact (hg.type 0).bind fun _ => .refl _
  · exact (exprList hg _ _).spanned fun _ _ h => (Nat.max_le.1 (deeper_le_succ.1 h)).2
  · intro s type s₁ e s' htype h he
    obtain ⟨type', s₂, ht, htype⟩ := Parser.bind_ok.1 htype
    obtain ⟨opened', s₃, hsemi, htype⟩ := Parser.bind_ok.1 htype
    obtain ⟨rfl, rfl⟩ : type' = type ∧ s₃ = s₁ := Parser.pure_ok.1 htype
    obtain ⟨elements, s₄, -, h⟩ := Parser.bind_ok.1 h
    obtain ⟨rfl, rfl⟩ : _ = e ∧ s₄ = s' := Parser.pure_ok.1 h
    have ht := hg.fit 0 _ _ _ ht (Nat.max_le.1 (deeper_le_succ.1 he)).1
    exact .inl (Parser.bind_ok.2 ⟨_, _, ht, Parser.bind_ok.2 ⟨_, _, hsemi, Parser.pure_ok.2 ⟨rfl, rfl⟩⟩⟩)

/-! ### Directives -/

omit hg in
theorem operand {α : Type} {P : α → Prop} (d : DirectiveName) (isFirst : Bool) {p p' : Parser α}
    (hp : Follows limit P p p') : Follows limit P (Parser.operand d isFirst p) (Parser.operand d isFirst p') := by
  unfold Parser.operand
  cases isFirst <;> exact after fun _ => ite (refl _) (after fun _ => ite (refl _) hp)

omit hg in
theorem operandList {α : Type} {P : α → Prop} (d : DirectiveName) {p p' : Parser α} (hp : Follows limit P p p') :
    Follows limit P (Parser.operandList d p) (Parser.operandList d p') := by
  refine after fun _ => hp.before fun a => .behind fun _ => .behind fun _ => .ite ?_ (.behind fun _ => .pure id)
  exact .fails fun s a s' h => by simp at h

theorem optionalOperand :
    Follows limit (optExprTrialDepth · ≤ room) (Parser.optionalOperand g) (Parser.optionalOperand g') :=
  after fun _ => ite ((hg.expression false).before fun _ => .pure id) (refl _)

theorem directiveOf (d : DirectiveName) :
    Follows limit (Directive.trialDepth · ≤ room) (Parser.directiveOf g d) (Parser.directiveOf g' d) := by
  have hvalue := operand d true (hg.expression false)
  have htype (isFirst : Bool) : Follows limit (fun _ => True) (Parser.operand d isFirst (Parser.typeOperand g d))
      (Parser.operand d isFirst (Parser.typeOperand g' d)) :=
    operand d isFirst (onError (fun _ => rfl) (of_curtails (hg.type 0)))
  cases d with
  | len | free | setAllocator => exact operandList _ (hvalue.before fun _ => .pure id)
  | size => exact operandList _ ((htype true).behind fun _ => refl _)
  | ident => exact refl _
  | env => exact refl _
  | resetAllocator => exact refl _
  | alloc =>
    exact operandList _ ((htype true).behind fun _ => (optionalOperand hg).before fun _ => .pure id)
  | realloc =>
    refine operandList _ (hvalue.bind (fun e => (htype false).behind fun _ => ?_) fun e => ?_)
    · exact (optionalOperand hg).before fun _ => .pure fun h => (Nat.max_le.1 h).2
    · exact .behind fun _ => .behind fun _ => .pure fun h => (Nat.max_le.1 h).1

theorem hashExpr : Follows limit (·.trialDepth ≤ room + 1) (Parser.hashExpr g) (Parser.hashExpr g') := by
  refine after fun _ => after fun _ => ite (arrayLiteral hg _ true) (after fun kind => ?_)
  split
  · refine after fun _ => ?_
    split
    · exact refl _
    · exact (directiveOf hg _).spanned fun _ _ h => deeper_le_succ.1 h
  · exact refl _

/-! ### Operands -/

theorem dollarExpr : Follows limit (·.trialDepth ≤ room + 1) (Parser.dollarExpr g) (Parser.dollarExpr g') := by
  have hsize {α : Type} {P : α → Prop} (form : FixedLiteral) (found start : Nat) :
      (Parser.wrongSize form found start).Yields P := .fails fun s a s' h => by simp at h
  refine after fun _ => after fun _ => after fun _ => after fun _ => after fun _ => ite ?_ (after fun _ => ite ?_ ?_)
  · refine after fun _ => (arguments hg).before fun items => ?_
    split
    · exact .behind fun _ => .pure fun h => by simpa [exprListTrialDepth] using deeper_le_succ.1 h
    · exact hsize _ _ _
  · refine (arguments hg).before fun items => ?_
    split
    · exact .behind fun _ => .pure fun h => by simpa [exprListTrialDepth] using deeper_le_succ.1 h
    · exact hsize _ _ _
  · refine after fun _ => ite (after fun _ => after fun _ => after fun _ => ite ?_ (refl _)) (refl _)
    exact (arguments hg).spanned fun _ _ h => deeper_le_succ.1 h

theorem primary : Follows limit (·.trialDepth ≤ room + 1) (Parser.primary g header) (Parser.primary g' header) := by
  refine after fun start => after fun kind => ?_
  split
  case h_6 => exact lambda hg
  case h_7 => exact nameExpr hg
  case h_8 =>
    refine after fun _ => (hg.expression false).before fun _ => .behind fun _ => .behind fun _ => ?_
    exact .pure fun h => deeper_le_succ.1 h
  case h_9 => exact arrayLiteral hg _ _
  case h_10 => exact hashExpr hg
  case h_11 => exact dollarExpr hg
  all_goals exact refl _

/-! ### Calls, members and subscripts -/

theorem callTypeArgs : Curtails limit (Parser.callTypeArgs g) (Parser.callTypeArgs g') :=
  (typeArgs hg).bind fun _ => .refl _

theorem genericCall? (start : Nat) (callee : Expr) : Follows limit (fun o => ∀ e ∈ o, e.trialDepth ≤ room + 1)
    (Parser.genericCall? g start callee) (Parser.genericCall? g' start callee) := by
  refine attempt (.callTypeArgs hg.settled.silent) (.callTypeArgs hg.settled'.silent) (callTypeArgs hg)
    (fun o => ?_) ?_
  · cases o with
    | none => exact refl _
    | some generics =>
      refine (arguments hg).spanned fun _ _ h => ?_
      exact (Nat.max_le.1 (deeper_le_succ.1 (Nat.max_le.1 (h _ rfl)).2)).2
  · intro s generics s₁ o s' hgen h ho
    obtain ⟨args, s₂, -, h⟩ := Parser.bind_ok.1 h
    obtain ⟨rfl, rfl⟩ : _ = o ∧ s₂ = s' := Parser.pure_ok.1 h
    have hfit := (Nat.max_le.1 (deeper_le_succ.1 (Nat.max_le.1 (ho _ rfl)).2)).1
    obtain ⟨hgen, hcall⟩ := Parser.callTypeArgs_ok.1 hgen
    exact .inl (Parser.callTypeArgs_ok.2 ⟨typeArgs_fit hg hgen hfit, hcall⟩)

theorem suffixStep (start : Nat) (e : Expr) : Follows limit (fun o => ∀ e' ∈ o, e'.trialDepth ≤ room + 1)
    (Parser.suffixStep g start e) (Parser.suffixStep g' start e) := by
  refine after fun _ => ite ?_ (after fun _ => after fun _ => ite (genericCall? hg _ _) ?_)
  · refine (arguments hg).spanned fun _ _ h => ?_
    exact (Nat.max_le.1 (deeper_le_succ.1 (Nat.max_le.1 (h _ rfl)).2)).2
  refine after fun _ => ite (refl _) (after fun _ => ite (after fun _ => ?_) (refl _))
  refine (hg.expression false).before fun index => .behind fun _ => .behind fun _ => .pure fun h => ?_
  exact deeper_le_succ.1 (Nat.max_le.1 (h _ rfl)).2

omit hg in
/-- What stands behind an operand adds to the trials of the operand. -/
theorem suffixStep_adds (hg' : g'.Settled) (start : Nat) (e : Expr) :
    (Parser.suffixStep g' start e).Yields fun o => ∀ e' ∈ o, e'.trialDepth ≤ room + 1 → e.trialDepth ≤ room + 1 := by
  intro s o s' h e' ho
  obtain rfl := ho
  rcases (Parser.suffixStep_some hg').1 h with ⟨-, args, -, rfl⟩ | ⟨-, -, -, generics, s₁, args, -, -, rfl⟩ |
    ⟨-, name, -, -, rfl⟩ | ⟨-, index, s₁, -, -, -, rfl⟩
  · exact fun h => (Nat.max_le.1 h).1
  · exact fun h => (Nat.max_le.1 h).1
  · exact id
  · exact fun h => (Nat.max_le.1 h).1

theorem operandExpr :
    Follows limit (·.trialDepth ≤ room + 1) (Parser.operandExpr g header) (Parser.operandExpr g' header) := by
  have hadds (start : Nat) (e : Expr) : (Parser.suffixStep g' start e).Yields fun o =>
      ∀ e' ∈ o, e'.trialDepth ≤ room + 1 → e.trialDepth ≤ room + 1 := suffixStep_adds hg.settled' start e
  refine after fun start => (primary hg).bind (fun e => ?_) fun e => ?_
  · exact grow (suffixStep hg start) (hadds start) e
  · exact Yields.grow (P := (Expr.trialDepth · ≤ room + 1)) (hadds start) e

/-! ### Operators and casts -/

theorem cast? :
    Follows limit (fun o => ∀ e ∈ o, e.trialDepth ≤ room + 1) (Parser.cast? g header) (Parser.cast? g' header) := by
  have hcast : Curtails limit (Parser.castType g) (Parser.castType g') := (hg.type 0).bind fun _ => .refl _
  intro s o s' h ho
  cases o with
  | none =>
    obtain ⟨rfl, hno⟩ := (Parser.cast?_none hg.settled').1 h
    refine .of_run ((Parser.cast?_none hg.settled).2 ⟨rfl, ?_⟩)
    rcases hno with hfails | ⟨type, s₁, htype, hoperand⟩
    · exact .inl (hcast.fails hfails)
    · rcases hrun : (Parser.castType g).run s'.advance with ⟨e | type', s₂⟩
      · exact .inl ⟨e, s₂, hrun⟩
      · rw [hcast.ok hrun] at htype
        cases htype
        exact .inr ⟨type, s₁, hrun, hoperand⟩
  | some e =>
    -- the type is part of the cast, so that it lies within the limit
    obtain ⟨type, s₁, inner, htype, hoperand, hinner, rfl⟩ := (Parser.cast?_some hg.settled').1 h
    obtain ⟨hfit, hdepth⟩ := Nat.max_le.1 (deeper_le_succ.1 (ho _ rfl))
    obtain ⟨s₂, ht, hk, rfl⟩ := Parser.castType_ok.1 htype
    have htype := Parser.castType_ok.2 ⟨s₂, hg.fit 0 _ _ _ ht hfit, hk, rfl⟩
    unfold Parser.cast?
    rw [Parser.look_bind, Parser.skip_bind]
    refine (Reaches.of_run (Parser.attempt_some.2 htype)).bind ?_
    dsimp only
    rw [Parser.nextKind, Parser.look_bind, if_pos hoperand]
    exact (hg.unary header _ _ _ hinner hdepth).bind .ok

theorem unaryBody :
    Follows limit (·.trialDepth ≤ room + 1) (Parser.unaryBody g header) (Parser.unaryBody g' header) := by
  refine after fun start => after fun kind => ?_
  split
  · split
    · exact after fun _ => after fun _ => (hg.unary header).spanned fun _ _ h => deeper_le_succ.1 h
    · refine ite (after fun _ => after fun _ => ?_) (operandExpr hg)
      exact (hg.unary header).spanned fun _ _ h => Nat.le_trans (le_deeper _) (deeper_le_succ.1 h)
  · refine (cast? hg).bind (fun o => ?_) (fun o => ?_)
    · cases o with
      | none => exact operandExpr hg
      | some e => exact refl _
    · cases o with
      | none => exact fun _ _ _ _ _ _ h => nomatch h
      | some e => exact .pure fun h e' he' => Option.mem_some_iff.1 he' ▸ h
  · exact operandExpr hg

theorem chainStep (level : Nat) (left : Expr) : Follows limit (fun o => ∀ e ∈ o, e.trialDepth ≤ room + 1)
    (Parser.chainStep g header level left) (Parser.chainStep g' header level left) := by
  refine after fun kind => ?_
  split
  · exact refl _
  rename_i op _
  split
  · exact refl _
  rename_i precedence associativity hpower
  refine ite (refl _) (after fun _ => after fun _ => (hg.chain header _).before fun right => .pure fun h => ?_)
  obtain ⟨e, he⟩ := Option.isSome_iff_exists.1 (Parser.joined?_isSome (Parser.binaryPower?_eq.1 hpower).1 left right)
  have := h e he
  rw [trialDepth_joined he] at this
  exact deeper_le_succ.1 (Nat.max_le.1 this).2

omit hg in
/-- A further operand adds to the trials of the chain. -/
theorem chainStep_adds (level : Nat) (left : Expr) : (Parser.chainStep g' header level left).Yields fun o =>
    ∀ e ∈ o, e.trialDepth ≤ room + 1 → left.trialDepth ≤ room + 1 := by
  intro s o s' h e ho he
  obtain rfl := ho
  obtain ⟨op, right, -, -, -, -, -, hj⟩ := Parser.chainStep_some.1 h
  rw [trialDepth_joined hj] at he
  exact (Nat.max_le.1 he).1

theorem chainBody (level : Nat) :
    Follows limit (·.trialDepth ≤ room + 1) (Parser.chainBody g header level) (Parser.chainBody g' header level) :=
  (unaryBody hg).bind (grow (chainStep hg level) (chainStep_adds level))
    (Yields.grow (P := (Expr.trialDepth · ≤ room + 1)) (chainStep_adds level))

theorem expressionBody :
    Follows limit (·.trialDepth ≤ room + 1) (Parser.expressionBody g header) (Parser.expressionBody g' header) := by
  have hchosen :
      Follows limit (optExprTrialDepth · ≤ room) (Parser.consequence g header) (Parser.consequence g' header) :=
    after fun _ => ite (refl _) ((hg.expression header).before fun _ => .pure id)
  refine (chainBody hg 1).bind (fun condition => after fun _ => ite ?_ (refl _)) (fun condition => ?_)
  · refine hchosen.bind (fun chosen => after fun _ => (hg.expression header).before fun _ => .pure fun h => ?_)
      fun chosen => .behind fun _ => .behind fun _ => .pure fun h => ?_
    · exact (Nat.max_le.1 (deeper_le_succ.1 (Nat.max_le.1 h).2)).2
    · exact (Nat.max_le.1 (deeper_le_succ.1 (Nat.max_le.1 h).2)).1
  · refine .behind fun _ => .ite (.behind fun _ => .behind fun _ => .behind fun _ => .pure fun h => ?_) (.pure id)
    exact (Nat.max_le.1 h).1

/-! ### Declarations of variables, and assignments -/

theorem initializer :
    Follows limit (optExprTrialDepth · ≤ room) (Parser.initializer g header) (Parser.initializer g' header) :=
  after fun _ => ite ((hg.expression header).before fun _ => .pure id) (refl _)

theorem typedBinding (type : TypeExpr) (name : String) : Follows limit (·.trialDepth ≤ room)
    (Parser.typedBinding g header type name) (Parser.typedBinding g' header type name) := by
  refine after fun _ => ite (after fun _ => (hg.expression false).before fun size => ?_) ?_
  · exact .behind fun _ => .pure fun h => (Nat.max_le.1 h).2
  · exact (initializer hg).before fun init => .pure fun h => (Nat.max_le.1 h).2

theorem binding? : Follows limit (fun o => ∀ form ∈ o, form.trialDepth ≤ room) (Parser.binding? g header)
    (Parser.binding? g' header) := by
  refine after fun _ => ite ?_ (after fun _ => after fun _ => ite ?_ (after fun _ => after fun _ => ite (refl _) ?_))
  · refine after fun _ => (initializer hg).before fun init => .pure fun h => ?_
    exact (Nat.max_le.1 (h _ rfl)).2
  · refine after fun _ => after fun _ => (hg.expression header).before fun e => .pure fun h => ?_
    exact (Nat.max_le.1 (h _ rfl)).2
  refine attempt (.typeAndName hg.settled.silent) (.typeAndName hg.settled'.silent)
    ((hg.type 0).bind fun _ => .refl _) (fun o => ?_) ?_
  · cases o with
    | none => exact refl _
    | some named => exact (typedBinding hg named.1 named.2).before fun form => .pure fun h => h form rfl
  · -- the type of the declaration is the one that was tried
    intro s named s₁ o s' hnamed h ho
    obtain ⟨form, s₂, hform, h⟩ := Parser.bind_ok.1 h
    obtain ⟨rfl, rfl⟩ : _ = o ∧ s₂ = s' := Parser.pure_ok.1 h
    have hfit : named.1.height 0 ≤ room := by
      have hform' := ho form rfl
      rcases Parser.typedBinding_ok.1 hform with ⟨-, size, s₃, -, -, -, rfl⟩ | ⟨-, init, -, rfl⟩
      · exact (Nat.max_le.1 hform').1
      · exact (Nat.max_le.1 hform').1
    obtain ⟨s₃, ht, hname⟩ := Parser.typeAndName_ok.1 hnamed
    exact .inl (Parser.typeAndName_ok.2 ⟨s₃, hg.fit 0 _ _ _ ht hfit, hname⟩)

theorem assignment? : Follows limit (fun o => ∀ r ∈ o, r.2.trialDepth ≤ room) (Parser.assignment? g header)
    (Parser.assignment? g' header) := by
  refine after fun kind => ?_
  split
  · exact refl _
  split
  · exact refl _
  · refine after fun _ => after fun _ => (hg.expression header).before fun value => .pure fun h => ?_
    exact h _ rfl

theorem simpleStatement : Follows limit (fun form => ∃ span, (form span).trialDepth ≤ room) (Parser.simpleStatement g)
    (Parser.simpleStatement g') := by
  refine (binding? hg).bind (fun o => ?_) (fun o => ?_)
  · cases o with
    | some form => exact refl _
    | none =>
      refine (hg.expression false).bind (fun target => (assignment? hg).before fun o => ?_)
        (fun target => .behind fun o => ?_)
      · cases o with
        | none => exact fun _ _ _ _ _ _ h => nomatch h
        | some r =>
          refine .pure fun ⟨span, h⟩ r' hr => ?_
          obtain rfl := Option.mem_some_iff.1 hr
          exact (Nat.max_le.1 h).2
      · cases o with
        | none => exact .pure fun ⟨span, h⟩ => h
        | some r => exact .pure fun ⟨span, h⟩ => (Nat.max_le.1 h).1
  · cases o with
    | none => exact fun _ _ _ _ _ _ h => nomatch h
    | some form =>
      refine .pure fun ⟨span, h⟩ form' hform => ?_
      obtain rfl := Option.mem_some_iff.1 hform
      cases form <;> exact h

/-! ### Control flow -/

theorem headerCondition :
    Follows limit (deeper ·.trialDepth ≤ room) (Parser.headerCondition g) (Parser.headerCondition g') :=
  (hg.expression true).before fun e => .pure fun h => Nat.le_trans (trialDepth_le_unparenthesized e) h

theorem elsePart : Follows limit (·.trialDepth ≤ room) (Parser.elsePart g) (Parser.elsePart g') := by
  refine after fun _ => ite (after fun _ => ite ?_ ?_) (refl _)
  · exact after fun _ => hg.elseIf.spanned fun _ _ h => h
  · exact hg.block.before fun _ => .pure id

theorem ifBody : Follows limit (·.trialDepth ≤ room) (Parser.ifBody g) (Parser.ifBody g') := by
  refine after fun _ => (headerCondition hg).bind (fun condition => ?_) (fun condition => ?_)
  · refine hg.block.bind (fun body => (elsePart hg).before fun otherwise => .pure fun h => ?_)
      fun body => .behind fun otherwise => .pure fun h => ?_
    · exact (Nat.max_le.1 (Nat.max_le.1 h).2).2
    · exact (Nat.max_le.1 (Nat.max_le.1 h).2).1
  · exact .behind fun body => .behind fun otherwise => .pure fun h => (Nat.max_le.1 h).1

theorem forInit : Follows limit (·.trialDepth ≤ room) (Parser.forInit g header) (Parser.forInit g' header) := by
  refine after fun _ => (binding? hg).bind (fun o => ?_) (fun o => ?_)
  · match o with
    | some (.variable _ _ _ _) => exact refl _
    | some (.buffer _ _ _) => exact refl _
    | none => exact (hg.expression header).before fun _ => .pure id
  · match o with
    | some (.variable _ _ _ _) =>
      refine .behind fun span => .pure fun h form hform => ?_
      obtain rfl := Option.mem_some_iff.1 hform
      exact h
    | some (.buffer _ _ _) => exact .behind fun span => .fails fun s a s' h => by simp at h
    | none => exact fun _ _ _ _ _ _ h => nomatch h

theorem forStep : Follows limit (·.trialDepth ≤ room) (Parser.forStep g header) (Parser.forStep g' header) := by
  refine after fun _ => (hg.expression header).bind (fun target => (assignment? hg).before fun o => ?_)
    (fun target => .behind fun o => ?_)
  · cases o with
    | none => exact fun _ _ _ _ _ _ h => nomatch h
    | some r =>
      refine .behind fun span => .pure fun h r' hr => ?_
      obtain rfl := Option.mem_some_iff.1 hr
      exact (Nat.max_le.1 h).2
  · cases o with
    | none => exact .pure id
    | some r => exact .behind fun span => .pure fun h => (Nat.max_le.1 h).1

theorem forHeader : Follows limit
    (fun parts => max parts.1.trialDepth (max parts.2.1.trialDepth parts.2.2.trialDepth) ≤ room)
    (Parser.forHeader g header) (Parser.forHeader g' header) := by
  refine (forInit hg).bind (fun init => after fun _ => ?_) (fun init => ?_)
  · refine (hg.expression header).bind (fun condition => after fun _ => (forStep hg).before fun step => ?_)
      fun condition => .behind fun _ => .behind fun step => ?_
    · exact .pure fun h => (Nat.max_le.1 (Nat.max_le.1 h).2).2
    · exact .pure fun h => (Nat.max_le.1 (Nat.max_le.1 h).2).1
  · exact .behind fun _ => .behind fun _ => .behind fun _ => .behind fun _ => .pure fun h => (Nat.max_le.1 h).1

theorem forStatement : Follows limit (fun form => ∃ span, (form span).trialDepth ≤ room) (Parser.forStatement g)
    (Parser.forStatement g') := by
  refine after fun _ => after fun _ => after fun _ => ite ?_ (after fun _ => ite ?_ ?_)
  · refine after fun name => after fun _ => (hg.expression true).bind (fun iterable => hg.block.before fun body => ?_)
      (fun iterable => .behind fun body => ?_)
    · exact .pure fun ⟨span, h⟩ => (Nat.max_le.1 h).2
    · exact .pure fun ⟨span, h⟩ => (Nat.max_le.1 h).1
  · refine after fun _ => (forHeader hg).bind (fun parts => after fun _ => hg.block.before fun body => ?_)
      (fun parts => .behind fun _ => .behind fun body => ?_)
    · exact .pure fun ⟨span, h⟩ => (Nat.max_le.1 h).2
    · exact .pure fun ⟨span, h⟩ => (Nat.max_le.1 h).1
  · refine (forHeader hg).bind (fun parts => hg.block.before fun body => ?_) (fun parts => .behind fun body => ?_)
    · exact .pure fun ⟨span, h⟩ => (Nat.max_le.1 h).2
    · exact .pure fun ⟨span, h⟩ => (Nat.max_le.1 h).1

theorem returnStatement : Follows limit (fun form => ∃ span, (form span).trialDepth ≤ room) (Parser.returnStatement g)
    (Parser.returnStatement g') := by
  refine after fun _ => after fun _ => ite (refl _) ((hg.expression false).before fun e => .behind fun _ => ?_)
  exact .pure fun ⟨span, h⟩ => h

theorem statement : Follows limit (·.trialDepth ≤ room) (Parser.statement g) (Parser.statement g') := by
  have hform : Follows limit (fun form => ∃ span, (form span).trialDepth ≤ room) (Parser.statementForm g)
      (Parser.statementForm g') := by
    refine after fun kind => ?_
    split
    · exact (ifBody hg).before fun parts => .pure fun ⟨span, h⟩ => h
    · refine after fun _ => (headerCondition hg).bind (fun condition => hg.block.before fun body => ?_)
        (fun condition => .behind fun body => ?_)
      · exact .pure fun ⟨span, h⟩ => (Nat.max_le.1 h).2
      · exact .pure fun ⟨span, h⟩ => (Nat.max_le.1 h).1
    · exact forStatement hg
    · exact after fun _ => (hg.expression false).before fun e => .behind fun _ => .pure fun ⟨span, h⟩ => h
    · exact returnStatement hg
    · exact refl _
    · exact refl _
    · refine hg.block.before fun body => .pure fun ⟨span, h⟩ => ?_
      cases body
      exact h
    · refine (simpleStatement hg).before fun form => .behind fun _ => .pure id
  exact after fun _ => hform.spanned fun form span h => ⟨span, h⟩

/-! ### Blocks -/

theorem blockRound {limit' : Nat} (opened : Span) : Follows limit (Yields.OfRound (·.trialDepth ≤ room))
    (Parser.blockRound ⟨limit, false⟩ g opened) (Parser.blockRound ⟨limit', false⟩ g' opened) := by
  refine after fun _ => ite (refl _) (after fun _ => ite (refl _) (after fun _ => ite (refl _) ?_))
  refine (statement hg).outcome (fun st => refl _) (fun e => ?_) (fun e => ?_) (fun st => .pure id)
  · rfl
  · rfl

theorem blockBody {limit' : Nat} : Follows limit (·.trialDepth ≤ room + 1) (Parser.blockBody ⟨limit, false⟩ g)
    (Parser.blockBody ⟨limit', false⟩ g') := by
  refine after fun opened => (collect (blockRound hg opened)).spanned fun ss span h => ?_
  have hss := deeper_le_succ.1 h
  rwa [stmtListTrialDepth_eq, highest_le] at hss

end Follows

/-- Parses that stop at their first failure follow one another from limit to limit. -/
theorem narrows_ofRoom {limit limit' room room' : Nat} (hroom : room ≤ room') :
    Inner.Narrows limit room (Inner.ofRoom ⟨limit, false⟩ room) (Inner.ofRoom ⟨limit', false⟩ room') := by
  induction room generalizing room' with
  | zero =>
    have hdeep {α : Type} {P : α → Prop} (p : Parser α) : Follows limit P (Parser.tooDeep limit) p :=
      .of_curtails (.tooDeep p)
    exact
      { settled := settled_ofRoom _ _
        settled' := settled_ofRoom _ _
        type := fun _ => .tooDeep _
        fit := fun _ _ t _ _ ht => absurd t.height_pos (Nat.not_lt.2 ht)
        expression := fun _ => hdeep _
        chain := fun _ _ => hdeep _
        unary := fun _ => hdeep _
        block := hdeep _
        elseIf := hdeep _ }
  | succ room ih =>
    -- a wider limit has a level to spare wherever the tighter one has
    obtain ⟨room', rfl⟩ : ∃ r, room' = r + 1 := ⟨room' - 1, by omega⟩
    have hg := ih (Nat.le_of_succ_le_succ hroom)
    exact
      { settled := settled_ofRoom _ _
        settled' := settled_ofRoom _ _
        type := curtails_typeExpr hroom
        fit := fun _ _ _ _ h ht => Parser.typeExpr_fit h ht
        expression := fun _ => Follows.expressionBody hg
        chain := fun _ level => Follows.chainBody hg level
        unary := fun _ => Follows.unaryBody hg
        block := Follows.blockBody hg
        elseIf := (Follows.ifBody hg).mono fun _ => deeper_le_succ.1 }

end ElleFrontEnd
