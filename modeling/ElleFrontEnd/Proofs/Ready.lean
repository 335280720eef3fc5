import ElleFrontEnd.Proofs.ReadChain
import ElleFrontEnd.Proofs.RecoveryProgram
import ElleFrontEnd.Proofs.TypeLookahead

/-!
# Nothing owed, nothing recorded

Between two parts of a program, no `>` is owed and, in a parse that stops at its first failure, nothing has been
recorded (`Ready`).  Argument lists owe a `>` only while another list is open (`owed_typeExpr`), so that every parser
of a whole part leaves a ready state ready where it succeeds (`keeps_ofRoom`).
-/

namespace ElleFrontEnd

/-- No `>` is owed, and nothing has been recorded. -/
structure Ready (s : ParseState) : Prop where
  clean : s.errors = []
  owed : s.owed = 0

theorem Ready.advance {s : ParseState} (h : Ready s) : Ready s.advance := ⟨by simp [h.clean], by simp [h.owed]⟩

namespace Parser

variable {α : Type} {s s' : ParseState} {g : Inner} {header : Bool}

/-- Where the parser succeeds from a ready state, it ends in one. -/
def Keeps (p : Parser α) : Prop := ∀ ⦃s a s'⦄, Ready s → p.run s = (.ok a, s') → Ready s'

theorem Keeps.listed {ends separates : ParseState → Prop} {item : Parser α} {as : List α} (hi : item.Keeps)
    (hs : Ready s) (h : Listed ends separates item s as s') : Ready s' := by
  induction h with
  | nil _ => exact hs
  | last _ h _ => exact hi hs h
  | more _ h _ _ ih => exact ih (hi hs h).advance

/-! ### Types -/

theorem owed_of_listed {ends separates : ParseState → Prop} {item : Parser α} {as : List α} {n : Nat}
    (hi : ∀ s a s', s.owed ≤ n → item.run s = (.ok a, s') → s'.owed ≤ n) (hs : s.owed ≤ n)
    (h : Listed ends separates item s as s') : s'.owed ≤ n := by
  induction h with
  | nil _ => exact hs
  | last _ h _ => exact hi _ _ _ hs h
  | more _ h _ _ ih => exact ih (by simpa using hi _ _ _ hs h)

theorem owed_of_grows {start : Nat} {t t' : TypeExpr} (h : Grows (typeSuffix start) t s t' s') : s'.owed = s.owed := by
  by_cases ho : s.owed = 0
  · rw [(skim_of_grows h ho).2.1, ho]
  · cases h with
    | stop h => rw [(typeSuffix_none.1 h).2]
    | next h _ => exact absurd (typeSuffix_some.1 h).1 ho

section

variable {type : Nat → Parser TypeExpr} (ha : ∀ angles s, Advances s (type angles s).2)
  (ht : ∀ angles s t s', s.owed ≤ angles → (type angles).run s = (.ok t, s') → s'.owed ≤ angles)
include ha ht

theorem owed_typeArgs {angles : Nat} {args : List TypeExpr} (ho : s.owed ≤ angles)
    (h : (typeArgs type angles).run s = (.ok args, s')) : s'.owed ≤ angles := by
  obtain ⟨-, s₁, hl, hc⟩ := (typeArgs_ok ha).1 h
  have ho₁ : s₁.owed ≤ angles + 1 := owed_of_listed (ht _) (by rw [ParseState.advance_owed]; omega) hl
  rcases closeAngle_ok.1 hc with ⟨-, rfl⟩ | ⟨ho₂, -, rfl⟩ | ⟨ho₂, hlt, -, rfl⟩
  · exact Nat.sub_le_of_le_add ho₁
  · simp [ho₂]
  · change s₁.owed + 1 ≤ angles
    omega

theorem owed_typeBody {angles : Nat} {t : TypeExpr} (ho : s.owed ≤ angles)
    (h : (typeBody type angles).run s = (.ok t, s')) : s'.owed ≤ angles := by
  obtain ⟨base, s₁, hb, hgrow⟩ := typeBody_ok.1 h
  rw [owed_of_grows hgrow]
  rcases baseType_ok.1 hb with ⟨p, -, rfl, -⟩ | ⟨name, -, h⟩ | ⟨-, h⟩
  · simpa using ho
  · rcases namedType_ok.1 h with ⟨-, -, args, hargs, -⟩ | ⟨-, rfl, -⟩
    · exact owed_typeArgs ha ht (by simpa using ho) hargs
    · simpa using ho
  · obtain ⟨first, s₂, second, s₃, h₁, -, h₂, -, rfl, -⟩ := tupleType_ok.1 h
    have ho₂ := ht _ _ _ _ (by simpa using ho) h₁
    simpa using ht _ _ _ _ (by simpa using ho₂) h₂

end

/-- Behind a type, no more `>` are owed than there are argument lists to take them. -/
theorem owed_typeExpr (limit room : Nat) (angles : Nat) (s : ParseState) (t : TypeExpr) (s' : ParseState)
    (ho : s.owed ≤ angles) (h : (typeExpr limit room angles).run s = (.ok t, s')) : s'.owed ≤ angles := by
  induction room generalizing angles s t s' with
  | zero => exact absurd (tooDeep_ok.1 h) id
  | succ room ih => exact owed_typeBody (advances_typeExpr limit room) ih ho h

theorem keeps_typeExpr (limit room : Nat) : (typeExpr limit room 0).Keeps := fun _ _ _ hs h =>
  ⟨((Silent.typeExpr limit room 0).errors_eq h).trans hs.clean,
    Nat.eq_zero_of_le_zero (owed_typeExpr _ _ _ _ _ _ (Nat.le_of_eq hs.owed) h)⟩

theorem keeps_typeArgs (limit room : Nat) : (typeArgs (typeExpr limit room) 0).Keeps := fun _ _ _ hs h =>
  ⟨((Silent.typeArgs (Silent.typeExpr limit room) 0).errors_eq h).trans hs.clean,
    Nat.eq_zero_of_le_zero (owed_typeArgs (advances_typeExpr limit room) (owed_typeExpr limit room)
      (Nat.le_of_eq hs.owed) h)⟩

end Parser

/-- The parsers of nested constructs leave ready states ready. -/
structure Inner.Keeping (g : Inner) : Prop where
  type : Parser.Keeps (g.type 0)
  typeArgs : (Parser.typeArgs g.type 0).Keeps
  expression : ∀ header, (g.expression header).Keeps
  chain : ∀ header level, (g.chain header level).Keeps
  unary : ∀ header, (g.unary header).Keeps
  block : g.block.Keeps
  elseIf : g.elseIf.Keeps

namespace Parser

variable {s s' : ParseState} {g : Inner} {header : Bool} (hg : g.Settled) (hq : g.Keeping)

/-! ### Expressions -/

section
include hg hq

theorem keeps_arguments : (arguments g).Keeps := by
  intro s args s' hs h
  obtain ⟨-, s₁, hl, -, rfl⟩ := (arguments_ok hg).1 h
  exact ((hq.expression false).listed hs.advance hl).advance

omit hg in
theorem keeps_param : (param g).Keeps := by
  intro s p s' hs h
  rcases param_ok.1 h with ⟨-, ⟨name, -, rfl, -⟩ | ⟨-, rfl, -⟩⟩ | ⟨-, -, type, s₁, name, ht, -, rfl, -⟩ |
    ⟨-, -, type, s₁, ht, ⟨name, -, rfl, -⟩ | ⟨-, rfl, -⟩⟩
  · exact hs.advance.advance
  · exact hs.advance
  · exact (hq.type hs.advance.advance ht).advance
  · exact (hq.type hs ht).advance
  · exact hq.type hs ht

omit hg hq in
theorem keeps_metaBinding : metaBinding.Keeps := by
  intro s name s' hs h
  rcases metaBinding_ok.1 h with ⟨-, n, -, -, ⟨-, rfl⟩ | ⟨-, rfl⟩⟩ | ⟨-, -, rfl⟩
  · exact hs.advance.advance
  · exact hs.advance.advance.advance
  · exact hs

theorem keeps_paramList : (paramList g).Keeps := by
  intro s list s' hs h
  obtain ⟨-, s₁, s₂, hm, hl, -, rfl⟩ := (paramList_ok hg).1 h
  exact ((keeps_param hq).listed (keeps_metaBinding hs.advance hm) hl).advance

theorem keeps_lambda : (lambda g header).Keeps := by
  intro s e s' hs h
  obtain ⟨-, params, s₁, hp, ⟨-, body, hb, -⟩ | ⟨-, body, hb, -⟩⟩ := lambda_ok.1 h
  · exact hq.block (keeps_paramList hg hq hs.advance hp) hb
  · exact hq.expression header (keeps_paramList hg hq hs.advance hp) hb

omit hg in
theorem keeps_fieldInit : (fieldInit g).Keeps := by
  intro s f s' hs h
  obtain ⟨name, value, -, -, hv, -⟩ := fieldInit_ok.1 h
  exact hq.expression false hs.advance.advance hv

theorem ready_of_structTypeArgs {generics : Option (List TypeExpr)} (hs : Ready s)
    (h : (structTypeArgs g).run s = (.ok (some generics), s')) : Ready s' := by
  rcases (structTypeArgs_some hg).1 h with ⟨-, -, args, -, ha, -⟩ | ⟨-, -, rfl⟩
  · exact hq.typeArgs hs ha
  · exact hs

omit hg hq in
theorem ready_of_pathTail {names : List String} (hs : Ready s) (h : PathTail s names s') : Ready s' := by
  induction h with
  | nil _ => exact hs
  | cons _ _ _ ih => exact ih hs.advance.advance

theorem keeps_nameExpr : (nameExpr g header).Keeps := by
  intro s e s' hs h
  obtain ⟨name, -, ⟨-, names, hp, -⟩ | ⟨-, -, h⟩ | ⟨-, -, rfl, -⟩⟩ := (nameExpr_ok hg).1 h
  · exact ready_of_pathTail hs.advance hp
  · obtain ⟨generics, s₁, fields, s₂, ha, -, hl, -, rfl, -⟩ := (structLiteral?_some hg).1 h
    exact ((keeps_fieldInit hq).listed (ready_of_structTypeArgs hg hq hs.advance ha).advance hl).advance
  · exact hs.advance

theorem keeps_arrayLiteral (start : Nat) (isStatic : Bool) : (arrayLiteral g start isStatic).Keeps := by
  intro s e s' hs h
  obtain ⟨-, element, s₁, elements, s₂, hl, -, rfl, -, ⟨type, s₀, -, ht, -, rfl⟩ | ⟨-, rfl, -⟩⟩ :=
    (arrayLiteral_ok hg).1 h
  · exact ((hq.expression false).listed (hq.type hs.advance ht).advance hl).advance
  · exact ((hq.expression false).listed hs.advance hl).advance

omit hg in
theorem keeps_optionalOperand : (optionalOperand g).Keeps := by
  intro s o s' hs h
  rcases optionalOperand_ok.1 h with ⟨-, e, -, he⟩ | ⟨-, -, rfl⟩
  · exact hq.expression false hs.advance he
  · exact hs

omit hg in
theorem ready_of_operands {x : Directive} (hs : Ready s) (h : Operands g s s' x) : Ready s' := by
  cases x with
  | len e | free e | setAllocator e => exact hq.expression false hs h.2
  | size type => exact hq.type hs h.2
  | ident n =>
    obtain ⟨-, rfl⟩ := h
    exact hs.advance
  | alloc type count =>
    obtain ⟨-, s₁, ht, ho⟩ := h
    exact keeps_optionalOperand hq (hq.type hs ht) ho
  | realloc e type count =>
    obtain ⟨-, s₁, s₂, he, -, -, ht, ho⟩ := h
    exact keeps_optionalOperand hq (hq.type (hq.expression false hs he).advance ht) ho
  | env => exact h.elim
  | resetAllocator =>
    obtain rfl : s' = s := h
    exact hs

theorem keeps_hashExpr : (hashExpr g).Keeps := by
  intro s e s' hs h
  obtain ⟨-, ⟨-, ha⟩ | ⟨name, x, -, -, hd, -⟩⟩ := hashExpr_ok.1 h
  · exact keeps_arrayLiteral hg hq _ _ hs.advance ha
  · obtain ⟨-, ⟨-, -, rfl⟩ | ⟨-, -, s₁, ho, -, rfl⟩⟩ := directiveOf_ok.1 hd
    · exact hs.advance.advance
    · exact (ready_of_operands hq hs.advance.advance.advance ho).advance

theorem keeps_dollarExpr : (dollarExpr g).Keeps := by
  intro s e s' hs h
  obtain ⟨-, -, ⟨-, -, -, a, b, c, ha, -⟩ | ⟨-, a, b, ha, -⟩ | ⟨name, -, ⟨-, -, args, ha, -⟩ | ⟨-, rfl, -⟩⟩⟩ :=
    dollarExpr_ok.1 h
  · exact keeps_arguments hg hq hs.advance.advance ha
  · exact keeps_arguments hg hq hs.advance ha
  · exact keeps_arguments hg hq hs.advance.advance ha
  · exact hs.advance.advance


theorem keeps_primary : (primary g header).Keeps := by
  intro s e s' hs h
  rcases primary_ok.1 h with ⟨-, rfl⟩ | ⟨-, h⟩ | ⟨-, h⟩ | ⟨-, h⟩ | ⟨-, h⟩ | ⟨-, h⟩ | ⟨-, h⟩
  · exact hs.advance
  · exact keeps_lambda hg hq hs h
  · exact keeps_nameExpr hg hq hs h
  · obtain ⟨inner, s₁, hi, -, rfl, -⟩ := parenthesized_ok.1 h
    exact (hq.expression false hs.advance hi).advance
  · exact keeps_arrayLiteral hg hq _ _ hs h
  · exact keeps_hashExpr hg hq hs h
  · exact keeps_dollarExpr hg hq hs h

theorem ready_of_grows {start : Nat} {e e' : Expr} (hs : Ready s) (h : Grows (suffixStep g start) e s e' s') :
    Ready s' := by
  induction h with
  | stop h =>
    obtain ⟨rfl, -⟩ := (suffixStep_none hg).1 h
    exact hs
  | next h _ ih =>
    rcases (suffixStep_some hg).1 h with ⟨-, args, ha, -⟩ | ⟨-, -, -, generics, s₁, args, hc, ha, -⟩ |
      ⟨-, name, -, rfl, -⟩ | ⟨-, index, s₁, hi, -, rfl, -⟩
    · exact ih (keeps_arguments hg hq hs ha)
    · exact ih (keeps_arguments hg hq (hq.typeArgs hs (callTypeArgs_ok.1 hc).1) ha)
    · exact ih hs.advance.advance
    · exact ih (hq.expression false hs.advance hi).advance

theorem keeps_unaryBody : (unaryBody g header).Keeps := by
  intro s e s' hs h
  rcases (unaryBody_ok hg).1 h with ⟨op, unary, inner, -, -, -, hi, -⟩ | ⟨-, h⟩ | ⟨-, h⟩ | ⟨-, -, h⟩
  · exact hq.unary header hs.advance hi
  · obtain ⟨-, inner, hi, -⟩ := doubleAddress_ok.1 h
    exact hq.unary header hs.advance hi
  · obtain ⟨type, s₁, inner, hc, -, hi, -⟩ := (cast?_some hg).1 h
    obtain ⟨s₂, ht, -, rfl⟩ := castType_ok.1 hc
    exact hq.unary header (hq.type hs.advance ht).advance hi
  · obtain ⟨first, s₁, hp, hgrow⟩ := (operandExpr_ok hg).1 h
    exact ready_of_grows hg hq (keeps_primary hg hq hs hp) hgrow

theorem keeps_chainBody (level : Nat) : (chainBody g header level).Keeps := by
  intro s e s' hs h
  obtain ⟨first, s₁, hu, hgrow⟩ := (chainBody_ok hg).1 h
  have hs₁ := keeps_unaryBody hg hq hs hu
  clear hu h hs
  induction hgrow with
  | stop h =>
    obtain ⟨rfl, -⟩ := chainStep_none.1 h
    exact hs₁
  | next h _ ih =>
    obtain ⟨op, right, -, -, -, -, hr, -⟩ := chainStep_some.1 h
    exact ih (hq.chain header _ hs₁.advance hr)

theorem keeps_expressionBody : (expressionBody g header).Keeps := by
  intro s e s' hs h
  obtain ⟨condition, s₁, hc, ⟨-, -, rfl⟩ | ⟨-, chosen, s₂, alternative, hch, -, ha, -⟩⟩ := expressionBody_ok.1 h
  · exact keeps_chainBody hg hq 1 hs hc
  · have hs₁ := keeps_chainBody hg hq 1 hs hc
    rcases consequence_ok.1 hch with ⟨-, -, rfl⟩ | ⟨-, e, -, he⟩
    · exact hq.expression header hs₁.advance.advance ha
    · exact hq.expression header (hq.expression header hs₁.advance he).advance ha

end

/-! ### Statements -/

section
include hq

theorem keeps_initializer : (initializer g header).Keeps := by
  intro s o s' hs h
  rcases initializer_ok.1 h with ⟨-, e, -, he⟩ | ⟨-, -, rfl⟩
  · exact hq.expression header hs.advance he
  · exact hs

theorem keeps_typedBinding (type : TypeExpr) (name : String) : (typedBinding g header type name).Keeps := by
  intro s form s' hs h
  rcases typedBinding_ok.1 h with ⟨-, size, s₁, he, -, rfl, -⟩ | ⟨-, init, hi, -⟩
  · exact (hq.expression false hs.advance he).advance
  · exact keeps_initializer hq hs hi

theorem keeps_typeAndName : (typeAndName g).Keeps := by
  intro s r s' hs h
  obtain ⟨s₁, ht, -, rfl⟩ := typeAndName_ok.1 h
  exact (hq.type hs ht).advance

theorem keeps_assignment? : (assignment? g header).Keeps := by
  intro s o s' hs h
  cases o with
  | none => exact (assignment?_none.1 h).1 ▸ hs
  | some r =>
    obtain ⟨op, -, -, -, hv⟩ := assignment?_some.1 h
    exact hq.expression header hs.advance hv

theorem keeps_headerCondition : (headerCondition g).Keeps := by
  intro s e s' hs h
  obtain ⟨e₀, he, -⟩ := headerCondition_ok.1 h
  exact hq.expression true hs he

theorem keeps_elsePart : (elsePart g).Keeps := by
  intro s o s' hs h
  rcases elsePart_ok.1 h with ⟨-, -, parts, hp, -⟩ | ⟨-, -, body, hb, -⟩ | ⟨-, -, rfl⟩
  · exact hq.elseIf hs.advance hp
  · exact hq.block hs.advance hb
  · exact hs

theorem keeps_ifBody : (ifBody g).Keeps := by
  intro s parts s' hs h
  obtain ⟨-, s₁, s₂, hc, hb, he⟩ := ifBody_ok.1 h
  exact keeps_elsePart hq (hq.block (keeps_headerCondition hq hs.advance hc) hb) he

theorem keeps_forStep : (forStep g header).Keeps := by
  intro s step s' hs h
  obtain ⟨target, s₁, ht, ⟨op, value, ha, -⟩ | ⟨-, rfl, -⟩⟩ := forStep_ok.1 h
  · exact keeps_assignment? hq (hq.expression header hs ht) ha
  · exact hq.expression header hs ht

theorem keeps_returnStatement : (returnStatement g).Keeps := by
  intro s form s' hs h
  rcases returnStatement_ok.1 h with ⟨-, rfl, -⟩ | ⟨-, e, s₁, he, -, rfl, -⟩
  · exact hs.advance.advance
  · exact (hq.expression false hs.advance he).advance

include hg

theorem keeps_binding? : (binding? g header).Keeps := by
  intro s o s' hs h
  cases o with
  | none => exact ((binding?_none hg).1 h).1 ▸ hs
  | some form =>
    rcases (binding?_some hg).1 h with ⟨-, name, init, -, hi, -⟩ | ⟨-, name, e, -, he, -⟩ | ⟨-, -, r, s₁, ht, hb⟩
    · exact keeps_initializer hq hs.advance.advance hi
    · exact hq.expression header hs.advance.advance he
    · exact keeps_typedBinding hq _ _ (keeps_typeAndName hq hs ht) hb

theorem keeps_simpleStatement : (simpleStatement g).Keeps := by
  intro s form s' hs h
  rcases (simpleStatement_ok hg).1 h with ⟨binding, hb, -⟩ | ⟨-, target, s₁, ht, ⟨op, value, ha, -⟩ | ⟨-, rfl, -⟩⟩
  · exact keeps_binding? hg hq hs hb
  · exact keeps_assignment? hq (hq.expression false hs ht) ha
  · exact hq.expression false hs ht

theorem keeps_forHeader : (forHeader g header).Keeps := by
  intro s parts s' hs h
  obtain ⟨s₁, s₂, hi, -, hc, -, hst⟩ := forHeader_ok.1 h
  have hs₁ : Ready s₁ := by
    rcases (forInit_ok hg).1 hi with ⟨binding, type, name, value, hb, -⟩ | ⟨-, e, he, -⟩
    · exact keeps_binding? hg hq hs hb
    · exact hq.expression header hs he
  exact keeps_forStep hq (hq.expression header hs₁.advance hc).advance hst

theorem keeps_forStatement : (forStatement g).Keeps := by
  intro s form s' hs h
  obtain ⟨-, ⟨name, iterable, s₁, body, -, -, he, hb, -⟩ | ⟨-, h⟩⟩ := forStatement_ok.1 h
  · exact hq.block (hq.expression true hs.advance.advance.advance he) hb
  · obtain ⟨init, condition, step, body, -, ⟨-, s₁, hh, -, hb⟩ | ⟨-, s₁, hh, hb⟩⟩ := forLoopRest_ok.1 h
    · exact hq.block (keeps_forHeader hg hq hs.advance.advance hh).advance hb
    · exact hq.block (keeps_forHeader hg hq hs.advance hh) hb

theorem keeps_statement : (Parser.statement g).Keeps := by
  intro s statement s' hs h
  obtain ⟨form, h, -⟩ := statement_ok.1 h
  rcases statementForm_ok.1 h with ⟨-, parts, h, -⟩ | ⟨-, condition, s₁, body, hc, hb, -⟩ | ⟨-, h⟩ |
    ⟨-, e, s₁, he, -, rfl, -⟩ | ⟨-, h⟩ | ⟨-, -, rfl, -⟩ | ⟨-, -, rfl, -⟩ | ⟨-, body, hb, -⟩ | ⟨-, s₁, hsimple, -, rfl⟩
  · exact keeps_ifBody hq hs h
  · exact hq.block (keeps_headerCondition hq hs.advance hc) hb
  · exact keeps_forStatement hg hq hs h
  · exact (hq.expression false hs.advance he).advance
  · exact keeps_returnStatement hq hs h
  · exact hs.advance.advance
  · exact hs.advance.advance
  · exact hq.block hs hb
  · exact (keeps_simpleStatement hg hq hs hsimple).advance

theorem ready_of_statements {ss : List Stmt} (hs : Ready s) (h : Statements g s ss s') : Ready s' := by
  induction h with
  | nil _ => exact hs.advance
  | stray _ _ ih => exact ih hs.advance
  | cons _ _ _ h _ ih => exact ih (keeps_statement hg hq hs h)

end

theorem keeps_ofRoom (limit room : Nat) : (Inner.ofRoom ⟨limit, false⟩ room).Keeping := by
  induction room with
  | zero =>
    have hdeep {α : Type} : (tooDeep limit : Parser α).Keeps := fun _ _ _ _ h => absurd (tooDeep_ok.1 h) id
    exact ⟨hdeep, keeps_typeArgs limit 0, fun _ => hdeep, fun _ _ => hdeep, fun _ => hdeep, hdeep, hdeep⟩
  | succ room ih =>
    have hg := settled_ofRoom ⟨limit, false⟩ room
    refine ⟨keeps_typeExpr limit (room + 1), keeps_typeArgs limit (room + 1), fun _ => keeps_expressionBody hg ih,
      fun _ level => keeps_chainBody hg ih level, fun _ => keeps_unaryBody hg ih, ?_, keeps_ifBody ih⟩
    intro s body s' hs h
    have hsilent := (resuming_ofRoom limit (room + 1)).block.silent.errors_eq h
    obtain ⟨-, ss, hss, -⟩ := (blockBody_ok hg (hsilent.trans hs.clean)).1 h
    exact ready_of_statements hg ih hs.advance hss

/-! ### Declarations -/

theorem keeps_identifier : identifier.Keeps := by
  intro s name s' hs h
  exact (identifier_ok.1 h).2 ▸ hs.advance

theorem keeps_typeParams : typeParams.Keeps := by
  intro s names s' hs h
  rcases typeParams_ok.1 h with ⟨-, s₁, hl, -, rfl⟩ | ⟨-, rfl, -⟩
  · exact (keeps_identifier.listed hs.advance hl).advance
  · exact hs

theorem keeps_declName : declName.Keeps := by
  intro s name s' hs h
  rcases declName_ok.1 h with ⟨raw, -, rfl, -⟩ | ⟨first, -, ⟨-, tail, ht, -⟩ | ⟨-, rfl, -⟩⟩
  · exact hs.advance
  · exact ready_of_pathTail hs.advance ht
  · exact hs.advance

theorem keeps_pathSegment : pathSegment.Keeps := by
  intro s segment s' hs h
  exact (pathSegment_ok.1 h).1 ▸ hs.advance

theorem keeps_globalOption : globalOption.Keeps := by
  intro s option s' hs h
  exact (globalOption_ok.1 h).1 ▸ hs.advance

theorem ready_of_modified {ms : List Modifier} (hs : Ready s) (h : Modified s ms s') : Ready s' := by
  induction h with
  | nil _ _ => exact hs
  | plain _ _ ih => exact ih hs.advance
  | negated _ _ _ ih => exact ih hs.advance.advance

section
include hq

theorem keeps_returnType : (returnType g).Keeps := by
  intro s o s' hs h
  rcases returnType_ok.1 h with ⟨-, t, -, ht⟩ | ⟨-, -, rfl⟩
  · exact hq.type hs.advance ht
  · exact hs

theorem keeps_functionBody (ms : List Modifier) (name : DeclName) : (functionBody g ms name).Keeps := by
  intro s o s' hs h
  rcases functionBody_ok.1 h with ⟨-, -, body, -, hb⟩ | ⟨-, -, rfl⟩
  · exact hq.block hs hb
  · exact hs.advance

theorem keeps_constDecl (ms : List Modifier) : (constDecl g ms).Keeps := by
  intro s c s' hs h
  obtain ⟨-, -, s₁, s₂, ht, -, -, hv, -, rfl⟩ := constDecl_ok.1 h
  have hs₁ : Ready s₁ := by
    rcases constType_ok.1 ht with ⟨-, -, -, rfl⟩ | ⟨-, t, -, ht⟩
    · exact hs.advance
    · exact hq.type hs.advance ht
  exact (hq.expression false hs₁.advance.advance hv).advance

theorem keeps_structField : (structField g).Keeps := by
  intro s f s' hs h
  obtain ⟨-, ⟨-, -, ht⟩ | ⟨-, s₁, ht, -, rfl⟩⟩ := structField_ok.1 h
  · exact hq.type hs.advance.advance ht
  · exact (hq.type hs ht).advance

theorem ready_of_fields {fs : List Field} (hs : Ready s) (h : Fields g s fs s') : Ready s' := by
  induction h with
  | nil _ => exact hs.advance
  | ended _ hf _ _ ih => exact ih (keeps_structField hq hs hf).advance
  | last _ hf _ he => exact he ▸ (keeps_structField hq hs hf).advance

include hg

theorem ready_of_attributed {as : List Attribute} (hs : Ready s) (h : Attributed g s as s') : Ready s' := by
  induction h with
  | nil _ => exact hs
  | bare _ _ _ _ ih => exact ih hs.advance.advance
  | called _ _ _ ha _ ih => exact ih (keeps_arguments hg hq hs.advance.advance ha)

theorem keeps_functionDecl (ms : List Modifier) : (functionDecl g ms).Keeps := by
  intro s f s' hs h
  obtain ⟨-, -, s₁, s₂, s₃, s₄, s₅, hn, ht, hp, ha, hr, hb⟩ := (functionDecl_ok hg).1 h
  have hs₃ := keeps_paramList hg hq (keeps_typeParams (keeps_declName hs.advance hn) ht) hp
  exact keeps_functionBody hq _ _ (keeps_returnType hq (ready_of_attributed hg hq hs₃ ha) hr) hb

theorem keeps_structDecl (ms : List Modifier) : (structDecl g ms).Keeps := by
  intro s d s' hs h
  obtain ⟨-, -, -, s₁, s₂, s₃, ht, ha, -, hf, rfl⟩ := (structDecl_ok hg).1 h
  have hs₂ := ready_of_attributed hg hq (keeps_typeParams hs.advance.advance ht) ha
  have hs₃ := ready_of_fields hq hs₂.advance hf
  split
  · exact hs₃.advance
  · exact hs₃

theorem keeps_declaration : (Parser.declaration g).Keeps := by
  intro s d s' hs h
  obtain ⟨form, h, -⟩ := declaration_ok.1 h
  rcases declarationForm_ok.1 h with ⟨-, path, h, -⟩ | ⟨-, options, h, -⟩ | ⟨-, name, h, -⟩ | ⟨-, -, -, h⟩
  · obtain ⟨-, s₁, hl, -, rfl⟩ := importPath_ok.1 h
    exact (keeps_pathSegment.listed hs.advance hl).advance
  · obtain ⟨-, s₁, hl, -, rfl⟩ := globalLine_ok.1 h
    exact (keeps_globalOption.listed hs.advance hl).advance
  · obtain ⟨-, -, rfl⟩ := moduleLine_ok.1 h
    exact hs.advance.advance.advance
  obtain ⟨ms, s₁, hm, h⟩ := modifiedForm_ok.1 h
  have hs₁ := ready_of_modified hs hm
  rcases h with ⟨-, f, h, -⟩ | ⟨-, c, h, -⟩ | ⟨-, d, h, -⟩
  · exact keeps_functionDecl hg hq ms hs₁ h
  · exact keeps_constDecl hq ms hs₁ h
  · exact keeps_structDecl hg hq ms hs₁ h

end

theorem advances_of_declared {g : Inner} (hg : g.Settled) {ds : List Declaration} (h : Declared g s ds s') :
    Advances s s' := by
  induction h with
  | nil _ => exact .refl _
  | stray _ _ ih => exact (Advances.advance _).trans ih
  | cons _ _ hd _ ih =>
    exact (advances_run (Alike.advances fun ts => Alike.declaration (.refl ts) (hg.steady ts)) hd).trans ih

/-- A declaration in which nothing has failed is read in the same way by a parse that stops at its first failure. -/
theorem declaration_stopping {o : ParseOptions} {room : Nat} {d : Declaration} (hs : s'.errors = [])
    (h : (Parser.declaration (Inner.ofRoom o room)).run s = (.ok d, s')) :
    (Parser.declaration (Inner.ofRoom ⟨o.maxDepth, false⟩ room)).run s = (.ok d, s') := by
  obtain ⟨limit, goesOn⟩ := o
  cases goesOn with
  | false => exact h
  | true =>
    have hres := Resumes.declaration (resuming_ofRoom limit room) s
    change Resumed s ((Parser.declaration (Inner.ofRoom ⟨limit, false⟩ room)).run s)
      ((Parser.declaration (Inner.ofRoom ⟨limit, true⟩ room)).run s) at hres
    rw [h] at hres
    generalize (Parser.declaration (Inner.ofRoom ⟨limit, false⟩ room)).run s = x at hres ⊢
    cases hres with
    | same _ => rfl
    | later _ first =>
      obtain ⟨more, hmore⟩ := first
      simp [hs] at hmore

/-- A program in which nothing has failed owes no `>` at its end, whether or not failures are recovered from. -/
theorem ready_of_declared {o : ParseOptions} {ds : List Declaration} (hs : Ready s)
    (h : Declared (Inner.ofRoom o o.maxDepth) s ds s') (he : s'.errors = []) : Ready s' := by
  induction h with
  | nil _ => exact hs
  | stray _ _ ih => exact ih hs.advance he
  | cons _ _ hd hrest ih =>
    have hclean := (advances_of_declared (settled_ofRoom o o.maxDepth) hrest).errors_nil he
    have hq := keeps_ofRoom o.maxDepth o.maxDepth
    exact ih (keeps_declaration (settled_ofRoom _ _) hq hs (declaration_stopping hclean hd)) he

end Parser

end ElleFrontEnd
