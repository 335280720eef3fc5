import ElleFrontEnd.Proofs.ConveyExpr

/-!
# The words of statements

Statements pass the words of what they make, where a parse stops at its first failure (`conveying_ofRoom`): what is
skipped behind a failure has words that no statement has.
-/

namespace ElleFrontEnd

open Fragment

/-- The words of a value behind `=`, if there is one. -/
def initWords (keep : TokenKind → Bool) (init : Option Expr) : List TokenKind :=
  init.toList.flatMap fun e => (TokenKind.operator .eq).kept keep ++ e.kept keep

/-- The words of a declaration in a statement or a loop header. -/
def Parser.BindingForm.kept (keep : TokenKind → Bool) : BindingForm → List TokenKind
  | .variable binding type name init =>
    Fragment.kept keep (bindingLayout binding type name (init.map (Expr.layout 0 true)))
  | .buffer type name size =>
    Fragment.kept keep type.layout ++ ((TokenKind.ident name).kept keep ++
      ((TokenKind.punctuation .lBracket).kept keep ++
        (size.kept keep ++ (TokenKind.punctuation .rBracket).kept keep)))

variable {keep : TokenKind → Bool}

theorem Parser.BindingForm.kept_stmt (form : BindingForm) (span : Span) :
    (form.stmt span).kept keep = form.kept keep := by
  rcases form with ⟨binding, type, name, init⟩ | ⟨type, name, size⟩
  · rw [stmt, Stmt.kept]
    cases init <;> simp [Stmt.layout, kept]
  · rw [stmt, Stmt.kept]
    simp [Stmt.layout, kept]

theorem ForInit.kept_varDecl (span : Span) (binding : Binding) (type : Option TypeExpr) (name : String)
    (init : Option Expr) : (ForInit.varDecl span binding type name init).kept keep =
      (Parser.BindingForm.variable binding type name init).kept keep := by
  rw [ForInit.kept]
  cases init <;> simp [ForInit.layout, Parser.BindingForm.kept]

namespace Parser

variable {tokens : List Token} {s s' : ParseState} {g : Inner} {header : Bool}
  (hg : g.Settled) (hy : g.Conveying keep tokens)

section
include hy

theorem conveys_initializer {o : Option Expr} (h : (initializer g header).run s = (.ok o, s')) :
    Conveys keep tokens s (initWords keep o) s' := by
  rcases initializer_ok.1 h with ⟨hk, e, rfl, he⟩ | ⟨-, rfl, rfl⟩
  · exact ((Conveys.advance hk (by simp)).trans (hy.expression he)).congr (by simp [initWords])
  · exact .refl

theorem conveys_typedBinding {type : TypeExpr} {name : String} {form : BindingForm}
    (h : (typedBinding g header type name).run s = (.ok form, s')) : ∃ ws, Conveys keep tokens s ws s' ∧
      form.kept keep = kept keep type.layout ++ ((TokenKind.ident name).kept keep ++ ws) := by
  rcases typedBinding_ok.1 h with ⟨hk, size, s₁, he, hclose, rfl, rfl⟩ | ⟨-, init, hi, rfl⟩
  · refine ⟨_, ((Conveys.advance hk (by simp)).trans (hy.expression he)).trans (.advance hclose (by simp)), ?_⟩
    simp [BindingForm.kept]
  · refine ⟨_, conveys_initializer hy hi, ?_⟩
    cases init <;> simp [BindingForm.kept, bindingLayout, initWords]

theorem conveys_assignment? {form : AssignOp} {value : Expr}
    (h : (assignment? g header).run s = (.ok (some (form, value)), s')) :
    Conveys keep tokens s ((TokenKind.operator form.operator).kept keep ++ value.kept keep) s' := by
  obtain ⟨op, hk, hop, -, hv⟩ := assignment?_some.1 h
  obtain rfl : form.operator = op := by simpa using List.find?_some hop
  exact (Conveys.advance hk (by simp)).trans (hy.expression hv)

theorem conveys_headerCondition {e : Expr} (h : (headerCondition g).run s = (.ok e, s')) :
    Conveys keep tokens s (e.kept keep) s' := by
  obtain ⟨e₀, he, rfl⟩ := headerCondition_ok.1 h
  exact (hy.expression he).congr e₀.kept_unparenthesized

theorem conveys_elsePart {o : Else} (h : (elsePart g).run s = (.ok o, s')) :
    Conveys keep tokens s (o.kept keep) s' := by
  rcases elsePart_ok.1 h with ⟨hk, -, parts, hp, rfl⟩ | ⟨hk, -, body, hb, rfl⟩ | ⟨-, rfl, rfl⟩
  · refine ((Conveys.advance hk (by simp)).trans (hy.elseIf hp)).congr ?_
    rw [Else.kept]
    simp [Else.layout, elseWord]
  · refine ((Conveys.advance hk (by simp)).trans (hy.block hb)).congr ?_
    rw [Else.kept]
    simp [Else.layout, elseWord]
  · exact .refl

theorem conveys_ifBody {parts : IfParts} (h : (ifBody g).run s = (.ok parts, s')) :
    Conveys keep tokens s ((TokenKind.keyword .ifKw).kept keep ++ (parts.condition.kept keep ++
      (parts.body.kept keep ++ parts.otherwise.kept keep))) s' := by
  obtain ⟨hk, s₁, s₂, hc, hb, he⟩ := ifBody_ok.1 h
  exact (Conveys.advance hk (by simp)).trans ((conveys_headerCondition hy hc).trans
    ((hy.block hb).trans (conveys_elsePart hy he)))

theorem conveys_forStep {step : ForStep} (h : (forStep g header).run s = (.ok step, s')) :
    Conveys keep tokens s (step.kept keep) s' := by
  obtain ⟨target, s₁, ht, ⟨op, value, ha, rfl⟩ | ⟨-, rfl, rfl⟩⟩ := forStep_ok.1 h
  · refine ((hy.expression ht).trans (conveys_assignment? hy ha)).congr ?_
    rw [ForStep.kept]
    simp [ForStep.layout]
  · refine (hy.expression ht).congr ?_
    rw [ForStep.kept]
    simp [ForStep.layout]

theorem conveys_returnStatement {form : Span → Stmt} (hk : s.peek.kind = .keyword .returnKw)
    (h : (returnStatement g).run s = (.ok form, s')) (span : Span) :
    Conveys keep tokens s ((form span).kept keep) s' := by
  rcases returnStatement_ok.1 h with ⟨hsemi, rfl, rfl⟩ | ⟨-, e, s₁, he, hsemi, rfl, rfl⟩
  · refine ((Conveys.advance hk (by simp)).trans (.advance hsemi (by simp))).congr ?_
    rw [Stmt.kept]
    simp [Stmt.layout]
  · refine (((Conveys.advance hk (by simp)).trans (hy.expression he)).trans (.advance hsemi (by simp))).congr ?_
    rw [Stmt.kept]
    simp [Stmt.layout]

include hg

theorem conveys_binding? {form : BindingForm} (h : (binding? g header).run s = (.ok (some form), s')) :
    Conveys keep tokens s (form.kept keep) s' := by
  rcases (binding?_some hg).1 h with ⟨hk, name, init, hk₁, hi, rfl⟩ | ⟨hk₁, name, e, hk, he, rfl⟩ |
    ⟨-, -, r, s₁, hr, hb⟩
  · refine (((Conveys.advance hk (by simp)).trans (.advance hk₁ (by simp))).trans (conveys_initializer hy hi)).congr ?_
    cases init <;> simp [BindingForm.kept, bindingLayout, initWords]
  · rw [ParseState.kindAt_one (by simp [hk])] at hk₁
    refine (((Conveys.advance hk (by simp)).trans (.advance hk₁ (by simp))).trans (hy.expression he)).congr ?_
    simp [BindingForm.kept, bindingLayout]
  · obtain ⟨s₂, ht, hk, rfl⟩ := typeAndName_ok.1 hr
    obtain ⟨ws, hws, hform⟩ := conveys_typedBinding hy hb
    exact (((hy.type ht).trans (.advance hk (by simp))).trans hws).congr (by simp [hform])

theorem conveys_simpleStatement {form : Span → Stmt} (h : (simpleStatement g).run s = (.ok form, s')) (span : Span) :
    Conveys keep tokens s ((form span).kept keep) s' := by
  rcases (simpleStatement_ok hg).1 h with ⟨binding, hb, rfl⟩ |
    ⟨-, target, s₁, ht, ⟨op, value, ha, rfl⟩ | ⟨-, rfl, rfl⟩⟩
  · exact (conveys_binding? hg hy hb).congr (binding.kept_stmt span)
  · refine ((hy.expression ht).trans (conveys_assignment? hy ha)).congr ?_
    rw [Stmt.kept]
    simp [Stmt.layout]
  · refine (hy.expression ht).congr ?_
    rw [Stmt.kept]
    simp [Stmt.layout]

theorem conveys_forHeader {parts : ForInit × Expr × ForStep} (h : (forHeader g header).run s = (.ok parts, s')) :
    Conveys keep tokens s (parts.1.kept keep ++ (parts.2.1.kept keep ++ parts.2.2.kept keep)) s' := by
  obtain ⟨s₁, s₂, hi, hsemi, hc, hsemi₂, hst⟩ := forHeader_ok.1 h
  have hinit : Conveys keep tokens s (parts.1.kept keep) s₁ := by
    rcases (forInit_ok hg).1 hi with ⟨binding, type, name, value, hb, hinit⟩ | ⟨-, e, he, hinit⟩
    · exact (conveys_binding? hg hy hb).congr (hinit ▸ ForInit.kept_varDecl _ _ _ _ _)
    · refine (hy.expression he).congr ?_
      rw [hinit, ForInit.kept]
      simp [ForInit.layout]
  exact ((((hinit.trans (.advance hsemi (by simp))).trans (hy.expression hc)).trans
    (.advance hsemi₂ (by simp))).trans (conveys_forStep hy hst)).congr (by simp)

theorem conveys_forStatement {form : Span → Stmt} (h : (forStatement g).run s = (.ok form, s')) (span : Span) :
    Conveys keep tokens s ((form span).kept keep) s' := by
  obtain ⟨hk, ⟨name, iterable, s₁, body, hk₁, hk₂, he, hb, rfl⟩ | ⟨-, h⟩⟩ := forStatement_ok.1 h
  · rw [ParseState.kindAt_one (by simp [hk₁])] at hk₂
    refine (((((Conveys.advance hk (by simp)).trans (.advance hk₁ (by simp))).trans (.advance hk₂ (by simp))).trans
      (hy.expression he)).trans (hy.block hb)).congr ?_
    rw [Stmt.kept]
    simp [Stmt.layout]
  · obtain ⟨init, condition, step, body, rfl, ⟨hopen, s₁, hh, hclose, hb⟩ | ⟨-, s₁, hh, hb⟩⟩ := forLoopRest_ok.1 h
    · refine (((((Conveys.advance hk (by simp)).trans (.advance hopen (by simp))).trans
        (conveys_forHeader hg hy hh)).trans (.advance hclose (by simp))).trans (hy.block hb)).congr ?_
      rw [Stmt.kept]
      simp [Stmt.layout]
    · refine (((Conveys.advance hk (by simp)).trans (conveys_forHeader hg hy hh)).trans (hy.block hb)).congr ?_
      rw [Stmt.kept]
      simp [Stmt.layout]

/-- A block as a statement has the words of the block. -/
theorem conveys_statement {statement : Stmt} (h : (Parser.statement g).run s = (.ok statement, s')) :
    Conveys keep tokens s (statement.kept keep) s' := by
  obtain ⟨form, hform, rfl⟩ := statement_ok.1 h
  rcases statementForm_ok.1 hform with ⟨-, parts, hif, rfl⟩ | ⟨hk, condition, s₁, body, hc, hb, rfl⟩ | ⟨-, h⟩ |
    ⟨hk, e, s₁, he, hsemi, rfl, rfl⟩ | ⟨hk, h⟩ | ⟨hk, hsemi, rfl, rfl⟩ | ⟨hk, hsemi, rfl, rfl⟩ | ⟨-, body, hb, rfl⟩ |
    ⟨-, s₁, hsimple, hsemi, rfl⟩
  · refine (conveys_ifBody hy hif).congr ?_
    rw [Stmt.kept]
    simp [Stmt.layout]
  · refine (((Conveys.advance hk (by simp)).trans (conveys_headerCondition hy hc)).trans (hy.block hb)).congr ?_
    rw [Stmt.kept]
    simp [Stmt.layout]
  · exact conveys_forStatement hg hy h _
  · refine (((Conveys.advance hk (by simp)).trans (hy.expression he)).trans (.advance hsemi (by simp))).congr ?_
    rw [Stmt.kept]
    simp [Stmt.layout]
  · exact conveys_returnStatement hy hk h _
  · refine ((Conveys.advance hk (by simp)).trans (.advance hsemi (by simp))).congr ?_
    rw [Stmt.kept]
    simp [Stmt.layout]
  · refine ((Conveys.advance hk (by simp)).trans (.advance hsemi (by simp))).congr ?_
    rw [Stmt.kept]
    simp [Stmt.layout]
  · refine (hy.block hb).congr ?_
    cases body
    rw [Stmt.kept, Block.kept]
    simp [Stmt.layout, Block.layout, Block.statements]
  · have hsemi' : Conveys keep tokens s₁ [] s₁.advance := .advance hsemi (by simp)
    exact ((conveys_simpleStatement hg hy hsimple _).trans hsemi').congr (List.append_nil _).symm

theorem conveys_statements {ss : List Stmt} (h : Statements g s ss s') :
    Conveys keep tokens s (ss.flatMap (Stmt.kept keep) ++ (TokenKind.punctuation .rBrace).kept keep) s' := by
  induction h with
  | nil hk => exact .advance hk (by simp)
  | stray hk _ ih => exact ((Conveys.advance hk (by simp)).trans ih).congr (by simp)
  | cons _ _ _ h _ ih => exact ((conveys_statement hg hy h).trans ih).congr (by simp)

end

/-- Where pairs of types settle, or words are kept loosely, all that is read is made of the words that are passed. -/
theorem conveying_ofRoom {limit room : Nat} (hp : GtCommutes keep ∨ PairsSettle limit tokens) (hroom : room ≤ limit) :
    (Inner.ofRoom ⟨limit, false⟩ room).Conveying keep tokens := by
  have htypes {room : Nat} (hroom : room ≤ limit) := conveysTypes_typeExpr hp hroom
  have hready {s : ParseState} (hs : Stands tokens s) : Ready s := ⟨hs.clean, hs.owed⟩
  have htype {room : Nat} (hroom : room ≤ limit) {s t s'} (h : (typeExpr limit room 0).run s = (.ok t, s')) :
      Conveys keep tokens s (kept keep t.layout) s' := by
    intro hs
    obtain ⟨hs', hw⟩ := htypes hroom hs.toAlong (.inr hs.owed) h
    exact ⟨⟨hs', (keeps_typeExpr limit room (hready hs) h).owed⟩, hw⟩
  have hargs {room : Nat} (hroom : room ≤ limit) {s args s'}
      (h : (Parser.typeArgs (typeExpr limit room) 0).run s = (.ok args, s')) :
      Conveys keep tokens s (kept keep (optTypeArgsLayout (some args))) s' := by
    intro hs
    obtain ⟨hs', hw⟩ := ahead_typeArgs (advances_typeExpr limit room) (htypes hroom) hs.toAlong (.inr hs.owed) h
    exact ⟨⟨hs', (keeps_typeArgs limit room (hready hs) h).owed⟩, hw⟩
  induction room with
  | zero =>
    have hdeep {α : Type} {s s' : ParseState} {a : α} {w : List TokenKind}
        (h : (tooDeep limit).run s = (.ok a, s')) : Conveys keep tokens s w s' := absurd (tooDeep_ok.1 h) id
    exact ⟨hdeep, hargs hroom, hdeep, hdeep, hdeep, hdeep, hdeep⟩
  | succ room ih =>
    have hg := settled_ofRoom ⟨limit, false⟩ room
    have hy := ih (Nat.le_of_succ_le hroom)
    refine ⟨htype hroom, hargs hroom, conveys_expressionBody hg hy, conveys_chainBody hg hy, conveys_unaryBody hg hy,
      fun {s b s'} h => ?_, conveys_ifBody hy⟩
    obtain ⟨hk, ss, hss, rfl⟩ := (blockBody_stopping hg).1 h
    refine ((Conveys.advance hk (by simp)).trans (conveys_statements hg hy hss)).congr ?_
    rw [Block.kept]
    simp [Block.layout]

end Parser

end ElleFrontEnd
