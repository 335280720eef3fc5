import ElleFrontEnd.Proofs.StretchExpr

/-!
# Nodes of statements that are read again

The parsers of statements find nodes that recur, where a parse stops at its first failure (`finding_ofRoom`).  In the
condition of an `if` or a `while`, the expression between the parentheses takes the place of the expression with them.
-/

namespace ElleFrontEnd

variable {limit room : Nat} {tokens : List Token} {ample : Prop} {text : List Char}

/-- The types and expressions of a declaration in a statement or a loop header. -/
def Parser.BindingForm.nodes : BindingForm → List Node
  | .variable _ type _ init => optTypeNodes type ++ optExprNodes init
  | .buffer type _ size => type.nodes ++ size.nodes

theorem Parser.BindingForm.nodes_stmt (form : BindingForm) (span : Span) : (form.stmt span).nodes = form.nodes := by
  cases form <;> simp [stmt, Stmt.nodes, nodes]

theorem ForInit.nodes_varDecl (span : Span) (binding : Binding) (type : Option TypeExpr) (name : String)
    (init : Option Expr) : (ForInit.varDecl span binding type name init).nodes =
      (Parser.BindingForm.variable binding type name init).nodes := by
  simp [ForInit.nodes, Parser.BindingForm.nodes]

/-- Without its parentheses, an expression has no other nodes. -/
theorem mem_nodes_unparenthesized {e : Expr} {node : Node} (h : node ∈ e.unparenthesized.nodes) : node ∈ e.nodes := by
  cases e with
  | paren s inner =>
    rw [Expr.nodes]
    exact List.mem_cons_of_mem _ h
  | _ => exact h

namespace Parser

variable {s s' : ParseState} {g : Inner} {header : Bool} (hg : g.Settled) (hf : g.Finding limit tokens ample room)

section
include hf

theorem finds_initializer {o : Option Expr} (h : (initializer g header).run s = (.ok o, s')) :
    Finds limit tokens ample room s (optExprNodes o) room s' := by
  rcases initializer_ok.1 h with ⟨-, e, rfl, he⟩ | ⟨-, rfl, rfl⟩
  · exact Finds.token.trans (hf.expression he)
  · exact .refl

theorem finds_typedBinding {type : TypeExpr} {name : String} {form : BindingForm}
    (h : (typedBinding g header type name).run s = (.ok form, s')) : ∃ nodes,
      Finds limit tokens ample room s nodes room s' ∧ form.nodes = type.nodes ++ nodes := by
  rcases typedBinding_ok.1 h with ⟨-, size, s₁, he, -, rfl, rfl⟩ | ⟨-, init, hi, rfl⟩
  · exact ⟨_, (Finds.token.trans (hf.expression he)).trans .token, by simp [BindingForm.nodes]⟩
  · exact ⟨_, finds_initializer hf hi, by simp [BindingForm.nodes, optTypeNodes]⟩

theorem finds_assignment? {form : AssignOp} {value : Expr}
    (h : (assignment? g header).run s = (.ok (some (form, value)), s')) :
    Finds limit tokens ample room s value.nodes room s' := by
  obtain ⟨op, -, -, -, hv⟩ := assignment?_some.1 h
  exact Finds.token.trans (hf.expression hv)

theorem finds_headerCondition {e : Expr} (h : (headerCondition g).run s = (.ok e, s')) :
    Finds limit tokens ample room s e.nodes room s' := by
  obtain ⟨e₀, he, rfl⟩ := headerCondition_ok.1 h
  exact (hf.expression he).mono fun _ => mem_nodes_unparenthesized

theorem finds_elsePart {o : Else} (h : (elsePart g).run s = (.ok o, s')) :
    Finds limit tokens ample room s o.nodes room s' := by
  rcases elsePart_ok.1 h with ⟨-, -, parts, hp, rfl⟩ | ⟨-, -, body, hb, rfl⟩ | ⟨-, rfl, rfl⟩
  · exact (Finds.token.trans (hf.elseIf hp)).mono (by simp [Else.nodes, IfParts.nodes])
  · exact (Finds.token.trans (hf.block hb)).mono (by simp [Else.nodes])
  · exact .refl

/-- Whatever room there is before the `if`. -/
theorem finds_ifBody {room₀ : Nat} {parts : IfParts} (hif : Finds limit tokens ample room₀ s [] room s.advance)
    (h : (ifBody g).run s = (.ok parts, s')) : Finds limit tokens ample room₀ s parts.nodes room s' := by
  obtain ⟨-, s₁, s₂, hc, hb, he⟩ := ifBody_ok.1 h
  exact (((hif.trans (finds_headerCondition hf hc)).trans (hf.block hb)).trans (finds_elsePart hf he)).mono
    (by simp [IfParts.nodes])

theorem finds_forStep {step : ForStep} (h : (forStep g header).run s = (.ok step, s')) :
    Finds limit tokens ample room s step.nodes room s' := by
  obtain ⟨target, s₁, ht, ⟨op, value, ha, rfl⟩ | ⟨-, rfl, rfl⟩⟩ := forStep_ok.1 h
  · exact ((hf.expression ht).trans (finds_assignment? hf ha)).mono (by simp [ForStep.nodes])
  · exact (hf.expression ht).mono (by simp [ForStep.nodes])

theorem finds_returnStatement {form : Span → Stmt} (h : (returnStatement g).run s = (.ok form, s')) (span : Span) :
    Finds limit tokens ample room s (form span).nodes room s' := by
  rcases returnStatement_ok.1 h with ⟨-, rfl, rfl⟩ | ⟨-, e, s₁, he, -, rfl, rfl⟩
  · exact (Finds.token.trans .token).mono (by simp [Stmt.nodes, optExprNodes])
  · exact ((Finds.token.trans (hf.expression he)).trans .token).mono (by simp [Stmt.nodes, optExprNodes])

include hg

theorem finds_binding? {form : BindingForm} (h : (binding? g header).run s = (.ok (some form), s')) :
    Finds limit tokens ample room s form.nodes room s' := by
  rcases (binding?_some hg).1 h with ⟨-, name, init, -, hi, rfl⟩ | ⟨-, name, e, -, he, rfl⟩ | ⟨-, -, r, s₁, hr, hb⟩
  · exact ((Finds.token.trans .token).trans (finds_initializer hf hi)).mono (by simp [BindingForm.nodes, optTypeNodes])
  · exact ((Finds.token.trans .token).trans (hf.expression he)).mono
      (by simp [BindingForm.nodes, optTypeNodes, optExprNodes])
  · obtain ⟨s₂, ht, -, rfl⟩ := typeAndName_ok.1 hr
    obtain ⟨nodes, hnodes, hform⟩ := finds_typedBinding hf hb
    exact (((hf.type ht).trans .token).trans hnodes).mono (by simp [hform])

theorem finds_simpleStatement {form : Span → Stmt} (h : (simpleStatement g).run s = (.ok form, s')) (span : Span) :
    Finds limit tokens ample room s (form span).nodes room s' := by
  rcases (simpleStatement_ok hg).1 h with ⟨binding, hb, rfl⟩ |
    ⟨-, target, s₁, ht, ⟨op, value, ha, rfl⟩ | ⟨-, rfl, rfl⟩⟩
  · exact (finds_binding? hg hf hb).mono (by simp [binding.nodes_stmt])
  · exact ((hf.expression ht).trans (finds_assignment? hf ha)).mono (by simp [Stmt.nodes])
  · exact (hf.expression ht).mono (by simp [Stmt.nodes])

theorem finds_forHeader {parts : ForInit × Expr × ForStep} (h : (forHeader g header).run s = (.ok parts, s')) :
    Finds limit tokens ample room s (parts.1.nodes ++ (parts.2.1.nodes ++ parts.2.2.nodes)) room s' := by
  obtain ⟨s₁, s₂, hi, -, hc, -, hst⟩ := forHeader_ok.1 h
  have hinit : Finds limit tokens ample room s parts.1.nodes room s₁ := by
    rcases (forInit_ok hg).1 hi with ⟨binding, type, name, value, hb, hinit⟩ | ⟨-, e, he, hinit⟩
    · exact (finds_binding? hg hf hb).mono (by simp [hinit, ForInit.nodes_varDecl])
    · exact (hf.expression he).mono (by simp [hinit, ForInit.nodes])
  exact ((((hinit.trans .token).trans (hf.expression hc)).trans .token).trans (finds_forStep hf hst)).mono (by simp)

theorem finds_forStatement {form : Span → Stmt} (h : (forStatement g).run s = (.ok form, s')) (span : Span) :
    Finds limit tokens ample room s (form span).nodes room s' := by
  obtain ⟨-, ⟨name, iterable, s₁, body, -, -, he, hb, rfl⟩ | ⟨-, h⟩⟩ := forStatement_ok.1 h
  · exact ((((Finds.token.trans .token).trans .token).trans (hf.expression he)).trans (hf.block hb)).mono
      (by simp [Stmt.nodes])
  · obtain ⟨init, condition, step, body, rfl, ⟨-, s₁, hh, -, hb⟩ | ⟨-, s₁, hh, hb⟩⟩ := forLoopRest_ok.1 h
    · exact ((((Finds.token.trans .token).trans (finds_forHeader hg hf hh)).trans .token).trans (hf.block hb)).mono
        (by simp [Stmt.nodes])
    · exact ((Finds.token.trans (finds_forHeader hg hf hh)).trans (hf.block hb)).mono (by simp [Stmt.nodes])

theorem finds_statement {statement : Stmt} (h : (Parser.statement g).run s = (.ok statement, s')) :
    Finds limit tokens ample room s statement.nodes room s' := by
  obtain ⟨form, hform, rfl⟩ := statement_ok.1 h
  rcases statementForm_ok.1 hform with ⟨-, parts, hif, rfl⟩ | ⟨-, condition, s₁, body, hc, hb, rfl⟩ | ⟨-, h⟩ |
    ⟨-, e, s₁, he, -, rfl, rfl⟩ | ⟨-, h⟩ | ⟨-, -, rfl, rfl⟩ | ⟨-, -, rfl, rfl⟩ | ⟨-, body, hb, rfl⟩ |
    ⟨-, s₁, hsimple, -, rfl⟩
  · exact (finds_ifBody hf .token hif).mono (by simp [Stmt.nodes, IfParts.nodes])
  · exact ((Finds.token.trans (finds_headerCondition hf hc)).trans (hf.block hb)).mono (by simp [Stmt.nodes])
  · exact finds_forStatement hg hf h _
  · exact ((Finds.token.trans (hf.expression he)).trans .token).mono (by simp [Stmt.nodes])
  · exact finds_returnStatement hf h _
  · exact (Finds.token.trans .token).mono (by simp [Stmt.nodes])
  · exact (Finds.token.trans .token).mono (by simp [Stmt.nodes])
  · cases body
    exact (hf.block hb).mono (by simp [Stmt.nodes, Block.nodes, Block.statements])
  · have hnodes := finds_simpleStatement hg hf hsimple (s₁.advance.spanFrom s.peek.span.start)
    exact (hnodes.trans .token).mono (by simp)

theorem finds_statements {ss : List Stmt} (h : Statements g s ss s') :
    Finds limit tokens ample room s (ss.flatMap Stmt.nodes) room s' := by
  induction h with
  | nil _ => exact .token
  | stray _ _ ih => exact Finds.token.trans ih
  | cons _ _ _ h _ ih => exact ((finds_statement hg hf h).trans ih).mono (by simp)

end

/-- At every level of nesting, all nodes that are found recur. -/
theorem finding_ofRoom (ht : Placed text { rest := tokens }) (hroom : room ≤ limit) :
    (Inner.ofRoom ⟨limit, false⟩ room).Finding limit tokens ample room := by
  induction room with
  | zero =>
    have hdeep {α : Type} {s s' : ParseState} {a : α} {nodes : List Node} (h : (tooDeep limit).run s = (.ok a, s')) :
        Finds limit tokens ample 0 s nodes 0 s' := absurd (tooDeep_ok.1 h) id
    exact ⟨hdeep, finds_typeArgs hroom, hdeep, fun _ => hdeep, hdeep, hdeep, hdeep⟩
  | succ room ih =>
    have hg := settled_ofRoom ⟨limit, false⟩ room
    have hf := ih (Nat.le_of_succ_le hroom)
    refine ⟨finds_typeExpr hroom, finds_typeArgs hroom, fun h => (finds_expressionBody ht hf h).wide,
      fun hlevel h => (finds_chainBody ht hf hlevel h).wide, fun h => (finds_unaryBody ht hf h).wide,
      fun {s b s'} h => ?_, 
      fun h => (finds_ifBody hf (.advance (by simp [(ifBody_ok.1 h).1])) h).wide⟩
    obtain ⟨hk, ss, hss, rfl⟩ := (blockBody_stopping hg).1 h
    exact ((Finds.advance (by simp [hk])).trans (finds_statements hg hf hss)).wide.mono (by simp [Block.nodes])

end Parser

end ElleFrontEnd
