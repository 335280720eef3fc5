import ElleFrontEnd.Proofs.Stretch

/-!
# Nodes of expressions that are read again

Each parser of an expression or a part of it finds nodes that recur (`finds_expressionBody`).  What it makes of them is
a node itself: it is read in another place in the same way, also where more would follow it in the source, as the
operand of a call or the left side of an operator (`recurs_of_unary`, `recurs_of_chain`).
-/

namespace ElleFrontEnd

variable {limit room : Nat} {tokens : List Token} {ample : Prop} {text : List Char}

/-- The parsers of nested constructs find nodes that recur. -/
structure Inner.Finding (limit : Nat) (tokens : List Token) (ample : Prop) (room : Nat) (g : Inner) : Prop where
  type : ∀ {s t s'}, (g.type 0).run s = (.ok t, s') → Finds limit tokens ample room s t.nodes room s'
  typeArgs : ∀ {s args s'}, (Parser.typeArgs g.type 0).run s = (.ok args, s') →
    Finds limit tokens ample room s (typeListNodes args) room s'
  expression : ∀ {header s e s'}, (g.expression header).run s = (.ok e, s') →
    Finds limit tokens ample room s e.nodes room s'
  chain : ∀ {header level s e s'}, 1 ≤ level → (g.chain header level).run s = (.ok e, s') →
    Finds limit tokens ample room s e.nodes room s'
  unary : ∀ {header s e s'}, (g.unary header).run s = (.ok e, s') → Finds limit tokens ample room s e.nodes room s'
  block : ∀ {s b s'}, g.block.run s = (.ok b, s') → Finds limit tokens ample room s b.nodes room s'
  elseIf : ∀ {s parts s'}, g.elseIf.run s = (.ok parts, s') → Finds limit tokens ample room s parts.nodes room s'

namespace Parser

variable {s s₁ s' : ParseState} {g : Inner} {header : Bool}

/-! ### Parts of expressions -/

section
variable (hg : g.Settled) (hf : g.Finding limit tokens ample room)

section
include hf

theorem finds_exprs {close : Punctuation} {es : List Expr} (h : CommaListed close (g.expression false) s es s') :
    Finds limit tokens ample room s (es.flatMap Expr.nodes) room s' := .listed hf.expression h

theorem finds_param {p : Param} (h : (param g).run s = (.ok p, s')) :
    Finds limit tokens ample room s p.nodes room s' := by
  rcases param_ok.1 h with ⟨-, ⟨name, -, rfl, rfl⟩ | ⟨-, rfl, rfl⟩⟩ | ⟨-, -, type, s₁, name, ht, -, rfl, rfl⟩ |
    ⟨-, -, type, s₁, ht, ⟨name, -, rfl, rfl⟩ | ⟨-, rfl, rfl⟩⟩
  · exact (Finds.token.trans .token).mono (by simp [Param.nodes])
  · exact Finds.token.mono (by simp [Param.nodes])
  · exact (((Finds.token.trans .token).trans (hf.type ht)).trans .token).mono (by simp [Param.nodes])
  · exact ((hf.type ht).trans .token).mono (by simp [Param.nodes])
  · exact hf.type ht

omit hf in
theorem finds_metaBinding {name : Option String} (h : metaBinding.run s = (.ok name, s')) :
    Finds limit tokens ample room s [] room s' := by
  rcases metaBinding_ok.1 h with ⟨-, n, -, -, ⟨-, rfl⟩ | ⟨-, rfl⟩⟩ | ⟨-, -, rfl⟩
  · exact Finds.token.trans .token
  · exact (Finds.token.trans .token).trans .token
  · exact .refl

theorem finds_fieldInit {f : FieldInit} (h : (fieldInit g).run s = (.ok f, s')) :
    Finds limit tokens ample room s f.nodes room s' := by
  obtain ⟨name, value, -, -, hv, rfl⟩ := fieldInit_ok.1 h
  exact ((Finds.token.trans .token).trans (hf.expression hv)).mono (by simp [FieldInit.nodes])

omit hf in
theorem finds_pathTail {names : List String} (h : PathTail s names s') :
    Finds limit tokens ample room s [] room s' := by
  induction h with
  | nil _ => exact .refl
  | cons _ _ _ ih => exact (Finds.token.trans .token).trans ih

theorem finds_optionalOperand {o : Option Expr} (h : (optionalOperand g).run s = (.ok o, s')) :
    Finds limit tokens ample room s (optExprNodes o) room s' := by
  rcases optionalOperand_ok.1 h with ⟨-, e, rfl, he⟩ | ⟨-, rfl, rfl⟩
  · exact Finds.token.trans (hf.expression he)
  · exact .refl

theorem finds_operands {x : Directive} (h : Operands g s s' x) : Finds limit tokens ample room s x.nodes room s' := by
  cases x with
  | len e | free e | setAllocator e => exact (hf.expression h.2).mono (by simp [Directive.nodes])
  | size type => exact (hf.type h.2).mono (by simp [Directive.nodes])
  | ident n =>
    obtain ⟨-, rfl⟩ := h
    exact .token
  | alloc type count =>
    obtain ⟨-, s₁, ht, ho⟩ := h
    exact ((hf.type ht).trans (finds_optionalOperand hf ho)).mono (by simp [Directive.nodes])
  | realloc e type count =>
    obtain ⟨-, s₁, s₂, he, -, -, ht, ho⟩ := h
    exact ((((hf.expression he).trans .token).trans (hf.type ht)).trans (finds_optionalOperand hf ho)).mono
      (by simp [Directive.nodes])
  | env => exact h.elim
  | resetAllocator =>
    obtain rfl : s' = s := h
    exact .refl

end

include hg hf

theorem finds_arguments {args : List Expr} (h : (arguments g).run s = (.ok args, s')) :
    Finds limit tokens ample room s (args.flatMap Expr.nodes) room s' := by
  obtain ⟨-, s₁, hl, -, rfl⟩ := (arguments_ok hg).1 h
  exact ((Finds.token.trans (finds_exprs hf hl)).trans .token).mono (by simp)

theorem finds_paramList {list : ParamList} (h : (paramList g).run s = (.ok list, s')) :
    Finds limit tokens ample room s list.nodes room s' := by
  obtain ⟨-, s₁, s₂, hm, hl, -, rfl⟩ := (paramList_ok hg).1 h
  have hparams : Finds limit tokens ample room s₁ _ room s₂ := .listed (finds_param hf) hl
  exact (((Finds.token.trans (finds_metaBinding hm)).trans hparams).trans .token).mono (by simp [ParamList.nodes])

theorem finds_structTypeArgs {generics : Option (List TypeExpr)}
    (h : (structTypeArgs g).run s = (.ok (some generics), s')) :
    Finds limit tokens ample room s (optTypeListNodes generics) room s' := by
  rcases (structTypeArgs_some hg).1 h with ⟨-, -, args, rfl, ha, -⟩ | ⟨-, rfl, rfl⟩
  · exact hf.typeArgs ha
  · exact .refl

/-! ### Expressions that begin with a token of their own -/

theorem finds_lambda {e : Expr} (h : (lambda g header).run s = (.ok e, s')) :
    Finds limit tokens ample (room + 1) s e.inner room s' := by
  obtain ⟨hk, params, s₁, hp, ⟨-, body, hb, rfl⟩ | ⟨-, body, hb, rfl⟩⟩ := lambda_ok.1 h
  · exact (((Finds.advance (by simp [hk])).trans (finds_paramList hg hf hp)).trans (hf.block hb)).mono
      (by simp [Expr.inner, Expr.nodes])
  · exact (((Finds.advance (by simp [hk])).trans (finds_paramList hg hf hp)).trans (hf.expression hb)).mono
      (by simp [Expr.inner, Expr.nodes])

theorem finds_nameExpr {e : Expr} (h : (nameExpr g header).run s = (.ok e, s')) :
    Finds limit tokens ample (room + 1) s e.inner room s' := by
  obtain ⟨name, hk, ⟨-, names, hp, rfl⟩ | ⟨-, -, h⟩ | ⟨-, -, rfl, rfl⟩⟩ := (nameExpr_ok hg).1 h
  · exact (Finds.advance (by simp [hk])).trans (finds_pathTail hp)
  · obtain ⟨generics, s₁, fields, s₂, ha, -, hl, -, rfl, rfl⟩ := (structLiteral?_some hg).1 h
    have hfields : Finds limit tokens ample room s₁.advance _ room s₂ := .listed (finds_fieldInit hf) hl
    exact (((((Finds.advance (by simp [hk])).trans (finds_structTypeArgs hg hf ha)).trans .token).trans hfields).trans
      .token).mono (by simp [Expr.inner, Expr.nodes])
  · exact .advance (by simp [hk])

theorem finds_arrayLiteral {start : Nat} {isStatic : Bool} {e : Expr}
    (h : (arrayLiteral g start isStatic).run s = (.ok e, s')) :
    Finds limit tokens ample (room + 1) s e.inner room s' := by
  obtain ⟨hk, element, s₁, elements, s₂, hl, -, rfl, rfl, helement⟩ := (arrayLiteral_ok hg).1 h
  have hrest : Finds limit tokens ample room s₁ _ room s₂.advance := (finds_exprs hf hl).trans .token
  rcases helement with ⟨type, s₀, rfl, ht, -, rfl⟩ | ⟨rfl, rfl, -⟩
  · exact ((((Finds.advance (by simp [hk])).trans (hf.type ht)).trans .token).trans hrest).mono
      (by simp [Expr.inner, Expr.nodes, optTypeNodes])
  · exact ((Finds.advance (by simp [hk])).trans hrest).mono (by simp [Expr.inner, Expr.nodes, optTypeNodes])

theorem finds_hashExpr {e : Expr} (h : (hashExpr g).run s = (.ok e, s')) :
    Finds limit tokens ample (room + 1) s e.inner room s' := by
  obtain ⟨hk, ⟨-, ha⟩ | ⟨name, x, -, -, hd, rfl⟩⟩ := hashExpr_ok.1 h
  · exact Finds.token.trans (finds_arrayLiteral hg hf ha)
  · have hhead : Finds limit tokens ample (room + 1) s [] room s.advance.advance :=
      (Finds.advance (by simp [hk])).trans .token
    obtain ⟨-, ⟨hx, -, rfl⟩ | ⟨-, -, s₁, ho, -, rfl⟩⟩ := directiveOf_ok.1 hd
    · obtain rfl : x = .env := by cases x <;> simp_all [Directive.name]
      exact hhead
    · exact (((hhead.trans .token).trans (finds_operands hf ho)).trans .token).mono (by simp [Expr.inner, Expr.nodes])

theorem finds_dollarExpr {e : Expr} (h : (dollarExpr g).run s = (.ok e, s')) :
    Finds limit tokens ample (room + 1) s e.inner room s' := by
  obtain ⟨hk, -, ⟨-, -, -, a, b, c, ha, rfl⟩ | ⟨-, a, b, ha, rfl⟩ |
    ⟨name, -, ⟨-, -, args, ha, rfl⟩ | ⟨-, rfl, rfl⟩⟩⟩ := dollarExpr_ok.1 h
  · exact (((Finds.advance (by simp [hk])).trans .token).trans (finds_arguments hg hf ha)).mono
      (by simp [Expr.inner, Expr.nodes])
  · exact ((Finds.advance (by simp [hk])).trans (finds_arguments hg hf ha)).mono (by simp [Expr.inner, Expr.nodes])
  · exact (((Finds.advance (by simp [hk])).trans .token).trans (finds_arguments hg hf ha)).mono
      (by simp [Expr.inner, Expr.nodes, optExprListNodes])
  · exact (Finds.advance (by simp [hk])).trans .token

theorem finds_primary {e : Expr} (h : (primary g header).run s = (.ok e, s')) :
    Finds limit tokens ample (room + 1) s e.inner room s' := by
  rcases primary_ok.1 h with ⟨hl, rfl⟩ | ⟨-, h⟩ | ⟨-, h⟩ | ⟨hk, h⟩ | ⟨-, h⟩ | ⟨-, h⟩ | ⟨-, h⟩
  · refine (Finds.advance fun hk => ?_).mono ?_
    · simp [hk, literalOf?] at hl
    · unfold literalOf? at hl
      split at hl <;> cases hl <;> simp [Expr.inner, Expr.nodes]
  · exact finds_lambda hg hf h
  · exact finds_nameExpr hg hf h
  · obtain ⟨inner, s₁, hi, -, rfl, rfl⟩ := parenthesized_ok.1 h
    exact (((Finds.advance (by simp [hk])).trans (hf.expression hi)).trans .token).mono
      (by simp [Expr.inner, Expr.nodes])
  · exact finds_arrayLiteral hg hf h
  · exact finds_hashExpr hg hf h
  · exact finds_dollarExpr hg hf h

/-- What stands behind an operand goes on with it, from one expression to another. -/
theorem finds_suffixes {s₀ : ParseState} {start : Nat} {e e' : Expr}
    (he : Finds limit tokens ample (room + 1) s₀ e.nodes room s) (h : Ascends (suffixStep g start) e s e' s')
    (hrecurs : ∀ {e' s'}, Ascends (suffixStep g start) e s e' s' → Roomy tokens ample (room + 1) s₀ →
      Roomy tokens ample room s' → e'.Recurs limit tokens ample) :
    Finds limit tokens ample (room + 1) s₀ e'.nodes room s' := by
  induction h with
  | refl => exact he
  | @next e e₁ e' s s₁ s' h hrest ih =>
    refine ih (.whole ?_ (hrecurs (.next h .refl))) fun h' => hrecurs (.next h h')
    rcases (suffixStep_some hg).1 h with ⟨-, args, ha, rfl⟩ | ⟨-, -, -, generics, s₁, args, hc, ha, rfl⟩ |
      ⟨-, name, -, rfl, rfl⟩ | ⟨-, index, s₁, hi, -, rfl, rfl⟩
    · exact (he.trans (finds_arguments hg hf ha)).mono (by simp [Expr.inner, Expr.nodes, optTypeListNodes])
    · exact ((he.trans (hf.typeArgs (callTypeArgs_ok.1 hc).1)).trans (finds_arguments hg hf ha)).mono
        (by simp [Expr.inner, Expr.nodes, optTypeListNodes])
    · exact ((he.trans .token).trans .token).mono (by simp [Expr.inner, Expr.nodes])
    · exact (((he.trans .token).trans (hf.expression hi)).trans .token).mono (by simp [Expr.inner, Expr.nodes])

omit hg in
/-- What stands behind an operator goes on with what stands before it. -/
theorem finds_chainSteps {s₀ : ParseState} {level : Nat} {e e' : Expr} (hlevel : 1 ≤ level)
    (he : Finds limit tokens ample (room + 1) s₀ e.nodes room s) (h : Ascends (chainStep g header level) e s e' s')
    (hrecurs : ∀ {e' s'}, Ascends (chainStep g header level) e s e' s' → Roomy tokens ample (room + 1) s₀ →
      Roomy tokens ample room s' → e'.Recurs limit tokens ample) :
    Finds limit tokens ample (room + 1) s₀ e'.nodes room s' := by
  induction h with
  | refl => exact he
  | @next e e₁ e' s s₁ s' h hrest ih =>
    refine ih (.whole ?_ (hrecurs (.next h .refl))) fun h' => hrecurs (.next h h')
    obtain ⟨op, right, -, -, hle, -, hr, hjoined⟩ := chainStep_some.1 h
    have hright := hf.chain (Nat.le_trans (Nat.le_trans hlevel hle) (rightLevel_le op).1) hr
    refine ((he.trans .token).trans hright).mono ?_
    unfold joined? at hjoined
    split at hjoined
    · cases hjoined
      simp [Expr.inner, Expr.nodes]
    · cases hjoined
      simp [Expr.inner, Expr.nodes]
    · obtain ⟨binary, -, rfl⟩ := Option.map_eq_some_iff.1 hjoined
      simp [Expr.inner, Expr.nodes]

end

/-! ### Expressions of their own -/

/-- At each place of the stream, what is left to read stands in the text of the stream. -/
theorem Along.placed (ht : Placed text { rest := tokens }) (hs : Along tokens s) : Placed text s := by
  obtain ⟨n, hn⟩ := hs.stands
  have hordered : (tokens.take n ++ tokens.drop n).Pairwise (·.span.stop ≤ ·.span.start) := by
    rw [List.take_append_drop]
    exact ht.ordered
  obtain ⟨-, hrest, hbehind⟩ := List.pairwise_append.1 hordered
  refine ⟨fun t hmem => ht.sits t ?_, hn.rest ▸ hrest, fun t hlast => ?_⟩
  · rw [hn.rest] at hmem
    exact List.mem_of_mem_drop hmem
  · have hmem := List.mem_of_mem_getLast? (hn.last ▸ hlast)
    exact ⟨ht.sits t (List.mem_of_mem_take hmem), fun u hu => hbehind t hmem u (hn.rest ▸ hu)⟩

section
variable {e : Expr} (hs : Roomy tokens ample (room + 1) s) (ho : s'.owed = 0) (ha : Advances s s')
  (hlt : s'.rest.length < s.rest.length) (hspan : e.span = s'.spanFrom s.start)
include hs ho ha hlt hspan

theorem recurs_of_expression (h : ∀ y, Inert y → (expressionBody (.ofRoom ⟨limit, false⟩ room) false).run
    (s.graft s'.rest.length y) = (.ok e, s'.graft s'.rest.length y)) : e.Recurs limit tokens ample := by
  obtain ⟨used, hstretch⟩ := Stretch.of_advances hs.toAlong hs.owed ha hlt hspan
  exact ⟨room + 1, used, s, s', hstretch, hs, ho, h⟩

theorem recurs_of_chain (h : ∀ y, Inert y → (chainBody (.ofRoom ⟨limit, false⟩ room) false 1).run
    (s.graft s'.rest.length y) = (.ok e, s'.graft s'.rest.length y)) : e.Recurs limit tokens ample := by
  refine recurs_of_expression hs ho ha hlt hspan fun y hy =>
    expressionBody_ok.2 ⟨e, _, h y hy, .inl ⟨?_, rfl, rfl⟩⟩
  rcases ParseState.peek_graft_of_le (s := s') hy (Nat.le_refl _) with hk | hk <;> simp [hk]

theorem recurs_of_unary (h : ∀ y, Inert y → (unaryBody (.ofRoom ⟨limit, false⟩ room) false).run
    (s.graft s'.rest.length y) = (.ok e, s'.graft s'.rest.length y)) : e.Recurs limit tokens ample :=
  recurs_of_chain hs ho ha hlt hspan fun y hy => (chainBody_ok (settled_ofRoom _ room)).2
    ⟨e, _, h y hy, .stop (chainStop_of_end hy (Nat.le_refl _))⟩

end

section
variable (ht : Placed text { rest := tokens }) (hf : (Inner.ofRoom ⟨limit, false⟩ room).Finding limit tokens ample room)

/-- An operand so far is an operand where the source ends behind it. -/
theorem recurs_operand {first e : Expr}
    (hcast : s.peek.kind = .punctuation .lParen → NoCast (.ofRoom ⟨limit, false⟩ room) s)
    (hop : ∀ op, s.peek.kind = .operator op → UnaryOp.ofOperator? op = none ∧ op ≠ .andAnd)
    (hp : (primary (.ofRoom ⟨limit, false⟩ room) header).run s = (.ok first, s₁))
    (h : Ascends (suffixStep (.ofRoom ⟨limit, false⟩ room) s.start) first s₁ e s')
    (hs : Roomy tokens ample (room + 1) s) (ho : s'.owed = 0) : e.Recurs limit tokens ample := by
  have hg := settled_ofRoom ⟨limit, false⟩ room
  have hn := nesting_ofRoom limit room
  have hG := Inner.ofRoom_type ⟨limit, false⟩ room
  have hprimary := advances_run (Alike.advances fun us => Alike.primary (.refl us) (hg.steady us) header) hp
  have hsuffixes := h.advances (advances_suffixStep hg _)
  have hlt := Nat.lt_of_le_of_lt hsuffixes.length_le (length_of_primary hg hn hp)
  refine recurs_of_unary hs ho (hprimary.trans hsuffixes) hlt
    (span_suffixes hg h (span_primary hg hp)) fun y hy => (unaryBody_ok hg).2 (.inr (.inr (.inr ?_)))
  rw [ParseState.peek_graft hlt]
  have hle := Nat.le_of_lt_succ (Nat.lt_of_lt_of_le hlt s.length_le_advance)
  exact ⟨fun hk => noCast_graft hG hy hle hlt (hcast hk), hop, operand_graft hy hg hn hG (grafts_ofRoom hy limit room)
    (.of_header rfl) hp h (suffixStop_of_end hy hg (Nat.le_refl _))⟩

include ht hf

theorem finds_unaryBody {e : Expr} (h : (unaryBody (.ofRoom ⟨limit, false⟩ room) header).run s = (.ok e, s')) :
    Finds limit tokens ample (room + 1) s e.nodes room s' := by
  have hg := settled_ofRoom ⟨limit, false⟩ room
  have hn := nesting_ofRoom limit room
  have hG := Inner.ofRoom_type ⟨limit, false⟩ room
  have hc := consuming_ofRoom limit room
  have hadv := advances_run (Alike.advances fun us => Alike.unaryBody (.refl us) (hg.steady us) header) h
  have hunary (hs : Roomy tokens ample (room + 1) s) (hs' : Roomy tokens ample room s') :
      e.Recurs limit tokens ample :=
    recurs_of_unary hs hs'.owed hadv (length_of_unaryBody hg hn h) (span_unaryBody hg h) fun y hy =>
      unaryBody_graft hy hg hn hG hc (grafts_ofRoom hy limit room) (.of_header rfl) h
  rcases (unaryBody_ok hg).1 h with ⟨op, unary, inner, hk, -, -, hi, rfl⟩ | ⟨hk, h⟩ | ⟨hk, h⟩ | ⟨hcast, hop, h⟩
  · exact .whole (((Finds.advance (by simp [hk])).trans (hf.unary hi)).mono (by simp [Expr.inner, Expr.nodes])) hunary
  · obtain ⟨hopens, inner, hi, rfl⟩ := doubleAddress_ok.1 h
    refine .whole ?_ hunary
    have hfinds := (Finds.advance (by simp [hk])).trans (hf.unary hi)
    refine fun hs => ⟨(hfinds hs).1, ?_⟩
    simp only [Expr.inner, Expr.nodes, List.tail_cons]
    refine List.forall_mem_cons.2 ⟨.inr ?_, (hfinds hs).2⟩
    -- the inner one of the two stands before the operand that is read behind the token
    have hspan := (exact_ofRoom text limit room).unary ((hs.toAlong.placed ht).advance (by simp [hk])).1 hi
    obtain ⟨used, hstretch⟩ := Stretch.of_advances hs.toAlong.advance ((ParseState.advance_owed s).trans hs.owed)
      (advances_run (hg.unary header) hi) (hc.unary hi) hspan
    refine ⟨room, used, s, s', inner, hk, hopens, hstretch, hs, (hfinds hs).1.owed, ?_, fun y hy => ?_⟩
    · rw [hspan]
      rfl
    · exact (grafts_ofRoom hy limit room).unary (.of_header rfl) hi
  · obtain ⟨type, s₁, inner, hct, -, hi, rfl⟩ := (cast?_some hg).1 h
    obtain ⟨s₂, htype, -, rfl⟩ := castType_ok.1 hct
    exact .whole (((((Finds.advance (by simp [hk])).trans (hf.type htype)).trans .token).trans (hf.unary hi)).mono
      (by simp [Expr.inner, Expr.nodes])) hunary
  · obtain ⟨first, s₁, hp, hgrow⟩ := (operandExpr_ok hg).1 h
    obtain ⟨s₂, hclimb, hstop⟩ := Ascends.of_grows hgrow
    obtain rfl := ((suffixStep_none hg).1 hstop).1
    have hrecurs {e : Expr} {s' : ParseState}
        (h : Ascends (suffixStep (.ofRoom ⟨limit, false⟩ room) s.start) first s₁ e s')
        (hs : Roomy tokens ample (room + 1) s) (hs' : Roomy tokens ample room s') : e.Recurs limit tokens ample :=
      recurs_operand hcast hop hp h hs hs'.owed
    exact finds_suffixes hg hf (.whole (finds_primary hg hf hp) (hrecurs .refl)) hclimb hrecurs

theorem finds_chainBody {level : Nat} {e : Expr} (hlevel : 1 ≤ level)
    (h : (chainBody (.ofRoom ⟨limit, false⟩ room) header level).run s = (.ok e, s')) :
    Finds limit tokens ample (room + 1) s e.nodes room s' := by
  have hg := settled_ofRoom ⟨limit, false⟩ room
  obtain ⟨first, s₁, hu, hgrow⟩ := (chainBody_ok hg).1 h
  obtain ⟨s₂, hclimb, hstop⟩ := Ascends.of_grows hgrow
  obtain rfl := (chainStep_none.1 hstop).1
  refine finds_chainSteps hf hlevel (finds_unaryBody ht hf hu) hclimb fun {e s'} h hs hs' => ?_
  have hfirst := advances_run (Alike.advances fun us => Alike.unaryBody (.refl us) (hg.steady us) header) hu
  have hsteps := h.advances (advances_chainStep hg header level)
  have hlt := Nat.lt_of_le_of_lt hsteps.length_le (length_of_unaryBody hg (nesting_ofRoom limit room) hu)
  refine recurs_of_chain hs hs'.owed (hfirst.trans hsteps) hlt (span_chain hg (exact_ofRoom text limit room)
    (hs.toAlong.placed ht) hfirst h (span_unaryBody hg hu)) fun y hy => ?_
  exact chain_graft hy hg (nesting_ofRoom limit room) (Inner.ofRoom_type ⟨limit, false⟩ room)
    (trailing_ofRoom limit room) (consuming_ofRoom limit room) (grafts_ofRoom hy limit room) (.of_header rfl) hlevel hu h
    (chainStop_of_end hy (Nat.le_refl _))

theorem finds_expressionBody {e : Expr}
    (h : (expressionBody (.ofRoom ⟨limit, false⟩ room) header).run s = (.ok e, s')) :
    Finds limit tokens ample (room + 1) s e.nodes room s' := by
  have hg := settled_ofRoom ⟨limit, false⟩ room
  have hn := nesting_ofRoom limit room
  have hx := exact_ofRoom text limit room
  obtain ⟨condition, s₁, hc, ⟨-, rfl, rfl⟩ | ⟨hk, chosen, s₂, alternative, hch, hcolon, ha, rfl⟩⟩ :=
    expressionBody_ok.1 h
  · exact finds_chainBody ht hf (Nat.le_refl 1) hc
  · have hadv := advances_run (Alike.advances fun us => Alike.expressionBody (.refl us) (hg.steady us) header) h
    have hchosen : Finds limit tokens ample room s₁.advance (optExprNodes chosen) room s₂ := by
      rcases consequence_ok.1 hch with ⟨-, rfl, rfl⟩ | ⟨-, e, rfl, he⟩
      · exact .refl
      · exact hf.expression he
    refine .whole ((((((finds_chainBody ht hf (Nat.le_refl 1) hc).trans .token).trans hchosen).trans .token).trans
      (hf.expression ha)).mono (by simp [Expr.inner, Expr.nodes])) fun hs hs' => ?_
    exact recurs_of_expression hs hs'.owed hadv (length_of_expressionBody hg hn h)
      (span_expressionBody hg hx (hs.toAlong.placed ht) h) fun y hy =>
        expressionBody_graft hy hg hn (Inner.ofRoom_type ⟨limit, false⟩ room) (trailing_ofRoom limit room)
          (consuming_ofRoom limit room) (grafts_ofRoom hy limit room) (.of_header rfl) h

end

end Parser

end ElleFrontEnd
