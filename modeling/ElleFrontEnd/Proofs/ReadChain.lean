import ElleFrontEnd.Layout.Expr
import ElleFrontEnd.Proofs.ReadExpr

/-!
# What operands and chains are made of

An expression that was read needs no parentheses beyond those it has: an operand binds tightly enough where it stands
(`Suffixed`, `Chained`), and a lambda that ends in an expression stands only where nothing follows that its body could
have taken (`Expr.endsOpen`).  So printing such an expression adds no parentheses (`grouped_of_level`).
-/

namespace ElleFrontEnd

open Fragment

/-! ### Expressions that are open to the right -/

/-- Whether the expression ends in the body of a lambda. -/
def Expr.endsOpen : Expr → Bool
  | .binary _ _ _ right => right.endsOpen
  | .range _ _ stop _ => stop.endsOpen
  | .unary _ _ operand | .cast _ _ operand => operand.endsOpen
  | .conditional _ _ _ alternative => alternative.endsOpen
  | .lambda _ _ _ => true
  | _ => false

theorem Expr.endsInBody_of_closed {e : Expr} (h : e.endsOpen = false) : e.endsInBody = false := by
  cases e <;> simp_all [endsOpen, endsInBody]

theorem grouped_of_eq {depth : Nat} {openRight : Bool} (level : Nat) (e : Expr) (h : e.endsOpen = false)
    (hl : e.layout depth openRight = e.layout depth true) :
    grouped level openRight e (fun o => e.layout depth o) = grouped level true e (fun o => e.layout depth o) := by
  simp [grouped, Expr.needsGroup, Expr.endsInBody_of_closed h, hl]

/-- Where an expression is not open to the right, it does not matter what follows. -/
theorem Expr.layout_of_closed (depth : Nat) (openRight : Bool) (e : Expr) (h : e.endsOpen = false) :
    e.layout depth openRight = e.layout depth true := by
  match e with
  | .binary _ left _ right => simp only [layout, grouped_of_eq _ right h (right.layout_of_closed depth openRight h)]
  | .range _ start stop _ => simp only [layout, grouped_of_eq _ stop h (stop.layout_of_closed depth openRight h)]
  | .unary _ _ operand | .cast _ _ operand =>
    simp only [layout, grouped_of_eq _ operand h (operand.layout_of_closed depth openRight h)]
  | .conditional _ _ none alternative | .conditional _ _ (some _) alternative =>
    simp only [layout, grouped_of_eq _ alternative h (alternative.layout_of_closed depth openRight h)]
  | .lambda _ _ _ => simp [endsOpen] at h
  | .call _ _ _ _ | .member _ _ _ | .subscript _ _ _ | .paren _ _ | .ident _ _ | .qualified _ _ | .rawName _ _
  | .number _ _ | .str _ _ | .bool _ _ | .char _ _ | .array _ _ _ _ | .tuple _ _ _ | .triple _ _ _ _
  | .structLit _ _ _ _ | .blockLambda _ _ _ | .directive _ _ | .sigil _ _ none | .sigil _ _ (some _) =>
    simp only [layout]

/-- An operand that binds tightly enough, and ends in no lambda, is printed as it is. -/
theorem grouped_of_closed {level depth : Nat} {openRight : Bool} {e : Expr} (hl : level ≤ e.level)
    (h : e.endsOpen = false) : grouped level openRight e (fun o => e.layout depth o) = e.layout depth true := by
  have : ¬ e.level < level := by omega
  simp [grouped, Expr.needsGroup, this, Expr.endsInBody_of_closed h, Expr.layout_of_closed depth openRight e h]

/-- An operand at the end of an expression that is open to the right needs parentheses for its level only. -/
theorem grouped_of_level {level depth : Nat} {e : Expr} (hl : level ≤ e.level) :
    grouped level true e (fun o => e.layout depth o) = e.layout depth true := by
  have : ¬ e.level < level := by omega
  simp [grouped, Expr.needsGroup, this]

/-! ### Levels of operators -/

theorem Operator.one_le_precedence {op : Operator} (h : op.fixity = .between) : 1 ≤ op.precedence := by
  cases op <;> first | decide | simp [fixity] at h

/-- Operators between operands bind less tightly than those before an operand. -/
theorem Operator.precedence_lt (op : Operator) : op.precedence < leadingLevel := by cases op <;> decide

theorem conditionalLevel_lt : conditionalLevel < leadingLevel := by decide

theorem rightLevel_le (op : Operator) :
    op.precedence ≤ Parser.rightLevel op.precedence op.associativity ∧
      Parser.rightLevel op.precedence op.associativity ≤ 12 := by
  cases op <;> decide

theorem operandLevels_snd (op : Operator) :
    (operandLevels op).2 = Parser.rightLevel op.precedence op.associativity := by
  cases op <;> rfl

theorem operandLevels_fst_le (op : Operator) : (operandLevels op).1 ≤ leadingLevel := by
  cases op <;> decide

/-- What an operator makes of its operands may stand to the left of any operator that ends its right operand. -/
theorem operandLevels_fst_of_lt {op next : Operator} (h : next.fixity = .between)
    (hn : next.precedence < Parser.rightLevel op.precedence op.associativity) :
    (operandLevels next).1 ≤ op.precedence := by
  have hr := (rightLevel_le op).2
  have hs : Parser.rightLevel op.precedence op.associativity ≤ op.precedence + 1 := by
    unfold Parser.rightLevel
    split <;> omega
  have hf : next.fixity = .between → next.precedence < 12 → (operandLevels next).1 = next.precedence := by
    cases next <;> decide
  rw [hf h (by omega)]
  omega

theorem joined?_level {op : Operator} {left right e : Expr} (h : Parser.joined? op left right = some e) :
    e.level = op.precedence ∧ e.endsOpen = right.endsOpen := by
  unfold Parser.joined? at h
  split at h
  · cases h
    exact ⟨rfl, rfl⟩
  · cases h
    exact ⟨rfl, rfl⟩
  · obtain ⟨binary, hb, rfl⟩ := Option.map_eq_some_iff.1 h
    obtain rfl : binary.operator = op := by simpa using List.find?_some hb
    exact ⟨rfl, rfl⟩

/-- What two operands that are printed as they are look like with the operator between them. -/
theorem joined?_layout {op : Operator} {left right e : Expr} (h : Parser.joined? op left right = some e)
    (hop : op.fixity = .between) (hleft : (operandLevels op).1 ≤ left.level) (hclosed : left.endsOpen = false)
    (hright : (operandLevels op).2 ≤ right.level) (depth : Nat) :
    ∃ sep, e.layout depth true = left.layout depth true ++ (sep ++ right.layout depth true) ∧
      (sep = [space, Fragment.op op, space] ∨ sep = [Fragment.op op] ∧ ¬ op = .gt ∧ ¬ op = .lt) := by
  unfold Parser.joined? at h
  split at h
  · cases h
    refine ⟨[Fragment.op .dotDot], ?_, .inr ⟨rfl, by simp, by simp⟩⟩
    simp only [Expr.layout, rangeOperator, Bool.false_eq_true, if_false, grouped_of_closed hleft hclosed,
      grouped_of_level hright, List.append_assoc]
  · cases h
    refine ⟨[Fragment.op .dotDotEq], ?_, .inr ⟨rfl, by simp, by simp⟩⟩
    simp only [Expr.layout, rangeOperator, if_true, grouped_of_closed hleft hclosed, grouped_of_level hright,
      List.append_assoc]
  · obtain ⟨binary, hb, rfl⟩ := Option.map_eq_some_iff.1 h
    obtain rfl : binary.operator = op := by simpa using List.find?_some hb
    refine ⟨[space, Fragment.op binary.operator, space], ?_, .inl rfl⟩
    simp only [Expr.layout, grouped_of_closed hleft hclosed, grouped_of_level hright, List.append_assoc]

namespace Parser

variable {s s' : ParseState} {g : Inner} {header : Bool}

/-! ### Where an expression has ended -/

/-- Nothing comes next that could go on with an expression whose operators are at least of a level. -/
structure Stops (level : Nat) (s : ParseState) : Prop where
  paren : s.peek.kind ≠ .punctuation .lParen
  dot : s.peek.kind ≠ .punctuation .dot
  bracket : s.peek.kind ≠ .punctuation .lBracket
  operator : ∀ op, s.peek.kind = .operator op → op.fixity = .between → op.precedence < level

/-- Nothing comes next that could go on with an expression. -/
structure Ends (s : ParseState) : Prop extends Stops 1 s where
  question : s.peek.kind ≠ .punctuation .question

theorem Ends.not_between (h : Ends s) {op : Operator} (hk : s.peek.kind = .operator op) : op.fixity ≠ .between := by
  intro hf
  have := h.operator op hk hf
  have := Operator.one_le_precedence hf
  omega

/-- What is known of an operand or a chain of at least a level that ends at `s`. -/
structure Formed (level : Nat) (e : Expr) (s : ParseState) : Prop where
  level_le : level ≤ e.level
  stops : Stops level s
  ends : e.endsOpen = true → Ends s

end Parser

/-- What is known of the expressions that the parsers of nested constructs yield. -/
structure Inner.Forms (g : Inner) : Prop where
  expression : ∀ {header s e s'}, (g.expression header).run s = (.ok e, s') → Parser.Ends s'
  chain : ∀ {header level s e s'}, level ≤ leadingLevel → (g.chain header level).run s = (.ok e, s') →
    Parser.Formed level e s'
  unary : ∀ {header s e s'}, (g.unary header).run s = (.ok e, s') → Parser.Formed leadingLevel e s'

namespace Parser

variable {s s' : ParseState} {g : Inner} {header : Bool} {e e' : Expr}

/-! ### Calls, members and subscripts -/

/-- An expression that may stand before a call, a member or a subscript as it is. -/
structure Tight (e : Expr) : Prop where
  level_le : trailingLevel ≤ e.level
  closed : e.endsOpen = false

theorem Tight.of_level (hl : Nat.ble trailingLevel e.level = true) (hc : e.endsOpen = false) : Tight e :=
  ⟨Nat.le_of_ble_eq_true hl, hc⟩

/-- The calls, members and subscripts behind an operand. -/
inductive Suffixed (g : Inner) : Expr → ParseState → Expr → ParseState → Prop
  | stop {e : Expr} {s : ParseState} : Stops leadingLevel s → Suffixed g e s e s
  | call {e e' : Expr} {s s₁ s' : ParseState} {args : List Expr} (span : Span) : Tight e →
    s.peek.kind = .punctuation .lParen → (arguments g).run s = (.ok args, s₁) →
    Suffixed g (.call span e none args) s₁ e' s' → Suffixed g e s e' s'
  | genericCall {e e' : Expr} {s s₁ s₂ s' : ParseState} {generics : List TypeExpr} {args : List Expr} (span : Span) :
    Tight e → s.peek.kind = .operator .lt → e.takesGenerics = true → (callTypeArgs g).run s = (.ok generics, s₁) →
    (arguments g).run s₁ = (.ok args, s₂) → Suffixed g (.call span e (some generics) args) s₂ e' s' →
    Suffixed g e s e' s'
  | member {e e' : Expr} {s s' : ParseState} {name : String} (span : Span) : Tight e →
    s.peek.kind = .punctuation .dot → s.advance.peek.kind = .ident name →
    Suffixed g (.member span e name) s.advance.advance e' s' → Suffixed g e s e' s'
  | subscript {e e' index : Expr} {s s₁ s' : ParseState} (span : Span) : Tight e →
    s.peek.kind = .punctuation .lBracket → (g.expression false).run s.advance = (.ok index, s₁) →
    s₁.peek.kind = .punctuation .rBracket → Suffixed g (.subscript span e index) s₁.advance e' s' →
    Suffixed g e s e' s'

section
variable (hg : g.Settled) (hf : g.Forms)
include hg hf

/-- A primary expression stands before a suffix as it is, unless it is a lambda that has taken all there was. -/
theorem tight_of_primary (h : (primary g header).run s = (.ok e, s')) :
    Tight e ∨ leadingLevel ≤ e.level ∧ Ends s' := by
  rcases primary_ok.1 h with ⟨hl, -⟩ | ⟨-, hl⟩ | ⟨-, hn⟩ | ⟨-, hp⟩ | ⟨-, ha⟩ | ⟨-, hh⟩ | ⟨-, hd⟩
  · left
    unfold literalOf? at hl
    split at hl <;> cases hl <;> exact .of_level rfl rfl
  · obtain ⟨-, params, s₁, -, ⟨-, body, -, rfl⟩ | ⟨-, body, hb, rfl⟩⟩ := lambda_ok.1 hl
    · exact .inl (.of_level rfl rfl)
    · exact .inr ⟨Nat.le_refl _, hf.expression hb⟩
  · obtain ⟨name, -, ⟨-, names, -, rfl⟩ | ⟨-, -, hs⟩ | ⟨-, -, -, rfl⟩⟩ := (nameExpr_ok hg).1 hn
    · exact .inl (.of_level rfl rfl)
    · obtain ⟨generics, s₁, fields, s₂, -, -, -, -, -, rfl⟩ := (structLiteral?_some hg).1 hs
      exact .inl (.of_level rfl rfl)
    · exact .inl (.of_level rfl rfl)
  · obtain ⟨inner, s₁, -, -, -, rfl⟩ := parenthesized_ok.1 hp
    exact .inl (.of_level rfl rfl)
  · obtain ⟨-, element, s₁, elements, s₂, -, -, -, rfl, -⟩ := (arrayLiteral_ok hg).1 ha
    exact .inl (.of_level rfl rfl)
  · obtain ⟨-, ⟨-, ha⟩ | ⟨name, x, -, -, -, rfl⟩⟩ := hashExpr_ok.1 hh
    · obtain ⟨-, element, s₁, elements, s₂, -, -, -, rfl, -⟩ := (arrayLiteral_ok hg).1 ha
      exact .inl (.of_level rfl rfl)
    · exact .inl (.of_level rfl rfl)
  · obtain ⟨-, -, ⟨-, -, -, a, b, c, -, rfl⟩ | ⟨-, a, b, -, rfl⟩ | ⟨name, -, ⟨-, -, args, -, rfl⟩ | ⟨-, -, rfl⟩⟩⟩ :=
      dollarExpr_ok.1 hd
    all_goals exact .inl (.of_level rfl rfl)

omit hf in
theorem suffixed_of_grows {start : Nat} (h : Grows (suffixStep g start) e s e' s')
    (he : Tight e ∨ leadingLevel ≤ e.level ∧ Ends s) :
    Suffixed g e s e' s' ∧ (Tight e' ∨ leadingLevel ≤ e'.level ∧ Ends s') := by
  induction h with
  | stop h =>
    obtain ⟨rfl, hp, hd, hb, -⟩ := (suffixStep_none hg).1 h
    refine ⟨.stop ⟨hp, hd, hb, fun op _ _ => ?_⟩, he⟩
    cases op <;> decide
  | next h _ ih =>
    rcases (suffixStep_some hg).1 h with ⟨hk, args, hargs, rfl⟩ |
      ⟨hk, ha, ht, generics, s₁, args, hgen, hargs, rfl⟩ | ⟨hk, name, hname, rfl, rfl⟩ |
      ⟨hk, index, s₁, hindex, hclose, rfl, rfl⟩
    · have he := he.resolve_right fun h => h.2.paren hk
      obtain ⟨hs, hend⟩ := ih (.inl (.of_level rfl rfl))
      exact ⟨.call _ he hk hargs hs, hend⟩
    · have he := he.resolve_right fun h => h.2.not_between hk rfl
      obtain ⟨hs, hend⟩ := ih (.inl (.of_level rfl rfl))
      exact ⟨.genericCall _ he hk ht hgen hargs hs, hend⟩
    · have he := he.resolve_right fun h => h.2.dot hk
      obtain ⟨hs, hend⟩ := ih (.inl (.of_level rfl rfl))
      exact ⟨.member _ he hk hname hs, hend⟩
    · have he := he.resolve_right fun h => h.2.bracket hk
      obtain ⟨hs, hend⟩ := ih (.inl (.of_level rfl rfl))
      exact ⟨.subscript _ he hk hindex hclose hs, hend⟩

theorem suffixed_of_operandExpr (h : (operandExpr g header).run s = (.ok e, s')) :
    ∃ first s₁, (primary g header).run s = (.ok first, s₁) ∧ Suffixed g first s₁ e s' ∧ Formed leadingLevel e s' := by
  obtain ⟨first, s₁, hp, hgrow⟩ := (operandExpr_ok hg).1 h
  obtain ⟨hs, hend⟩ := suffixed_of_grows hg hgrow (tight_of_primary hg hf hp)
  refine ⟨first, s₁, hp, hs, ?_, stops hs, fun ho => ?_⟩
  · rcases hend with h | h
    · exact Nat.le_of_succ_le h.level_le
    · exact h.1
  · rcases hend with h | h
    · simp [h.closed] at ho
    · exact h.2
where
  stops {e e' : Expr} {s s' : ParseState} (h : Suffixed g e s e' s') : Stops leadingLevel s' := by
    induction h with
    | stop h => exact h
    | call _ _ _ _ _ ih | genericCall _ _ _ _ _ _ _ ih | member _ _ _ _ _ ih | subscript _ _ _ _ _ _ ih => exact ih

/-! ### Operators before and between operands -/

theorem formed_of_unaryBody (h : (unaryBody g header).run s = (.ok e, s')) : Formed leadingLevel e s' := by
  rcases (unaryBody_ok hg).1 h with ⟨op, unary, inner, -, -, -, hi, rfl⟩ | ⟨-, hd⟩ | ⟨-, hc⟩ | ⟨-, -, ho⟩
  · have := hf.unary hi
    exact ⟨Nat.le_refl _, this.stops, this.ends⟩
  · obtain ⟨-, inner, hi, rfl⟩ := doubleAddress_ok.1 hd
    have := hf.unary hi
    exact ⟨Nat.le_refl _, this.stops, this.ends⟩
  · obtain ⟨type, s₁, inner, -, -, hi, rfl⟩ := (cast?_some hg).1 hc
    have := hf.unary hi
    exact ⟨Nat.le_refl _, this.stops, this.ends⟩
  · obtain ⟨-, -, -, -, h⟩ := suffixed_of_operandExpr hg hf ho
    exact h

end

/-- The operators of at least a level behind an operand, each with its right operand. -/
inductive Chained (g : Inner) (header : Bool) (level : Nat) : Expr → ParseState → Expr → ParseState → Prop
  | stop {e : Expr} {s : ParseState} : Stops level s → Chained g header level e s e s
  | next {left right e e' : Expr} {s s₁ s' : ParseState} {op : Operator} : s.peek.kind = .operator op →
    op.fixity = .between → level ≤ op.precedence → (operandLevels op).1 ≤ left.level → left.endsOpen = false →
    opensOperand true s.advance.peek.kind = true →
    (g.chain header (rightLevel op.precedence op.associativity)).run s.advance = (.ok right, s₁) →
    (operandLevels op).2 ≤ right.level → joined? op left right = some e → Chained g header level e s₁ e' s' →
    Chained g header level left s e' s'

section
variable (hg : g.Settled) (hf : g.Forms)
include hf

/-- `bound` is above the operators that may follow: those that the operand on the right has not taken. -/
theorem chained_of_grows {level bound : Nat}
    (h : Grows (chainStep g header level) e s e' s') (hs : Stops bound s)
    (he : e.endsOpen = true → Ends s) (hlevel : level ≤ e.level)
    (hb : ∀ op : Operator, op.fixity = .between → op.precedence < bound → (operandLevels op).1 ≤ e.level) :
    Chained g header level e s e' s' ∧ Formed level e' s' := by
  induction h generalizing bound with
  | stop h =>
    obtain ⟨rfl, hop⟩ := chainStep_none.1 h
    have hstops : Stops level _ := ⟨hs.paren, hs.dot, hs.bracket, hop⟩
    exact ⟨.stop hstops, hlevel, hstops, he⟩
  | @next left _ _ _ _ _ h _ ih =>
    obtain ⟨op, right, hk, hfix, hle, hopen, hright, hj⟩ := chainStep_some.1 h
    have hclosed : left.endsOpen = false := by
      by_contra hc
      exact (he (by simpa using hc)).not_between hk hfix
    have hr := rightLevel_le op
    have hformed := hf.chain (by unfold leadingLevel; omega) hright
    obtain ⟨hlev, hends⟩ := joined?_level hj
    obtain ⟨hrest, hend⟩ := ih hformed.stops (fun ho => hformed.ends (by rwa [← hends])) (by omega)
      fun next hn hlt => by
        rw [hlev]
        exact operandLevels_fst_of_lt hn hlt
    exact ⟨.next hk hfix hle (hb op hfix (hs.operator op hk hfix)) hclosed hopen hright
      (by rw [operandLevels_snd]; exact hformed.level_le) hj hrest, hend⟩

include hg

theorem chained_of_chainBody {level : Nat} (hl : level ≤ leadingLevel)
    (h : (chainBody g header level).run s = (.ok e, s')) :
    ∃ first s₁, (unaryBody g header).run s = (.ok first, s₁) ∧ Formed leadingLevel first s₁ ∧
      Chained g header level first s₁ e s' ∧ Formed level e s' := by
  obtain ⟨first, s₁, hu, hgrow⟩ := (chainBody_ok hg).1 h
  have hformed := formed_of_unaryBody hg hf hu
  have hfirst := hformed.level_le
  exact ⟨first, s₁, hu, hformed, chained_of_grows hf hgrow hformed.stops hformed.ends (by omega)
    fun op _ _ => Nat.le_trans (operandLevels_fst_le op) hfirst⟩

theorem ends_of_expressionBody (h : (expressionBody g header).run s = (.ok e, s')) : Ends s' := by
  obtain ⟨condition, s₁, hc, ⟨hq, rfl, rfl⟩ | ⟨-, chosen, s₂, alternative, -, -, ha, -⟩⟩ := expressionBody_ok.1 h
  · obtain ⟨-, -, -, -, -, hformed⟩ := chained_of_chainBody hg hf (by decide) hc
    exact ⟨hformed.stops, hq⟩
  · exact hf.expression ha

end

/-- The expressions that are read at any depth are well formed. -/
theorem forms_ofRoom (o : ParseOptions) (room : Nat) : (Inner.ofRoom o room).Forms := by
  induction room with
  | zero => exact ⟨fun h => absurd (tooDeep_ok.1 h) id, fun _ h => absurd (tooDeep_ok.1 h) id,
      fun h => absurd (tooDeep_ok.1 h) id⟩
  | succ room ih =>
    have hg := settled_ofRoom o room
    exact ⟨fun h => ends_of_expressionBody hg ih h,
      fun hl h => (chained_of_chainBody hg ih hl h).elim fun _ ⟨_, _, _, _, h⟩ => h,
      fun h => formed_of_unaryBody hg ih h⟩

end Parser

end ElleFrontEnd
