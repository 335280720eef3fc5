import ElleFrontEnd.Proofs.ReadChain
import ElleFrontEnd.Proofs.TwinGrammar

/-!
# How operators group their operands

A tree of names, operations and ranges shows its tokens from left to right (`Expr.InOrder`).  Many trees show the same
tokens; of these, at most one has operands that bind as tightly as their place demands (`Expr.InOrder.unique`).  For if
two such trees had different operators at their roots, each of these operators would stand inside of an operand of the
other, and would have to bind more tightly than the other.
-/

namespace ElleFrontEnd

namespace Expr

/-- Whether an expression is an operator between two operands. -/
inductive IsNode (op : Operator) (left right : Expr) : Expr → Prop
  | binary (span : Span) {binary : BinaryOp} : binary.operator = op →
    IsNode op left right (.binary span left binary right)
  | range (span : Span) {inclusive : Bool} : rangeOperator inclusive = op →
    IsNode op left right (.range span left right inclusive)

/-- The tokens that a tree of names, operations and ranges shows from left to right. -/
inductive InOrder : Expr → List TokenKind → Prop
  | name (span : Span) (n : String) : InOrder (.ident span n) [.ident n]
  | node {op : Operator} {left right e : Expr} {ks ks' : List TokenKind} : IsNode op left right e → InOrder left ks →
    InOrder right ks' → InOrder e (ks ++ .operator op :: ks')

/-- Whether operands bind tightly enough where they stand, in the whole tree: operations group to the left, and ranges,
which bind tightest of all, to the right. -/
def Grouped : Expr → Prop
  | .binary _ left op right =>
    op.precedence ≤ left.level ∧ op.precedence < right.level ∧ left.Grouped ∧ right.Grouped
  | .range _ start stop _ => 12 < start.level ∧ 12 ≤ stop.level ∧ start.Grouped ∧ stop.Grouped
  | _ => True

end Expr

/-! ### Operators and the levels of their operands -/

theorem BinaryOp.fixity_operator (binary : BinaryOp) : binary.operator.fixity = .between := by
  cases binary <;> rfl

theorem BinaryOp.operandLevels_operator (binary : BinaryOp) :
    operandLevels binary.operator = (binary.precedence, binary.precedence + 1) := by
  cases binary <;> rfl

theorem BinaryOp.ofOperator?_operator (binary : BinaryOp) : ofOperator? binary.operator = some binary := by
  cases binary <;> rfl

theorem operandLevels_rangeOperator (inclusive : Bool) : operandLevels (rangeOperator inclusive) = (13, 12) := by
  cases inclusive <;> rfl

/-- An operand binds no less tightly than its operator. -/
theorem precedence_le_operandLevels (op : Operator) :
    op.precedence ≤ (operandLevels op).1 ∧ op.precedence ≤ (operandLevels op).2 := by
  cases op <;> decide

/-- Of two operators, not each can stand in the operand that the other has on its side. -/
theorem not_crossed {op op' : Operator} (hop : op.fixity = .between) (h : (operandLevels op).2 ≤ op'.precedence)
    (h' : (operandLevels op').1 ≤ op.precedence) : False := by
  -- an operator of the level of its right operand is a range, and no operator stands to the left of a range
  have hright : op.fixity = .between → op.precedence < (operandLevels op).2 ∨ (operandLevels op).2 = 12 := by
    cases op <;> decide
  have hleft : 12 ≤ op'.precedence → 13 ≤ (operandLevels op').1 := by
    cases op' <;> decide
  have hle := (precedence_le_operandLevels op').1
  have hbound : op.precedence ≤ 12 := by
    cases op <;> decide
  rcases hright hop with hlt | heq
  · omega
  · have := hleft (by omega)
    omega

namespace Expr

variable {op op' : Operator} {left right left' right' e e' : Expr} {ks : List TokenKind}

theorem IsNode.between (h : IsNode op left right e) : op.fixity = .between := by
  cases h with
  | binary span h => exact h ▸ BinaryOp.fixity_operator _
  | @range span inclusive h =>
    rw [← h]
    cases inclusive <;> rfl

theorem IsNode.level_eq (h : IsNode op left right e) : e.level = op.precedence := by
  cases h with
  | binary span h => exact congrArg Operator.precedence h
  | range span h => exact congrArg Operator.precedence h

theorem IsNode.grouped_iff (h : IsNode op left right e) : e.Grouped ↔
    (operandLevels op).1 ≤ left.level ∧ (operandLevels op).2 ≤ right.level ∧ left.Grouped ∧ right.Grouped := by
  cases h with
  | binary span h =>
    rw [← h, BinaryOp.operandLevels_operator, Grouped]
    rfl
  | range span h =>
    rw [← h, operandLevels_rangeOperator, Grouped]
    rfl

/-- An operator makes one tree of two operands, but for where it stands. -/
theorem IsNode.same (h : IsNode op left right e) (h' : IsNode op left' right' e') (hleft : SameExpr left left')
    (hright : SameExpr right right') : SameExpr e e' := by
  have hleft : left.mapSpans noSpan = left'.mapSpans noSpan := hleft
  have hright : right.mapSpans noSpan = right'.mapSpans noSpan := hright
  have hrange (binary : BinaryOp) (inclusive : Bool) : binary.operator ≠ rangeOperator inclusive := by
    cases inclusive <;> cases binary <;> decide
  cases h with
  | @binary span binary h =>
    cases h' with
    | @binary span' binary' h' =>
      obtain rfl : binary = binary' := by
        have hop := congrArg BinaryOp.ofOperator? (h.trans h'.symm)
        rwa [BinaryOp.ofOperator?_operator, BinaryOp.ofOperator?_operator, Option.some.injEq] at hop
      change Expr.binary .zero _ _ _ = Expr.binary .zero _ _ _
      rw [hleft, hright]
    | range span' h' => exact absurd (h.trans h'.symm) (hrange _ _)
  | @range span inclusive h =>
    cases h' with
    | binary span' h' => exact absurd (h'.trans h.symm) (hrange _ _)
    | @range span' inclusive' h' =>
      obtain rfl : inclusive = inclusive' := by
        have hop := h.trans h'.symm
        cases inclusive <;> cases inclusive' <;> first | rfl | exact absurd hop (by decide)
      change Expr.range .zero _ _ _ = Expr.range .zero _ _ _
      rw [hleft, hright]

/-! ### One tree for each row of tokens -/

theorem InOrder.ne_nil (h : e.InOrder ks) : ks ≠ [] := by
  cases h <;> simp

/-- No operator of a tree binds less tightly than the tree does. -/
theorem InOrder.level_le (h : e.InOrder ks) (hg : e.Grouped) (hop : .operator op ∈ ks) : e.level ≤ op.precedence := by
  induction h with
  | name span n => simp at hop
  | @node root left right e ks ks' hnode hl hr ihl ihr =>
    obtain ⟨hleft, hright, hgl, hgr⟩ := hnode.grouped_iff.1 hg
    obtain ⟨hle, hle'⟩ := precedence_le_operandLevels root
    rw [hnode.level_eq]
    rcases List.mem_append.1 hop with hop | hop
    · have := ihl hgl hop
      omega
    · rcases List.mem_cons.1 hop with hroot | hop
      · exact Nat.le_of_eq (congrArg Operator.precedence (TokenKind.operator.inj hroot).symm)
      · have := ihr hgr hop
        omega

/-- The root of one tree cannot stand to the left of the root of another that shows the same tokens. -/
theorem not_root_before {ks₁ ks₂ ks₁' ks₂' mid : List TokenKind} (hop : op.fixity = .between)
    (hright : right.InOrder ks₂) (hgr : right.Grouped) (hle : (operandLevels op).2 ≤ right.level)
    (hleft : left'.InOrder ks₁') (hgl : left'.Grouped) (hle' : (operandLevels op').1 ≤ left'.level)
    (h₁ : ks₁' = ks₁ ++ .operator op :: mid) (h₂ : ks₂ = mid ++ .operator op' :: ks₂') : False := by
  refine not_crossed hop (Nat.le_trans hle (hright.level_le hgr ?_)) (Nat.le_trans hle' (hleft.level_le hgl ?_))
  · rw [h₂]
    simp
  · rw [h₁]
    simp

/-- Two trees that show the same tokens have their roots in the same place. -/
theorem roots_meet {ks₁ ks₂ ks₁' ks₂' : List TokenKind} (hnode : IsNode op left right e) (hg : e.Grouped)
    (hl : left.InOrder ks₁) (hr : right.InOrder ks₂) (hnode' : IsNode op' left' right' e') (hg' : e'.Grouped)
    (hl' : left'.InOrder ks₁') (hr' : right'.InOrder ks₂')
    (hks : ks₁ ++ .operator op :: ks₂ = ks₁' ++ .operator op' :: ks₂') : ks₁ = ks₁' ∧ op = op' ∧ ks₂ = ks₂' := by
  obtain ⟨hle, hri, hgl, hgr⟩ := hnode.grouped_iff.1 hg
  obtain ⟨hle', hri', hgl', hgr'⟩ := hnode'.grouped_iff.1 hg'
  have hmeet {a b : Operator} {ks ks' : List TokenKind} (h : TokenKind.operator a :: ks = .operator b :: ks') :
      a = b ∧ ks = ks' := ⟨TokenKind.operator.inj (List.cons.inj h).1, (List.cons.inj h).2⟩
  rcases List.append_eq_append_iff.1 hks with ⟨mid, h₁, h₂⟩ | ⟨mid, h₁, h₂⟩
  · cases mid with
    | nil =>
      rw [List.append_nil] at h₁
      exact ⟨h₁.symm, hmeet h₂⟩
    | cons k mid =>
      obtain ⟨rfl, hmid⟩ := List.cons.inj h₂
      exact (not_root_before hnode.between hr hgr hri hl' hgl' hle' h₁ hmid).elim
  · cases mid with
    | nil =>
      rw [List.append_nil] at h₁
      exact ⟨h₁, hmeet h₂.symm⟩
    | cons k mid =>
      obtain ⟨rfl, hmid⟩ := List.cons.inj h₂
      exact (not_root_before hnode'.between hr' hgr' hri' hl hgl hle h₁ hmid).elim

/-- A name is not what a tree with an operator shows. -/
theorem InOrder.not_name {ks₁ ks₂ : List TokenKind} {n : String} (h : left.InOrder ks₁) :
    [TokenKind.ident n] ≠ ks₁ ++ .operator op :: ks₂ := by
  intro hks
  have hpos := List.length_pos_iff.2 h.ne_nil
  have hlength := congrArg List.length hks
  simp only [List.length_append, List.length_cons, List.length_nil] at hlength
  omega

/-- A row of tokens is shown by one tree that is grouped as its operators demand. -/
theorem InOrder.unique (h : e.InOrder ks) (h' : e'.InOrder ks) (hg : e.Grouped) (hg' : e'.Grouped) :
    SameExpr e e' := by
  induction h generalizing e' with
  | name span n =>
    generalize hks : [TokenKind.ident n] = ks at h'
    cases h' with
    | name span' n' =>
      obtain rfl : n = n' := by simpa using hks
      rfl
    | node _ hl' _ => exact absurd hks hl'.not_name
  | node hnode hl hr ihl ihr =>
    generalize hks : _ ++ _ :: _ = ks at h'
    cases h' with
    | name span' n' => exact absurd hks.symm hl.not_name
    | node hnode' hl' hr' =>
      obtain ⟨rfl, rfl, rfl⟩ := roots_meet hnode hg hl hr hnode' hg' hl' hr' hks
      obtain ⟨-, -, hgl, hgr⟩ := hnode.grouped_iff.1 hg
      obtain ⟨-, -, hgl', hgr'⟩ := hnode'.grouped_iff.1 hg'
      exact hnode.same hnode' (ihl hl' hgl hgl') (ihr hr' hgr hgr')

end Expr

end ElleFrontEnd
