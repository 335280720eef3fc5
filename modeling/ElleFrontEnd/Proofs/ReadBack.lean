import ElleFrontEnd.Proofs.Castless
import ElleFrontEnd.Proofs.Climbing
import ElleFrontEnd.Proofs.Needed
import ElleFrontEnd.Proofs.RecoveryProgram
import ElleFrontEnd.Proofs.RereadChain

/-!
# Reading what was built by hand

A printed operand is read by one of four parsers, after how tightly it binds: as a primary expression with calls,
members and subscripts behind it, as an operand with operators before it, as a chain of operators, or as a whole
expression.  The first and the third of these are loops, which go on behind the operand where more of the same follows
(`GoesOn`); the others end with the operand.

An expression is read back (`Expr.ReadBack`) if it is read by each of the parsers that it binds tightly enough for.
What needs parentheses where it stands is read back as well: by the first of the parsers, behind its parenthesis
(`Expr.ReadBack.enclosed`).
-/

namespace ElleFrontEnd

open Fragment

/-! ### What may follow an operand -/

/-- What may follow an expression that ends there.  Nothing goes on with it, and what it leaves open to the right is
closed. -/
structure Fragment.Trails (openRight : Bool) (f : List Fragment) : Prop where
  loose : Loose f
  paren : next f ≠ .punctuation .lParen
  dot : next f ≠ .punctuation .dot
  bracket : next f ≠ .punctuation .lBracket
  brace : next f ≠ .punctuation .lBrace
  colons : next f ≠ .punctuation .colonColon
  lt : ¬ touchesWith (.operator .lt) f
  closes : openRight = true → closes (next f) = true

/-- What may follow a primary expression, also where a call, a member or a subscript goes on with it. -/
structure Fragment.Joins (room : Nat) (e : Expr) (f : List Fragment) : Prop where
  loose : Loose f
  brace : next f ≠ .punctuation .lBrace
  colons : next f ≠ .punctuation .colonColon
  lt : touchesWith (.operator .lt) f → OpensCall room f
  sigil : (∃ span n, e = .sigil span n none) → ¬ touchesWith (.punctuation .lParen) f
  env : e.isEnv = true → next f ≠ .punctuation .lParen

/-- Whether no operator of at least a level comes next. -/
def Fragment.Below (level : Nat) (f : List Fragment) : Prop :=
  ∀ op, next f = .operator op → op.fixity = .between → op.precedence < level

namespace Fragment

variable {f : List Fragment} {openRight : Bool} {room level : Nat} {e : Expr}

theorem Trails.of_closes (h : ElleFrontEnd.closes (next f) = true) (hb : next f ≠ .punctuation .lBrace) :
    Trails openRight f := by
  have hne {k : TokenKind} (hk : ElleFrontEnd.closes k = false) : next f ≠ k := by
    rintro rfl
    simp [h] at hk
  exact ⟨loose_of_ne (hne rfl), hne rfl, hne rfl, hne rfl, hb, hne rfl, fun ht => hne (k := .operator .lt) rfl ht.2,
    fun _ => h⟩

/-- An operator between two operands may follow the one on its left. -/
theorem Trails.operator {op : Operator} (h : next f = .operator op) (hl : Loose f)
    (hlt : ¬ touchesWith (.operator .lt) f) : Trails false f := by
  refine ⟨hl, ?_, ?_, ?_, ?_, ?_, hlt, by simp⟩ <;> simp [h]

theorem Trails.question : Trails false (space :: mark .question :: f) := by
  refine ⟨loose_of_ne ?_, ?_, ?_, ?_, ?_, ?_, ?_, ?_⟩ <;> simp [touchesWith]

theorem Trails.joins (h : Trails openRight f) : Joins room e f :=
  ⟨h.loose, h.brace, h.colons, fun ht => absurd ht h.lt, fun _ ht => h.paren ht.2, fun _ => h.paren⟩

theorem Joins.of_ne (hgt : next f ≠ .operator .gt) (hbrace : next f ≠ .punctuation .lBrace)
    (hcolons : next f ≠ .punctuation .colonColon) (hlt : next f ≠ .operator .lt)
    (hparen : next f ≠ .punctuation .lParen) : Joins room e f :=
  ⟨loose_of_ne hgt, hbrace, hcolons, fun ht => absurd ht.2 hlt, fun _ ht => hparen ht.2, fun _ => hparen⟩

theorem Below.of_closes (h : ElleFrontEnd.closes (next f) = true) : Below level f := by
  intro op hk
  simp [hk, ElleFrontEnd.closes] at h

theorem Below.question : Below level (space :: mark .question :: f) := by
  intro op hk
  simp at hk

theorem Below.mono (h : Below level f) {level' : Nat} (hle : level ≤ level') : Below level' f :=
  fun op hk hfix => Nat.lt_of_lt_of_le (h op hk hfix) hle

/-- No operator between operands binds as tightly as one before an operand. -/
theorem Below.leading : Below leadingLevel f := fun op _ _ => op.precedence_lt

end Fragment

/-! ### Levels of operands -/

theorem Expr.needsGroup_eq_false {e : Expr} {level : Nat} {openRight : Bool} :
    e.needsGroup level openRight = false ↔ level ≤ e.level ∧ (e.endsInBody = true → openRight = true) := by
  simp [needsGroup]

/-- The lowest level that the last operand of a chain may have: what follows it must bind less tightly. -/
def Expr.tail : Expr → Nat
  | .binary _ _ op _ => (operandLevels op.operator).2
  | .range _ _ _ inclusive => (operandLevels (rangeOperator inclusive)).2
  | _ => leadingLevel

theorem operandLevels_fst_ge (op : Operator) : op.precedence ≤ (operandLevels op).1 := by
  cases op <;> decide

theorem operandLevels_snd_ge (op : Operator) : op.precedence ≤ (operandLevels op).2 := by
  cases op <;> decide

/-- Where a chain ends before `f`, so does an operand in it. -/
theorem Fragment.Below.tail {level : Nat} {f : List Fragment} {e : Expr} (h : Below level f) (hle : level ≤ e.level) :
    Below e.tail f := by
  cases e with
  | binary _ _ op _ => exact h.mono (Nat.le_trans hle (operandLevels_snd_ge op.operator))
  | range _ _ _ inclusive => exact h.mono (Nat.le_trans hle (operandLevels_snd_ge (rangeOperator inclusive)))
  | _ => exact .leading

/-- What may stand on the left of an operator has ended before it. -/
theorem Operator.precedence_lt_snd {op left : Operator} (h : (operandLevels op).1 ≤ left.precedence) :
    op.precedence < (operandLevels left).2 := by
  revert h
  cases op <;> cases left <;> decide

theorem Expr.precedence_lt_tail {op : Operator} {e : Expr} (h : (operandLevels op).1 ≤ e.level) :
    op.precedence < e.tail := by
  cases e with
  | binary _ _ left _ => exact Operator.precedence_lt_snd h
  | range _ _ _ inclusive => exact Operator.precedence_lt_snd h
  | _ => exact op.precedence_lt

/-! ### What is read of a tree -/

/-- An expression that was read goes with the one that was printed, but for nodes for parentheses. -/
def Expr.Regrouped (e e' : Expr) : Prop := SameExpr e e'.ungrouped

/-- What was read of an operand goes with it, and may be called with type arguments if the operand may. -/
structure Expr.Recalled (e e' : Expr) : Prop where
  regrouped : e.Regrouped e'
  takes : e.takesGenerics = true → e'.takesGenerics = true

/-- What may be called with type arguments is not put in parentheses for that. -/
theorem Expr.needsGroup_of_takesGenerics {e : Expr} (h : e.takesGenerics = true) :
    e.needsGroup trailingLevel false = false := by
  cases e with
  | ident | qualified | member => rfl
  | _ => simp [takesGenerics] at h

theorem Expr.Castless.of_trailing {e : Expr} {openRight behind : Bool} (h : e.Castless openRight behind)
    (hlevel : trailingLevel ≤ e.level) (openRight' behind' : Bool) : e.Castless openRight' behind' := by
  cases e with
  | binary _ _ op _ => exact absurd hlevel (Nat.not_le_of_lt (Nat.lt_succ_of_lt op.operator.precedence_lt))
  | range _ _ _ inclusive =>
    exact absurd hlevel (Nat.not_le_of_lt (Nat.lt_succ_of_lt (rangeOperator inclusive).precedence_lt))
  | unary | cast | lambda | conditional => simp [level, leadingLevel, conditionalLevel, trailingLevel] at hlevel
  | _ => exact h

namespace Parser

variable {α : Type} {p : Parser α} {step : α → Parser (Option α)} {P Q : α → Prop} {u : ParseState}
  {f f' : List Fragment}

/-- What the parser reads, up to `f`, is as `P` tells. -/
def ReadsAs (p : Parser α) (P : α → Prop) (u : ParseState) (f : List Fragment) : Prop :=
  ∃ a u', p.run u = (.ok a, u') ∧ P a ∧ Clear u' f

/-- What the parser and rounds of `step` behind it have read, up to `f`, is as `P` tells, and the loop may go on. -/
def GoesOn (p : Parser α) (step : α → Parser (Option α)) (P : α → Prop) (u : ParseState) (f : List Fragment) : Prop :=
  ∃ first s₁ a u', p.run u = (.ok first, s₁) ∧ P a ∧ Clear u' f ∧
    ∀ {a' u''}, Grows step a u' a' u'' → Grows step first s₁ a' u''

namespace GoesOn

theorem of_readsAs (h : ReadsAs p P u f) : GoesOn p step P u f := by
  obtain ⟨a, u', hrun, ha, hc⟩ := h
  exact ⟨a, u', a, u', hrun, ha, hc, id⟩

theorem mono (h : GoesOn p step P u f) (hP : ∀ a, P a → Q a) : GoesOn p step Q u f := by
  obtain ⟨first, s₁, a, u', hrun, ha, hc, hgo⟩ := h
  exact ⟨first, s₁, a, u', hrun, hP a ha, hc, hgo⟩

/-- One more round. -/
theorem next (h : GoesOn p step P u f) (hstep : ∀ {a u₁}, P a → Clear u₁ f →
    ∃ a' u', (step a).run u₁ = (.ok (some a'), u') ∧ Q a' ∧ Clear u' f') : GoesOn p step Q u f' := by
  obtain ⟨first, s₁, a, u₁, hrun, ha, hc, hgo⟩ := h
  obtain ⟨a', u', hnext, hQ, hc'⟩ := hstep ha hc
  exact ⟨first, s₁, a', u', hrun, hQ, hc', fun hrest => hgo (.next hnext hrest)⟩

/-- No more rounds. -/
theorem stop (h : GoesOn p step P u f)
    (hstop : ∀ {a u'}, P a → Clear u' f → (step a).run u' = (.ok none, u')) :
    ∃ first s₁ a u', p.run u = (.ok first, s₁) ∧ Grows step first s₁ a u' ∧ P a ∧ Clear u' f := by
  obtain ⟨first, s₁, a, u', hrun, ha, hc, hgo⟩ := h
  exact ⟨first, s₁, a, u', hrun, hgo (.stop (hstop ha hc)), ha, hc⟩

end GoesOn

variable {G : Inner} {R S : Expr → Prop} {openRight : Bool} {level : Nat}

/-- A primary expression with calls, members and subscripts behind it is read up to `f`, and no operator or cast stands
before it. -/
structure ReadsSuffixed (G : Inner) (R : Expr → Prop) (u : ParseState) (f : List Fragment) : Prop where
  noCast : u.peek.kind = .punctuation .lParen → NoCast G u
  noOperator : ∀ op, u.peek.kind ≠ .operator op
  goesOn : GoesOn (primary G false) (suffixStep G u.peek.span.start) R u f

/-- A chain of operators of at least a level is read up to `f`, where it may go on. -/
abbrev ReadsChain (G : Inner) (level : Nat) (R : Expr → Prop) (u : ParseState) (f : List Fragment) : Prop :=
  GoesOn (unaryBody G false) (chainStep G false level) R u f

namespace ReadsSuffixed

theorem of_primary (hp : u.peek.kind ≠ .punctuation .lParen) (ho : ∀ op, u.peek.kind ≠ .operator op)
    (h : ReadsAs (primary G false) R u f) : ReadsSuffixed G R u f :=
  ⟨fun hk => absurd hk hp, ho, .of_readsAs h⟩

theorem mono (h : ReadsSuffixed G R u f) (hR : ∀ e, R e → S e) : ReadsSuffixed G S u f :=
  ⟨h.noCast, h.noOperator, h.goesOn.mono hR⟩

/-- One more call, member or subscript. -/
theorem next (h : ReadsSuffixed G R u f) (hstep : ∀ {start e u₁}, R e → Clear u₁ f →
    ∃ e' u', (suffixStep G start e).run u₁ = (.ok (some e'), u') ∧ S e' ∧ Clear u' f') : ReadsSuffixed G S u f' :=
  ⟨h.noCast, h.noOperator, h.goesOn.next hstep⟩

/-- Where no more calls, members and subscripts follow, the operand has ended. -/
theorem unary (hg : G.Settled) (h : ReadsSuffixed G R u f) (hf : Trails openRight f) :
    ReadsAs (unaryBody G false) R u f := by
  obtain ⟨first, s₁, e, u', hrun, hgrow, hR, hc⟩ := h.goesOn.stop fun {e u'} _ hc => by
    have hpeek : u'.peek.kind = Fragment.next f := hc.fragments.peek_of_loose hc.owed hf.loose
    refine (suffixStep_none hg).2 ⟨rfl, ?_, ?_, ?_, fun hk ha => absurd ⟨hk, ha⟩ (hc.fragments.not_lt hc.owed hf.lt)⟩
    · exact hpeek ▸ hf.paren
    · exact hpeek ▸ hf.dot
    · exact hpeek ▸ hf.bracket
  exact ⟨e, u', (unaryBody_ok hg).2 (.inr (.inr (.inr ⟨h.noCast, fun op hk => absurd hk (h.noOperator op),
    (operandExpr_ok hg).2 ⟨first, s₁, hrun, hgrow⟩⟩))), hR, hc⟩

end ReadsSuffixed

/-- Where no operator of the level follows, a chain has ended. -/
theorem ReadsChain.readsAs (hg : G.Settled) (h : ReadsChain G level R u f) (hl : Loose f) (hf : Below level f) :
    ReadsAs (chainBody G false level) R u f := by
  obtain ⟨first, s₁, e, u', hrun, hgrow, hR, hc⟩ := GoesOn.stop h fun {e u'} _ hc => by
    have hpeek : u'.peek.kind = Fragment.next f := hc.fragments.peek_of_loose hc.owed hl
    exact chainStep_none.2 ⟨rfl, fun op hk => hf op (hpeek ▸ hk)⟩
  exact ⟨e, u', (chainBody_ok hg).2 ⟨first, s₁, hrun, hgrow⟩, hR, hc⟩

/-- A chain of operators is a whole expression, where nothing goes on with it. -/
theorem ReadsChain.expression (hg : G.Settled) (h : ReadsChain G 1 R u f) (hf : closes (Fragment.next f) = true) :
    ReadsAs (expressionBody G false) R u f := by
  have hne {k : TokenKind} (hk : closes k = false) : Fragment.next f ≠ k := by
    rintro rfl
    simp [hf] at hk
  have hl : Loose f := loose_of_ne (hne rfl)
  obtain ⟨e, u', hrun, hR, hc⟩ := h.readsAs hg hl (.of_closes hf)
  have hpeek : u'.peek.kind = Fragment.next f := hc.fragments.peek_of_loose hc.owed hl
  exact ⟨e, u', expressionBody_ok.2 ⟨e, u', hrun, .inl ⟨hpeek ▸ hne rfl, rfl, rfl⟩⟩, hR, hc⟩

end Parser

open ElleFrontEnd.Parser

/-! ### Expressions that are read back -/

/-- A tree fits into the room for nesting, and nothing in it is taken for a cast before `f`. -/
structure Expr.Readable (room : Nat) (openRight : Bool) (e : Expr) (f : List Fragment) : Prop where
  height_le : 2 * e.height 1 ≤ room
  castless : e.Castless openRight (opensOperand true (next f))

/-- An expression is read from its printed form by each of the parsers that it binds tightly enough for. -/
structure Expr.ReadBack (o : ParseOptions) (e : Expr) : Prop where
  handBuilt : e.HandBuilt
  lawful : e.Lawful
  suffixed : trailingLevel ≤ e.level → ∀ {room : Nat} {u : ParseState} {f : List Fragment}, e.Readable room true f →
    Joins room e f → Faces u (e.layout 0 true ++ f) → ReadsSuffixed (.ofRoom o room) e.Recalled u f
  unary : leadingLevel ≤ e.level → ∀ {room : Nat} {openRight : Bool} {u : ParseState} {f : List Fragment},
    (e.endsInBody = true → openRight = true) → e.Readable room openRight f → Trails openRight f →
    Faces u (e.layout 0 openRight ++ f) → ReadsAs (unaryBody (.ofRoom o room) false) e.Regrouped u f
  chain : ∀ {level : Nat}, 1 ≤ level → level ≤ e.level →
    ∀ {room : Nat} {openRight : Bool} {u : ParseState} {f : List Fragment},
    (e.endsInBody = true → openRight = true) → e.Readable room openRight f → Trails openRight f → Below e.tail f →
    Faces u (e.layout 0 openRight ++ f) → ReadsChain (.ofRoom o room) level e.Regrouped u f
  expression : ∀ {room : Nat} {u : ParseState} {f : List Fragment}, closes (next f) = true →
    next f ≠ .punctuation .lBrace → e.Readable room true f → Faces u (e.layout 0 true ++ f) →
    ReadsAs (expressionBody (.ofRoom o room) false) e.Regrouped u f

namespace Expr.ReadBack

variable {o : ParseOptions} {e : Expr} (hb : e.HandBuilt) (hl : e.Lawful)

/-! ### From each parser to those above it -/

include hb hl

theorem of_chain (hlevel : 1 ≤ e.level) (hlow : e.level < leadingLevel)
    (chain : ∀ {level : Nat}, 1 ≤ level → level ≤ e.level →
      ∀ {room : Nat} {openRight : Bool} {u : ParseState} {f : List Fragment},
      (e.endsInBody = true → openRight = true) → e.Readable room openRight f → Trails openRight f → Below e.tail f →
      Faces u (e.layout 0 openRight ++ f) → ReadsChain (.ofRoom o room) level e.Regrouped u f) : e.ReadBack o where
  handBuilt := hb
  lawful := hl
  suffixed h := absurd h (by unfold trailingLevel; unfold leadingLevel at hlow; omega)
  unary h := absurd h (Nat.not_le_of_lt hlow)
  chain := chain
  expression hf hbrace hs hu :=
    (chain (Nat.le_refl _) hlevel (fun _ => rfl) hs (.of_closes hf hbrace) (.of_closes hf) hu).expression
      (settled_ofRoom o _) hf

theorem of_leading
    (suffixed : trailingLevel ≤ e.level → ∀ {room : Nat} {u : ParseState} {f : List Fragment}, e.Readable room true f →
      Joins room e f → Faces u (e.layout 0 true ++ f) → ReadsSuffixed (.ofRoom o room) e.Recalled u f)
    (unary : ∀ {room : Nat} {openRight : Bool} {u : ParseState} {f : List Fragment},
      (e.endsInBody = true → openRight = true) → e.Readable room openRight f → Trails openRight f →
      Faces u (e.layout 0 openRight ++ f) → ReadsAs (unaryBody (.ofRoom o room) false) e.Regrouped u f) :
    e.ReadBack o where
  handBuilt := hb
  lawful := hl
  suffixed := suffixed
  unary _ := unary
  chain _ _ _ _ _ _ hbody hs hf _ hu := .of_readsAs (unary hbody hs hf hu)
  expression hf hbrace hs hu :=
    ReadsChain.expression (settled_ofRoom o _)
      (.of_readsAs (unary (fun _ => rfl) hs (.of_closes hf hbrace) hu)) hf

theorem of_unary (hlow : e.level < trailingLevel)
    (unary : ∀ {room : Nat} {openRight : Bool} {u : ParseState} {f : List Fragment},
      (e.endsInBody = true → openRight = true) → e.Readable room openRight f → Trails openRight f →
      Faces u (e.layout 0 openRight ++ f) → ReadsAs (unaryBody (.ofRoom o room) false) e.Regrouped u f) :
    e.ReadBack o :=
  of_leading hb hl (fun h => absurd h (Nat.not_le_of_lt hlow)) unary

theorem of_suffixed (hlevel : trailingLevel ≤ e.level)
    (suffixed : ∀ {room : Nat} {u : ParseState} {f : List Fragment}, e.Readable room true f → Joins room e f →
      Faces u (e.layout 0 true ++ f) → ReadsSuffixed (.ofRoom o room) e.Recalled u f) : e.ReadBack o :=
  of_leading hb hl (fun _ => suffixed) fun {room openRight u f} _ hs hf hu => by
    rw [layout_of_closed 0 openRight e (closed_of_trailing hlevel)] at hu
    exact ((suffixed ⟨hs.height_le, hs.castless.of_trailing hlevel _ _⟩ hf.joins hu).mono fun _ h => h.regrouped).unary
      (settled_ofRoom o room) hf

/-! ### Operands with parentheses and without -/

omit hb hl
variable (h : e.ReadBack o) {room level : Nat} {openRight : Bool} {u : ParseState} {f : List Fragment}
include h

theorem inside (hroom : 2 * e.height 1 ≤ room) (hc : e.Castless true false) :
    ReadsInside (.ofRoom o (room + 1)) 0 Expr.Regrouped e where
  opens := (e.heads 0 h.handBuilt h.lawful true).opens
  reads hf hbrace hu := h.expression hf hbrace ⟨hroom, by rwa [opensOperand_of_closes hf]⟩ hu

/-- An operand in parentheses is read, unless they are taken for those of a cast. -/
theorem enclosed (hroom : 2 * e.height 1 + 1 ≤ room) (hc : e.Castless true false)
    (hcast : opensOperand true (next f) = true → ¬ LooksLikeType (e.layout 0 true))
    (hu : Faces u (parens (e.layout 0 true) ++ f)) : ReadsSuffixed (.ofRoom o room) e.Regrouped u f := by
  obtain ⟨room, rfl⟩ : ∃ r, room = r + 1 := ⟨room - 1, by omega⟩
  obtain ⟨hk, span, e', u', hrun, hR, hc'⟩ :=
    shows_parenthesized u.peek.span.start (h.inside (Nat.le_of_succ_le_succ hroom) hc) hu
  refine ⟨fun _ => ?_, by simp [hk], .of_readsAs ⟨_, u', primary_ok.2 (.inr (.inr (.inr (.inl ⟨hk, hrun⟩)))), hR, hc'⟩⟩
  rw [parens, List.cons_append, List.cons_append, List.append_assoc] at hu
  exact noCast_of_head (Inner.ofRoom_type o _) h.handBuilt h.lawful (by omega) hcast hu.mark.2.faces

/-- An operand is read as a primary expression where it needs parentheses, and is printed as it is elsewhere. -/
theorem grouped_cases (hroom : 2 * e.height 1 + 1 ≤ room)
    (hin : castlessOperand level openRight (opensOperand true (next f)) e fun o b => e.Castless o b)
    (hu : Faces u (grouped level openRight e (fun o => e.layout 0 o) ++ f)) :
    e.needsGroup level openRight = true ∧ ReadsSuffixed (.ofRoom o room) e.Regrouped u f ∨
      level ≤ e.level ∧ (e.endsInBody = true → openRight = true) ∧ e.Readable room openRight f ∧
        Faces u (e.layout 0 openRight ++ f) := by
  unfold castlessOperand at hin
  unfold grouped at hu
  split at hin
  · rename_i hneeds
    rw [if_pos hneeds] at hu
    exact .inl ⟨hneeds, h.enclosed hroom hin.1 hin.2 hu⟩
  · rename_i hneeds
    rw [if_neg hneeds] at hu
    obtain ⟨hlevel, hbody⟩ := needsGroup_eq_false.1 (by simpa using hneeds)
    exact .inr ⟨hlevel, hbody, ⟨by omega, hin⟩, hu⟩

/-- The operand of a call, a member or a subscript. -/
theorem callee (hroom : 2 * e.height 1 + 1 ≤ room)
    (hin : castlessOperand trailingLevel false (opensOperand true (next f)) e fun o b => e.Castless o b)
    (hf : Joins room e f) (hu : Faces u (grouped trailingLevel false e (fun o => e.layout 0 o) ++ f)) :
    ReadsSuffixed (.ofRoom o room) e.Recalled u f := by
  rcases h.grouped_cases hroom hin hu with ⟨hneeds, hread⟩ | ⟨hlevel, -, hs, hu⟩
  · refine hread.mono fun e' he => ⟨he, fun htake => absurd hneeds ?_⟩
    rw [needsGroup_of_takesGenerics htake]
    exact Bool.false_ne_true
  · rw [layout_of_closed 0 false e (closed_of_trailing hlevel)] at hu
    exact h.suffixed hlevel ⟨hs.height_le, hs.castless.of_trailing hlevel _ _⟩ hf hu

/-- The operand of an operator before it, or of a cast. -/
theorem leading (hroom : 2 * e.height 1 + 1 ≤ room)
    (hin : castlessOperand leadingLevel openRight (opensOperand true (next f)) e fun o b => e.Castless o b)
    (hf : Trails openRight f) (hu : Faces u (grouped leadingLevel openRight e (fun o => e.layout 0 o) ++ f)) :
    ReadsAs (unaryBody (.ofRoom o room) false) e.Regrouped u f := by
  rcases h.grouped_cases hroom hin hu with ⟨-, hread⟩ | ⟨hlevel, hbody, hs, hu⟩
  · exact hread.unary (settled_ofRoom o room) hf
  · exact h.unary hlevel hbody hs hf hu

/-- An operand in a chain of operators of at least a level. -/
theorem chained {least : Nat} (hpos : 1 ≤ least) (hle : least ≤ level) (hroom : 2 * e.height 1 + 1 ≤ room)
    (hin : castlessOperand level openRight (opensOperand true (next f)) e fun o b => e.Castless o b)
    (hf : Trails openRight f) (hbelow : level ≤ e.level → Below e.tail f)
    (hu : Faces u (grouped level openRight e (fun o => e.layout 0 o) ++ f)) :
    ReadsChain (.ofRoom o room) least e.Regrouped u f := by
  rcases h.grouped_cases hroom hin hu with ⟨-, hread⟩ | ⟨hlevel, hbody, hs, hu⟩
  · exact .of_readsAs (hread.unary (settled_ofRoom o room) hf)
  · exact h.chain hpos (Nat.le_trans hle hlevel) hbody hs hf (hbelow hlevel) hu

end Expr.ReadBack

end ElleFrontEnd
