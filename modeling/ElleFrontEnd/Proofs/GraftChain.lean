import ElleFrontEnd.Proofs.GraftExpr

/-!
# Chains of operators in another place

Operators and casts, chains and whole expressions are read in another place as they were, which ties the levels of
nesting together (`grafts_ofRoom`).  What has been read of a chain or of a run of calls so far, with more of it to come
(`Ascends`), is all of it in a place where the source ends behind it.
-/

namespace ElleFrontEnd

open ElleFrontEnd.Parser (typeExpr Trails)

/-- Some steps of a repetition, behind which more may follow. -/
inductive Ascends {α : Type} (step : α → Parser (Option α)) : α → ParseState → α → ParseState → Prop
  | refl {a : α} {s : ParseState} : Ascends step a s a s
  | next {a a₁ a' : α} {s s₁ s' : ParseState} : (step a).run s = (.ok (some a₁), s₁) → Ascends step a₁ s₁ a' s' →
    Ascends step a s a' s'

namespace Ascends

variable {α : Type} {step : α → Parser (Option α)} {a a' : α} {s s₁ s' : ParseState}

theorem grows (h : Ascends step a s a' s₁) (hstop : (step a').run s₁ = (.ok none, s')) : Grows step a s a' s' := by
  induction h with
  | refl => exact .stop hstop
  | next h _ ih => exact .next h (ih hstop)

theorem of_grows (h : Grows step a s a' s') : ∃ s₁, Ascends step a s a' s₁ ∧ (step a').run s₁ = (.ok none, s') := by
  induction h with
  | stop h => exact ⟨_, .refl, h⟩
  | next h _ ih =>
    obtain ⟨s₁, hc, hstop⟩ := ih
    exact ⟨s₁, .next h hc, hstop⟩

theorem advances (hs : ∀ a s, Advances s (step a s).2) (h : Ascends step a s a' s') : Advances s s' := by
  induction h with
  | refl => exact .refl _
  | next h _ ih => exact (Parser.advances_run (hs _) h).trans ih

theorem trail (hs : ∀ a, (step a).Trails) (h : Ascends step a s a' s') : Trail s s' := by
  induction h with
  | refl => exact .refl _
  | next h _ ih => exact (hs _ h).trans ih

end Ascends

/-- Each expression has a token at least. -/
structure Inner.Consuming (g : Inner) : Prop where
  expression : ∀ {header s e s'}, (g.expression header).run s = (.ok e, s') → s'.rest.length < s.rest.length
  chain : ∀ {header level s e s'}, (g.chain header level).run s = (.ok e, s') → s'.rest.length < s.rest.length
  unary : ∀ {header s e s'}, (g.unary header).run s = (.ok e, s') → s'.rest.length < s.rest.length

theorem ParseState.length_le_advance (s : ParseState) : s.rest.length ≤ s.advance.rest.length + 1 := by
  by_cases he : s.peek.kind = .eof
  · rw [advance_eof he]
    exact Nat.le_succ _
  · obtain ⟨us, hr⟩ := rest_of_peek he
    rw [advance_cons hr he, hr]
    exact Nat.le_refl _

namespace Parser

variable {n : Nat} {y : List Token} {s s₁ s' : ParseState} {g : Inner} {header : Bool} {limit room level : Nat}

section
variable (hg : g.Settled) (hn : g.Nesting)
include hg hn

theorem length_of_unaryBody {e : Expr} (h : (unaryBody g header).run s = (.ok e, s')) :
    s'.rest.length < s.rest.length := by
  have hpassed {k : TokenKind} (hk : s.peek.kind = k) (he : k ≠ .eof) (hle : s'.rest.length ≤ s.advance.rest.length) :
      s'.rest.length < s.rest.length := Nat.lt_of_le_of_lt hle (length_advance_lt (hk ▸ he))
  rcases (unaryBody_ok hg).1 h with ⟨op, unary, inner, hk, -, -, hi, -⟩ | ⟨hk, h⟩ | ⟨hk, h⟩ | ⟨-, -, h⟩
  · exact hpassed hk (by simp) (hn.unary header hi).length_le
  · obtain ⟨-, inner, hi, -⟩ := doubleAddress_ok.1 h
    exact hpassed hk (by simp) (hn.unary header hi).length_le
  · obtain ⟨type, s₁, inner, hc, -, hi, -⟩ := (cast?_some hg).1 h
    obtain ⟨s₂, ht, hk₂, rfl⟩ := castType_ok.1 hc
    refine hpassed hk (by simp) (Nat.le_trans (hn.unary header hi).length_le ?_)
    exact Nat.le_trans (Advances.advance s₂).length_le (hn.type 0 ht).length_le
  · obtain ⟨first, s₁, hp, hgrow⟩ := (operandExpr_ok hg).1 h
    exact Nat.lt_of_le_of_lt (Nests.grows (nests_suffixStep hg hn _) hgrow).length_le (length_of_primary hg hn hp)

theorem length_of_chainBody {e : Expr} (h : (chainBody g header level).run s = (.ok e, s')) :
    s'.rest.length < s.rest.length := by
  obtain ⟨first, s₁, hu, hgrow⟩ := (chainBody_ok hg).1 h
  exact Nat.lt_of_le_of_lt (Nests.grows (nests_chainStep hn level) hgrow).length_le (length_of_unaryBody hg hn hu)

theorem length_of_expressionBody {e : Expr} (h : (expressionBody g header).run s = (.ok e, s')) :
    s'.rest.length < s.rest.length := by
  obtain ⟨condition, s₁, hc, ⟨-, -, rfl⟩ | ⟨-, chosen, s₂, alternative, hch, -, ha, -⟩⟩ := expressionBody_ok.1 h
  · exact length_of_chainBody hg hn hc
  · have hchosen : s₂.rest.length ≤ s₁.advance.rest.length := by
      rcases consequence_ok.1 hch with ⟨-, -, rfl⟩ | ⟨-, e, -, he⟩
      · exact Nat.le_refl _
      · exact (hn.expression header he).length_le
    have := length_of_chainBody hg hn hc
    have := (hn.expression header ha).length_le
    have := (Advances.advance s₁).length_le
    have := (Advances.advance s₂).length_le
    omega

end

theorem consuming_ofRoom (limit room : Nat) : (Inner.ofRoom ⟨limit, false⟩ room).Consuming := by
  cases room with
  | zero =>
    exact
      { expression := fun h => absurd (tooDeep_ok.1 h) id
        chain := fun h => absurd (tooDeep_ok.1 h) id
        unary := fun h => absurd (tooDeep_ok.1 h) id }
  | succ room =>
    have hg := settled_ofRoom ⟨limit, false⟩ room
    have hn := nesting_ofRoom limit room
    exact ⟨length_of_expressionBody hg hn, length_of_chainBody hg hn, length_of_unaryBody hg hn⟩

section
variable (hy : Inert y) (hg : g.Settled) (hn : g.Nesting) (hG : g.type = typeExpr limit room) (ht : g.Trailing)
  (hc : g.Consuming) (hgr : g.Grafts n y)
include hg hgr

/-! ### Calls, members and subscripts -/

omit hgr in
theorem advances_suffixStep (start : Nat) (e : Expr) (s : ParseState) : Advances s (suffixStep g start e s).2 := by
  have hsame : SameExpr e e := rfl
  exact Alike.advances (fun us => Alike.suffixStep (.refl us) (hg.steady us) start start hsame) s

include hG in
theorem calls_graft {start : Nat} {e e' : Expr} (h : Ascends (suffixStep g start) e s e' s')
    (hle : n ≤ s'.rest.length) : Ascends (suffixStep g start) e (s.graft n y) e' (s'.graft n y) := by
  induction h with
  | refl => exact .refl
  | next h hrest ih =>
    have hadv := hrest.advances (advances_suffixStep hg start)
    exact .next (suffixStep_graft hg hG hgr (Nat.le_trans hle hadv.length_le) h) (ih hle)

omit hgr in
include hy in
/-- Behind the stretch, nothing follows that a call, a member or a subscript begins with. -/
theorem suffixStop_of_end {start : Nat} {e : Expr} (h : s.rest.length ≤ n) :
    (suffixStep g start e).run (s.graft n y) = (.ok none, s.graft n y) := by
  have hk := ParseState.peek_graft_of_le hy h
  refine (suffixStep_none hg).2 ⟨rfl, ?_⟩
  rcases hk with hk | hk <;> simp [hk]

include hy hn hG

theorem operand_graft {first e : Expr} (hw : EndsWithin n header s') (hp : (primary g header).run s = (.ok first, s₁))
    (h : Ascends (suffixStep g s.peek.span.start) first s₁ e s')
    (hstop : (suffixStep g s.peek.span.start e).run (s'.graft n y) = (.ok none, s'.graft n y)) :
    (operandExpr g false).run (s.graft n y) = (.ok e, s'.graft n y) := by
  have hadv := h.advances (advances_suffixStep hg _)
  have hw₁ := hw.back hadv fun _ => h.trail (trails_suffixStep hg hn hG _)
  have hlt := Nat.lt_of_le_of_lt hw₁.length_le (length_of_primary hg hn hp)
  refine (operandExpr_ok hg).2 ⟨first, s₁.graft n y, primary_graft hy hg hn hG hgr hw₁ hp, ?_⟩
  rw [ParseState.peek_graft hlt]
  exact (calls_graft hg hG hgr h hw.length_le).grows hstop

theorem operandExpr_graft {e : Expr} (hw : EndsWithin n header s') (h : (operandExpr g header).run s = (.ok e, s')) :
    (operandExpr g false).run (s.graft n y) = (.ok e, s'.graft n y) := by
  obtain ⟨first, s₁, hp, hgrow⟩ := (operandExpr_ok hg).1 h
  obtain ⟨s₂, hclimb, hstop⟩ := Ascends.of_grows hgrow
  obtain rfl := ((suffixStep_none hg).1 hstop).1
  exact operand_graft hy hg hn hG hgr hw hp hclimb (suffixStop_graft hy hg hG hw.length_le hstop)

/-! ### Operators and casts -/

include ht hc

omit ht in
theorem unaryBody_graft {e : Expr} (hw : EndsWithin n header s') (h : (unaryBody g header).run s = (.ok e, s')) :
    (unaryBody g false).run (s.graft n y) = (.ok e, s'.graft n y) := by
  have hless := length_of_unaryBody hg hn h
  have hlt := Nat.lt_of_le_of_lt hw.length_le hless
  have hlast := ParseState.last_isSome_of_lt
    (advances_run (Alike.advances fun us => Alike.unaryBody (.refl us) (hg.steady us) header) h) hless
  refine (unaryBody_ok hg).2 ?_
  rw [ParseState.peek_graft hlt, ParseState.advance_graft hlt, ParseState.spanFrom_graft hlast]
  rcases (unaryBody_ok hg).1 h with ⟨op, unary, inner, hk, hu, ho, hi, rfl⟩ | ⟨hk, h⟩ | ⟨hk, h⟩ | ⟨hcast, hop, h⟩
  · have hlt₁ := Nat.lt_of_le_of_lt hw.length_le (hc.unary hi)
    exact .inl ⟨op, unary, inner, hk, hu, by rwa [ParseState.peek_graft hlt₁], hgr.unary hw hi, rfl⟩
  · obtain ⟨ho, inner, hi, rfl⟩ := doubleAddress_ok.1 h
    have hlt₁ := Nat.lt_of_le_of_lt hw.length_le (hc.unary hi)
    refine .inr (.inl ⟨hk, doubleAddress_ok.2 ?_⟩)
    rw [ParseState.advance_graft hlt, ParseState.peek_graft hlt₁, ParseState.spanFrom_graft hlast]
    exact ⟨ho, inner, hgr.unary hw hi, rfl⟩
  · obtain ⟨type, s₁, inner, hct, ho, hi, rfl⟩ := (cast?_some hg).1 h
    obtain ⟨s₂, htype, hk₂, rfl⟩ := castType_ok.1 hct
    have hlt₃ := Nat.lt_of_le_of_lt hw.length_le (hc.unary hi)
    have hlt₂ := lt_of_passed hk₂ (by simp) (Nat.le_of_lt hlt₃)
    refine .inr (.inr (.inl ⟨hk, (cast?_some hg).2 ⟨type, s₂.advance.graft n y, inner, ?_, ?_, hgr.unary hw hi, ?_⟩⟩))
    · rw [ParseState.advance_graft hlt]
      exact castType_ok.2 ⟨s₂.graft n y, innerType_graft hG (.before hlt₂ (by simp [hk₂])) htype,
        by rwa [ParseState.peek_graft hlt₂], (ParseState.advance_graft hlt₂).symm⟩
    · rwa [ParseState.peek_graft hlt₃]
    · rw [ParseState.spanFrom_graft hlast, ParseState.peek_graft hlt]
  · have hle : n ≤ s.advance.rest.length := by
      have := ParseState.length_le_advance s
      omega
    exact .inr (.inr (.inr ⟨fun hk => noCast_graft hG hy hle hlt (hcast hk), hop,
      operandExpr_graft hy hg hn hG hgr hw h⟩))

/-! ### Chains and whole expressions -/

omit hy hg hn hG ht in
theorem chainStep_graft {level' : Nat} {left e : Expr} (hw : EndsWithin n header s') (hl : level' ≤ level)
    (h : (chainStep g header level left).run s = (.ok (some e), s')) :
    (chainStep g false level' left).run (s.graft n y) = (.ok (some e), s'.graft n y) := by
  obtain ⟨op, right, hk, hfix, hle, ho, hr, he⟩ := chainStep_some.1 h
  have hlt₁ := Nat.lt_of_le_of_lt hw.length_le (hc.chain hr)
  have hlt := lt_of_passed hk (by simp) (Nat.le_of_lt hlt₁)
  refine chainStep_some.2 ⟨op, right, by rwa [ParseState.peek_graft hlt], hfix, Nat.le_trans hl hle, ?_, ?_, he⟩
  · rwa [ParseState.advance_graft hlt, ParseState.peek_graft hlt₁]
  · rw [ParseState.advance_graft hlt]
    exact hgr.chain hw hr

omit hg hn hG ht hc hgr in
theorem chainStop_graft {e : Expr} (h : (chainStep g header level e).run s = (.ok none, s)) :
    (chainStep g false level e).run (s.graft n y) = (.ok none, s.graft n y) := by
  refine chainStep_none.2 ⟨rfl, fun op hk hfix => ?_⟩
  have hlt := peek_ne_of_graft hy hk (by simp) (by simp)
  rw [ParseState.peek_graft hlt] at hk
  exact (chainStep_none.1 h).2 op hk hfix

omit hg hn hG ht hc hgr in
/-- Behind the stretch, no operator follows. -/
theorem chainStop_of_end {e : Expr} (h : s.rest.length ≤ n) :
    (chainStep g false level e).run (s.graft n y) = (.ok none, s.graft n y) :=
  chainStep_none.2 ⟨rfl, fun _ hk _ => absurd (peek_ne_of_graft hy hk (by simp) (by simp)) (Nat.not_lt_of_le h)⟩

omit hy hg hn hG in
theorem chainSteps_graft (hadv : ∀ e s, Advances s (chainStep g header level e s).2) {level' : Nat} {e e' : Expr}
    (hw : EndsWithin n header s') (hl : level' ≤ level) (h : Ascends (chainStep g header level) e s e' s') :
    Ascends (chainStep g false level') e (s.graft n y) e' (s'.graft n y) := by
  induction h with
  | refl => exact .refl
  | next h hrest ih =>
    have hw₁ := hw.back (hrest.advances hadv) fun hheader => by
      subst hheader
      exact hrest.trail (trails_chainStep ht level)
    exact .next (chainStep_graft hc hgr hw₁ hl h) (ih hw)

omit hy hn hG ht hc hgr in
theorem advances_chainStep (header : Bool) (level : Nat) (e : Expr) (s : ParseState) :
    Advances s (chainStep g header level e s).2 := by
  have hsame : SameExpr e e := rfl
  exact Alike.advances (fun us => Alike.chainStep (.refl us) (hg.steady us) header level hsame) s

theorem chain_graft {level' : Nat} {first e : Expr} (hw : EndsWithin n header s') (hl : level' ≤ level)
    (hu : (unaryBody g header).run s = (.ok first, s₁)) (h : Ascends (chainStep g header level) first s₁ e s')
    (hstop : (chainStep g false level' e).run (s'.graft n y) = (.ok none, s'.graft n y)) :
    (chainBody g false level').run (s.graft n y) = (.ok e, s'.graft n y) := by
  have hadv := advances_chainStep hg header level
  have hw₁ := hw.back (h.advances hadv) fun hheader => by
    subst hheader
    exact h.trail (trails_chainStep ht level)
  exact (chainBody_ok hg).2 ⟨first, s₁.graft n y, unaryBody_graft hy hg hn hG hc hgr hw₁ hu,
    (chainSteps_graft ht hc hgr hadv hw hl h).grows hstop⟩

theorem chainBody_graft {e : Expr} (hw : EndsWithin n header s') (h : (chainBody g header level).run s = (.ok e, s')) :
    (chainBody g false level).run (s.graft n y) = (.ok e, s'.graft n y) := by
  obtain ⟨first, s₁, hu, hgrow⟩ := (chainBody_ok hg).1 h
  obtain ⟨s₂, hclimb, hstop⟩ := Ascends.of_grows hgrow
  obtain rfl := (chainStep_none.1 hstop).1
  exact chain_graft hy hg hn hG ht hc hgr hw (Nat.le_refl _) hu hclimb (chainStop_graft hy hstop)

theorem expressionBody_graft {e : Expr} (hw : EndsWithin n header s')
    (h : (expressionBody g header).run s = (.ok e, s')) :
    (expressionBody g false).run (s.graft n y) = (.ok e, s'.graft n y) := by
  obtain ⟨condition, s₁, hcond, ⟨hk, rfl, rfl⟩ | ⟨hk, chosen, s₂, alternative, hch, hk₂, ha, rfl⟩⟩ :=
    expressionBody_ok.1 h
  · refine expressionBody_ok.2 ⟨e, s'.graft n y, chainBody_graft hy hg hn hG ht hc hgr hw hcond, .inl ⟨?_, rfl, rfl⟩⟩
    exact peek_graft_ne hy hw.length_le hk (by simp) (by simp)
  · have hlt₃ := Nat.lt_of_le_of_lt hw.length_le (hc.expression ha)
    have htrail₂ (hheader : header = true) : Trail s₂ s' := by
      subst hheader
      exact (Trail.pass hk₂ ⟨rfl, rfl⟩).trans (ht.expression ha)
    have hadv₂ : Advances s₂ s' := (Advances.advance s₂).trans (advances_run (hg.expression header) ha)
    have hw₂ := hw.back hadv₂ htrail₂
    have hlt₂ := lt_of_passed hk₂ (by simp) (Nat.le_of_lt hlt₃)
    have hchosen : (consequence g false).run (s₁.advance.graft n y) = (.ok chosen, s₂.graft n y) ∧
        (header = true → Trail s₁.advance s₂) ∧ Advances s₁.advance s₂ := by
      rcases consequence_ok.1 hch with ⟨hcolon, rfl, rfl⟩ | ⟨hcolon, e, rfl, he⟩
      · exact ⟨consequence_ok.2 (.inl ⟨by rwa [ParseState.peek_graft hlt₂], rfl, rfl⟩), fun _ => .refl _, .refl _⟩
      · refine ⟨consequence_ok.2 (.inr ⟨?_, e, rfl, hgr.expression hw₂ he⟩), fun hheader => ?_,
          advances_run (hg.expression header) he⟩
        · exact peek_graft_ne hy (Nat.le_trans hw₂.length_le (Nat.le_of_lt (hc.expression he))) hcolon (by simp) (by simp)
        · subst hheader
          exact ht.expression he
    obtain ⟨hconsequence, htrail₁, hadv₁⟩ := hchosen
    have hw₁ : EndsWithin n header s₁ := (hw₂.back hadv₁ htrail₁).back (.advance s₁) fun _ => .pass hk ⟨rfl, rfl⟩
    have hlt₁ := lt_of_passed hk (by simp) (Nat.le_trans hw₂.length_le hadv₁.length_le)
    refine expressionBody_ok.2 ⟨condition, s₁.graft n y, chainBody_graft hy hg hn hG ht hc hgr hw₁ hcond,
      .inr ⟨by rwa [ParseState.peek_graft hlt₁], chosen, s₂.graft n y, alternative, ?_,
        by rwa [ParseState.peek_graft hlt₂], ?_, rfl⟩⟩
    · rw [ParseState.advance_graft hlt₁]
      exact hconsequence
    · rw [ParseState.advance_graft hlt₂]
      exact hgr.expression hw ha

end

/-- At every level of nesting, what is read is read in another place as well. -/
theorem grafts_ofRoom (hy : Inert y) (limit room : Nat) : (Inner.ofRoom ⟨limit, false⟩ room).Grafts n y := by
  induction room with
  | zero =>
    exact
      { expression := fun _ h => absurd (tooDeep_ok.1 h) id
        chain := fun _ h => absurd (tooDeep_ok.1 h) id
        unary := fun _ h => absurd (tooDeep_ok.1 h) id
        block := fun _ h => absurd (tooDeep_ok.1 h) id }
  | succ room ih =>
    have hg := settled_ofRoom ⟨limit, false⟩ room
    have hn := nesting_ofRoom limit room
    have hG := Inner.ofRoom_type ⟨limit, false⟩ room
    have ht := trailing_ofRoom limit room
    have hc := consuming_ofRoom limit room
    exact
      { expression := expressionBody_graft hy hg hn hG ht hc ih
        chain := chainBody_graft hy hg hn hG ht hc ih
        unary := unaryBody_graft hy hg hn hG hc ih
        block := fun hle h => graft_blockBody hle h }

end Parser

end ElleFrontEnd
