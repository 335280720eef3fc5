import ElleFrontEnd.Proofs.TypeNesting
import Mathlib.Data.List.Chain

/-!
# What is read in the header of a statement

In a header no struct literal is read, so that the brace behind a name opens the body of the statement.  The only brace
that is passed there, other than within brackets, is that of a lambda (`Trail`).  So a brace that could open the fields
of a struct literal is not passed at all: no lambda stands before it, since there is none in type arguments
(`FieldsAhead.along`).
-/

namespace ElleFrontEnd

open ElleFrontEnd.Parser (TypeWalk typeExpr typeArgs closeAngle structTypeArgs atBody)

/-- The mark of a lambda: an `fn` with parameters behind it. -/
def ParseState.atLambda (s : ParseState) : Prop :=
  s.peek.kind = .keyword .fn ∧ s.advance.peek.kind = .punctuation .lParen

/-- From `s` to `s'`, single tokens, groups in parentheses or brackets, and whatever a lambda holds are passed. -/
inductive Trail : ParseState → ParseState → Prop
  | refl (s : ParseState) : Trail s s
  | owe {s s' : ParseState} (n : Nat) : Trail { s with owed := n } s' → Trail s s'
  | token {s s' : ParseState} : TokenKind.brackets.IsPlain s.peek.kind → Trail s.advance s' → Trail s s'
  | group {s s₁ s' : ParseState} {opener closer : Punctuation} : s.peek.kind = .punctuation opener →
    opener.closing? = some closer → opener ≠ .lBrace → Nested s.advance s₁ → s₁.peek.kind = .punctuation closer →
    Trail s₁.advance s' → Trail s s'
  | lambda {s s' : ParseState} : s.atLambda → Trail s s'

namespace Trail

variable {s s₁ s' : ParseState}

theorem trans (h : Trail s s₁) (h' : Trail s₁ s') : Trail s s' := by
  induction h with
  | refl => exact h'
  | owe n _ ih => exact .owe n (ih h')
  | token hk _ ih => exact .token hk (ih h')
  | group hk hc hb hn hk' _ ih => exact .group hk hc hb hn hk' (ih h')
  | lambda h => exact .lambda h

theorem pass {kind : TokenKind} (hk : s.peek.kind = kind) (h : TokenKind.brackets.IsPlain kind) : Trail s s.advance :=
  .token (hk ▸ h) (.refl _)

/-- A group in parentheses or brackets. -/
theorem wrap {opener closer : Punctuation} (hk : s.peek.kind = .punctuation opener) (hc : opener.closing? = some closer)
    (hb : opener ≠ .lBrace) (hn : Nested s.advance s₁) (hk' : s₁.peek.kind = .punctuation closer) :
    Trail s s₁.advance :=
  .group hk hc hb hn hk' (.refl _)

end Trail

/-- The two kinds do not make the mark of a lambda. -/
def NoMark (k l : TokenKind) : Prop := ¬ (k = .keyword .fn ∧ l = .punctuation .lParen)

/-- Behind a stretch in which all groups are closed and no lambda begins, a brace is to come that is not one of the last
`n` tokens. -/
def FieldsAhead (n : Nat) (s : ParseState) : Prop :=
  ∃ mid brace z, s.rest = mid ++ brace :: z ∧ n ≤ z.length ∧ brace.kind = .punctuation .lBrace ∧
    TokenKind.brackets.Balanced (mid.map Token.kind) ∧ (mid.map Token.kind).IsChain NoMark

namespace FieldsAhead

variable {n : Nat} {s s₁ s' : ParseState}

theorem length_lt (h : FieldsAhead n s) : n < s.rest.length := by
  obtain ⟨mid, brace, z, hr, hn, -⟩ := h
  rw [hr, List.length_append, List.length_cons]
  omega

/-- A balanced stretch is passed up to the brace, if it does not go on beyond that. -/
theorem pass {used : List Token} (h : FieldsAhead n s) (hp : Passes s used s₁)
    (hb : TokenKind.brackets.Balanced (used.map Token.kind))
    (hno : ∀ mid brace w, used = mid ++ brace :: w → TokenKind.brackets.Balanced (mid.map Token.kind) →
      brace.kind ≠ .punctuation .lBrace) : FieldsAhead n s₁ := by
  obtain ⟨mid, brace, z, hr, hn, hk, hmid, hchain⟩ := h
  have hrest := hp.rest.symm.trans hr
  rcases List.append_eq_append_iff.1 hrest with ⟨mid', rfl, hz⟩ | ⟨w, rfl, hz⟩
  · rw [List.map_append] at hmid hchain
    have hnests := Brackets.nests_iff.2 hmid
    rw [Brackets.nests_append hb] at hnests
    exact ⟨mid', brace, z, hz, hn, hk, Brackets.nests_iff.1 hnests, (List.isChain_append.1 hchain).2.1⟩
  · cases w with
    | nil => exact ⟨[], brace, z, hz.symm, hn, hk, .nil, .nil⟩
    | cons t w =>
      obtain ⟨rfl, -⟩ := List.cons.inj hz
      exact absurd hk (hno mid brace w rfl hmid)

theorem token (h : FieldsAhead n s) (hk : TokenKind.brackets.IsPlain s.peek.kind) : FieldsAhead n s.advance := by
  by_cases he : s.peek.kind = .eof
  · rwa [ParseState.advance_eof he]
  refine h.pass (Passes.advance he) (.single hk) fun mid brace w hused _ hb => ?_
  cases mid with
  | nil =>
    obtain ⟨rfl, -⟩ := List.cons.inj hused
    rw [hb] at hk
    exact absurd hk.1 (by simp [TokenKind.brackets, Punctuation.closing?])
  | cons t mid =>
    have := congrArg List.length hused
    simp at this

theorem group {opener closer : Punctuation} (h : FieldsAhead n s) (hk : s.peek.kind = .punctuation opener)
    (hc : opener.closing? = some closer) (hb : opener ≠ .lBrace) (hn : Nested s.advance s₁)
    (hk' : s₁.peek.kind = .punctuation closer) : FieldsAhead n s₁.advance := by
  obtain ⟨used, hp, hbal⟩ := hn
  have hopen := Passes.advance (s := s) (by simp [hk])
  have hclose := Passes.advance (s := s₁) (by simp [hk'])
  have hpair : TokenKind.brackets.closer? (.punctuation opener) = some (.punctuation closer) := by
    simp [TokenKind.brackets, hc]
  refine h.pass ((hopen.trans hp).trans hclose) (by simpa [hk, hk'] using hbal.wrap hpair) ?_
  intro mid brace w hused hmid hbrace
  rw [List.append_assoc, List.singleton_append] at hused
  cases mid with
  | nil =>
    obtain ⟨rfl, -⟩ := List.cons.inj hused
    rw [hk] at hbrace
    exact hb (by simpa using hbrace)
  | cons t mid =>
    -- the stretch before the brace would close the group too early
    rw [List.cons_append] at hused
    obtain ⟨rfl, htail⟩ := List.cons.inj hused
    rw [List.map_cons, hk] at hmid
    rw [← List.nil_append (_ :: _)] at hmid
    refine Brackets.not_prefix_of_opened hpair hmid hbal ?_
    have hlen : mid.length ≤ used.length := by
      have := congrArg List.length htail
      simp only [List.length_append, List.length_cons, List.length_nil] at this
      omega
    exact (List.prefix_of_prefix_length_le ⟨_, htail.symm⟩ (List.prefix_append used _) hlen).map _

theorem not_atLambda (h : FieldsAhead n s) : ¬ s.atLambda := by
  rintro ⟨hk, hk₁⟩
  obtain ⟨mid, brace, z, hr, -, hb, -, hchain⟩ := h
  have hne : s.peek.kind ≠ .eof := by simp [hk]
  rw [← ParseState.kindAt_one hne] at hk₁
  unfold ParseState.kindAt at hk₁
  rw [hr] at hk₁
  rcases mid with _ | ⟨t, _ | ⟨u, mid⟩⟩
  · rw [ParseState.peek_cons hr, hb] at hk
    cases hk
  · have hk₁ : brace.kind = .punctuation .lParen := by simpa using hk₁
    rw [hb] at hk₁
    cases hk₁
  · have hk₁ : u.kind = .punctuation .lParen := by simpa using hk₁
    rw [ParseState.peek_cons hr] at hk
    rw [List.map_cons, List.map_cons, List.isChain_cons_cons] at hchain
    exact hchain.1 ⟨hk, hk₁⟩

/-- The brace is not passed. -/
theorem along (h : FieldsAhead n s) (ht : Trail s s') : FieldsAhead n s' := by
  induction ht with
  | refl => exact h
  | owe _ _ ih => exact ih h
  | token hk _ ih => exact ih (h.token hk)
  | group hk hc hb hn hk' _ ih => exact ih (h.group hk hc hb hn hk')
  | lambda hl => exact absurd hl h.not_atLambda

end FieldsAhead

/-! ### The grammar of headers -/

/-- What the parser passes are single tokens and groups. -/
def Parser.Trails {α : Type} (p : Parser α) : Prop := ∀ ⦃s a s'⦄, p.run s = (.ok a, s') → Trail s s'

/-- The parsers of what nests in a header pass single tokens and groups. -/
structure Inner.Trailing (g : Inner) : Prop where
  expression : (g.expression true).Trails
  chain : ∀ level, (g.chain true level).Trails
  unary : (g.unary true).Trails

namespace Parser

variable {limit room : Nat} {g : Inner} {s s' : ParseState}

theorem trail_walk (limit room : Nat) : TypeWalk limit room fun _ => Trail where
  token h := .pass rfl ⟨(Option.or_eq_none_iff.1 h.plain.1).2, (Bool.or_eq_false_iff.1 h.plain.2).2⟩
  brackets h := .wrap h.1 rfl (by simp) (.refl _) (by
    rw [← ParseState.kindAt_one (by simp [h.1])]
    exact h.2)
  trans _ := .trans
  args hk h hc := by
    refine .trans (.pass hk ⟨rfl, rfl⟩) (h.trans ?_)
    rcases closeAngle_ok.1 hc with ⟨-, rfl⟩ | ⟨-, hk', rfl⟩ | ⟨-, -, hk', rfl⟩
    · exact .owe _ (.refl _)
    · exact .pass hk' ⟨rfl, rfl⟩
    · exact (Trail.pass hk' ⟨rfl, rfl⟩).trans (.owe _ (.refl _))
  pair hk _ h₁ hcomma h₂ hclose _ _ := by
    have hpair := (nests_typeExpr _ _ _ h₁).trans (.pass hcomma ⟨rfl, rfl⟩ (nests_typeExpr _ _ _ h₂))
    exact .wrap hk rfl (by simp) hpair hclose

theorem trails_typeExpr (limit room angles : Nat) : (typeExpr limit room angles).Trails :=
  fun _ _ _ h => (trail_walk limit room).typeExpr (Nat.le_refl _) h

theorem trails_typeArgs (limit room angles : Nat) : (typeArgs (typeExpr limit room) angles).Trails := by
  intro s args s' h
  have w := trail_walk limit room
  obtain ⟨hk, s₁, hl, hc⟩ := (typeArgs_ok (advances_typeExpr limit room)).1 h
  have hlist : Trail s.advance s₁ :=
    @TypeWalk.listed limit room angles _ _ _ w _ _ _ (fun _ _ _ h => trails_typeExpr limit room _ h) (fun _ => id) hl
  exact @TypeWalk.args limit room _ w angles _ _ _ hk hlist hc

section
variable (hg : g.Settled) (hn : g.Nesting) (hG : g.type = typeExpr limit room) (ht : g.Trailing)
include hg hn

theorem trails_arguments : (arguments g).Trails := by
  intro s args s' h
  obtain ⟨hk, s₁, hl, hk₁, rfl⟩ := (arguments_ok hg).1 h
  exact .wrap hk rfl (by simp) ((hn.expression false).commaListed hl) hk₁

theorem trails_arrayLiteral (start : Nat) (isStatic : Bool) : (arrayLiteral g start isStatic).Trails := by
  intro s e s' h
  obtain ⟨hk, element, s₁, elements, s₂, hl, hk₂, rfl, -, htag⟩ := (arrayLiteral_ok hg).1 h
  have hlist := (hn.expression false).commaListed hl
  rcases htag with ⟨type, s₀, -, ht, hk₀, rfl⟩ | ⟨-, rfl, -⟩
  · exact .wrap hk rfl (by simp) ((hn.type 0 ht).trans (.pass hk₀ ⟨rfl, rfl⟩ hlist)) hk₂
  · exact .wrap hk rfl (by simp) hlist hk₂

theorem trails_hashExpr : (hashExpr g).Trails := by
  intro s e s' h
  obtain ⟨hk, ⟨-, ha⟩ | ⟨name, x, hk₁, -, hd, -⟩⟩ := hashExpr_ok.1 h
  · exact (Trail.pass hk ⟨rfl, rfl⟩).trans (trails_arrayLiteral hg hn _ _ ha)
  · refine (Trail.pass hk ⟨rfl, rfl⟩).trans ((Trail.pass hk₁ ⟨rfl, rfl⟩).trans ?_)
    obtain ⟨-, ⟨-, -, rfl⟩ | ⟨-, hk₂, s₁, ho, hk₃, rfl⟩⟩ := directiveOf_ok.1 hd
    · exact .refl _
    · exact .wrap hk₂ rfl (by simp) (nested_of_operands hn ho) hk₃

theorem trails_dollarExpr : (dollarExpr g).Trails := by
  intro s e s' h
  obtain ⟨hk, -, h⟩ := dollarExpr_ok.1 h
  refine (Trail.pass hk ⟨rfl, rfl⟩).trans ?_
  rcases h with ⟨hk₁, -, -, a, b, c, ha, -⟩ | ⟨-, a, b, ha, -⟩ | ⟨name, hk₁, ⟨-, -, args, ha, -⟩ | ⟨-, rfl, -⟩⟩
  · exact (Trail.pass hk₁ ⟨rfl, rfl⟩).trans (trails_arguments hg hn ha)
  · exact trails_arguments hg hn ha
  · exact (Trail.pass hk₁ ⟨rfl, rfl⟩).trans (trails_arguments hg hn ha)
  · exact .pass hk₁ ⟨rfl, rfl⟩

omit hg hn in
theorem trail_of_pathTail {names : List String} (h : PathTail s names s') : Trail s s' := by
  induction h with
  | nil _ => exact .refl _
  | cons hk hk₁ _ ih => exact (Trail.pass hk ⟨rfl, rfl⟩).trans ((Trail.pass hk₁ ⟨rfl, rfl⟩).trans ih)

omit hn in
theorem trails_lambda {header : Bool} : (lambda g header).Trails := by
  intro s e s' h
  obtain ⟨hk, params, s₁, hp, -⟩ := lambda_ok.1 h
  exact .lambda ⟨hk, ((paramList_ok hg).1 hp).1⟩

theorem trails_primary : (primary g true).Trails := by
  intro s e s' h
  rcases primary_ok.1 h with ⟨hl, rfl⟩ | ⟨-, h⟩ | ⟨-, h⟩ | ⟨hk, h⟩ | ⟨-, h⟩ | ⟨-, h⟩ | ⟨-, h⟩
  · exact .pass rfl (isPlain_of_literalOf? hl)
  · exact trails_lambda hg h
  · obtain ⟨name, hk, ⟨-, names, hp, -⟩ | ⟨-, hheader, -⟩ | ⟨-, -, rfl, -⟩⟩ := (nameExpr_ok hg).1 h
    · exact (Trail.pass hk ⟨rfl, rfl⟩).trans (trail_of_pathTail hp)
    · cases hheader
    · exact .pass hk ⟨rfl, rfl⟩
  · obtain ⟨inner, s₁, hi, hk₁, rfl, -⟩ := parenthesized_ok.1 h
    exact .wrap hk rfl (by simp) (hn.expression false hi) hk₁
  · exact trails_arrayLiteral hg hn _ _ h
  · exact trails_hashExpr hg hn h
  · exact trails_dollarExpr hg hn h

include hG

theorem trails_suffixStep (start : Nat) (e : Expr) : (suffixStep g start e).Trails := by
  intro s o s' h
  cases o with
  | none => exact ((suffixStep_none hg).1 h).1 ▸ .refl _
  | some e' =>
    rcases (suffixStep_some hg).1 h with ⟨-, args, ha, -⟩ | ⟨-, -, -, generics, s₁, args, hc, ha, -⟩ |
      ⟨hk, name, hk₁, rfl, -⟩ | ⟨hk, index, s₁, hi, hk₁, rfl, -⟩
    · exact trails_arguments hg hn ha
    · have htypes := (callTypeArgs_ok.1 hc).1
      rw [hG] at htypes
      exact (trails_typeArgs limit room 0 htypes).trans (trails_arguments hg hn ha)
    · exact (Trail.pass hk ⟨rfl, rfl⟩).trans (.pass hk₁ ⟨rfl, rfl⟩)
    · exact .wrap hk rfl (by simp) (hn.expression false hi) hk₁

omit hg hn hG in
theorem Trails.grows {α : Type} {step : α → Parser (Option α)} (hs : ∀ a, (step a).Trails) {a a' : α}
    (h : Grows step a s a' s') : Trail s s' := by
  induction h with
  | stop h => exact hs _ h
  | next h _ ih => exact (hs _ h).trans ih

include ht

theorem trails_unaryBody : (unaryBody g true).Trails := by
  intro s e s' h
  rcases (unaryBody_ok hg).1 h with ⟨op, unary, inner, hk, -, -, hi, -⟩ | ⟨hk, h⟩ | ⟨hk, h⟩ | ⟨-, -, h⟩
  · exact (Trail.pass hk ⟨rfl, rfl⟩).trans (ht.unary hi)
  · obtain ⟨-, inner, hi, -⟩ := doubleAddress_ok.1 h
    exact (Trail.pass hk ⟨rfl, rfl⟩).trans (ht.unary hi)
  · obtain ⟨type, s₁, inner, hc, -, hi, -⟩ := (cast?_some hg).1 h
    obtain ⟨s₂, htype, hk₂, rfl⟩ := castType_ok.1 hc
    exact (Trail.wrap hk rfl (by simp) (hn.type 0 htype) hk₂).trans (ht.unary hi)
  · obtain ⟨first, s₁, hp, hgrow⟩ := (operandExpr_ok hg).1 h
    exact (trails_primary hg hn hp).trans (Trails.grows (trails_suffixStep hg hn hG _) hgrow)

omit hg hn hG in
theorem trails_chainStep (level : Nat) (left : Expr) : (chainStep g true level left).Trails := by
  intro s o s' h
  cases o with
  | none => exact (chainStep_none.1 h).1 ▸ .refl _
  | some e =>
    obtain ⟨op, right, hk, -, -, -, hr, -⟩ := chainStep_some.1 h
    exact (Trail.pass hk ⟨rfl, rfl⟩).trans (ht.chain _ hr)

theorem trails_chainBody (level : Nat) : (chainBody g true level).Trails := by
  intro s e s' h
  obtain ⟨first, s₁, hu, hgrow⟩ := (chainBody_ok hg).1 h
  exact (trails_unaryBody hg hn hG ht hu).trans (Trails.grows (trails_chainStep ht level) hgrow)

theorem trails_expressionBody : (expressionBody g true).Trails := by
  intro s e s' h
  obtain ⟨condition, s₁, hc, ⟨-, -, rfl⟩ | ⟨hk, chosen, s₂, alternative, hch, hk₂, ha, -⟩⟩ := expressionBody_ok.1 h
  · exact trails_chainBody hg hn hG ht 1 hc
  · have hchosen : Trail s₁.advance s₂ := by
      rcases consequence_ok.1 hch with ⟨-, -, rfl⟩ | ⟨-, e, -, he⟩
      · exact .refl _
      · exact ht.expression he
    have hrest := hchosen.trans ((Trail.pass hk₂ ⟨rfl, rfl⟩).trans (ht.expression ha))
    exact (trails_chainBody hg hn hG ht 1 hc).trans ((Trail.pass hk ⟨rfl, rfl⟩).trans hrest)

end

theorem trailing_ofRoom (limit room : Nat) : (Inner.ofRoom ⟨limit, false⟩ room).Trailing := by
  have hdeep {α : Type} : (tooDeep limit : Parser α).Trails := fun _ _ _ h => absurd (tooDeep_ok.1 h) id
  induction room with
  | zero => exact ⟨hdeep, fun _ => hdeep, hdeep⟩
  | succ room ih =>
    have hg := settled_ofRoom ⟨limit, false⟩ room
    have hn := nesting_ofRoom limit room
    have hG := Inner.ofRoom_type ⟨limit, false⟩ room
    exact ⟨trails_expressionBody hg hn hG ih, fun level => trails_chainBody hg hn hG ih level,
      trails_unaryBody hg hn hG ih⟩

/-! ### Type arguments hold no lambda -/

/-- From `s` to `s'`, no mark of a lambda is passed. -/
def Unmarked (s s' : ParseState) : Prop :=
  ∃ used, Passes s used s' ∧ (used.map Token.kind).IsChain NoMark

namespace Unmarked

variable {s s₁ s' : ParseState} {k : TokenKind}

theorem refl (s : ParseState) : Unmarked s s := ⟨[], .refl s, .nil⟩

/-- A token that stands in no such mark keeps what is before it apart from what is behind. -/
theorem across (h : Unmarked s s₁) (hk : s₁.peek.kind = k) (hfn : k ≠ .keyword .fn) (hp : k ≠ .punctuation .lParen)
    (he : k ≠ .eof) (h' : Unmarked s₁.advance s') : Unmarked s s' := by
  obtain ⟨used, hu, hc⟩ := h
  obtain ⟨used', hu', hc'⟩ := h'
  refine ⟨used ++ ([s₁.peek] ++ used'), hu.trans ((Passes.advance (hk ▸ he)).trans hu'), ?_⟩
  rw [List.map_append, List.map_append, List.map_singleton, List.singleton_append, List.isChain_split, hk]
  refine ⟨List.isChain_append.2 ⟨hc, .singleton _, ?_⟩, ?_⟩
  · rintro a - b hb ⟨-, rfl⟩
    exact hp (by simpa [eq_comm] using hb)
  · exact List.isChain_cons.2 ⟨fun b _ h => hfn h.1, hc'⟩

theorem cons (hk : s.peek.kind = k) (hfn : k ≠ .keyword .fn) (he : k ≠ .eof) (h' : Unmarked s.advance s') :
    Unmarked s s' := by
  obtain ⟨used', hu', hc'⟩ := h'
  refine ⟨[s.peek] ++ used', (Passes.advance (hk ▸ he)).trans hu', ?_⟩
  rw [List.map_append, List.map_singleton, List.singleton_append, hk]
  exact List.isChain_cons.2 ⟨fun b _ h => hfn h.1, hc'⟩

theorem snoc (h : Unmarked s s₁) (hk : s₁.peek.kind = k) (hfn : k ≠ .keyword .fn) (hp : k ≠ .punctuation .lParen)
    (he : k ≠ .eof) : Unmarked s s₁.advance := h.across hk hfn hp he (.refl _)

theorem owe (h : Unmarked s s₁) (n : Nat) : Unmarked s { s₁ with owed := n } := by
  obtain ⟨used, hu, hc⟩ := h
  exact ⟨used, ⟨hu.rest, hu.last, hu.noEof⟩, hc⟩

/-- A single token. -/
theorem single (s : ParseState) : Unmarked s s.advance := by
  by_cases he : s.peek.kind = .eof
  · rw [ParseState.advance_eof he]
    exact .refl s
  · exact ⟨_, .advance he, .singleton _⟩

end Unmarked

/-- What the parser passes holds no mark of a lambda. -/
def Unmarks {α : Type} (p : Parser α) : Prop := ∀ ⦃s a s'⦄, p.run s = (.ok a, s') → Unmarked s s'

theorem unmarked_of_stepped {p : ParseState → Prop} {move : ParseState → ParseState} {n : Nat} {s₀ : ParseState}
    (hmove : ∀ s, p s → Unmarked s₀ s → Unmarked s₀ (move s)) (hs : Unmarked s₀ s) (h : Stepped p move n s s') :
    Unmarked s₀ s' := by
  induction h with
  | stop _ => exact hs
  | next hp _ ih => exact ih (hmove _ hp hs)

theorem unmarked_of_suffixes {start : Nat} {t t' : TypeExpr} {s₀ : ParseState} (hs : Unmarked s₀ s)
    (h : Grows (typeSuffix start) t s t' s') : Unmarked s₀ s' := by
  induction h with
  | stop h => exact (typeSuffix_none.1 h).2 ▸ hs
  | next h _ ih =>
    refine ih ?_
    obtain ⟨-, ⟨-, n, hn, -⟩ | ⟨-, -, n, hn, -⟩⟩ := typeSuffix_some.1 h
    · exact unmarked_of_stepped (fun s hk hs => hs.snoc hk (by simp) (by simp) (by simp)) hs (starRun_ok.1 hn)
    · refine unmarked_of_stepped (fun s hb hs => ?_) hs (bracketRun_ok.1 hn)
      have hclose : s.advance.peek.kind = .punctuation .rBracket := by
        rw [← ParseState.kindAt_one (by simp [hb.1])]
        exact hb.2
      exact (hs.snoc hb.1 (by simp) (by simp) (by simp)).snoc hclose (by simp) (by simp) (by simp)

section
variable {type : Nat → Parser TypeExpr} {angles start : Nat} (ha : ∀ angles s, Advances s (type angles s).2)
  (ht : ∀ angles, (type angles).Unmarks)
include ha ht

omit ha in
theorem unmarked_of_types {args : List TypeExpr} (h : Listed (fun _ => False) separatesArgs (type angles) s args s') :
    Unmarked s s' := by
  induction h with
  | nil h => exact h.elim
  | last _ h _ => exact ht _ h
  | more _ h hsep _ ih => exact (ht _ h).across hsep.2 (by simp) (by simp) (by simp) ih

theorem unmarks_typeArgs : (typeArgs type angles).Unmarks := by
  intro s args s' h
  obtain ⟨hk, s₁, hl, hc⟩ := (typeArgs_ok ha).1 h
  have hlist := Unmarked.cons hk (by simp) (by simp) (unmarked_of_types ht hl)
  rcases closeAngle_ok.1 hc with ⟨-, rfl⟩ | ⟨-, hk', rfl⟩ | ⟨-, -, hk', rfl⟩
  · exact hlist.owe _
  · exact hlist.snoc hk' (by simp) (by simp) (by simp)
  · exact (hlist.snoc hk' (by simp) (by simp) (by simp)).owe _

theorem unmarks_typeBody : (typeBody type angles).Unmarks := by
  intro s t s' h
  obtain ⟨base, s₁, hb, hgrow⟩ := typeBody_ok.1 h
  refine unmarked_of_suffixes ?_ hgrow
  rcases baseType_ok.1 hb with ⟨p, hk, rfl, -⟩ | ⟨name, hk, h⟩ | ⟨hk, h⟩
  · exact .single s
  · rcases namedType_ok.1 h with ⟨-, -, args, hargs, -⟩ | ⟨-, rfl, -⟩
    · exact .cons hk (by simp) (by simp) (unmarks_typeArgs ha ht hargs)
    · exact .single s
  · obtain ⟨first, s₂, second, s₃, h₁, hcomma, h₂, hclose, rfl, -⟩ := tupleType_ok.1 h
    have hinside := (ht _ h₁).across hcomma (by simp) (by simp) (by simp) (ht _ h₂)
    exact .cons hk (by simp) (by simp) (hinside.snoc hclose (by simp) (by simp) (by simp))

end

theorem unmarks_typeExpr (limit room angles : Nat) : (typeExpr limit room angles).Unmarks := by
  induction room generalizing angles with
  | zero => exact fun _ _ _ h => absurd (tooDeep_ok.1 h) id
  | succ room ih => exact unmarks_typeBody (advances_typeExpr limit room) ih

/-- The brace that opens the fields of a struct literal is ahead right behind its name. -/
theorem fieldsAhead_of_body {n : Nat} {g : Inner} (hg : g.Settled) (hn : g.Nesting) (hG : g.type = typeExpr limit room)
    {generics : Option (List TypeExpr)} (h : (structTypeArgs g).run s = (.ok (some generics), s'))
    (hlt : n < s'.rest.length) (hb : atBody s') : FieldsAhead n s := by
  have hne : s'.peek.kind ≠ .eof := by simp [hb.1]
  obtain ⟨z, hz⟩ := ParseState.rest_of_peek hne
  have hlen : n ≤ z.length := by
    rw [hz, List.length_cons] at hlt
    omega
  rcases (structTypeArgs_some hg).1 h with ⟨-, -, args, -, hargs, -⟩ | ⟨-, -, rfl⟩
  · obtain ⟨used, hp, hbal⟩ := nests_innerTypeArgs hg hn hargs
    rw [hG] at hargs
    obtain ⟨used', hp', hchain⟩ := unmarks_typeArgs (advances_typeExpr limit room) (unmarks_typeExpr limit room) hargs
    obtain rfl := hp.unique hp'
    exact ⟨used, s'.peek, z, by rw [hp.rest, hz], hlen, hb.1, hbal, hchain⟩
  · exact ⟨[], s'.peek, z, hz, hlen, hb.1, .nil, .nil⟩

end Parser

end ElleFrontEnd
