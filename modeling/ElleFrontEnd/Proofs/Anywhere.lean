import ElleFrontEnd.Proofs.Excerpt
import ElleFrontEnd.Proofs.Fresh
import ElleFrontEnd.Proofs.Levels
import ElleFrontEnd.Proofs.StretchProgram

/-!
# Readings that hold anywhere

An expression is read from its tokens in the same way whatever was read before them, and wherever in a source they
stand.
-/

namespace ElleFrontEnd

namespace Parser

variable {α β : Type} {s s' : ParseState} {g : Inner}

namespace Starts

theorem tooDeep (limit : Nat) : Starts (Parser.tooDeep limit : Parser α) := by
  intro s t hs
  refine .inr ⟨_, rfl, ?_⟩
  unfold run Parser.tooDeep
  rw [peek_last hs]

theorem noType : Starts (Parser.noType : Parser α) := by
  intro s t hs
  refine .inr ⟨_, rfl, ?_⟩
  unfold run Parser.noType
  rw [peek_last hs]

theorem noExpression : Starts (Parser.noExpression : Parser α) := by
  intro s t hs
  refine .inr ⟨_, rfl, ?_⟩
  unfold run Parser.noExpression
  rw [peek_last hs]

theorem identifier : Starts Parser.identifier := by
  intro s t hs
  unfold run Parser.identifier unexpected
  rw [peek_last hs, advance_last hs]
  split
  · exact .inl rfl
  · exact .inr ⟨_, rfl, rfl⟩

end Starts

theorem Unaware.nextStart : Unaware Parser.nextStart := look fun s t hs => by rw [peek_last hs]

theorem Starts.typeExpr (limit room angles : Nat) : Starts (Parser.typeExpr limit room angles) := by
  cases room with
  | zero => exact .tooDeep limit
  | succ room =>
    refine Unaware.nextStart.starts fun start => Starts.bind (Unaware.nextKind.starts fun kind => ?_)
    split
    · exact Starts.skip.bind
    · exact Starts.skip.bind
    · exact Starts.skip.bind
    · exact .noType

theorem Starts.operandExpr (g : Inner) (header : Bool) : Starts (Parser.operandExpr g header) := by
  refine Unaware.nextStart.starts fun start => Starts.bind ?_
  refine Unaware.nextStart.starts fun start => Unaware.nextKind.starts fun kind => ?_
  split
  case h_6 => exact (Starts.expect _ _).bind
  case h_7 => exact Unaware.nextStart.starts fun _ => Starts.identifier.bind
  case h_9 => exact (Starts.expect _ _).bind
  case h_10 => exact (Starts.expect _ _).bind
  case h_11 => exact (Starts.expect _ _).bind
  case h_12 => exact .noExpression
  all_goals exact Starts.skip.bind

/-- What is read does not depend on the token read last. -/
def Restarts (p : Parser α) : Prop := ∀ {s a s'} (t : Option Token), s.peek.kind ≠ .eof → p.run s = (.ok a, s') →
  p.run { s with last := t } = (.ok a, s')

theorem Starts.restarts {p : Parser α} (h : Starts p) : Restarts p := by
  intro s a s' t hs hr
  rcases h s t hs with heq | ⟨e, he, -⟩
  · rw [heq, hr]
  · cases he.symm.trans hr

theorem Restarts.bind {p : Parser α} {f : α → Parser β} (h : Restarts p) : Restarts (p >>= f) := by
  intro s b s' t hs hr
  obtain ⟨a, s₁, ha, hb⟩ := bind_ok.1 hr
  exact bind_ok.2 ⟨a, s₁, h t hs ha, hb⟩

theorem Restarts.unaryBody (hg : g.Settled) (header : Bool) : Restarts (Parser.unaryBody g header) := by
  intro s e s' t hs h
  have hcast (u : ParseState) : (Parser.cast? g header).run s = (.ok (some e), u) ↔
      (Parser.cast? g header).run { s with last := t } = (.ok (some e), u) := by
    rw [cast?_some hg, cast?_some hg, peek_last hs t, advance_last hs t]
  rw [unaryBody_ok hg] at h ⊢
  rw [peek_last hs t, advance_last hs t]
  rcases h with h | ⟨hk, h⟩ | ⟨hk, h⟩ | ⟨hc, hk, h⟩
  · exact .inl h
  · refine .inr (.inl ⟨hk, ?_⟩)
    rw [doubleAddress_ok] at h ⊢
    rwa [advance_last hs t]
  · exact .inr (.inr (.inl ⟨hk, (hcast _).1 h⟩))
  · refine .inr (.inr (.inr ⟨fun hp => ?_, hk, (Starts.operandExpr g header).restarts t hs h⟩))
    have := hc hp
    unfold NoCast at this ⊢
    rwa [advance_last hs t]

theorem Restarts.expressionBody (hg : g.Settled) (header : Bool) : Restarts (Parser.expressionBody g header) :=
  Restarts.bind (Restarts.bind (Restarts.unaryBody hg header))

theorem Restarts.unary (limit room : Nat) : Restarts ((Inner.ofRoom ⟨limit, false⟩ room).unary false) := by
  cases room with
  | zero => exact (Starts.tooDeep limit).restarts
  | succ room => exact unaryBody (settled_ofRoom _ room) false

theorem Restarts.expression (limit room : Nat) : Restarts ((Inner.ofRoom ⟨limit, false⟩ room).expression false) := by
  cases room with
  | zero => exact (Starts.tooDeep limit).restarts
  | succ room => exact expressionBody (settled_ofRoom _ room) false

end Parser

/-! ### Some lexemes in any place -/

/-- The tokens of lexemes, and those of the lexemes behind them. -/
theorem tokens_placed_append (place : Place) (cuts rest : List Cut) :
    ∃ front, (placed place (cuts ++ rest)).tokens =
        front ++ (placed (place.after (cuts.flatMap Cut.taken)) rest).tokens ∧
      front.map Token.kind = cuts.filterMap (·.lexeme.token) := by
  obtain ⟨front, e, -, htokens, hplaced⟩ := placed_append place cuts rest
  refine ⟨front, by rw [hplaced], ?_⟩
  have hkinds := kinds_placed place cuts
  rw [htokens, List.map_append] at hkinds
  exact (List.append_inj' hkinds rfl).1

/-- Wherever some lexemes stand before others, and whatever was read before them, the parser reads of their tokens what
is as `R` tells. -/
def ReadsCuts {α : Type} (p : Parser α) (cuts rest : List Cut) (R : α → Prop) : Prop :=
  ∀ place last, ∃ a last', p.run { last, rest := (placed place (cuts ++ rest)).tokens } =
    (.ok a, { last := last', rest := (placed (place.after (cuts.flatMap Cut.taken)) rest).tokens }) ∧ R a

/-- What is read at one place is read at all, up to stretches. -/
theorem ReadsCuts.of_run {α : Type} {R : α → α → Prop} {p : Parser α} (hp : Parser.Restarts p)
    (halike : ∀ ts us, SameLayout ts us → Alike ts us R p p) {cuts rest : List Cut} {place : Place} {s s' : ParseState}
    {a : α} (hs : s.peek.kind ≠ .eof) (hrest : s.rest = (placed place (cuts ++ rest)).tokens) (ho : s.owed = 0)
    (he : s.errors = []) (h : p.run s = (.ok a, s'))
    (hend : s'.rest = (placed (place.after (cuts.flatMap Cut.taken)) rest).tokens) (ho' : s'.owed = 0)
    (he' : s'.errors = []) : ReadsCuts p cuts rest (R a) := by
  intro place' last'
  have hlayout := sameLayout_placed place place' (cuts ++ rest)
  obtain ⟨front, htokens, hfront⟩ := tokens_placed_append place cuts rest
  obtain ⟨front', htokens', hfront'⟩ := tokens_placed_append place' cuts rest
  have hlength : front'.length = front.length := by
    simpa using congrArg List.length (hfront'.trans hfront.symm)
  have hfresh : p.run { rest := (placed place (cuts ++ rest)).tokens } = (.ok a, s') := by
    have := hp none hs h
    rwa [hrest, ho, he] at this
  have hstart : Twin _ _ { rest := (placed place (cuts ++ rest)).tokens }
      { rest := (placed place' (cuts ++ rest)).tokens } :=
    ⟨0, ⟨Nat.zero_le _, rfl, rfl⟩, ⟨Nat.zero_le _, rfl, rfl⟩, rfl, .nil⟩
  have hpair := halike _ _ hlayout _ _ hstart
  change Paired _ _ _ R (p.run _) (p.run _) at hpair
  rw [hfresh] at hpair
  generalize hrun : p.run { rest := (placed place' (cuts ++ rest)).tokens } = y at hpair
  cases hpair with
  | @ok _ a' _ u' value there moved =>
    obtain ⟨n, hn⟩ := there
    have hfirst : ({ rest := (placed place' (cuts ++ rest)).tokens } : ParseState).peek.kind ≠ .eof := by
      rw [← hstart.kind hlayout]
      obtain ⟨ts, hr⟩ := ParseState.rest_of_peek hs
      rwa [ParseState.peek_cons (hrest.symm.trans hr)]
    have hrest' : u'.rest = (placed (place'.after (cuts.flatMap Cut.taken)) rest).tokens := by
      have hleft := hn.left.rest
      have hbound := hn.left.bound
      rw [hend, htokens] at hleft
      rw [htokens, List.length_append] at hbound
      have hlen := congrArg List.length hleft
      rw [List.length_drop, List.length_append] at hlen
      rw [hn.right.rest, htokens']
      obtain rfl : n = front'.length := by omega
      exact List.drop_left
    have hclean : u'.errors = [] := by
      have := hn.errors
      rw [he'] at this
      exact List.forall₂_nil_left_iff.1 this
    have hu' : u' = { last := u'.last, rest := (placed (place'.after (cuts.flatMap Cut.taken)) rest).tokens } := by
      rw [← hrest', ← hclean, ← (hn.owed ▸ ho' : u'.owed = 0)]
    exact ⟨a', u'.last, (hp last' hfirst hrun).trans (by rw [← hu']), value⟩

/-! ### Stretches of a source -/

/-- Only the last token of a source is its end. -/
theorem kind_ne_eof_of_before {source : String} {before after : List Token} (h : (lex source).tokens = before ++ after)
    (ha : after ≠ []) : ∀ t ∈ before, t.kind ≠ .eof := by
  obtain ⟨front, last, rfl⟩ := (List.eq_nil_or_concat' after).resolve_left ha
  obtain ⟨ts, e, htokens, -, -, hts⟩ := (tokensLaid_lex source).ended
  rw [h, ← List.append_assoc] at htokens
  obtain rfl := (List.append_inj' htokens rfl).1
  exact fun t ht => (hts t (List.mem_append_left _ ht)).1

variable {source : String} {span : Span} {used : List Token} {s s' : ParseState}

theorem Stretch.tokens_eq (h : Stretch (lex source).tokens span used s s') :
    ∃ before, (lex source).tokens = before ++ (used ++ s'.rest) := by
  obtain ⟨n, hn⟩ := h.along.stands
  exact ⟨(lex source).tokens.take n, by rw [← h.passes.rest, hn.rest, List.take_append_drop]⟩

/-- What a stretch covers is an excerpt of the source. -/
theorem Stretch.excerpt (herrors : (lex source).errors = []) (h : Stretch (lex source).tokens span used s s') :
    ∃ part place cuts, span.Holds source.toList part ∧ IsExcerpt part used place cuts := by
  obtain ⟨before, htokens⟩ := h.tokens_eq
  obtain ⟨first, tail, rfl⟩ := List.exists_cons_of_ne_nil h.ne_nil
  obtain ⟨last, hlast⟩ : ∃ last, (first :: tail).getLast? = some last := by simp [List.getLast?_cons]
  have hbefore := kind_ne_eof_of_before htokens (by simp)
  obtain ⟨part, place, cuts, hholds, hpart⟩ := exists_excerpt herrors htokens
    (fun t ht => (List.mem_append.1 ht).elim (hbefore t) (h.passes.noEof t)) rfl hlast
  refine ⟨part, place, cuts, ?_, hpart⟩
  have hstop : s'.readStop = last.span.stop := by
    rw [ParseState.readStop, h.passes.last, hlast]
    rfl
  rw [h.span, ParseState.spanFrom, hstop, ParseState.start, ParseState.peek_cons h.passes.rest]
  exact hholds

/-- What is read of a stretch before the tokens of some lexemes is read of its lexemes before those anywhere. -/
theorem Stretch.readsCuts {α : Type} {R : α → α → Prop} {p : Parser α} {a : α} {place : Place} {cuts rest : List Cut}
    (h : Stretch (lex source).tokens span used s s') (ho : s'.owed = 0) (he : s'.errors = [])
    (htokens : (placed place (cuts ++ rest)).tokens =
      used ++ (placed (place.after (cuts.flatMap Cut.taken)) rest).tokens) (hp : Parser.Restarts p)
    (halike : ∀ ts us, SameLayout ts us → Alike ts us R p p)
    (hrun : p.run (s.graft s'.rest.length (placed (place.after (cuts.flatMap Cut.taken)) rest).tokens) =
      (.ok a, s'.graft s'.rest.length (placed (place.after (cuts.flatMap Cut.taken)) rest).tokens)) :
    ReadsCuts p cuts rest (R a) := by
  have hgraft : (s.graft s'.rest.length (placed (place.after (cuts.flatMap Cut.taken)) rest).tokens).rest =
      (placed place (cuts ++ rest)).tokens := by
    rw [ParseState.graft_rest_append h.passes.rest (Nat.le_refl _), htokens]
    simp
  refine .of_run hp halike ?_ hgraft h.owed h.along.clean hrun ?_ ho he
  · obtain ⟨first, tail, rfl⟩ := List.exists_cons_of_ne_nil h.ne_nil
    have hlt : s'.rest.length < s.rest.length := by
      rw [h.passes.rest, List.length_append, List.length_cons]
      omega
    rw [ParseState.peek_graft hlt, ParseState.peek_cons h.passes.rest]
    exact h.passes.noEof first List.mem_cons_self
  · exact ParseState.graft_rest_of_le (Nat.le_refl _)

/-- The lexemes of an excerpt yield its tokens, whatever follows. -/
theorem IsExcerpt.tokens_eq {part : List Char} {place : Place} {cuts : List Cut} (h : IsExcerpt part used place cuts)
    (rest : List Cut) : (placed place (cuts ++ rest)).tokens =
      used ++ (placed (place.after (cuts.flatMap Cut.taken)) rest).tokens := by
  rw [h.tokens, h.taken]

end ElleFrontEnd
