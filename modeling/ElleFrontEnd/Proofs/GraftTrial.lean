import ElleFrontEnd.Proofs.Graft
import ElleFrontEnd.Proofs.Nesting
import ElleFrontEnd.Proofs.TieExpr

/-!
# Trials in another place

What fails on trial has to fail in another place as well.  So the argument is turned round: what succeeds with other
tokens behind the stretch, and ends within it, succeeds with the old ones (`run_of_graft`).  Types end within it, or
where it ends, since they pass no semicolon (`within_of_typeExpr`).
-/

namespace ElleFrontEnd

open ElleFrontEnd.Parser (typeExpr typeArgs structTypeArgs callTypeArgs castType elementTag)

/-! ### Types pass no semicolon -/

/-- A state beside itself, as long as the last tokens are those of `y`. -/
def Tie.upTo {y : List Token} (hy : Inert y) : Tie where
  rel s t := s = t ∧ y <:+ s.rest
  gone s := ¬ y <:+ s.rest
  near := by
    rintro s _ ⟨rfl, -⟩
    rfl
  gap := by
    rintro s _ s' _ ⟨rfl, -⟩ ⟨rfl, -⟩
    exact Nat.add_comm _ _
  within := by
    rintro s _ ⟨rfl, used, hr⟩ hk
    refine ⟨rfl, ?_⟩
    by_cases he : s.peek.kind = .eof
    · rw [ParseState.advance_eof he]
      exact ⟨used, hr⟩
    obtain ⟨us, hus⟩ := ParseState.rest_of_peek he
    rw [ParseState.advance_cons hus he]
    cases used with
    | nil =>
      -- the semicolon comes next, or the end of the source
      have hnext := hy s.peek (by rw [show y = s.rest from hr, hus]; rfl)
      rcases hnext with hnext | hnext
      · rw [hnext] at hk
        cases hk
      · exact absurd hnext he
    | cons t used =>
      rw [hus, List.cons_append] at hr
      exact ⟨used, (List.cons.inj hr).2⟩
  advance := by
    rintro s _ ⟨rfl, -⟩
    by_cases h : y <:+ s.advance.rest
    · exact .inl ⟨rfl, h⟩
    · exact .inr h
  rewind := by
    rintro s _ s' _ ⟨rfl, h⟩ ⟨rfl, -⟩
    exact ⟨rfl, h⟩
  record := by
    rintro s _ e ⟨rfl, h⟩
    exact ⟨rfl, h⟩
  next := by
    rintro s _ ⟨rfl, -⟩
    by_cases h : y <:+ (Parser.toNextStatement s).rest
    · exact .inl ⟨rfl, h⟩
    · exact .inr h
  gone_of_advances := by
    rintro s s' hs ⟨⟨used, hu⟩, -⟩ h
    exact hs (h.trans ⟨used, hu.rest.symm⟩)

theorem Tie.owing_upTo {y : List Token} (hy : Inert y) : (Tie.upTo hy).Owing := by
  rintro s _ n ⟨rfl, h⟩
  exact ⟨rfl, h⟩

namespace ParseState

variable {n : Nat} {y us x : List Token} {s t : ParseState}

/-- The tokens that another graft has put aside can be put back. -/
theorem graft_graft :
    (s.graft n y).graft y.length (s.rest.drop (s.rest.length - n)) = s := by
  unfold graft
  dsimp only
  rw [List.length_append, Nat.add_sub_cancel, List.take_left' rfl, List.take_append_drop]

end ParseState

namespace Parser

variable {n : Nat} {y : List Token} {s s' t t' : ParseState}

/-- What is read with other tokens behind the stretch, and ends within it, is read with the old ones. -/
theorem run_of_graft {α : Type} {p : Parser α} {a : α} (hadv : ∀ s, Advances s (p s).2)
    (hp : ∀ {n y s a s'}, n < s'.rest.length → s'.peek.kind ≠ .punctuation .lBracket → p.run s = (.ok a, s') →
      p.run (s.graft n y) = (.ok a, s'.graft n y)) (hn : n ≤ s.rest.length)
    (h : p.run (s.graft n y) = (.ok a, t')) (hlt : y.length < t'.rest.length)
    (hk : t'.peek.kind ≠ .punctuation .lBracket) :
    ∃ s', t' = s'.graft n y ∧ n < s'.rest.length ∧ p.run s = (.ok a, s') := by
  have hback := hp (n := y.length) (y := s.rest.drop (s.rest.length - n)) hlt hk h
  rw [ParseState.graft_graft] at hback
  refine ⟨_, ?_, ?_, hback⟩
  · obtain ⟨⟨used, hu⟩, -⟩ := advances_run hadv h
    obtain ⟨vs, hvs⟩ : ∃ vs, t'.rest = vs ++ y := by
      have hrest : s.rest.take (s.rest.length - n) ++ y = used ++ t'.rest := hu.rest
      rcases List.append_eq_append_iff.1 hrest with ⟨vs, -, hy⟩ | ⟨vs, -, ht⟩
      · rw [hy, List.length_append] at hlt
        omega
      · exact ⟨vs, ht⟩
    obtain ⟨last, rest, owed, errors⟩ := t'
    obtain rfl : rest = vs ++ y := hvs
    simp [ParseState.graft, show s.rest.length - (s.rest.length - n) = n by omega]
  · unfold ParseState.graft
    simp only [List.length_append, List.length_take, List.length_drop]
    omega

theorem within_of_typeExpr {limit room angles : Nat} {type : TypeExpr} (hy : Inert y)
    (h : (typeExpr limit room angles).run t = (.ok type, t')) (ht : y <:+ t.rest) : y <:+ t'.rest := by
  have hends := (Tie.Runs.typeExpr (Tie.Runs.closeAngle (Tie.owing_upTo hy)) limit room angles).ends t t ⟨rfl, ht⟩
    trivial
  rw [show typeExpr limit room angles t = (.ok type, t') from h] at hends
  cases hends with
  | same hrel => exact hrel.2
  | gone hm => exact hm.elim

theorem within_of_typeArgs {limit room angles : Nat} {args : List TypeExpr} (hy : Inert y)
    (h : (typeArgs (typeExpr limit room) angles).run t = (.ok args, t')) (ht : y <:+ t.rest) : y <:+ t'.rest := by
  have hclose := Tie.Runs.closeAngle (Tie.owing_upTo hy)
  have hends := (Tie.Runs.typeArgs hclose (Tie.Runs.typeExpr hclose limit room) angles).ends t t ⟨rfl, ht⟩ trivial
  rw [show typeArgs (typeExpr limit room) angles t = (.ok args, t') from h] at hends
  cases hends with
  | same hrel => exact hrel.2
  | gone hm => exact hm.elim

/-- What comes next is no end, so that something is left of the stretch. -/
theorem length_lt_of_suffix (hy : Inert y) (h : y <:+ t.rest) (hk : t.peek.kind ≠ .punctuation .semicolon)
    (he : t.peek.kind ≠ .eof) : y.length < t.rest.length := by
  obtain ⟨us, hr⟩ := h
  cases us with
  | nil =>
    obtain ⟨ts, hts⟩ := ParseState.rest_of_peek he
    rcases hy t.peek (by rw [show y = t.rest from hr, hts]; rfl) with hnext | hnext
    · exact absurd hnext hk
    · exact absurd hnext he
  | cons u us =>
    rw [← hr, List.cons_append, List.length_cons, List.length_append]
    omega

theorem suffix_graft : y <:+ (s.graft n y).rest := ⟨_, rfl⟩

section
variable {g : Inner} {limit room : Nat} (hG : g.type = typeExpr limit room) (hy : Inert y)
include hG hy

/-- A type that is read in another place is read in the old one, where a token follows that does not go on with it. -/
theorem type_of_graft {angles : Nat} {type : TypeExpr} (hn : n ≤ s.rest.length)
    (h : (g.type angles).run (s.graft n y) = (.ok type, t')) (hk : t'.peek.kind ≠ .punctuation .semicolon)
    (he : t'.peek.kind ≠ .eof) (hb : t'.peek.kind ≠ .punctuation .lBracket) :
    ∃ s', t' = s'.graft n y ∧ n < s'.rest.length ∧ (g.type angles).run s = (.ok type, s') := by
  rw [hG] at h ⊢
  have hlt := length_lt_of_suffix hy (within_of_typeExpr hy h suffix_graft) hk he
  exact run_of_graft (advances_typeExpr limit room angles) (fun hlt hk h => graft_typeExpr (.before hlt hk) h)
    hn h hlt hb

theorem typeArgs_of_graft {args : List TypeExpr} (hn : n ≤ s.rest.length)
    (h : (typeArgs g.type 0).run (s.graft n y) = (.ok args, t')) (hk : t'.peek.kind ≠ .punctuation .semicolon)
    (he : t'.peek.kind ≠ .eof) (hb : t'.peek.kind ≠ .punctuation .lBracket) :
    ∃ s', t' = s'.graft n y ∧ n < s'.rest.length ∧ (typeArgs g.type 0).run s = (.ok args, s') := by
  rw [hG] at h ⊢
  have hlt := length_lt_of_suffix hy (within_of_typeArgs hy h suffix_graft) hk he
  refine run_of_graft (Alike.advances fun us => Alike.typeArgs (.refl us)
    (fun a => Alike.typeExpr (.refl us) limit room a) 0) (fun hlt hk h => ?_) hn h hlt hb
  exact typeArgs_graft (advances_typeExpr limit room) (fun _ _ _ _ hcalm h => graft_typeExpr hcalm h) h
    (Nat.le_of_lt hlt) (.inl hlt)

end

/-! ### What fails on trial -/

theorem peek_ne_of_graft (hy : Inert y) {k : TokenKind} (h : (s.graft n y).peek.kind = k)
    (hk : k ≠ .punctuation .semicolon) (he : k ≠ .eof) : n < s.rest.length := by
  by_contra hn
  rcases ParseState.peek_graft_of_le hy (Nat.le_of_not_lt hn) with h' | h' <;> rw [h] at h'
  · exact hk h'
  · exact he h'

theorem kindAt_graft_end (hy : Inert y) {i : Nat} (h : s.rest.length = n + i) :
    (s.graft n y).kindAt i = .punctuation .semicolon ∨ (s.graft n y).kindAt i = .eof := by
  have hk : (s.graft n y).kindAt i = (y.head?.map Token.kind).getD .eof := by
    unfold ParseState.kindAt ParseState.graft
    dsimp only
    rw [List.getElem?_append_right (by rw [List.length_take]; omega), List.length_take,
      show i - min (s.rest.length - n) s.rest.length = 0 by omega, List.head?_eq_getElem?]
  rw [hk]
  cases hhead : y.head? with
  | none => exact .inr rfl
  | some t => exact hy t hhead

theorem atBody_of_graft (hy : Inert y) (h : atBody (s.graft n y)) : atBody s := by
  obtain ⟨hk, hbody⟩ := h
  have hlt := peek_ne_of_graft hy hk (by simp) (by simp)
  -- what is seen behind the brace lies within the stretch as well
  have hone : n + 1 < s.rest.length := by
    by_contra hn
    rcases kindAt_graft_end hy (show s.rest.length = n + 1 by omega) with h | h <;>
      simp [h, TokenKind.ident?] at hbody
  rw [ParseState.peek_graft hlt] at hk
  rw [ParseState.kindAt_graft hone] at hbody
  rcases hbody with hclose | ⟨hname, heq⟩
  · exact ⟨hk, .inl hclose⟩
  refine ⟨hk, .inr ⟨hname, ?_⟩⟩
  have htwo : n + 2 < s.rest.length := by
    by_contra hn
    rcases kindAt_graft_end hy (show s.rest.length = n + 2 by omega) with h | h <;> rw [h] at heq <;> cases heq
  rwa [ParseState.kindAt_graft htwo] at heq

section
variable {g : Inner} {limit room : Nat} (hg : g.Settled) (hG : g.type = typeExpr limit room) (hy : Inert y)
include hg hG hy

omit hg in
theorem callTypeArgs_fails_graft (hn : n ≤ s.rest.length) (h : (callTypeArgs g).Fails s) :
    (callTypeArgs g).Fails (s.graft n y) := by
  rcases hrun : (callTypeArgs g).run (s.graft n y) with ⟨e | args, t'⟩
  · exact ⟨e, t', hrun⟩
  · obtain ⟨hargs, ho, hk⟩ := callTypeArgs_ok.1 hrun
    obtain ⟨s', rfl, hlt, hold⟩ := typeArgs_of_graft hG hy hn hargs (by simp [hk]) (by simp [hk]) (by simp [hk])
    have hok := callTypeArgs_ok.2 ⟨hold, ho, by rwa [← ParseState.peek_graft hlt]⟩
    obtain ⟨e, s₁, herror⟩ := h
    rw [hok] at herror
    cases herror

theorem structTypeArgs_of_graft {generics : Option (List TypeExpr)} (hn : n ≤ s.rest.length)
    (h : (structTypeArgs g).run (s.graft n y) = (.ok (some generics), t')) (hk : t'.peek.kind = .punctuation .lBrace) :
    ∃ s', t' = s'.graft n y ∧ n < s'.rest.length ∧ (structTypeArgs g).run s = (.ok (some generics), s') := by
  rcases (structTypeArgs_some hg).1 h with ⟨hopen, hadj, args, rfl, hargs, ho⟩ | ⟨hno, rfl, rfl⟩
  · have hlt := peek_ne_of_graft hy hopen (by simp) (by simp)
    obtain ⟨s', rfl, hlt', hold⟩ := typeArgs_of_graft hG hy hn hargs (by simp [hk]) (by simp [hk]) (by simp [hk])
    rw [ParseState.peek_graft hlt] at hopen
    rw [ParseState.isAdjacent_graft hlt] at hadj
    exact ⟨s', rfl, hlt', (structTypeArgs_some hg).2 (.inl ⟨hopen, hadj, args, rfl, hold, ho⟩)⟩
  · have hlt := peek_ne_of_graft hy hk (by simp) (by simp)
    rw [ParseState.peek_graft hlt, ParseState.isAdjacent_graft hlt] at hno
    exact ⟨s, rfl, hlt, (structTypeArgs_some hg).2 (.inr ⟨hno, rfl, rfl⟩)⟩

/-- What opens the fields of a struct literal in another place opens them in the old one. -/
theorem body_of_graft (hn : n ≤ s.rest.length) (h : ¬ NoBody g (s.graft n y)) :
    ∃ generics s', (structTypeArgs g).run s = (.ok (some generics), s') ∧ n < s'.rest.length ∧ atBody s' := by
  obtain ⟨o, t', hrun⟩ := structTypeArgs_total (g := g) (s.graft n y)
  cases o with
  | none => exact absurd (.inl ⟨t', hrun⟩) h
  | some generics =>
    by_cases hbody : atBody t'
    · obtain ⟨s', rfl, hlt, hold⟩ := structTypeArgs_of_graft hg hG hy hn hrun hbody.1
      exact ⟨generics, s', hold, hlt, atBody_of_graft hy hbody⟩
    · exact absurd (.inr ⟨generics, t', hrun, hbody⟩) h

theorem noBody_graft (hn : n ≤ s.rest.length) (h : NoBody g s) : NoBody g (s.graft n y) := by
  by_contra hbody
  obtain ⟨generics, s', hrun, -, hb⟩ := body_of_graft hg hG hy hn hbody
  rcases h with ⟨s₁, h⟩ | ⟨generics', s₁, h, hno⟩
  · rw [h] at hrun
    cases hrun
  · rw [h] at hrun
    cases hrun
    exact hno hb

omit hg in
theorem noCast_graft (hn : n ≤ s.advance.rest.length) (hlt : n < s.rest.length) (h : NoCast g s) :
    NoCast g (s.graft n y) := by
  unfold NoCast
  rw [ParseState.advance_graft hlt]
  rcases hrun : (castType g).run (s.advance.graft n y) with ⟨e | type, t'⟩
  · exact .inl ⟨e, t', hrun⟩
  refine .inr ⟨type, t', rfl, ?_⟩
  obtain ⟨t₁, htype, hclose, rfl⟩ := castType_ok.1 hrun
  obtain ⟨s₁, rfl, hlt, hold⟩ := type_of_graft hG hy hn htype (by simp [hclose]) (by simp [hclose]) (by simp [hclose])
  rw [ParseState.peek_graft hlt] at hclose
  rw [ParseState.advance_graft hlt]
  have hcast := castType_ok.2 ⟨s₁, hold, hclose, rfl⟩
  rcases h with ⟨e, s₂, herror⟩ | ⟨type', s₂, hcast', ho⟩
  · rw [hcast] at herror
    cases herror
  · rw [hcast] at hcast'
    cases hcast'
    by_cases hlt' : n < s₁.advance.rest.length
    · rwa [ParseState.peek_graft hlt']
    · rcases ParseState.peek_graft_of_le hy (Nat.le_of_not_lt hlt') with hk' | hk' <;> rw [hk'] <;> rfl

omit hg in
/-- No type goes from within brackets to behind them, so that none in another place does. -/
theorem elementTag_fails_graft (hn : g.Nesting) (hs : Nested s s')
    (hk : TokenKind.brackets.isCloser s'.peek.kind = true) (hle : n ≤ s'.advance.rest.length)
    (h : (elementTag g).Fails s) : (elementTag g).Fails (s.graft n y) := by
  have helement {s s' : ParseState} {type : TypeExpr} : (elementTag g).run s = (.ok type, s') ↔
      ∃ s₁, (g.type 0).run s = (.ok type, s₁) ∧ s₁.peek.kind = .punctuation .semicolon ∧ s' = s₁.advance := by
    unfold elementTag
    simp [expectMark, expect_ok]
    grind
  obtain ⟨used, hp, hb⟩ := hs
  have he : s'.peek.kind ≠ .eof := by
    intro he
    rw [he] at hk
    cases hk
  have hclose := (Passes.advance he).rest
  have hrest : s.rest = (used ++ [s'.peek]) ++ s'.advance.rest := by rw [hp.rest, hclose]; simp
  rcases hrun : (elementTag g).run (s.graft n y) with ⟨e | type, t'⟩
  · exact ⟨e, t', hrun⟩
  obtain ⟨t₁, htype, hsemi, rfl⟩ := helement.1 hrun
  have hsuffix : y <:+ t₁.rest := by
    rw [hG] at htype
    exact within_of_typeExpr hy htype suffix_graft
  by_cases hlt : y.length < t₁.rest.length
  · have hold : ∃ s₁, t₁ = s₁.graft n y ∧ n < s₁.rest.length ∧ (g.type 0).run s = (.ok type, s₁) := by
      rw [hG] at htype ⊢
      refine run_of_graft (advances_typeExpr limit room 0) (fun hlt hk h => graft_typeExpr (.before hlt hk) h)
        ?_ htype hlt
        (by simp [hsemi])
      rw [hrest, List.length_append]
      omega
    obtain ⟨s₁, rfl, hlt', hold⟩ := hold
    rw [ParseState.peek_graft hlt'] at hsemi
    obtain ⟨e, s₂, herror⟩ := h
    rw [helement.2 ⟨s₁, hold, hsemi, rfl⟩] at herror
    cases herror
  · obtain ⟨used', hp', hb'⟩ := hn.type 0 htype
    have hy' : t₁.rest = y := (hsuffix.eq_of_length (by have := hsuffix.length_le; omega)).symm
    have hused := hp'.rest
    rw [ParseState.graft_rest_append hrest hle, hy', ← List.append_assoc] at hused
    rw [← List.append_cancel_right hused, List.map_append, List.map_append, List.append_assoc] at hb'
    have hnests := Brackets.nests_iff.2 hb'
    rw [Brackets.nests_append hb] at hnests
    have hc := TokenKind.brackets.closer?_of_isCloser hk
    simp [Brackets.nests, hk, hc] at hnests

end

end Parser

end ElleFrontEnd
