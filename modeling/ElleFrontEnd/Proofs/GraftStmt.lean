import ElleFrontEnd.Proofs.Graft
import ElleFrontEnd.Proofs.ReadStmt
import ElleFrontEnd.Proofs.TieProgram

/-!
# Blocks in another place

Nothing that is read within braces depends on what stands behind them: it sees no further than to the closing one.  So
runs within a block are tied together whatever follows it (`Tie.replaced`), and the block is the same in another place
(`graft_statements`).
-/

namespace ElleFrontEnd

open ElleFrontEnd.Parser (Statements skipStatement)

theorem upToEnd_replaced {c : Token} (hc : c.kind.endsItem = true) (us x x' : List Token) :
    upToEnd (us ++ c :: x) = upToEnd (us ++ c :: x') := by
  induction us with
  | nil => simp [upToEnd, hc]
  | cons t us ih =>
    rw [List.cons_append, List.cons_append]
    unfold upToEnd
    rw [ih]

theorem Parser.skipStatement_replaced (us x x' : List Token) (c : Token) (depth : Nat) (last : Option Token) :
    (skipStatement depth last (us ++ c :: x)).2.length ≤ x.length ∨
      ∃ vs, skipStatement depth last (us ++ c :: x) = ((skipStatement depth last (us ++ c :: x)).1, vs ++ c :: x) ∧
        skipStatement depth last (us ++ c :: x') = ((skipStatement depth last (us ++ c :: x)).1, vs ++ c :: x') := by
  induction us generalizing depth last with
  | nil =>
    rw [List.nil_append, List.nil_append]
    unfold skipStatement
    have hle (depth : Nat) (last : Option Token) := length_skipStatement_le depth last x
    have hstop : ∃ vs, (last, c :: x) = (last, vs ++ c :: x) ∧ (last, c :: x') = (last, vs ++ c :: x') := ⟨[], rfl, rfl⟩
    split
    · exact .inr hstop
    · split
      · exact .inr hstop
      · exact .inl (hle _ _)
    · exact .inl (hle _ _)
    · exact .inl (hle _ _)
    · exact .inl (hle _ _)
    · exact .inl (hle _ _)
    · exact .inl (hle _ _)
    · split
      · exact .inl (Nat.le_refl _)
      · exact .inl (hle _ _)
    · exact .inl (hle _ _)
  | cons t us ih =>
    rw [List.cons_append, List.cons_append]
    unfold skipStatement
    have hstop (last : Option Token) : ∃ vs, (last, t :: (us ++ c :: x)) = (last, vs ++ c :: x) ∧
        (last, t :: (us ++ c :: x')) = (last, vs ++ c :: x') := ⟨t :: us, rfl, rfl⟩
    split
    · exact .inr (hstop _)
    · split
      · exact .inr (hstop _)
      · exact ih _ _
    · exact ih _ _
    · exact ih _ _
    · exact ih _ _
    · exact ih _ _
    · exact ih _ _
    · split
      · exact .inr ⟨us, rfl, rfl⟩
      · exact ih _ _
    · exact ih _ _

/-- A state and the same one with `x'` in the place of the tokens `x` behind `c`, as long as `c` is still to come. -/
def Tie.replaced {c : Token} (hc : c.kind.endsItem = true) (x x' : List Token) : Tie where
  rel s t := ∃ us, s.rest = us ++ c :: x ∧ t = { s with rest := us ++ c :: x' }
  gone s := s.rest.length ≤ x.length
  near := by
    rintro s _ ⟨us, hr, rfl⟩
    unfold ParseState.near
    rw [hr, upToEnd_replaced hc us x x']
  gap := by
    rintro s _ s' _ ⟨us, hr, rfl⟩ ⟨us', hr', rfl⟩
    simp only [hr, hr', List.length_append, List.length_cons]
    omega
  within := by
    rintro s _ ⟨us, hr, rfl⟩ hk
    cases us with
    | nil =>
      rw [ParseState.peek_cons hr, hc] at hk
      cases hk
    | cons t us =>
      have hr' : (ParseState.mk s.last (t :: us ++ c :: x') s.owed s.errors).rest = t :: (us ++ c :: x') := rfl
      by_cases ht : t.kind = .eof
      · rw [ParseState.advance_eof (by rw [ParseState.peek_cons hr, ht]),
          ParseState.advance_eof (by rw [ParseState.peek_cons hr', ht])]
        exact ⟨t :: us, hr, rfl⟩
      · rw [ParseState.advance_cons hr ht, ParseState.advance_cons hr' ht]
        exact ⟨us, rfl, rfl⟩
  advance := by
    rintro s _ ⟨us, hr, rfl⟩
    cases us with
    | nil =>
      have hne : c.kind ≠ .eof := by
        intro he
        rw [he] at hc
        cases hc
      rw [ParseState.advance_cons hr hne]
      exact .inr (Nat.le_refl _)
    | cons t us =>
      have hr' : (ParseState.mk s.last (t :: us ++ c :: x') s.owed s.errors).rest = t :: (us ++ c :: x') := rfl
      by_cases ht : t.kind = .eof
      · rw [ParseState.advance_eof (by rw [ParseState.peek_cons hr, ht]),
          ParseState.advance_eof (by rw [ParseState.peek_cons hr', ht])]
        exact .inl ⟨t :: us, hr, rfl⟩
      · rw [ParseState.advance_cons hr ht, ParseState.advance_cons hr' ht]
        exact .inl ⟨us, rfl, rfl⟩
  rewind := by
    rintro s _ s' _ ⟨us, hr, rfl⟩ ⟨us', -, rfl⟩
    exact ⟨us, hr, rfl⟩
  record := by
    rintro s _ e ⟨us, hr, rfl⟩
    exact ⟨us, hr, rfl⟩
  next := by
    rintro s _ ⟨us, hr, rfl⟩
    unfold Parser.toNextStatement
    dsimp only
    rw [hr]
    rcases Parser.skipStatement_replaced us x x' c 0 s.last with hle | ⟨vs, hv, hv'⟩
    · exact .inr hle
    · refine .inl ⟨vs, congrArg Prod.snd hv, ?_⟩
      rw [hv']
  gone_of_advances := fun hs h => Nat.le_trans h.length_le hs

theorem Tie.owing_replaced {c : Token} (hc : c.kind.endsItem = true) (x x' : List Token) :
    (Tie.replaced hc x x').Owing := by
  rintro s _ n ⟨us, hr, rfl⟩
  exact ⟨us, hr, rfl⟩

namespace Parser

variable {n : Nat} {y : List Token} {s s' : ParseState} {g : Inner}

/-- The last token of a block is its closing brace. -/
theorem Statements.ends_in_brace (hg : g.Settled) {ss : List Stmt} (h : Statements g s ss s') :
    ∃ used c, Passes s (used ++ [c]) s' ∧ c.kind = .punctuation .rBrace := by
  induction h with
  | @nil s hk => exact ⟨[], s.peek, Passes.advance (by simp [hk]), hk⟩
  | @stray s s' ss hk _ ih =>
    obtain ⟨used, c, hp, hc⟩ := ih
    exact ⟨s.peek :: used, c, (Passes.advance (by simp [hk])).trans hp, hc⟩
  | @cons s s₁ s' statement ss _ _ _ hrun _ ih =>
    obtain ⟨used, c, hp, hc⟩ := ih
    obtain ⟨⟨used₀, hu⟩, -⟩ := advances_run (Alike.advances fun ts => Alike.statement (.refl ts) (hg.steady ts)) hrun
    exact ⟨used₀ ++ used, c, by simpa using hu.trans hp, hc⟩

theorem Statements.length_lt (hg : g.Settled) {ss : List Stmt} (h : Statements g s ss s') :
    s'.rest.length < s.rest.length := by
  obtain ⟨used, c, hp, -⟩ := h.ends_in_brace hg
  rw [hp.rest, List.length_append, List.length_append, List.length_singleton]
  omega

/-- A statement that is read before a closing brace is the same whatever stands behind that. -/
theorem graft_statement {o : ParseOptions} {room : Nat} {statement : Stmt} {us x : List Token} {c : Token}
    (hr : s'.rest = us ++ c :: x) (hc : c.kind = .punctuation .rBrace) (hn : n ≤ x.length)
    (h : (Parser.statement (Inner.ofRoom o room)).run s = (.ok statement, s')) :
    (Parser.statement (Inner.ofRoom o room)).run (s.graft n y) = (.ok statement, s'.graft n y) := by
  have hend : c.kind.endsItem = true := by rw [hc]; rfl
  have hsettled := settled_ofRoom o room
  obtain ⟨⟨used, hu⟩, -⟩ :=
    advances_run (Alike.advances fun ts => Alike.statement (.refl ts) (hsettled.steady ts)) h
  let K := Tie.replaced hend x (x.take (x.length - n) ++ y)
  have hgraft {s : ParseState} {vs : List Token} (hr : s.rest = vs ++ c :: x) :
      s.graft n y = { s with rest := vs ++ c :: (x.take (x.length - n) ++ y) } := by
    have hrest : (s.graft n y).rest = vs ++ c :: (x.take (x.length - n) ++ y) := by
      rw [ParseState.graft_rest_append (show s.rest = (vs ++ [c]) ++ x by rw [hr]; simp) hn]
      simp
    rw [← hrest]
    rfl
  have hstart : s.rest = (used ++ us) ++ c :: x := by rw [hu.rest, hr, List.append_assoc]
  have htied := Tie.Runs.statement (Tie.tied_ofRoom (K := K) (Tie.owing_replaced hend _ _) o room)
  have hends := htied.ends s (s.graft n y) ⟨_, hstart, hgraft hstart⟩ trivial
  rw [show (Parser.statement (Inner.ofRoom o room)) s = (.ok statement, s') from h] at hends
  change (Parser.statement (Inner.ofRoom o room)) (s.graft n y) = _
  generalize (Parser.statement (Inner.ofRoom o room)) (s.graft n y) = v at hends
  cases hends with
  | same hrel =>
    obtain ⟨vs, hvs, rfl⟩ := hrel
    rw [hgraft hvs]
  | gone _ hgone =>
    have hle : s'.rest.length ≤ x.length := hgone
    rw [hr, List.length_append, List.length_cons] at hle
    omega

/-- The statements of a block are the same in another place. -/
theorem graft_statements {o : ParseOptions} {room : Nat} {ss : List Stmt}
    (h : Statements (Inner.ofRoom o room) s ss s') (hn : n ≤ s'.rest.length) :
    Statements (Inner.ofRoom o room) (s.graft n y) ss (s'.graft n y) := by
  have hsettled := settled_ofRoom o room
  induction h with
  | @nil s hk =>
    have hlt := Nat.lt_of_le_of_lt hn (length_advance_lt (s := s) (by simp [hk]))
    rw [← ParseState.advance_graft hlt]
    exact .nil (by rwa [ParseState.peek_graft hlt])
  | @stray s s' ss hk hrest ih =>
    have hlt := Nat.lt_of_le_of_lt hn
      (Nat.lt_trans (hrest.length_lt hsettled) (length_advance_lt (s := s) (by simp [hk])))
    refine .stray (by rwa [ParseState.peek_graft hlt]) ?_
    rw [ParseState.advance_graft hlt]
    exact ih hn
  | @cons s s₁ s' statement ss hk hk' hend hrun hrest ih =>
    have hlt : n < s.rest.length :=
      Nat.lt_of_le_of_lt hn (Nat.lt_trans (hrest.length_lt hsettled) (length_of_statement hsettled hrun))
    obtain ⟨used, c, hp, hc⟩ := hrest.ends_in_brace hsettled
    have hr : s₁.rest = used ++ c :: s'.rest := by simpa using hp.rest
    have hpeek := ParseState.peek_graft (y := y) hlt
    refine .cons (by rwa [hpeek]) (by rwa [hpeek]) ?_ (graft_statement hr hc hn hrun) (ih hn)
    rwa [ParseState.atEnd, hpeek]

/-- A block is the same in another place. -/
theorem graft_blockBody {limit room : Nat} {body : Block} (hn : n ≤ s'.rest.length)
    (h : (blockBody ⟨limit, false⟩ (Inner.ofRoom ⟨limit, false⟩ room)).run s = (.ok body, s')) :
    (blockBody ⟨limit, false⟩ (Inner.ofRoom ⟨limit, false⟩ room)).run (s.graft n y) = (.ok body, s'.graft n y) := by
  have hsettled := settled_ofRoom ⟨limit, false⟩ room
  obtain ⟨hk, ss, hss, rfl⟩ := (blockBody_stopping hsettled).1 h
  have hlt : n < s.rest.length :=
    Nat.lt_of_le_of_lt hn (Nat.lt_trans (hss.length_lt hsettled) (length_advance_lt (s := s) (by simp [hk])))
  have hpeek := ParseState.peek_graft (y := y) hlt
  refine (blockBody_stopping hsettled).2 ⟨by rwa [hpeek], ss, ?_, ?_⟩
  · rw [ParseState.advance_graft hlt]
    exact graft_statements hss hn
  · obtain ⟨used, c, hp, -⟩ := hss.ends_in_brace hsettled
    rw [ParseState.spanFrom_graft (by simp [hp.last]), hpeek]

end Parser

end ElleFrontEnd
