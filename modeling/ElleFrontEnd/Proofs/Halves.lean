import ElleFrontEnd.Proofs.Anywhere
import ElleFrontEnd.Proofs.MaximalMunch

/-!
# The second of two ampersands

Two `&` that are written as one token stand before two operands, of which the inner one begins with the second `&`.
What is read from there is no longer lexed as in the source: the `&` may join the first `&` of the operand.  It is the
inner operand all the same (`exists_halved`).
-/

namespace ElleFrontEnd

/-- Text without faults that is cut into lexemes, before others. -/
structure CutsAs (text : List Char) (cuts rest : List Cut) : Prop where
  taken : cuts.flatMap Cut.taken = text
  faults : ∀ cut ∈ cuts, cut.lexeme.faults = []
  lexed : lexemes (text ++ rest.flatMap Cut.taken) = cuts ++ rest

/-- The first token of lexemes. -/
def firstKind? (cuts : List Cut) : Option TokenKind := (cuts.filterMap (·.lexeme.token)).head?

/-- The number of tokens of lexemes. -/
def tokenCount (cuts : List Cut) : Nat := (cuts.filterMap (·.lexeme.token)).length

theorem tokenCount_cons {cut : Cut} {k : TokenKind} (h : cut.lexeme.token = some k) (cuts : List Cut) :
    tokenCount (cut :: cuts) = tokenCount cuts + 1 := by
  unfold tokenCount
  rw [List.filterMap_cons, h]
  rfl

/-- One `&`. -/
def ampCut : Cut := ⟨['&'], .ofToken 0 (.operator .amp)⟩

/-- Two `&`. -/
def ampsCut : Cut := ⟨['&', '&'], .ofToken 1 (.operator .andAnd)⟩

theorem lexemeAt_amp (cs : List Char) : lexemeAt '&' cs = symbolAt '&' cs := by
  rw [lexemeAt_symbol (by decide)]
  rfl

theorem lexemeAt_amp_amp (cs : List Char) : lexemeAt '&' ('&' :: cs) = .ofToken 1 (.operator .andAnd) := by
  rw [lexemeAt_amp]
  simp [symbolAt, symbolsFrom]

theorem lexemeAt_amp_of_ne {c : Char} {cs : List Char} (hc : c ≠ '&') (hc' : c ≠ '=') :
    lexemeAt '&' (c :: cs) = .ofToken 0 (.operator .amp) := by
  rw [lexemeAt_amp]
  simp [symbolAt, symbolsFrom, hc.symm, hc'.symm]

theorem listed_of_symbolAt {c : Char} {cs : List Char} {k : TokenKind} (h : (symbolAt c cs).token = some k) :
    ∃ tail, (tail, k) ∈ symbolsFrom c := by
  unfold symbolAt at h
  split at h
  · rename_i tail kind hfind
    obtain rfl : kind = k := Option.some.inj h
    exact ⟨tail, List.mem_of_find?_eq_some hfind⟩
  · cases h

/-- A token that an operand begins with, but for `&` and `&&`, prolongs no `&` before it. -/
theorem ne_of_opensOperand {c : Char} {cs : List Char} {k : TokenKind} (hk : (lexemeAt c cs).token = some k)
    (ho : Parser.opensOperand true k = true) (ha : k ≠ .operator .amp) (ha' : k ≠ .operator .andAnd) :
    c ≠ '&' ∧ c ≠ '=' := by
  have hentries : ∀ entry ∈ symbolsFrom '&' ++ symbolsFrom '=', Parser.opensOperand true entry.2 = true →
      entry.2 = .operator .amp ∨ entry.2 = .operator .andAnd := by decide
  have hsymbol (hc : c = '&' ∨ c = '=') : (symbolAt c cs).token = some k := by
    rcases hc with rfl | rfl <;> rwa [lexemeAt_symbol (by decide)] at hk
  have hno (hc : c = '&' ∨ c = '=') : False := by
    obtain ⟨tail, hmem⟩ := listed_of_symbolAt (hsymbol hc)
    have hmem' : (tail, k) ∈ symbolsFrom '&' ++ symbolsFrom '=' := by
      rcases hc with rfl | rfl <;> simp [hmem]
    exact (hentries _ hmem' ho).elim ha ha'
  exact ⟨fun hc => hno (.inl hc), fun hc => hno (.inr hc)⟩

/-! ### Reading behind ampersands -/

/-- The operator of one address or of two. -/
def addressKind (double : Bool) : TokenKind := .operator (if double then .andAnd else .amp)

/-- The address of an operand, or the address of that. -/
def Expr.addressed (e : Expr) : Bool → Expr
  | false => .unary .zero .addrOf e
  | true => .unary .zero .addrOf (.unary .zero .addrOf e)

theorem SameExpr.addressed {e e' : Expr} (h : SameExpr e e') (double : Bool) :
    SameExpr (e.addressed double) (e'.addressed double) := by
  cases double with
  | false => exact congrArg (Expr.unary .zero .addrOf) h
  | true => exact congrArg (fun e => Expr.unary .zero .addrOf (.unary .zero .addrOf e)) h

theorem Parser.unaryBody_address {g : Inner} (hg : g.Settled) {s s' : ParseState} {double header : Bool} {x : Expr}
    (hk : s.peek.kind = addressKind double) :
    (∃ e, (unaryBody g header).run s = (.ok e, s') ∧ SameExpr x e) ↔ opensOperand true s.advance.peek.kind = true ∧
      ∃ inner, (g.unary header).run s.advance = (.ok inner, s') ∧ SameExpr x (inner.addressed double) := by
  constructor
  · rintro ⟨e, h, hx⟩
    rcases (unaryBody_ok hg).1 h with ⟨op, unary, inner, hop, hu, ho, hi, rfl⟩ | ⟨hop, h⟩ | ⟨hop, -⟩ | ⟨-, hnone, -⟩
    · obtain rfl : double = false := by
        cases double with
        | false => rfl
        | true =>
          obtain rfl : .andAnd = op := TokenKind.operator.inj (hk.symm.trans hop)
          simp [UnaryOp.ofOperator?, UnaryOp.all, UnaryOp.operator] at hu
      obtain rfl : .amp = op := TokenKind.operator.inj (hk.symm.trans hop)
      obtain rfl : unary = .addrOf := Option.some.inj (hu.symm.trans (by decide))
      exact ⟨ho, inner, hi, hx⟩
    · obtain rfl : double = true := by
        cases double with
        | false => cases hk.symm.trans hop
        | true => rfl
      obtain ⟨ho, inner, hi, rfl⟩ := doubleAddress_ok.1 h
      exact ⟨ho, inner, hi, hx⟩
    · cases hk.symm.trans hop
    · obtain ⟨hu, hne⟩ := hnone _ hk
      cases double with
      | false => simp [UnaryOp.ofOperator?, UnaryOp.all, UnaryOp.operator] at hu
      | true => exact absurd rfl hne
  · rintro ⟨ho, inner, hi, hx⟩
    cases double with
    | false => exact ⟨_, (unaryBody_ok hg).2 (.inl ⟨.amp, .addrOf, inner, hk, rfl, ho, hi, rfl⟩), hx⟩
    | true => exact ⟨_, (unaryBody_ok hg).2 (.inr (.inl ⟨hk, doubleAddress_ok.2 ⟨ho, inner, hi, rfl⟩⟩)), hx⟩

variable {limit room : Nat} {cuts rest : List Cut} {x e : Expr}

/-- The first of the tokens to read. -/
theorem peek_placed (place : Place) (last : Option Token) (cuts : List Cut) :
    ({ last, rest := (placed place cuts).tokens } : ParseState).peek.kind = (firstKind? cuts).getD .eof := by
  have hkinds := kinds_placed place cuts
  cases htokens : (placed place cuts).tokens with
  | nil => simp [htokens] at hkinds
  | cons t ts =>
    rw [ParseState.peek_cons rfl]
    rw [htokens] at hkinds
    have := congrArg List.head? hkinds
    unfold firstKind?
    cases hks : cuts.filterMap (·.lexeme.token) with
    | nil => simpa [hks] using this
    | cons k ks => simpa [hks] using this

theorem advance_placed {cut : Cut} {k : TokenKind} (hk : cut.lexeme.token = some k) (he : k ≠ .eof) (place : Place)
    (last : Option Token) (cuts : List Cut) :
    ({ last, rest := (placed place (cut :: cuts)).tokens } : ParseState).advance =
      { last := some ⟨k, cut.span place, place.position⟩, rest := (placed (place.after cut.taken) cuts).tokens } := by
  rw [ParseState.advance_cons (placed_cons_some hk) he]

/-- At any place, an address is read of its operator and what follows. -/
theorem readsCuts_address (double : Bool) {cut : Cut} (hcut : cut.lexeme.token = some (addressKind double)) :
    ReadsCuts ((Inner.ofRoom ⟨limit, false⟩ (room + 1)).unary false) (cut :: cuts) rest (SameExpr x) ↔
      Parser.opensOperand true ((firstKind? (cuts ++ rest)).getD .eof) = true ∧ ∃ e, SameExpr x (e.addressed double) ∧
        ReadsCuts ((Inner.ofRoom ⟨limit, false⟩ room).unary false) cuts rest (SameExpr e) := by
  have hg := settled_ofRoom ⟨limit, false⟩ room
  have hafter (place : Place) : (place.after cut.taken).after (cuts.flatMap Cut.taken) =
      place.after ((cut :: cuts).flatMap Cut.taken) := by
    rw [List.flatMap_cons, Place.after_append]
  have hkind (place : Place) (last : Option Token) :
      ({ last, rest := (placed place (cut :: cuts ++ rest)).tokens } : ParseState).peek.kind = addressKind double := by
    rw [peek_placed, List.cons_append, firstKind?, List.filterMap_cons, hcut]
    rfl
  have hadvance (place : Place) (last : Option Token) :=
    advance_placed hcut (by cases double <;> simp [addressKind]) place last (cuts ++ rest)
  constructor
  · intro h
    obtain ⟨e, last, hrun, hx⟩ := h .start none
    obtain ⟨hopens, inner, hinner, hx⟩ := (Parser.unaryBody_address hg (hkind .start none)).1 ⟨e, hrun, hx⟩
    rw [List.cons_append, hadvance] at hopens hinner
    rw [peek_placed] at hopens
    refine ⟨hopens, inner, hx, ?_⟩
    refine .of_run (Parser.Restarts.unary limit room) (fun ts us hl => (steady_ofRoom hl _ _).unary false) ?_
      rfl rfl rfl hinner ?_ rfl rfl
    · rw [peek_placed]
      intro heof
      simp [heof, Parser.opensOperand] at hopens
    · rw [hafter]
  · rintro ⟨hopens, e, hx, h⟩ place last
    obtain ⟨inner, last', hinner, hsame⟩ :=
      h (place.after cut.taken) (some ⟨addressKind double, cut.span place, place.position⟩)
    rw [hafter, ← hadvance place last] at hinner
    obtain ⟨e', hrun, hx⟩ := (Parser.unaryBody_address hg (hkind place last)).2
      ⟨by rw [List.cons_append, hadvance, peek_placed]; exact hopens, inner, hinner, hx.trans (hsame.addressed double)⟩
    exact ⟨e', last', hrun, hx⟩

/-! ### The text from the second ampersand on -/

namespace CutsAs

variable {text : List Char} {cut : Cut}

theorem tail (h : CutsAs text (cut :: cuts) rest) : CutsAs (cuts.flatMap Cut.taken) cuts rest where
  taken := rfl
  faults := (List.forall_mem_cons.1 h.faults).2
  lexed := by
    have hlexed := h.lexed
    rw [← h.taken, List.flatMap_cons, List.append_assoc] at hlexed
    obtain ⟨c, text₁, -, -, -, -, hlater⟩ := lexemes_first hlexed
    exact hlater

theorem amps (h : CutsAs text cuts rest) : CutsAs ('&' :: '&' :: text) (ampsCut :: cuts) rest where
  taken := by simp [ampsCut, h.taken]
  faults := List.forall_mem_cons.2 ⟨rfl, h.faults⟩
  lexed := by
    rw [List.cons_append, List.cons_append, lexemes_cons, lexemeAt_amp_amp]
    exact congrArg (ampsCut :: ·) h.lexed

theorem amp (h : CutsAs text cuts rest) {c : Char} {cs : List Char} (htext : text = c :: cs) (hc : c ≠ '&')
    (hc' : c ≠ '=') : CutsAs ('&' :: text) (ampCut :: cuts) rest where
  taken := by simp [ampCut, h.taken]
  faults := List.forall_mem_cons.2 ⟨rfl, h.faults⟩
  lexed := by
    have hlexed := h.lexed
    subst htext
    rw [List.cons_append] at hlexed
    rw [List.cons_append, List.cons_append, lexemes_cons, lexemeAt_amp_of_ne hc hc']
    exact congrArg (ampCut :: ·) hlexed

end CutsAs

/-- What is read behind an `&` is the operand of it where both are lexed together. -/
theorem exists_halved {text : List Char} (hcuts : CutsAs text cuts rest)
    (hstop : Parser.opensOperand true ((firstKind? rest).getD .eof) = false)
    (hopens : Parser.opensOperand true ((firstKind? (cuts ++ rest)).getD .eof) = true)
    (h : ReadsCuts ((Inner.ofRoom ⟨limit, false⟩ room).unary false) cuts rest (SameExpr e)) : ∃ room' cuts',
      CutsAs ('&' :: text) cuts' rest ∧ Parser.opensOperand true ((firstKind? (cuts' ++ rest)).getD .eof) = true ∧
        ReadsCuts ((Inner.ofRoom ⟨limit, false⟩ room').unary false) cuts' rest (SameExpr (e.addressed false)) ∧
          ∀ n, tokenCount cuts + n < room → tokenCount cuts' + n < room' := by
  induction room generalizing text cuts e with
  | zero =>
    obtain ⟨e', last, hrun, -⟩ := h .start none
    cases hrun
  | succ room ih =>
    cases cuts with
    | nil => simp [hstop] at hopens
    | cons cut cuts =>
      have hlexed := hcuts.lexed
      rw [← hcuts.taken, List.flatMap_cons, List.append_assoc] at hlexed
      obtain ⟨c, cs, htaken, hl, -⟩ := lexemes_first hlexed
      have htext : text = cut.taken ++ cuts.flatMap Cut.taken := by rw [← hcuts.taken, List.flatMap_cons]
      by_cases hamp : ∃ double, cut.lexeme.token = some (addressKind double)
      · obtain ⟨double, hcut⟩ := hamp
        obtain ⟨hopens', e₁, hx, h₁⟩ := (readsCuts_address double hcut).1 h
        have hmem : cut ∈ lexemes (cut.taken ++ (cuts.flatMap Cut.taken ++ rest.flatMap Cut.taken)) := by
          rw [hlexed]
          exact List.mem_append_left _ List.mem_cons_self
        have hwritten : cut.taken = (addressKind double).display.toList :=
          ((faithful_of_mem hmem).written _ hcut (.inr fun parts hk => by cases hk)).1.symm
        rw [hwritten] at htext
        cases double with
        | false =>
          obtain rfl : text = '&' :: cuts.flatMap Cut.taken := htext
          refine ⟨room + 1, ampsCut :: cuts, hcuts.tail.amps, rfl, ?_, ?_⟩
          · exact (readsCuts_address true rfl).2 ⟨hopens', e₁, hx.addressed false, h₁⟩
          · intro n hn
            rwa [tokenCount_cons hcut, ← tokenCount_cons (rfl : ampsCut.lexeme.token = _)] at hn
        | true =>
          obtain rfl : text = '&' :: '&' :: cuts.flatMap Cut.taken := htext
          obtain ⟨room', cuts', hcuts', hopens'', h', hcount⟩ := ih hcuts.tail hopens' h₁
          refine ⟨room' + 1, ampsCut :: cuts', hcuts'.amps, rfl, ?_, ?_⟩
          · exact (readsCuts_address true rfl).2 ⟨hopens'', _, hx.addressed false, h'⟩
          · intro n hn
            rw [tokenCount_cons hcut] at hn
            have := hcount n (by omega)
            rw [tokenCount_cons rfl]
            omega
      · have hne : c ≠ '&' ∧ c ≠ '=' := by
          have hfaults := hcuts.faults cut List.mem_cons_self
          rw [hl] at hfaults
          cases htoken : cut.lexeme.token with
          | none =>
            rw [hl] at htoken
            rcases lexemeAt_of_none hfaults htoken with ⟨hc, -⟩ | ⟨rfl, -⟩ | ⟨rfl, -⟩ | ⟨rfl, -⟩
            · constructor <;> (rintro rfl; exact absurd hc (by decide))
            all_goals decide
          | some k =>
            have hk : Parser.opensOperand true k = true := by
              rw [List.cons_append, firstKind?, List.filterMap_cons, htoken] at hopens
              exact hopens
            rw [hl] at htoken
            refine ne_of_opensOperand htoken hk ?_ ?_
            · rintro rfl
              exact hamp ⟨false, hl ▸ htoken⟩
            · rintro rfl
              exact hamp ⟨true, hl ▸ htoken⟩
        refine ⟨room + 2, ampCut :: cut :: cuts, hcuts.amp (by rw [htext, htaken]; rfl) hne.1 hne.2, rfl, ?_, ?_⟩
        · exact (readsCuts_address false rfl).2 ⟨hopens, e, rfl, h⟩
        · intro n hn
          rw [tokenCount_cons (rfl : ampCut.lexeme.token = _)]
          omega

end ElleFrontEnd
