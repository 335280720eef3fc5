import ElleFrontEnd.Proofs.Lossless
import ElleFrontEnd.Proofs.Outline
import ElleFrontEnd.Proofs.Progress

/-!
# Places in a source

A parser stands between the token read last and the next one.  As long as the tokens stand in the order of a source
(`Placed`), reading on moves both ends forward (`Placed.advances`).  So the tree that is read from one state to another
lies between the start of the next token in the first and the end of the last token in the second, and trees read one
after another stand one behind another (`Reads`).

Words go along with stretches: what a tree holds of the text of a token can be read again as the token.
-/

namespace ElleFrontEnd

/-- Whether a token stands in a text: between characters, and, unless it is the end, on at least one of them that it can
be read from.  The token `&&` can be cut in two. -/
structure Token.Sits (text : List Char) (t : Token) : Prop where
  start : OnBoundary text t.span.start
  stop : OnBoundary text t.span.stop
  le : t.span.start ≤ t.span.stop
  lt : t.kind ≠ .eof → t.span.start < t.span.stop
  legible : t.kind ≠ .eof → t.kind.Legible
  halved : t.kind = .operator .andAnd → OnBoundary text (t.span.start + 1) ∧ t.span.start + 1 < t.span.stop

theorem onBoundary_zero (text : List Char) : OnBoundary text 0 := ⟨[], text, rfl, rfl⟩

/-! ### The tokens of a source -/

/-- A token is the lexeme whose stretch it has, or the end. -/
theorem holds_placed {text before : List Char} {place : Place} {cuts : List Cut}
    (htext : text = before ++ cuts.flatMap Cut.taken) (hplace : place.offset = byteLength before) :
    ∀ t ∈ (placed place cuts).tokens, t.kind = .eof ∨
      ∃ cut ∈ cuts, cut.lexeme.token = some t.kind ∧ t.span.Holds text cut.taken := by
  induction cuts generalizing before place with
  | nil => simp [placed]
  | cons cut cuts ih =>
    obtain ⟨htext', hplace'⟩ := Cut.behind htext hplace
    have hlater := ih htext' hplace'
    have hmore : ∀ t ∈ (placed (place.after cut.taken) cuts).tokens, t.kind = .eof ∨
        ∃ c ∈ cut :: cuts, c.lexeme.token = some t.kind ∧ t.span.Holds text c.taken := by
      intro t ht
      rcases hlater t ht with hk | ⟨c, hc, h⟩
      · exact .inl hk
      · exact .inr ⟨c, List.mem_cons_of_mem _ hc, h⟩
    cases htoken : cut.lexeme.token with
    | none => rwa [placed_cons_none htoken]
    | some k =>
      rw [placed_cons_some htoken]
      refine List.forall_mem_cons.2 ⟨.inr ⟨cut, List.mem_cons_self, htoken, ?_⟩, hmore⟩
      exact Cut.span_holds htext hplace

/-- The tokens of a source stand in it. -/
theorem sits_of_lex (source : String) : ∀ t ∈ (lex source).tokens, t.Sits source.toList := by
  have hcuts : ∀ cut ∈ lexemes source.toList, cut.Faithful := fun _ h => faithful_of_mem h
  have htext : source.toList = [] ++ (lexemes source.toList).flatMap Cut.taken := (flatMap_taken_lexemes _).symm
  have hlaid : TokensLaid source.toList (lex source).tokens := (laid_placed hcuts htext rfl).1
  intro t ht
  obtain ⟨hstart, hstop⟩ := hlaid.onBoundary t ht
  rcases holds_placed htext rfl t ht with hk | ⟨cut, hcut, htoken, before, rest, hbefore, hspan⟩
  · obtain ⟨ts, e, htokens, -, he, hts⟩ := hlaid.ended
    have hle : t.span.start ≤ t.span.stop := by
      rw [htokens, List.mem_append, List.mem_singleton] at ht
      rcases ht with ht | rfl
      · exact absurd hk (hts t ht).1
      · rw [he]
    exact ⟨hstart, hstop, hle, fun h => absurd hk h, fun h => absurd hk h, fun h => by simp [hk] at h⟩
  · have hpos := byteLength_pos (hcuts cut hcut).taken
    have hlegible : t.kind.Legible := legible_of_mem_lexemes (List.mem_filterMap.2 ⟨cut, hcut, htoken⟩)
    refine ⟨hstart, hstop, by rw [hspan]; dsimp only; omega, fun _ => by rw [hspan]; dsimp only; omega,
      fun _ => hlegible, fun hk => ?_⟩
    rw [hk] at htoken
    have hwritten := ((hcuts cut hcut).written _ htoken (.inr fun parts h => by cases h)).1
    have htaken : ['&', '&'] = cut.taken := hwritten
    rw [hspan, ← htaken]
    rw [← htaken] at hbefore
    refine ⟨⟨before ++ ['&'], '&' :: rest, by simpa using hbefore, ?_⟩, ?_⟩
    · rw [byteLength_append]
      rfl
    · change byteLength before + 1 < byteLength before + 2
      omega

/-! ### Where a parser stands -/

namespace ParseState

/-- The start of the next token. -/
abbrev start (s : ParseState) : Nat := s.peek.span.start

theorem peek_eq_of_place {s s' : ParseState} (hr : s'.rest = s.rest) (hl : s'.last = s.last) : s'.peek = s.peek := by
  simp [peek, eof, lastStop, hr, hl]

end ParseState

/-- Whether what is left to read stands in a text, in order, and behind the token read last. -/
structure Placed (text : List Char) (s : ParseState) : Prop where
  sits : ∀ t ∈ s.rest, t.Sits text
  ordered : s.rest.Pairwise (·.span.stop ≤ ·.span.start)
  last : ∀ t ∈ s.last, t.Sits text ∧ ∀ u ∈ s.rest, t.span.stop ≤ u.span.start

theorem placed_of_lex (source : String) : Placed source.toList { rest := (lex source).tokens } := by
  have htext : source.toList = [] ++ (lexemes source.toList).flatMap Cut.taken := (flatMap_taken_lexemes _).symm
  exact ⟨sits_of_lex source, (laid_placed (fun _ h => faithful_of_mem h) htext rfl).1.ordered, by simp⟩

namespace Placed

variable {text : List Char} {s s' : ParseState} {used : List Token}

theorem of_place (h : Placed text s) (hr : s'.rest = s.rest) (hl : s'.last = s.last) : Placed text s' :=
  ⟨by simpa [hr] using h.sits, by simpa [hr] using h.ordered, by simpa [hr, hl] using h.last⟩

/-- The next token stands in the text, also where it is the end. -/
theorem peek (h : Placed text s) : s.peek.Sits text := by
  cases hr : s.rest with
  | nil =>
    have hp : s.peek = s.eof := by simp [ParseState.peek, hr]
    have hb : OnBoundary text s.lastStop := by
      cases hl : s.last with
      | none =>
        rw [ParseState.lastStop, hl]
        exact onBoundary_zero text
      | some t =>
        rw [ParseState.lastStop, hl]
        exact (h.last t hl).1.stop
    rw [hp]
    exact ⟨hb, hb, Nat.le_refl _, fun hk => absurd rfl hk, fun hk => absurd rfl hk, fun hk => by cases hk⟩
  | cons t ts =>
    rw [ParseState.peek_cons hr]
    exact h.sits t (by simp [hr])

theorem onBoundary_readStop (h : Placed text s) : OnBoundary text s.readStop := by
  unfold ParseState.readStop
  cases hl : s.last with
  | none => exact h.peek.start
  | some t => exact (h.last t hl).1.stop

/-- The next token begins where the last has ended or behind it. -/
theorem readStop_le_start (h : Placed text s) : s.readStop ≤ s.start := by
  unfold ParseState.readStop
  cases hl : s.last with
  | none => exact Nat.le_refl _
  | some t =>
    cases hr : s.rest with
    | nil => simp [ParseState.start, ParseState.peek, ParseState.eof, ParseState.lastStop, hr, hl]
    | cons u us =>
      rw [ParseState.start, ParseState.peek_cons hr]
      exact (h.last t hl).2 u (by simp [hr])

/-- What a token is written with can be read again. -/
theorem legible (h : Placed text s) {k : TokenKind} (hk : s.peek.kind = k) (he : k ≠ .eof) : k.Legible :=
  hk ▸ h.peek.legible (by rwa [hk])

theorem advance (h : Placed text s) (hk : s.peek.kind ≠ .eof) : Placed text s.advance ∧
    s.start < s.advance.readStop := by
  obtain ⟨ts, hr⟩ := ParseState.rest_of_peek hk
  rw [ParseState.advance_cons hr hk]
  have hordered := h.ordered
  rw [hr, List.pairwise_cons] at hordered
  refine ⟨⟨fun t ht => h.sits t ?_, hordered.2, ?_⟩, h.peek.lt hk⟩
  · rw [hr]
    exact List.mem_cons_of_mem _ ht
  · rintro t ⟨⟩
    exact ⟨h.peek, hordered.1⟩

/-- Passing tokens moves both ends forward, and the end of what is read behind the start of the first. -/
theorem passes (h : Placed text s) (hp : Passes s used s') : Placed text s' ∧ s.readStop ≤ s'.readStop ∧
    s.start ≤ s'.start ∧ (used ≠ [] → s.start < s'.readStop) := by
  induction used generalizing s with
  | nil =>
    have hr : s'.rest = s.rest := by simpa using hp.rest.symm
    have hl : s'.last = s.last := by simpa using hp.last
    have hpeek := ParseState.peek_eq_of_place hr hl
    refine ⟨h.of_place hr hl, ?_, ?_, fun hne => absurd rfl hne⟩
    · rw [ParseState.readStop, ParseState.readStop, hl, hpeek]
    · rw [ParseState.start, ParseState.start, hpeek]
  | cons t used ih =>
    have hr : s.rest = t :: (used ++ s'.rest) := hp.rest
    have hpeek : s.peek = t := ParseState.peek_cons hr
    have hk : s.peek.kind ≠ .eof := by
      rw [hpeek]
      exact hp.noEof t List.mem_cons_self
    have hadvance := ParseState.advance_cons hr (hpeek ▸ hk)
    have hrest : Passes s.advance used s' := by
      rw [hadvance]
      refine ⟨rfl, ?_, fun u hu => hp.noEof u (List.mem_cons_of_mem _ hu)⟩
      rw [hp.last, List.getLast?_cons]
      cases used.getLast? <;> rfl
    obtain ⟨hplaced, hlt⟩ := h.advance hk
    obtain ⟨hplaced', hstop, hstart, -⟩ := ih hplaced hrest
    have hle := h.readStop_le_start
    have hle' := hplaced.readStop_le_start
    exact ⟨hplaced', by omega, by omega, fun _ => by omega⟩

theorem advances (h : Placed text s) (ha : Advances s s') : Placed text s' ∧ s.readStop ≤ s'.readStop ∧
    s.start ≤ s'.start := by
  obtain ⟨⟨used, hp⟩, -⟩ := ha
  obtain ⟨hplaced, hstop, hstart, -⟩ := h.passes hp
  exact ⟨hplaced, hstop, hstart⟩

/-- Where there is less to read, the end of what is read lies behind what was to read. -/
theorem start_lt (h : Placed text s) (ha : Advances s s') (hlt : s'.rest.length < s.rest.length) :
    s.start < s'.readStop := by
  obtain ⟨⟨used, hp⟩, -⟩ := ha
  refine (h.passes hp).2.2.2 ?_
  rintro rfl
  have hr : s.rest = s'.rest := hp.rest
  simp [hr] at hlt

end Placed

/-! ### What is read between two states -/

/-- What is read from one state to another: outlines that stand one behind another, from the start of the next token to
the end of the last, and whose words can be read again. -/
structure Reads (text : List Char) (ts : List Outline) (s s' : ParseState) : Prop where
  placed : Placed text s'
  stop_le : s.readStop ≤ s'.readStop
  start_le : s.start ≤ s'.start
  standing : Standing s.start s'.readStop ts
  laminar : ∀ t ∈ ts, t.Laminar (OnBoundary text)
  legible : ∀ k ∈ outlinesWords ts, k.Legible

namespace Reads

variable {text : List Char} {s s₁ s' : ParseState} {t u : Outline} {ts us : List Outline} {words : List TokenKind}

theorem of_advances (hp : Placed text s) (ha : Advances s s') : Reads text [] s s' := by
  obtain ⟨hplaced, hstop, hstart⟩ := hp.advances ha
  exact ⟨hplaced, hstop, hstart, .nil _ _, by simp, by simp⟩

theorem refl (hp : Placed text s) : Reads text [] s s := .of_advances hp (.refl s)

theorem advance (hp : Placed text s) : Reads text [] s s.advance := .of_advances hp (.advance s)

/-- What is read one after another stands one behind another. -/
theorem trans (h : Reads text ts s s₁) (h' : Reads text us s₁ s') : Reads text (ts ++ us) s s' where
  placed := h'.placed
  stop_le := Nat.le_trans h.stop_le h'.stop_le
  start_le := Nat.le_trans h.start_le h'.start_le
  standing := h.standing.append h'.standing h.start_le h.placed.readStop_le_start h'.stop_le
  laminar t ht := (List.mem_append.1 ht).elim (h.laminar t) (h'.laminar t)
  legible k hk := by
    rw [outlinesWords_append] at hk
    exact (List.mem_append.1 hk).elim (h.legible k) (h'.legible k)

theorem cons (h : Reads text [t] s s₁) (h' : Reads text us s₁ s') : Reads text (t :: us) s s' := h.trans h'

/-- Behind what is read, tokens are passed that belong to no part of it. -/
theorem thenAdvances (h : Reads text ts s s₁) (ha : Advances s₁ s') : Reads text ts s s' := by
  simpa using h.trans (.of_advances h.placed ha)

theorem thenAdvance (h : Reads text ts s s') : Reads text ts s s'.advance := h.thenAdvances (.advance _)

/-- Before what is read, tokens are passed that belong to no part of it. -/
theorem behind (hp : Placed text s) (ha : Advances s s₁) (h : Reads text ts s₁ s') : Reads text ts s s' :=
  (of_advances hp ha).trans h

theorem behindAdvance (hp : Placed text s) (h : Reads text ts s.advance s') : Reads text ts s s' :=
  h.behind hp (.advance s)

/-- What has a part is not empty. -/
theorem start_lt (h : Reads text ts s s') (hne : ts ≠ []) : s.start < s'.readStop := by
  obtain ⟨t, ht⟩ := List.exists_mem_of_ne_nil _ hne
  have := h.standing.between t ht
  have := (h.laminar t ht).start_lt_stop
  omega

/-- Behind a token, what is read has a stretch that is not empty. -/
theorem start_lt_of_peek (hp : Placed text s) (hk : s.peek.kind ≠ .eof) (h : Reads text ts s.advance s') :
    s.start < s'.readStop :=
  Nat.lt_of_lt_of_le (hp.advance hk).2 h.stop_le

/-- A node over all that is read. -/
theorem node (hp : Placed text s) (h : Reads text ts s s') (hlt : s.start < s'.readStop)
    (hw : ∀ k ∈ words, k.Legible) : Reads text [.node (s'.spanFrom s.start) words ts] s s' where
  placed := h.placed
  stop_le := h.stop_le
  start_le := h.start_le
  standing := .singleton (Nat.le_refl _) (Nat.le_refl _)
  laminar t ht := by
    obtain rfl := List.mem_singleton.1 ht
    exact .node hlt hp.peek.start h.placed.onBoundary_readStop h.standing h.laminar
  legible k hk := by
    rw [outlinesWords_cons, words_node] at hk
    rcases List.mem_append.1 hk with hk | hk
    · rcases List.mem_append.1 hk with hk | hk
      · exact hw k hk
      · exact h.legible k hk
    · simp at hk

/-- A node over what is read behind a token. -/
theorem nodeBehind (hp : Placed text s) (hk : s.peek.kind ≠ .eof) (h : Reads text ts s.advance s')
    (hw : ∀ k ∈ words, k.Legible) : Reads text [.node (s'.spanFrom s.start) words ts] s s' :=
  (h.behindAdvance hp).node hp (start_lt_of_peek hp hk h) hw

/-- A node from the start of its first part to the end of its last. -/
theorem merged (ts : List Outline) (h : Reads text (t :: (ts ++ [u])) s s') :
    Reads text [.node (t.span.merge u.span) [] (t :: (ts ++ [u]))] s s' := by
  have hlast : u ∈ t :: (ts ++ [u]) := by simp
  have ht := (h.laminar t List.mem_cons_self)
  have hu := (h.laminar u hlast)
  have hbehind : t.span.stop ≤ u.span.start := (List.pairwise_cons.1 h.standing.apart).1 u (by simp)
  have hlt := ht.start_lt_stop
  have hlt' := hu.start_lt_stop
  have hspan : t.span.merge u.span = ⟨t.span.start, u.span.stop⟩ := by
    simp only [Span.merge, Span.mk.injEq]
    omega
  refine ⟨h.placed, h.stop_le, h.start_le, ?_, ?_, by simpa using h.legible⟩
  · rw [hspan]
    exact .singleton (h.standing.between t List.mem_cons_self).1 (h.standing.between u hlast).2
  · intro v hv
    obtain rfl := List.mem_singleton.1 hv
    rw [hspan]
    refine .node (by dsimp only; omega) ht.bound_start hu.bound_stop ⟨fun v hv => ?_, h.standing.apart⟩ h.laminar
    -- all parts stand between the first and the last
    have hparts := h.standing.apart
    rw [← List.cons_append, List.pairwise_append] at hparts
    have hfirst := (List.pairwise_cons.1 h.standing.apart).1
    have hv' := h.laminar v hv
    have hvlt := hv'.start_lt_stop
    refine ⟨?_, ?_⟩
    · rcases List.mem_cons.1 hv with rfl | hv
      · exact Nat.le_refl _
      · have := hfirst v hv
        dsimp only
        omega
    · rw [← List.cons_append, List.mem_append, List.mem_singleton] at hv
      rcases hv with hv | rfl
      · have := hparts.2.2 v hv u (List.mem_singleton_self u)
        dsimp only
        omega
      · exact Nat.le_refl _

end Reads

end ElleFrontEnd
