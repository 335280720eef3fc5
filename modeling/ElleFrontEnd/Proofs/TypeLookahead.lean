import ElleFrontEnd.Proofs.TypeRoundTrip

/-!
# What looks like a type

The grammar tries to read a type where an expression may stand as well: in parentheses, behind a bracket, and at the
start of a statement.  Behind a bare name such a trial passes stars and empty brackets and nothing else (`skim`), so
that its outcome can be read off the tokens, both of a source (`typeBody_name`) and of printed fragments
(`TrialEnd.of_name`).
-/

namespace ElleFrontEnd

open Fragment

/-- The kinds of the tokens to read. -/
def ParseState.kinds (s : ParseState) : List TokenKind := s.rest.map Token.kind

theorem ParseState.kinds_of_peek {s : ParseState} (h : s.peek.kind ≠ .eof) :
    s.kinds = s.peek.kind :: s.advance.kinds := by
  obtain ⟨ts, hr⟩ := rest_of_peek h
  rw [advance_cons hr h, kinds, hr]
  rfl

theorem ParseState.peek_of_kinds {s : ParseState} {k : TokenKind} {ks : List TokenKind} (h : s.kinds = k :: ks) :
    s.peek.kind = k := by
  unfold kinds at h
  cases hr : s.rest with
  | nil => simp [hr] at h
  | cons t ts =>
    rw [peek_cons hr]
    simpa [hr] using (List.cons.inj (hr ▸ h)).1

theorem ParseState.length_kinds (s : ParseState) : s.kinds.length = s.rest.length := List.length_map _

/-- Tokens without the stars and empty brackets at their head. -/
def skim : List TokenKind → List TokenKind
  | .operator .star :: ks => skim ks
  | .punctuation .lBracket :: .punctuation .rBracket :: ks => skim ks
  | ks => ks

/-- Behind stars and empty brackets, what stands there is skimmed as if it stood alone. -/
theorem skim_append {ks : List TokenKind} (h : skim ks = []) (ls : List TokenKind) : skim (ks ++ ls) = skim ls := by
  fun_induction skim ks with
  | case1 ks ih => simpa [skim] using ih h
  | case2 ks ih => simpa [skim] using ih h
  | case3 ks _ _ =>
    rw [h]
    rfl

theorem skim_append_eq {ks ls : List TokenKind} (h : skim ks = []) (hl : skim ls = ls) :
    skim (ks ++ ls) = ks ++ ls ↔ ks = [] := by
  rw [skim_append h, hl]
  simp

namespace Parser

variable {s s' : ParseState}

theorem skim_of_starRun {n : Nat} (h : Stepped (fun s => s.peek.kind = .operator .star) ParseState.advance n s s') :
    skim s.kinds = skim s'.kinds ∧ s'.owed = s.owed := by
  induction h with
  | stop _ => exact ⟨rfl, rfl⟩
  | @next n s s' hk _ ih =>
    rw [ParseState.kinds_of_peek (by simp [hk]), hk, skim]
    simpa using ih

theorem kinds_of_brackets (h : s.atBrackets) :
    s.kinds = .punctuation .lBracket :: .punctuation .rBracket :: s.advance.advance.kinds := by
  have hk : s.advance.peek.kind = .punctuation .rBracket := by
    rw [← ParseState.kindAt_one (by simp [h.1]), h.2]
  rw [ParseState.kinds_of_peek (by simp [h.1]), ParseState.kinds_of_peek (by simp [hk]), h.1, hk]

theorem skim_of_bracketRun {n : Nat} (h : Stepped ParseState.atBrackets (fun s => s.advance.advance) n s s') :
    skim s.kinds = skim s'.kinds ∧ s'.owed = s.owed := by
  induction h with
  | stop _ => exact ⟨rfl, rfl⟩
  | @next n s s' hk _ ih =>
    rw [kinds_of_brackets hk, skim]
    simpa using ih

/-- Where neither a star nor a pair of brackets comes next, nothing is skimmed. -/
theorem skim_of_stop (hs : s.peek.kind ≠ .operator .star) (hb : ¬ s.atBrackets) : skim s.kinds = s.kinds := by
  by_cases he : s.kinds = []
  · rw [he]
    rfl
  · obtain ⟨k, ks, hk⟩ := List.exists_cons_of_ne_nil he
    have hp := ParseState.peek_of_kinds hk
    rw [hk]
    unfold skim
    split
    · rename_i h
      exact absurd (hp.trans (List.cons.inj h).1) hs
    · rename_i h
      rw [h] at hk
      refine absurd ⟨ParseState.peek_of_kinds hk, ?_⟩ hb
      have hp := ParseState.peek_of_kinds hk
      have hr := ParseState.kinds_of_peek (s := s) (by simp [hp])
      rw [hk] at hr
      rw [ParseState.kindAt_one (by simp [hp])]
      exact ParseState.peek_of_kinds (List.cons.inj hr).2.symm
    · rfl

/-- The runs of stars and brackets behind a type take all of them. -/
theorem skim_of_grows {start : Nat} {t t' : TypeExpr} (h : Grows (typeSuffix start) t s t' s') (ho : s.owed = 0) :
    s'.kinds = skim s.kinds ∧ s'.owed = 0 ∧
      (t' = t ∧ s' = s ∨ t'.isNamed = false ∧ s'.rest.length < s.rest.length) := by
  induction h with
  | stop h =>
    obtain ⟨hstop, rfl⟩ := typeSuffix_none.1 h
    have hstop := hstop.resolve_left (by omega)
    exact ⟨(skim_of_stop hstop.1 hstop.2).symm, ho, .inl ⟨rfl, rfl⟩⟩
  | next h _ ih =>
    have hless := typeSuffix_shrinks _ _ _ _ _ h
    obtain ⟨-, ⟨-, n, hn, rfl⟩ | ⟨-, -, n, hn, rfl⟩⟩ := typeSuffix_some.1 h
    · obtain ⟨hsk, ho'⟩ := skim_of_starRun (starRun_ok.1 hn)
      obtain ⟨hk, ho, hend⟩ := ih (by omega)
      refine ⟨by rw [hk, hsk], ho, .inr ?_⟩
      rcases hend with ⟨rfl, rfl⟩ | ⟨hne, hl⟩
      · exact ⟨rfl, hless⟩
      · exact ⟨hne, by omega⟩
    · obtain ⟨hsk, ho'⟩ := skim_of_bracketRun (bracketRun_ok.1 hn)
      obtain ⟨hk, ho, hend⟩ := ih (by omega)
      refine ⟨by rw [hk, hsk], ho, .inr ?_⟩
      rcases hend with ⟨rfl, rfl⟩ | ⟨hne, hl⟩
      · exact ⟨rfl, hless⟩
      · exact ⟨hne, by omega⟩

/-! ### Trials that begin with a name -/

theorem exists_stepped {p : ParseState → Prop} {move : ParseState → ParseState}
    (hm : ∀ s, p s → (move s).rest.length < s.rest.length) (s : ParseState) : ∃ n s', Stepped p move n s s' := by
  induction hl : s.rest.length using Nat.strongRecOn generalizing s with
  | _ l ih =>
    by_cases hp : p s
    · obtain ⟨n, s', h⟩ := ih _ (hl ▸ hm s hp) (move s) rfl
      exact ⟨n + 1, s', .next hp h⟩
    · exact ⟨0, s, .stop hp⟩

/-- The runs of stars and brackets behind a type come to an end. -/
theorem exists_grows_typeSuffix (start : Nat) (t : TypeExpr) (s : ParseState) :
    ∃ t' s', Grows (typeSuffix start) t s t' s' := by
  induction hl : s.rest.length using Nat.strongRecOn generalizing t s with
  | _ l ih =>
    have hnext {t₁ : TypeExpr} {s₁ : ParseState} (h : (typeSuffix start t).run s = (.ok (some t₁), s₁)) :
        ∃ t' s', Grows (typeSuffix start) t s t' s' := by
      obtain ⟨t', s', hgrow⟩ := ih _ (hl ▸ typeSuffix_shrinks _ _ _ _ _ h) t₁ s₁ rfl
      exact ⟨t', s', .next h hgrow⟩
    by_cases ho : 0 < s.owed
    · exact ⟨t, s, .stop (typeSuffix_none.2 ⟨.inl ho, rfl⟩)⟩
    · by_cases hs : s.peek.kind = .operator .star
      · obtain ⟨n, s₁, h⟩ := exists_stepped (p := fun s => s.peek.kind = .operator .star)
          (fun s h => length_advance_lt (by simp [h])) s
        exact hnext (typeSuffix_some.2 ⟨by omega, .inl ⟨hs, n, starRun_ok.2 h, rfl⟩⟩)
      · by_cases hb : s.atBrackets
        · obtain ⟨n, s₁, h⟩ := exists_stepped (fun s h => length_advance_brackets h) s
          exact hnext (typeSuffix_some.2 ⟨by omega, .inr ⟨hs, hb, n, bracketRun_ok.2 h, rfl⟩⟩)
        · exact ⟨t, s, .stop (typeSuffix_none.2 ⟨.inr ⟨hs, hb⟩, rfl⟩)⟩

variable (type : Nat → Parser TypeExpr) (angles : Nat) {name : String}

/-- Behind a name without type arguments, a type consists of the stars and brackets that stand there. -/
theorem typeBody_name (hk : s.peek.kind = .ident name)
    (hlt : ¬ (s.advance.peek.kind = .operator .lt ∧ s.advance.isAdjacent = true)) :
    ∃ start span t s', (typeBody type angles).run s = (.ok t, s') ∧
      Grows (typeSuffix start) (.named span name) s.advance t s' := by
  have hname : (namedType type angles s.peek.span.start name).run s = _ := namedType_ok.2 (.inr ⟨hlt, rfl, rfl⟩)
  obtain ⟨t, s', hgrow⟩ := exists_grows_typeSuffix s.peek.span.start
    (.named (s.advance.spanFrom s.peek.span.start) name) s.advance
  exact ⟨_, _, t, s', typeBody_ok.2 ⟨_, _, baseType_ok.2 (.inr (.inl ⟨name, hk, hname⟩)), hgrow⟩, hgrow⟩

/-- The type behind a name without type arguments, by the tokens. -/
theorem kinds_of_typeBody (hk : s.peek.kind = .ident name) (ho : s.owed = 0)
    (hlt : ¬ (s.advance.peek.kind = .operator .lt ∧ s.advance.isAdjacent = true)) :
    ∃ t s', (typeBody type angles).run s = (.ok t, s') ∧ s'.kinds = skim s.advance.kinds ∧ s'.owed = 0 ∧
      (t.isNamed = true ↔ skim s.advance.kinds = s.advance.kinds) := by
  obtain ⟨start, span, t, s', hrun, hgrow⟩ := typeBody_name type angles hk hlt
  obtain ⟨hkinds, ho', hend⟩ := skim_of_grows hgrow (by simp [ho])
  refine ⟨t, s', hrun, hkinds, ho', ?_⟩
  rcases hend with ⟨rfl, rfl⟩ | ⟨hne, hl⟩
  · simp [TypeExpr.isNamed, ← hkinds]
  · have : skim s.advance.kinds ≠ s.advance.kinds := by
      intro h
      have := congrArg List.length (hkinds.trans h)
      rw [ParseState.length_kinds, ParseState.length_kinds] at this
      omega
    simp [hne, this]

end Parser

/-! ### Trials on printed fragments -/

namespace Fragment

@[simp] theorem tokens_nil : tokens [] = [] := rfl
@[simp] theorem tokens_token (k : TokenKind) (f : List Fragment) : tokens (.token k :: f) = k :: tokens f := rfl
@[simp] theorem tokens_space (f : List Fragment) : tokens (.space :: f) = tokens f := rfl
@[simp] theorem tokens_line (d : Nat) (f : List Fragment) : tokens (.line d :: f) = tokens f := rfl

@[simp] theorem tokens_append (f f' : List Fragment) : tokens (f ++ f') = tokens f ++ tokens f' :=
  List.filterMap_append

theorem tokens_of_next {f : List Fragment} {k : TokenKind} (h : next f = k) (hk : k ≠ .eof) :
    tokens f = k :: tokens (after f) := by
  subst h
  induction f with
  | nil => exact absurd rfl hk
  | cons a f ih =>
    cases a with
    | token k => rfl
    | space | line => exact ih hk

theorem next_of_tokens {f : List Fragment} {k : TokenKind} {ks : List TokenKind} (h : tokens f = k :: ks) :
    next f = k ∧ tokens (after f) = ks := by
  induction f with
  | nil => simp at h
  | cons a f ih =>
    cases a with
    | token k =>
      simp at h
      exact ⟨h.1, h.2⟩
    | space | line => exact ih h

theorem next_of_tokens_eq {f f' : List Fragment} (h : tokens f = tokens f') : next f = next f' := by
  by_cases hn : next f = .eof
  · by_contra hne
    have := tokens_of_next (f := f') rfl fun hn' => hne (hn.trans hn'.symm)
    rw [← h] at this
    exact hne (next_of_tokens this).1
  · exact (next_of_tokens (h ▸ tokens_of_next rfl hn)).1.symm

end Fragment

namespace Parser

variable {s s' : ParseState} {f : List Fragment}

theorem clear_of_stars {n : Nat} (h : Stepped (fun s => s.peek.kind = .operator .star) ParseState.advance n s s')
    (hc : Clear s f) : ∃ f', Clear s' f' ∧ skim (tokens f') = skim (tokens f) ∧
      (tokens f').length + n = (tokens f).length := by
  induction h generalizing f with
  | stop _ => exact ⟨f, hc, rfl, rfl⟩
  | @next n s s' hk _ ih =>
    have hn := hc.next_of_peek hk (by simp)
    obtain ⟨f', hc', hs, hl⟩ := ih (hc.advance (by simp [hn]) (by simp [hn]))
    rw [tokens_of_next hn (by simp)]
    exact ⟨f', hc', hs, by rw [List.length_cons]; omega⟩

theorem clear_of_brackets {n : Nat} (h : Stepped ParseState.atBrackets (fun s => s.advance.advance) n s s')
    (hc : Clear s f) : ∃ f', Clear s' f' ∧ skim (tokens f') = skim (tokens f) ∧
      (tokens f').length + 2 * n = (tokens f).length := by
  induction h generalizing f with
  | stop _ => exact ⟨f, hc, rfl, rfl⟩
  | @next n s s' hk _ ih =>
    have hn := hc.next_of_peek hk.1 (by simp)
    have hc₁ := hc.advance (by simp [hn]) (by simp [hn])
    have hk₁ : s.advance.peek.kind = .punctuation .rBracket := by
      rw [← ParseState.kindAt_one (by simp [hk.1]), hk.2]
    have hn₁ := hc₁.next_of_peek hk₁ (by simp)
    obtain ⟨f', hc', hs, hl⟩ := ih (hc₁.advance (by simp [hn₁]) (by simp [hn₁]))
    rw [tokens_of_next hn (by simp), tokens_of_next hn₁ (by simp)]
    exact ⟨f', hc', hs, by rw [List.length_cons, List.length_cons]; omega⟩

/-- The runs of stars and brackets behind a type, on fragments. -/
theorem clear_of_grows {start : Nat} {t t' : TypeExpr} (h : Grows (typeSuffix start) t s t' s') (hc : Clear s f) :
    ∃ f', Clear s' f' ∧ tokens f' = skim (tokens f) ∧
      (t' = t ∧ f' = f ∨ t'.isNamed = false ∧ (tokens f').length < (tokens f).length) := by
  induction h generalizing f with
  | @stop _ s _ h =>
    obtain ⟨hstop, rfl⟩ := typeSuffix_none.1 h
    have hstop := hstop.resolve_left (by have := hc.owed; omega)
    refine ⟨f, hc, ?_, .inl ⟨rfl, rfl⟩⟩
    have hpeek {k : TokenKind} (hn : next f = k) (hk : k ≠ .operator .gt) : s.peek.kind = k := by
      rw [hc.fragments.peek (by rwa [hn]), hn]
    unfold skim
    split
    · rename_i hf
      exact absurd (hpeek (next_of_tokens hf).1 (by simp)) hstop.1
    · rename_i hf
      obtain ⟨hn, hrest⟩ := next_of_tokens hf
      have hk := hpeek hn (by simp)
      refine absurd ⟨hk, ?_⟩ hstop.2
      rw [hc.fragments.kindAt_one (by simp [hn]) (by simp [hn]) (by simp [(next_of_tokens hrest).1])]
      exact (next_of_tokens hrest).1
    · rfl
  | next h _ ih =>
    obtain ⟨-, ⟨hk, n, hn, rfl⟩ | ⟨-, hk, n, hn, rfl⟩⟩ := typeSuffix_some.1 h
    · obtain ⟨f₁, hc₁, hs, hl⟩ := clear_of_stars (starRun_ok.1 hn) hc
      have hpos := stepped_pos (starRun_ok.1 hn) hk
      obtain ⟨f', hc', ht, hend⟩ := ih hc₁
      refine ⟨f', hc', ht.trans hs, .inr ?_⟩
      rcases hend with ⟨rfl, rfl⟩ | ⟨hne, hl'⟩
      · exact ⟨rfl, by omega⟩
      · exact ⟨hne, by omega⟩
    · obtain ⟨f₁, hc₁, hs, hl⟩ := clear_of_brackets (bracketRun_ok.1 hn) hc
      have hpos := stepped_pos (bracketRun_ok.1 hn) hk
      obtain ⟨f', hc', ht, hend⟩ := ih hc₁
      refine ⟨f', hc', ht.trans hs, .inr ?_⟩
      rcases hend with ⟨rfl, rfl⟩ | ⟨hne, hl'⟩
      · exact ⟨rfl, by omega⟩
      · exact ⟨hne, by omega⟩

/-- Where a trial has ended that read a type off the fragments `f`: before what no type is followed by where one is
wanted, or behind a name and the stars and brackets that follow it. -/
def TrialEnd (f : List Fragment) (t : TypeExpr) (u : ParseState) : Prop :=
  u.peek.kind = .punctuation .lParen ∨ u.peek.kind = .punctuation .lBrace ∨
    ∃ name ks f', tokens f = .ident name :: ks ∧ Clear u f' ∧ tokens f' = skim ks ∧
      (t.isNamed = true ↔ skim ks = ks)

theorem TrialEnd.of_name {type : Nat → Parser TypeExpr} {angles : Nat} {name : String} {t : TypeExpr}
    (h : Faces s (ofName name :: f)) (hlt : ¬ touchesWith (.operator .lt) f)
    (hrun : (typeBody type angles).run s = (.ok t, s')) : TrialEnd (ofName name :: f) t s' := by
  obtain ⟨hk, hc⟩ := h.name
  obtain ⟨start, span, t', s₁, hrun', hgrow⟩ :=
    typeBody_name type angles hk (hc.fragments.not_lt hc.owed hlt)
  obtain ⟨rfl, rfl⟩ : t = t' ∧ s' = s₁ := by simpa [hrun] using hrun'
  obtain ⟨f', hc', ht, hend⟩ := clear_of_grows hgrow hc
  refine .inr (.inr ⟨name, tokens f, f', rfl, hc', ht, ?_⟩)
  rcases hend with ⟨rfl, rfl⟩ | ⟨hne, hl⟩
  · simp [TypeExpr.isNamed, ← ht]
  · have : skim (tokens f) ≠ tokens f := by
      intro h
      rw [ht, h] at hl
      exact Nat.lt_irrefl _ hl
    simp [hne, this]

end Parser

end ElleFrontEnd
