import ElleFrontEnd.Proofs.Convey

/-!
# Types in another place

What a parser makes of some tokens should not depend on what stands behind them.  `graft` puts other tokens in the
place of those behind a stretch, and a type that is read within the stretch is read there as well (`graft_typeExpr`),
as long as it does not go on behind it.  It does not where the new tokens begin with a semicolon, or with the end of
the source (`Inert`).
-/

namespace ElleFrontEnd

open ElleFrontEnd.Parser (typeExpr typeArgs typeSuffix starRun bracketRun closeAngle)

/-! ### States -/

/-- The tokens begin with a semicolon, or with the end of the source. -/
def Inert (y : List Token) : Prop := ∀ t ∈ y.head?, t.kind = .punctuation .semicolon ∨ t.kind = .eof

namespace ParseState

/-- The state with other tokens in the place of the last `n`. -/
def graft (n : Nat) (y : List Token) (s : ParseState) : ParseState :=
  { s with rest := s.rest.take (s.rest.length - n) ++ y }

variable {n : Nat} {y : List Token} {s s' : ParseState}

@[simp] theorem graft_last : (s.graft n y).last = s.last := rfl

@[simp] theorem graft_owed : (s.graft n y).owed = s.owed := rfl

theorem graft_rest_cons {t : Token} {us : List Token} (hr : s.rest = t :: us) (h : n < s.rest.length) :
    (s.graft n y).rest = t :: (us.take (us.length - n) ++ y) := by
  rw [hr, List.length_cons] at h
  simp [graft, hr, show us.length + 1 - n = us.length - n + 1 by omega]

theorem graft_rest_append {us x : List Token} (hr : s.rest = us ++ x) (h : n ≤ x.length) :
    (s.graft n y).rest = us ++ (x.take (x.length - n) ++ y) := by
  unfold graft
  dsimp only
  rw [hr, List.length_append, show us.length + x.length - n = us.length + (x.length - n) by omega,
    List.take_length_add_append, List.append_assoc]

/-- Where nothing of the stretch is left, the new tokens are next. -/
theorem graft_rest_of_le (h : s.rest.length ≤ n) : (s.graft n y).rest = y := by
  simp [graft, Nat.sub_eq_zero_of_le h]

@[simp] theorem peek_graft (h : n < s.rest.length) : (s.graft n y).peek = s.peek := by
  obtain ⟨t, us, hr⟩ := List.exists_cons_of_length_pos (Nat.zero_lt_of_lt h)
  rw [peek_cons (graft_rest_cons hr h), peek_cons hr]

theorem advance_graft (h : n < s.rest.length) : (s.graft n y).advance = s.advance.graft n y := by
  obtain ⟨t, us, hr⟩ := List.exists_cons_of_length_pos (Nat.zero_lt_of_lt h)
  have hg := graft_rest_cons (y := y) hr h
  by_cases ht : t.kind = .eof
  · rw [advance_eof (by rw [peek_cons hg, ht]), advance_eof (by rw [peek_cons hr, ht])]
  · rw [advance_cons hg ht, advance_cons hr ht]
    rfl

theorem isAdjacent_graft (h : n < s.rest.length) : (s.graft n y).isAdjacent = s.isAdjacent := by
  simp [isAdjacent, h]

theorem kindAt_graft {i : Nat} (h : n + i < s.rest.length) : (s.graft n y).kindAt i = s.kindAt i := by
  unfold kindAt graft
  dsimp only
  rw [List.getElem?_append_left (by rw [List.length_take]; omega), List.getElem?_take_of_lt (by omega)]

theorem nextIsAdjacent_graft (h : n + 1 < s.rest.length) : (s.graft n y).nextIsAdjacent = s.nextIsAdjacent := by
  obtain ⟨t, us, hr⟩ := List.exists_cons_of_length_pos (Nat.zero_lt_of_lt h)
  rw [hr, List.length_cons] at h
  obtain ⟨u, vs, rfl⟩ := List.exists_cons_of_length_pos (show 0 < us.length by omega)
  rw [List.length_cons] at h
  unfold nextIsAdjacent
  rw [graft_rest_cons hr (by rw [hr]; simp only [List.length_cons]; omega), hr]
  simp [show vs.length + 1 - n = vs.length - n + 1 by omega]

/-- Behind a token, stretches end alike. -/
theorem spanFrom_graft (h : s.last.isSome = true) (start : Nat) : (s.graft n y).spanFrom start = s.spanFrom start := by
  obtain ⟨t, ht⟩ := Option.isSome_iff_exists.1 h
  simp [spanFrom, readStop, ht]

/-- Where nothing of the stretch is left, the next token ends an item or the source. -/
theorem peek_graft_of_le (hy : Inert y) (h : s.rest.length ≤ n) :
    (s.graft n y).peek.kind = .punctuation .semicolon ∨ (s.graft n y).peek.kind = .eof := by
  have hr := graft_rest_of_le (y := y) h
  cases y with
  | nil => exact .inr (by rw [peek, hr]; rfl)
  | cons t us => rw [peek_cons hr]; exact hy t rfl

theorem last_isSome_of_advances (h : Advances s s') (hs : s.last.isSome = true) : s'.last.isSome = true := by
  obtain ⟨⟨used, hu⟩, -⟩ := h
  simp [hu.last, Option.isSome_or, hs]

theorem last_isSome_of_lt (h : Advances s s') (hlt : s'.rest.length < s.rest.length) : s'.last.isSome = true := by
  obtain ⟨⟨used, hu⟩, -⟩ := h
  cases used with
  | nil => exact absurd hlt (by rw [hu.rest]; simp)
  | cons t used => simp [hu.last]

theorem last_isSome_advance (h : s.peek.kind ≠ .eof) : s.advance.last.isSome = true := by
  obtain ⟨us, hr⟩ := rest_of_peek h
  rw [advance_cons hr h]
  rfl

/-- Empty brackets are seen within the stretch, and none are where it ends. -/
theorem atBrackets_graft (hy : Inert y) (h : (s.graft n y).atBrackets) : s.atBrackets := by
  by_cases hlt : n < s.rest.length
  · refine ⟨by rw [← peek_graft hlt]; exact h.1, ?_⟩
    by_cases hlt₁ : n + 1 < s.rest.length
    · rw [← kindAt_graft hlt₁]
      exact h.2
    · have hnext : (s.graft n y).advance.peek.kind = .punctuation .rBracket := by
        have hk : (s.graft n y).peek.kind ≠ .eof := by simp [h.1]
        rw [← kindAt_one hk]
        exact h.2
      have hlen : s.advance.rest.length ≤ n := by
        have := Parser.length_advance_lt (s := s) (by rw [← peek_graft (y := y) hlt]; simp [h.1])
        omega
      rw [advance_graft hlt] at hnext
      rcases peek_graft_of_le hy hlen with hk | hk <;> rw [hk] at hnext <;> cases hnext
  · rcases peek_graft_of_le hy (Nat.le_of_not_lt hlt) with hk | hk <;> rw [h.1] at hk <;> cases hk

theorem graft_atBrackets (h : n + 1 < s.rest.length) : (s.graft n y).atBrackets ↔ s.atBrackets := by
  unfold atBrackets
  rw [peek_graft (by omega), kindAt_graft h]

end ParseState

/-! ### Types -/

/-- A type that begins at `s` and ends at `s'` does not go on there with the other tokens behind the stretch. -/
structure Calm (n : Nat) (y : List Token) (s s' : ParseState) : Prop where
  within : n ≤ s'.rest.length
  star : s'.owed = 0 → s'.peek.kind ≠ .operator .star → (s'.graft n y).peek.kind ≠ .operator .star
  brackets : s'.owed = 0 → ¬ s'.atBrackets → ¬ (s'.graft n y).atBrackets
  args : n < s'.rest.length ∨ 0 < s'.owed ∧ s.owed = 0 ∨ (s'.graft n y).peek.kind ≠ .operator .lt

namespace Calm

variable {n : Nat} {y : List Token} {s s' : ParseState}

/-- Within the stretch, a type goes on at brackets only. -/
theorem before (h : n < s'.rest.length) (hk : s'.peek.kind ≠ .punctuation .lBracket) : Calm n y s s' where
  within := Nat.le_of_lt h
  star _ hs := by rwa [ParseState.peek_graft h]
  brackets _ _ hb := hk (by rw [← ParseState.peek_graft h]; exact hb.1)
  args := .inl h

theorem inert (hy : Inert y) (hn : n ≤ s'.rest.length) : Calm n y s s' where
  within := hn
  star _ hs := by
    rcases Nat.lt_or_eq_of_le hn with h | h
    · rwa [ParseState.peek_graft h]
    · rcases ParseState.peek_graft_of_le hy (Nat.le_of_eq h.symm) with hk | hk <;> simp [hk]
  brackets _ hs hb := hs (ParseState.atBrackets_graft hy hb)
  args := by
    rcases Nat.lt_or_eq_of_le hn with h | h
    · exact .inl h
    · refine .inr (.inr ?_)
      rcases ParseState.peek_graft_of_le hy (Nat.le_of_eq h.symm) with hk | hk <;> simp [hk]

end Calm

namespace Parser

variable {n : Nat} {y : List Token} {s s' : ParseState}

/-- A run of one step after another is the same in another place, if it ends where it did. -/
theorem stepped_graft {p : ParseState → Prop} {move : ParseState → ParseState} {k : Nat}
    (hmove : ∀ s, p s → n ≤ (move s).rest.length → p (s.graft n y) ∧ move (s.graft n y) = (move s).graft n y)
    (hlen : ∀ s, p s → (move s).rest.length < s.rest.length) (h : Stepped p move k s s') (hn : n ≤ s'.rest.length)
    (hstop : ¬ p s' → ¬ p (s'.graft n y)) : Stepped p move k (s.graft n y) (s'.graft n y) := by
  induction h with
  | stop hs => exact .stop (hstop hs)
  | next hs h ih =>
    have hle := stepped_length hlen h
    obtain ⟨hs', heq⟩ := hmove _ hs (by omega)
    exact .next hs' (heq ▸ ih hn hstop)

theorem starRun_graft {k : Nat} (h : starRun.run s = (.ok k, s')) (hn : n ≤ s'.rest.length)
    (hstop : s'.peek.kind ≠ .operator .star → (s'.graft n y).peek.kind ≠ .operator .star) :
    starRun.run (s.graft n y) = (.ok k, s'.graft n y) := by
  have hlen (s : ParseState) (hk : s.peek.kind = .operator .star) : s.advance.rest.length < s.rest.length :=
    length_advance_lt (by simp [hk])
  refine starRun_ok.2 (stepped_graft (fun s hk hle => ?_) hlen (starRun_ok.1 h) hn hstop)
  have hlt := Nat.lt_of_le_of_lt hle (hlen s hk)
  exact ⟨by rwa [ParseState.peek_graft hlt], ParseState.advance_graft hlt⟩

/-- A pair of brackets that is passed within the stretch is seen there. -/
theorem brackets_graft (h : s.atBrackets) (hn : n ≤ s.advance.advance.rest.length) :
    (s.graft n y).atBrackets ∧ (s.graft n y).advance.advance = s.advance.advance.graft n y := by
  have hclose : s.advance.peek.kind = .punctuation .rBracket := by
    rw [← ParseState.kindAt_one (by simp [h.1])]
    exact h.2
  have hlt₁ := Nat.lt_of_le_of_lt hn (length_advance_lt (s := s.advance) (by simp [hclose]))
  have hlt : n + 1 < s.rest.length := Nat.lt_of_le_of_lt hlt₁ (length_advance_lt (s := s) (by simp [h.1]))
  refine ⟨(ParseState.graft_atBrackets hlt).2 h, ?_⟩
  rw [ParseState.advance_graft (Nat.lt_of_succ_lt hlt), ParseState.advance_graft hlt₁]

theorem bracketRun_graft {k : Nat} (h : bracketRun.run s = (.ok k, s')) (hn : n ≤ s'.rest.length)
    (hstop : ¬ s'.atBrackets → ¬ (s'.graft n y).atBrackets) :
    bracketRun.run (s.graft n y) = (.ok k, s'.graft n y) :=
  bracketRun_ok.2 (stepped_graft (fun _ => brackets_graft) (fun _ => length_advance_brackets) (bracketRun_ok.1 h) hn
    hstop)

theorem advances_typeSuffix {start : Nat} {t : TypeExpr} {o : Option TypeExpr}
    (h : (typeSuffix start t).run s = (.ok o, s')) : Advances s s' :=
  advances_run (fun s => Alike.advances (fun us => Alike.typeSuffix (.refl us) start start rfl) s) h

theorem advances_of_grows {α : Type} {step : α → Parser (Option α)} {a a' : α}
    (hstep : ∀ a s o s', (step a).run s = (.ok o, s') → Advances s s') (h : Grows step a s a' s') : Advances s s' := by
  induction h with
  | stop h => exact hstep _ _ _ _ h
  | next h _ ih => exact (hstep _ _ _ _ h).trans ih

theorem typeSuffix_graft {start : Nat} {t t' : TypeExpr} (h : (typeSuffix start t).run s = (.ok (some t'), s'))
    (hs : s.last.isSome = true) (hn : n ≤ s'.rest.length)
    (hstar : s'.peek.kind ≠ .operator .star → (s'.graft n y).peek.kind ≠ .operator .star)
    (hbrackets : ¬ s'.atBrackets → ¬ (s'.graft n y).atBrackets) :
    (typeSuffix start t).run (s.graft n y) = (.ok (some t'), s'.graft n y) := by
  have hlt := Nat.lt_of_le_of_lt hn (typeSuffix_shrinks start t s t' s' h)
  have hlast := ParseState.last_isSome_of_advances (advances_typeSuffix h) hs
  obtain ⟨ho, ⟨hk, k, hrun, rfl⟩ | ⟨hk, hb, k, hrun, rfl⟩⟩ := typeSuffix_some.1 h
  · refine typeSuffix_some.2 ⟨ho, .inl ⟨by rwa [ParseState.peek_graft hlt], k, starRun_graft hrun hn hstar, ?_⟩⟩
    rw [ParseState.spanFrom_graft hlast]
  · have hb' : (s.graft n y).atBrackets := by
      cases bracketRun_ok.1 hrun with
      | stop hstop => exact absurd hb hstop
      | next _ hrest =>
        have := stepped_length (fun _ => length_advance_brackets) hrest
        exact (brackets_graft hb (by omega)).1
    refine typeSuffix_some.2 ⟨ho, .inr ⟨by rwa [ParseState.peek_graft hlt], hb', k, bracketRun_graft hrun hn hbrackets,
      ?_⟩⟩
    rw [ParseState.spanFrom_graft hlast]

/-- The runs of `*` and `[]` behind a type are the same in another place. -/
theorem suffixes_graft {start : Nat} {t t' : TypeExpr} (h : Grows (typeSuffix start) t s t' s')
    (hs : s.last.isSome = true) (hn : n ≤ s'.rest.length)
    (hstar : s'.owed = 0 → s'.peek.kind ≠ .operator .star → (s'.graft n y).peek.kind ≠ .operator .star)
    (hbrackets : s'.owed = 0 → ¬ s'.atBrackets → ¬ (s'.graft n y).atBrackets) :
    Grows (typeSuffix start) t (s.graft n y) t' (s'.graft n y) := by
  induction h with
  | @stop t s s' h =>
    obtain ⟨hend, rfl⟩ := typeSuffix_none.1 h
    refine .stop (typeSuffix_none.2 ⟨?_, rfl⟩)
    by_cases ho : s.owed = 0
    · obtain ⟨hk, hb⟩ := hend.resolve_left (by omega)
      exact .inr ⟨hstar ho hk, hbrackets ho hb⟩
    · exact .inl (Nat.pos_of_ne_zero ho)
  | @next t t₁ t' s s₁ s' h hrest ih =>
    have hlast := ParseState.last_isSome_of_advances (advances_typeSuffix h) hs
    have hle : s'.rest.length ≤ s₁.rest.length := (advances_of_grows (fun _ _ _ _ => advances_typeSuffix) hrest).length_le
    have ho : s₁.owed = 0 := by
      rw [← owed_of_grows hrest, owed_of_grows (.next h hrest)]
      exact (typeSuffix_some.1 h).1
    -- behind this run stands the end, or a run of the other kind
    have hend : (s₁.peek.kind ≠ .operator .star → (s₁.graft n y).peek.kind ≠ .operator .star) ∧
        (¬ s₁.atBrackets → ¬ (s₁.graft n y).atBrackets) := by
      cases hrest with
      | stop h' =>
        obtain ⟨-, rfl⟩ := typeSuffix_none.1 h'
        exact ⟨hstar ho, hbrackets ho⟩
      | next h' hrest' =>
        have hle' := (advances_of_grows (fun _ _ _ _ => advances_typeSuffix) hrest').length_le
        have hlt := Nat.lt_of_le_of_lt (Nat.le_trans hn hle') (typeSuffix_shrinks start _ _ _ _ h')
        refine ⟨fun hk => by rwa [ParseState.peek_graft hlt], fun hb hb' => ?_⟩
        obtain ⟨-, ⟨hk, -⟩ | ⟨-, hb₁, -⟩⟩ := typeSuffix_some.1 h'
        · rw [← ParseState.peek_graft (y := y) hlt, hb'.1] at hk
          cases hk
        · exact hb hb₁
    exact .next (typeSuffix_graft h hs (Nat.le_trans hn hle) hend.1 hend.2) (ih hlast hn hstar hbrackets)

/-- Behind a type that begins at `s` and ends at `s'`, no `<` opens type arguments. -/
def NoArgs (n : Nat) (y : List Token) (s s' : ParseState) : Prop :=
  n < s'.rest.length ∨ 0 < s'.owed ∧ s.owed = 0 ∨ (s'.graft n y).peek.kind ≠ .operator .lt

theorem closeAngle_graft {angles : Nat} (h : (closeAngle angles).run s = (.ok (), s')) (hn : n ≤ s'.rest.length) :
    (closeAngle angles).run (s.graft n y) = (.ok (), s'.graft n y) := by
  have hlt {k : TokenKind} (hk : s.peek.kind = k) (he : k ≠ .eof) (hn : n ≤ s.advance.rest.length) :
      n < s.rest.length := Nat.lt_of_le_of_lt hn (length_advance_lt (hk ▸ he))
  rcases closeAngle_ok.1 h with ⟨ho, rfl⟩ | ⟨ho, hk, rfl⟩ | ⟨ho, ha, hk, rfl⟩
  · exact closeAngle_ok.2 (.inl ⟨ho, rfl⟩)
  · have hlt := hlt hk (by simp) hn
    refine closeAngle_ok.2 (.inr (.inl ⟨ho, by rwa [ParseState.peek_graft hlt], ?_⟩))
    rw [ParseState.advance_graft hlt]
  · have hlt := hlt hk (by simp) hn
    refine closeAngle_ok.2 (.inr (.inr ⟨ho, ha, by rwa [ParseState.peek_graft hlt], ?_⟩))
    rw [ParseState.advance_graft hlt]
    rfl

section

variable {type : Nat → Parser TypeExpr} {angles start : Nat} (ha : ∀ angles s, Advances s (type angles s).2)
  (ht : ∀ ⦃angles s t s'⦄, Calm n y s s' → (type angles).run s = (.ok t, s') →
    (type angles).run (s.graft n y) = (.ok t, s'.graft n y))
include ha ht

theorem typeList_graft {args : List TypeExpr} (h : Listed (fun _ => False) separatesArgs (type angles) s args s')
    (hend : 0 < s'.owed ∨ n < s'.rest.length)
    (hcalm : ∀ s₀ : ParseState, (s.owed = 0 → s₀.owed = 0) → Calm n y s₀ s') :
    Listed (fun _ => False) separatesArgs (type angles) (s.graft n y) args (s'.graft n y) := by
  induction h with
  | nil h => exact h.elim
  | last _ h hsep =>
    refine .last id (ht (hcalm _ id) h) fun hsep' => ?_
    rcases hend with ho | hlt
    · exact absurd hsep'.1 (Nat.ne_of_gt ho)
    · exact hsep ⟨hsep'.1, by rw [← ParseState.peek_graft hlt]; exact hsep'.2⟩
  | @more t args s s₁ s' _ h hsep hrest ih =>
    have hle := (advances_of_listed (ha angles) hrest).length_le
    have hlt : n < s₁.rest.length := by
      have := (hcalm s fun ho => ho).within
      have := length_advance_lt (s := s₁) (by simp [hsep.2])
      omega
    have ho : s₁.advance.owed = 0 := (ParseState.advance_owed _).trans hsep.1
    refine .more id (ht (.before hlt (by simp [hsep.2])) h) ⟨hsep.1, by rw [ParseState.peek_graft hlt, hsep.2]⟩ ?_
    rw [ParseState.advance_graft hlt]
    exact ih hend fun s₀ hs₀ => hcalm s₀ fun _ => hs₀ ho

omit ht in
/-- An argument list has at least a first token. -/
theorem advances_typeArgs {args : List TypeExpr} (h : (typeArgs type angles).run s = (.ok args, s')) :
    s.peek.kind ≠ .eof ∧ Advances s.advance s' := by
  obtain ⟨hk, s₁, hl, hc⟩ := (typeArgs_ok ha).1 h
  have hclose : Advances s₁ s' := advances_run (fun s => Alike.advances (fun us => Alike.closeAngle (.refl us) _) s) hc
  exact ⟨by simp [hk], (advances_of_listed (ha _) hl).trans hclose⟩

theorem typeArgs_graft {args : List TypeExpr} (h : (typeArgs type angles).run s = (.ok args, s'))
    (hn : n ≤ s'.rest.length) (hargs : NoArgs n y s s') :
    (typeArgs type angles).run (s.graft n y) = (.ok args, s'.graft n y) := by
  obtain ⟨hk, s₁, hl, hc⟩ := (typeArgs_ok ha).1 h
  obtain ⟨he, hadv⟩ := advances_typeArgs ha h
  have hlt : n < s.rest.length := Nat.lt_of_le_of_lt (Nat.le_trans hn hadv.length_le) (length_advance_lt he)
  refine (typeArgs_ok ha).2 ⟨by rwa [ParseState.peek_graft hlt], s₁.graft n y, ?_, closeAngle_graft hc hn⟩
  rw [ParseState.advance_graft hlt]
  have hpassed {k : TokenKind} (hk : s₁.peek.kind = k) (he : k ≠ .eof) (hn : n ≤ s₁.advance.rest.length) :
      n < s₁.rest.length := Nat.lt_of_le_of_lt hn (length_advance_lt (hk ▸ he))
  rcases closeAngle_ok.1 hc with ⟨ho, rfl⟩ | ⟨-, hk₁, rfl⟩ | ⟨-, -, hk₁, rfl⟩
  · refine typeList_graft ha ht hl (.inl ho) fun s₀ hs₀ =>
      ⟨hn, fun h => absurd h (Nat.ne_of_gt ho), fun h => absurd h (Nat.ne_of_gt ho), ?_⟩
    rcases hargs with hlt | ⟨-, hzero⟩ | hk
    · exact .inl hlt
    · exact .inr (.inl ⟨ho, hs₀ ((ParseState.advance_owed _).trans hzero)⟩)
    · exact .inr (.inr hk)
  · have hlt₁ := hpassed hk₁ (by simp) hn
    exact typeList_graft ha ht hl (.inr hlt₁) fun _ _ => .before hlt₁ (by simp [hk₁])
  · have hlt₁ := hpassed hk₁ (by simp) hn
    exact typeList_graft ha ht hl (.inr hlt₁) fun _ _ => .before hlt₁ (by simp [hk₁])

omit ht in
/-- A type has at least a first token. -/
theorem advances_baseType {t : TypeExpr} (h : (baseType type angles start).run s = (.ok t, s')) :
    s.peek.kind ≠ .eof ∧ Advances s.advance s' := by
  rcases baseType_ok.1 h with ⟨p, hk, rfl, -⟩ | ⟨name, hk, h⟩ | ⟨hk, h⟩
  · exact ⟨by simp [hk], .refl _⟩
  · rcases namedType_ok.1 h with ⟨-, -, args, hrun, -⟩ | ⟨-, rfl, -⟩
    · exact ⟨by simp [hk], (Advances.advance _).trans (advances_typeArgs ha hrun).2⟩
    · exact ⟨by simp [hk], .refl _⟩
  · obtain ⟨first, s₁, second, s₂, h₁, -, h₂, -, rfl, -⟩ := tupleType_ok.1 h
    exact ⟨by simp [hk], (advances_run (ha angles) h₁).trans ((Advances.advance s₁).trans
      ((advances_run (ha angles) h₂).trans (.advance s₂)))⟩

theorem baseType_graft {t : TypeExpr} (h : (baseType type angles start).run s = (.ok t, s')) (hn : n ≤ s'.rest.length)
    (hargs : NoArgs n y s s') : (baseType type angles start).run (s.graft n y) = (.ok t, s'.graft n y) := by
  obtain ⟨he, hadv⟩ := advances_baseType ha h
  have hlt : n < s.rest.length := Nat.lt_of_le_of_lt (Nat.le_trans hn hadv.length_le) (length_advance_lt he)
  have hlast : s.advance.last.isSome = true := ParseState.last_isSome_advance he
  have hlast' : s'.last.isSome = true := ParseState.last_isSome_of_advances hadv hlast
  refine baseType_ok.2 ?_
  rcases baseType_ok.1 h with ⟨p, hk, rfl, rfl⟩ | ⟨name, hk, h⟩ | ⟨hk, h⟩
  · refine .inl ⟨p, by rwa [ParseState.peek_graft hlt], (ParseState.advance_graft hlt).symm, ?_⟩
    rw [ParseState.spanFrom_graft hlast]
  · refine .inr (.inl ⟨name, by rwa [ParseState.peek_graft hlt], namedType_ok.2 ?_⟩)
    rw [ParseState.advance_graft hlt]
    rcases namedType_ok.1 h with ⟨hk₁, hadj, args, hrun, rfl⟩ | ⟨hno, rfl, rfl⟩
    · obtain ⟨he₁, hadv₁⟩ := advances_typeArgs ha hrun
      have hlt₁ : n < s.advance.rest.length :=
        Nat.lt_of_le_of_lt (Nat.le_trans hn hadv₁.length_le) (length_advance_lt he₁)
      refine .inl ⟨by rwa [ParseState.peek_graft hlt₁], by rwa [ParseState.isAdjacent_graft hlt₁], args,
        typeArgs_graft ha ht hrun hn (by rwa [NoArgs, ParseState.advance_owed]), ?_⟩
      rw [ParseState.spanFrom_graft hlast']
    · refine .inr ⟨fun hopen => ?_, rfl, by rw [ParseState.spanFrom_graft hlast]⟩
      rcases hargs with hlt' | ⟨ho, hzero⟩ | hne
      · rw [ParseState.peek_graft hlt', ParseState.isAdjacent_graft hlt'] at hopen
        exact hno hopen
      · exact absurd ((ParseState.advance_owed _).trans hzero) (Nat.ne_of_gt ho)
      · exact hne hopen.1
  · obtain ⟨first, s₁, second, s₂, h₁, hcomma, h₂, hclose, rfl, rfl⟩ := tupleType_ok.1 h
    have hlt₂ : n < s₂.rest.length := Nat.lt_of_le_of_lt hn (length_advance_lt (by simp [hclose]))
    have hlt₁ : n < s₁.rest.length := by
      have := (advances_run (ha angles) h₂).length_le
      have := length_advance_lt (s := s₁) (by simp [hcomma])
      omega
    refine .inr (.inr ⟨by rwa [ParseState.peek_graft hlt], tupleType_ok.2 ⟨first, s₁.graft n y, second, s₂.graft n y,
      ?_, by rwa [ParseState.peek_graft hlt₁], ?_, by rwa [ParseState.peek_graft hlt₂],
      (ParseState.advance_graft hlt₂).symm, by rw [ParseState.spanFrom_graft hlast']⟩⟩)
    · rw [ParseState.advance_graft hlt]
      exact ht (.before hlt₁ (by simp [hcomma])) h₁
    · rw [ParseState.advance_graft hlt₁]
      exact ht (.before hlt₂ (by simp [hclose])) h₂

theorem typeBody_graft {t : TypeExpr} (hcalm : Calm n y s s') (h : (typeBody type angles).run s = (.ok t, s')) :
    (typeBody type angles).run (s.graft n y) = (.ok t, s'.graft n y) := by
  obtain ⟨base, s₁, hb, hgrow⟩ := typeBody_ok.1 h
  obtain ⟨he, hadv⟩ := advances_baseType ha hb
  have hle := (advances_of_grows (fun _ _ _ _ => advances_typeSuffix) hgrow).length_le
  have hn : n ≤ s₁.rest.length := Nat.le_trans hcalm.within hle
  have hlt : n < s.rest.length := Nat.lt_of_le_of_lt (Nat.le_trans hn hadv.length_le) (length_advance_lt he)
  have hlast := ParseState.last_isSome_of_advances hadv (ParseState.last_isSome_advance he)
  have hargs : NoArgs n y s s₁ := by
    cases hgrow with
    | stop h => exact (typeSuffix_none.1 h).2 ▸ hcalm.args
    | next h h' =>
      have := (advances_of_grows (fun _ _ _ _ => advances_typeSuffix) h').length_le
      have := typeSuffix_shrinks _ _ _ _ _ h
      have := hcalm.within
      exact .inl (by omega)
  refine typeBody_ok.2 ⟨base, s₁.graft n y, ?_, ?_⟩ <;> rw [ParseState.peek_graft hlt]
  · exact baseType_graft ha ht hb hn hargs
  · exact suffixes_graft hgrow hlast hcalm.within hcalm.star hcalm.brackets

end

/-- A type that does not go on behind the stretch where it was read is read in another place. -/
theorem graft_typeExpr {limit room angles : Nat} {t : TypeExpr} (hcalm : Calm n y s s')
    (h : (typeExpr limit room angles).run s = (.ok t, s')) :
    (typeExpr limit room angles).run (s.graft n y) = (.ok t, s'.graft n y) := by
  induction room generalizing angles s t s' with
  | zero => exact absurd (tooDeep_ok.1 h) id
  | succ room ih => exact typeBody_graft (advances_typeExpr limit room) (fun _ _ _ _ hcalm h => ih hcalm h) hcalm h

theorem length_of_typeExpr {limit room angles : Nat} {t : TypeExpr}
    (h : (typeExpr limit room angles).run s = (.ok t, s')) : s'.rest.length < s.rest.length := by
  cases room with
  | zero => exact absurd (tooDeep_ok.1 h) id
  | succ room =>
    obtain ⟨base, s₁, hb, hgrow⟩ := typeBody_ok.1 h
    obtain ⟨he, hadv⟩ := advances_baseType (advances_typeExpr limit room) hb
    have hle := (hadv.trans (advances_of_grows (fun _ _ _ _ => advances_typeSuffix) hgrow)).length_le
    exact Nat.lt_of_le_of_lt hle (length_advance_lt he)

end Parser

end ElleFrontEnd
