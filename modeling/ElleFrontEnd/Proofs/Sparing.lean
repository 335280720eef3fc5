import ElleFrontEnd.Proofs.ReadDeclaration
import ElleFrontEnd.Proofs.TraitGrammar

/-!
# Reading makes progress

Every round of a block or of a program that another one follows has passed a token, so that the rounds come to an end
(`Loops`), and no more diagnostics are reported than there are tokens (`parsePartial_progress`).

A parser that goes on after a failure must not report the same place again and again.  `Spares s s'` says that, on the
way from `s` to `s'`, fewer diagnostics were recorded than tokens were passed, unless none was recorded at all.  So
there is a token to spare for the diagnostic that a parser may fail with at last.  This is a trait of the whole grammar:
the rounds of a block may spend that token as well (`Affords`), but the brace that opens the block pays for it.
-/

namespace ElleFrontEnd

variable {α β : Type}

namespace ParseState

/-- The tokens that are left to read and the diagnostics recorded so far, taken together. -/
def load (s : ParseState) : Nat := s.errors.length + s.rest.length

end ParseState

/-- From `s` to `s'`, fewer diagnostics were recorded than tokens passed, unless none was recorded. -/
structure Spares (s s' : ParseState) : Prop where
  rest_le : s'.rest.length ≤ s.rest.length
  errors : s'.errors.length = s.errors.length ∨ s'.load < s.load

/-- From `s` to `s'`, no more diagnostics were recorded than tokens passed. -/
structure Affords (s s' : ParseState) : Prop where
  rest_le : s'.rest.length ≤ s.rest.length
  load_le : s'.load ≤ s.load

namespace Spares

variable {s s₁ s' : ParseState}

theorem of_silent (hr : s'.rest.length ≤ s.rest.length) (he : s'.errors = s.errors) : Spares s s' :=
  ⟨hr, .inl (by rw [he])⟩

theorem refl (s : ParseState) : Spares s s := .of_silent (Nat.le_refl _) rfl

theorem trans (h : Spares s s₁) (h' : Spares s₁ s') : Spares s s' := by
  refine ⟨Nat.le_trans h'.rest_le h.rest_le, ?_⟩
  have hr := h.rest_le
  have hr' := h'.rest_le
  have he := h.errors
  have he' := h'.errors
  unfold ParseState.load at *
  omega

theorem affords (h : Spares s s') : Affords s s' := by
  refine ⟨h.rest_le, ?_⟩
  have hr := h.rest_le
  have he := h.errors
  unfold ParseState.load at *
  omega

/-- The token that opens a loop is to spare at its end. -/
theorem of_affords (h : Affords s₁ s') (he : s₁.errors = s.errors) (hr : s₁.rest.length < s.rest.length) :
    Spares s s' := by
  refine ⟨Nat.le_trans h.rest_le (Nat.le_of_lt hr), .inr ?_⟩
  have hload := h.load_le
  unfold ParseState.load at *
  rw [he] at hload
  omega

end Spares

namespace Affords

variable {s s₁ s' : ParseState}

theorem refl (s : ParseState) : Affords s s := (Spares.refl s).affords

theorem trans (h : Affords s s₁) (h' : Affords s₁ s') : Affords s s' :=
  ⟨Nat.le_trans h'.rest_le h.rest_le, Nat.le_trans h'.load_le h.load_le⟩

/-- A failure is recorded behind a part that spared a token for it, or before tokens that are skipped. -/
theorem record (h : Spares s s₁) (hr : s'.rest.length ≤ s₁.rest.length) (hlt : s'.rest.length < s.rest.length)
    (he : s'.errors.length = s₁.errors.length + 1) : Affords s s' := by
  refine ⟨Nat.le_of_lt hlt, ?_⟩
  have herrors := h.errors
  unfold ParseState.load at *
  omega

end Affords

namespace Parser

/-- The parser keeps a token to spare for what it may fail with. -/
def Sparing (p : Parser α) : Prop := ∀ s, Spares s (p s).2

/-- The parser records no more than it passes. -/
def Affording (p : Parser α) : Prop := ∀ s, Affords s (p s).2

namespace Sparing

variable {p : Parser α}

theorem bind {f : α → Parser β} (hp : Sparing p) (hf : ∀ a, Sparing (f a)) : Sparing (p >>= f) := by
  intro s
  change Spares s (andThen p f s).2
  have h := hp s
  unfold andThen
  rcases hs : p s with ⟨e | a, s'⟩ <;> rw [hs] at h
  · exact h
  · exact h.trans (hf a s')

theorem step {γ : Type} {l : ParseState → γ} {c : γ → Bool} {r : γ → Except Diagnostic α}
    (hp : ∀ s, p s = (r (l s), if c (l s) then s.advance else s)) : Sparing p := by
  intro s
  rw [hp]
  dsimp only
  split
  · exact .of_silent (Advances.advance s).length_le s.advance_errors
  · exact .refl s

theorem onError (f : Diagnostic → Diagnostic) (hp : Sparing p) : Sparing (Parser.onError f p) := by
  intro s
  have h := hp s
  unfold Parser.onError
  rcases hs : p s with ⟨e | a, s'⟩ <;> rw [hs] at h <;> exact h

/-- Giving up hands the tokens back, so nothing may have been recorded. -/
theorem attempt (hs : p.Silent) (hp : Sparing p) : Sparing (Parser.attempt p) := by
  intro s
  have h := hp s
  have he := hs s
  unfold Parser.attempt
  rcases hr : p s with ⟨e | a, s'⟩ <;> rw [hr] at h he
  · exact .of_silent (Nat.le_refl _) he
  · exact h

theorem sequential : Sequential @Sparing := ⟨fun _ => Spares.refl, bind⟩

end Sparing

/-- Keeping a token to spare is a trait. -/
def sparing : Trait where
  holds := Sparing
  done := fun _ => Spares.refl
  bind := Sparing.bind
  step := fun _ _ _ => Sparing.step
  owe := fun _ _ => .of_silent (Nat.le_refl _) rfl
  onError := Sparing.onError
  attempt := Sparing.attempt
  grow := fun hs a s => Sparing.sequential.growFor hs (s.peek :: s.rest) a s
  collect := fun hr s => Sparing.sequential.collectFor hr (s.peek :: s.rest) s

namespace Affording

theorem bind {p : Parser α} {f : α → Parser β} (hp : Affording p) (hf : ∀ a, Affording (f a)) :
    Affording (p >>= f) := by
  intro s
  change Affords s (andThen p f s).2
  have h := hp s
  unfold andThen
  rcases hs : p s with ⟨e | a, s'⟩ <;> rw [hs] at h
  · exact h
  · exact h.trans (hf a s')

/-- Rounds that record no more than they pass make a loop that does not either. -/
theorem sequential : Sequential @Affording := ⟨fun _ => Affords.refl, bind⟩

end Affording

/-! ### Blocks -/

section
variable {g : Inner} {o : ParseOptions} {s : ParseState}

/-- The ends of a round of a block: its closing brace, the end of the tokens, a stray semicolon, a statement, or a
statement that failed, which is recorded or handed on. -/
theorem blockRound_cases (o : ParseOptions) (g : Inner) (opened : Span) (s : ParseState) :
    (blockRound o g opened s).2 = s ∨ (blockRound o g opened s).2 = s.advance ∨
      (blockRound o g opened s).2 = (statement g s).2 ∨
        ∃ e s₁, (statement g).run s = (.error e, s₁) ∧
          (blockRound o g opened).run s = (.ok .none, toNextStatement { s₁ with errors := s₁.errors ++ [e] }) := by
  change ((blockRound o g opened).run s).2 = s ∨ ((blockRound o g opened).run s).2 = s.advance ∨
    ((blockRound o g opened).run s).2 = ((statement g).run s).2 ∨ _
  unfold blockRound
  simp only [acceptMark, atEnd, accept_bind, look_bind, ite_run]
  split
  · exact .inr (.inl rfl)
  simp only [Bool.false_eq_true, if_false]
  split
  · exact .inl rfl
  split
  · exact .inr (.inl rfl)
  refine .inr (.inr ?_)
  rcases hst : (statement g).run s with ⟨e | st, s₁⟩
  · rw [run_bind_of_ok (outcome_error.2 hst)]
    dsimp only
    rw [ite_run]
    split
    · exact .inr ⟨e, s₁, rfl, rfl⟩
    · exact .inl rfl
  · rw [run_bind_of_ok (outcome_ok.2 hst)]
    exact .inl rfl

/-- A round of a block records no more than it passes: behind a failure that has passed nothing, it skips a token. -/
theorem affording_blockRound (hg : g.Settled) (hs : sparing.Of g) (o : ParseOptions) (opened : Span) :
    Affording (blockRound o g opened) := by
  intro s
  rcases blockRound_cases o g opened s with h | h | h | ⟨e, s₁, hst, hrun⟩
  · rw [h]
    exact .refl s
  · rw [h]
    exact (Spares.of_silent (Advances.advance s).length_le s.advance_errors).affords
  · rw [h]
    exact (Trait.statement hs s).affords
  · have hspares : Spares s s₁ := by
      have := Trait.statement hs s
      rwa [show statement g s = (.error e, s₁) from hst] at this
    rw [show blockRound o g opened s = _ from hrun]
    refine .record hspares (length_skipStatement_le 0 s₁.last s₁.rest) ?_ (by simp [toNextStatement])
    exact (blockRound_shrinks hg o opened).2 _ _ hrun

/-- The brace that opens a block pays for what its rounds may spend. -/
theorem sparing_blockBody (hg : g.Settled) (hs : sparing.Of g) (o : ParseOptions) : Sparing (blockBody o g) := by
  intro s
  change Spares s ((blockBody o g).run s).2
  unfold blockBody
  by_cases hk : s.peek.kind = .punctuation .lBrace
  · have hopened : (expectMark .lBrace).run s = (.ok s.peek.span, s.advance) := expect_ok.2 ⟨hk, rfl, rfl⟩
    rw [run_bind_of_ok hopened]
    have hrounds : Affords s.advance ((collect (blockRound o g s.peek.span)).run s.advance).2 :=
      Affording.sequential.collectFor (affording_blockRound hg hs o _) _ _
    have hspares : Spares s ((collect (blockRound o g s.peek.span)).run s.advance).2 :=
      .of_affords hrounds s.advance_errors (length_advance_lt (by simp [hk]))
    rcases hrun : (collect (blockRound o g s.peek.span)).run s.advance with ⟨e | as, s₁⟩ <;> rw [hrun] at hspares
    · rw [run_bind_of_error hrun]
      exact hspares
    · rw [run_bind_of_ok hrun]
      exact hspares
  · have hfail : (expectMark .lBrace).run s = (unexpected (.punctuation .lBrace)).run s := if_neg hk
    rw [run_bind_of_error (hfail.trans rfl)]
    exact .refl s

theorem sparing_ofRoom (o : ParseOptions) (room : Nat) : sparing.Of (Inner.ofRoom o room) :=
  Trait.ofRoom o (fun room hs => sparing_blockBody (settled_ofRoom o room) hs o) room

end

/-! ### Programs -/

/-- Whether another round follows. -/
def Round.goesOn : Round α → Bool
  | .more _ | .none => true
  | .stop | .last _ => false

/-- Every round of a program ends with a result, and leaves room for what it has recorded.  Where another one follows,
it has recorded no more than it has passed. -/
theorem programRound_affords (o : ParseOptions) (s : ParseState) :
    ∃ r s', (programRound o).run s = (.ok r, s') ∧ s'.errors.length ≤ s.load ∧
      (r.goesOn = true → Affords s s') := by
  have hload {s' : ParseState} (h : Affords s s') : s'.errors.length ≤ s.load :=
    Nat.le_trans (Nat.le_add_right _ _) h.load_le
  cases he : s.atEnd with
  | true =>
    refine ⟨.stop, s, ?_, hload (.refl s), by simp [Round.goesOn]⟩
    unfold programRound atEnd
    rw [look_bind, he]
    rfl
  | false =>
    by_cases hk : s.peek.kind = .punctuation .semicolon
    · have hpass : Affords s s.advance :=
        (Spares.of_silent (Advances.advance s).length_le s.advance_errors).affords
      exact ⟨.none, s.advance, programRound_stray hk, hload hpass, fun _ => hpass⟩
    have hspares := Trait.declaration (sparing_ofRoom o o.maxDepth) s
    rcases hd : (declaration (Inner.ofRoom o o.maxDepth)).run s with ⟨e | d, s₁⟩ <;>
      rw [show declaration (Inner.ofRoom o o.maxDepth) s = _ from hd] at hspares
    · have hspares : Spares s s₁ := hspares
      have hround := programRound_error he hk hd
      have hspare : s₁.errors.length + 1 ≤ s.load := by
        have hne : s.peek.kind ≠ .eof := by
          intro hk
          simp [ParseState.atEnd, hk, TokenKind.isEof] at he
        have hlt := length_advance_lt hne
        have herrors := hspares.errors
        unfold ParseState.load at *
        omega
      split at hround
      · have hpass : Affords s (toNextDeclaration { s₁ with errors := s₁.errors ++ [e] }) :=
          .record hspares (length_skipDeclaration_le false 0 s₁.last s₁.rest)
            ((programRound_shrinks o).2 _ _ hround) (by simp [toNextDeclaration])
        exact ⟨_, _, hround, hload hpass, fun _ => hpass⟩
      · exact ⟨_, _, hround, by simpa using hspare, by simp [Round.goesOn]⟩
    · exact ⟨_, _, programRound_more.2 ⟨he, hk, hd⟩, hload hspares.affords, fun _ => hspares.affords⟩

theorem errors_collectFor_programRound (o : ParseOptions) (budget : List Token) (s : ParseState) :
    ((collectFor (programRound o) budget).run s).2.errors.length ≤ s.load := by
  induction budget generalizing s with
  | nil => exact Nat.le_add_right _ _
  | cons t budget ih =>
    obtain ⟨r, s₁, hround, hlast, hpass⟩ := programRound_affords o s
    unfold collectFor
    rw [run_bind_of_ok hround]
    cases r with
    | stop => exact hlast
    | last d => exact hlast
    | none => exact Nat.le_trans (ih s₁) (hpass rfl).load_le
    | more d =>
      have hbound := Nat.le_trans (ih s₁) (hpass rfl).load_le
      dsimp only
      rcases hrest : (collectFor (programRound o) budget).run s₁ with ⟨e | ds, s₂⟩ <;> rw [hrest] at hbound
      · rw [run_bind_of_error hrest]
        exact hbound
      · rw [run_bind_of_ok hrest]
        exact hbound

/-! ### Loops -/

/-- The end of a loop that runs as many rounds as it takes: with its items, or where a round fails. -/
inductive Loops (round : Parser (Round α)) : ParseState → Except Diagnostic (List α) → ParseState → Prop
  | stop {s s' : ParseState} : round.run s = (.ok .stop, s') → Loops round s (.ok []) s'
  | last {a : α} {s s' : ParseState} : round.run s = (.ok (.last a), s') → Loops round s (.ok [a]) s'
  | fails {e : Diagnostic} {s s' : ParseState} : round.run s = (.error e, s') → Loops round s (.error e) s'
  | more {a : α} {r : Except Diagnostic (List α)} {s s₁ s' : ParseState} : round.run s = (.ok (.more a), s₁) →
    Loops round s₁ r s' → Loops round s (r.map (a :: ·)) s'
  | none {r : Except Diagnostic (List α)} {s s₁ s' : ParseState} : round.run s = (.ok .none, s₁) →
    Loops round s₁ r s' → Loops round s r s'

/-- Where another round follows, the round has passed a token, and it never goes back. -/
def Progresses (round : Parser (Round α)) : Prop :=
  ∀ s r s', round.run s = (.ok r, s') → r.goesOn = true → ∃ t used, Passes s (t :: used) s'

theorem Progresses.of_shrinks {round : Parser (Round α)} (ha : ∀ s, Advances s (round s).2)
    (hr : RoundShrinks round) : Progresses round := by
  intro s r s' h hgo
  have hlt : s'.rest.length < s.rest.length := by
    cases r with
    | stop => simp [Round.goesOn] at hgo
    | last a => simp [Round.goesOn] at hgo
    | more a => exact hr.1 s a s' h
    | none => exact hr.2 s s' h
  obtain ⟨⟨used, hused⟩, -⟩ := advances_run ha h
  cases used with
  | nil =>
    have hrest : s.rest = s'.rest := hused.rest
    rw [hrest] at hlt
    exact absurd hlt (Nat.lt_irrefl _)
  | cons t used => exact ⟨t, used, hused⟩

theorem loops_collectFor {round : Parser (Round α)} (hr : RoundShrinks round) (budget : List Token) (s : ParseState)
    (hb : s.rest.length < budget.length) :
    Loops round s ((collectFor round budget).run s).1 ((collectFor round budget).run s).2 := by
  induction budget generalizing s with
  | nil => simp at hb
  | cons t budget ih =>
    rw [List.length_cons] at hb
    unfold collectFor
    rcases hround : round.run s with ⟨e | r, s₁⟩
    · rw [run_bind_of_error hround]
      exact .fails hround
    rw [run_bind_of_ok hround]
    cases r with
    | stop => exact .stop hround
    | last a => exact .last hround
    | none =>
      have hlt := hr.2 s s₁ hround
      exact .none hround (ih s₁ (by omega))
    | more a =>
      have hlt := hr.1 s a s₁ hround
      have hrest := ih s₁ (by omega)
      dsimp only
      rcases hl : (collectFor round budget).run s₁ with ⟨e | as, s₂⟩ <;> rw [hl] at hrest
      · rw [run_bind_of_error hl]
        exact .more hround hrest
      · rw [run_bind_of_ok hl]
        exact .more hround hrest

/-- A loop whose rounds progress is never cut short. -/
theorem loops_collect {round : Parser (Round α)} (hr : RoundShrinks round) (s : ParseState) :
    Loops round s ((collect round).run s).1 ((collect round).run s).2 :=
  loops_collectFor hr (s.peek :: s.rest) s (by simp)

end Parser

open ElleFrontEnd.Parser (Loops Progresses blockRound programRound collect collectFor run)

/-- Whatever the tokens and the options are, each round of a program and of every block passes a token or is the last
one, the loops come to an end without being cut short, and there are no more diagnostics than tokens. -/
theorem parsePartial_progress (tokens : List Token) (o : ParseOptions) :
    Progresses (programRound o) ∧
      (∀ room opened, Progresses (blockRound o (Inner.ofRoom o room) opened)) ∧
      (∃ s', Loops (programRound o) { rest := tokens } (.ok (parsePartial tokens o).1.declarations) s' ∧
        (parsePartial tokens o).2 = s'.errors) ∧
      (∀ room opened s, Loops (blockRound o (Inner.ofRoom o room) opened) s
        ((collect (blockRound o (Inner.ofRoom o room) opened)).run s).1
        ((collect (blockRound o (Inner.ofRoom o room) opened)).run s).2) ∧
      (parsePartial tokens o).2.length ≤ tokens.length := by
  have hg (room : Nat) : (Inner.ofRoom o room).Settled := settled_ofRoom o room
  have hblock (room : Nat) (opened : Span) : RoundShrinks (blockRound o (Inner.ofRoom o room) opened) :=
    Parser.blockRound_shrinks (hg room) o opened
  obtain ⟨ds, s', hrun⟩ := Parser.program_total o { rest := tokens }
  have hpartial : parsePartial tokens o = (⟨ds⟩, s'.errors) := by
    unfold parsePartial
    rw [show Parser.program o { rest := tokens } = _ from hrun]
  have hloops := Parser.loops_collect (Parser.programRound_shrinks o) { rest := tokens }
  have hbound :=
    Parser.errors_collectFor_programRound o (ParseState.peek { rest := tokens } :: tokens) { rest := tokens }
  rw [show (collect (programRound o)).run { rest := tokens } = _ from hrun] at hloops
  rw [show (collectFor (programRound o) (ParseState.peek { rest := tokens } :: tokens)).run { rest := tokens } = _
    from hrun] at hbound
  refine ⟨.of_shrinks (fun s => ?_) (Parser.programRound_shrinks o), fun room opened => .of_shrinks (fun s => ?_)
    (hblock room opened), ⟨s', ?_, ?_⟩, fun room opened s => Parser.loops_collect (hblock room opened) s, ?_⟩
  · exact Alike.advances (fun ts => Alike.programRound (.refl ts) o) s
  · exact Alike.advances (fun ts => Alike.blockRound (.refl ts) ((hg room).steady ts) o _ _) s
  · rw [hpartial]
    exact hloops
  · rw [hpartial]
  · rw [hpartial]
    simpa [ParseState.load] using hbound

end ElleFrontEnd
