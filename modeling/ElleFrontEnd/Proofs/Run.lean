import ElleFrontEnd.Proofs.Progress
import Mathlib.Logic.Basic
import Mathlib.Tactic.Tauto

/-!
# What a successful run is made of

A parser that succeeds has run through its parts one by one.  The lemmas of this module say so for each way of putting
parsers together, as equations and equivalences that `simp` can use: a successful run of the whole is a successful run
of each part, from the place where the one before ended.

A repetition is described without its budget: `Grows` and `Collects` list the rounds of a run.
-/

namespace ElleFrontEnd

variable {α β : Type} {s s' : ParseState}

namespace Parser

/-- The run of a parser from a state. -/
def run (p : Parser α) (s : ParseState) : Except Diagnostic α × ParseState := p s

@[simp] theorem bind_ok {p : Parser α} {f : α → Parser β} {b : β} :
    (p >>= f).run s = (.ok b, s') ↔ ∃ a s₁, p.run s = (.ok a, s₁) ∧ (f a).run s₁ = (.ok b, s') := by
  change andThen p f s = _ ↔ ∃ a s₁, p s = _ ∧ _
  unfold andThen
  rcases p s with ⟨e | a, s₁⟩
  · simp
  · constructor
    · intro h
      exact ⟨a, s₁, rfl, h⟩
    · rintro ⟨_, _, h, h'⟩
      cases h
      exact h'

/-- Behind a part that succeeds, the run is that of what follows. -/
theorem run_bind_of_ok {p : Parser α} {f : α → Parser β} {a : α} (h : p.run s = (.ok a, s')) :
    (p >>= f).run s = (f a).run s' := by
  change andThen p f s = _
  unfold andThen
  rw [show p s = (.ok a, s') from h]
  rfl

/-- A part that fails is the end of the run. -/
theorem run_bind_of_error {p : Parser α} {f : α → Parser β} {e : Diagnostic} (h : p.run s = (.error e, s')) :
    (p >>= f).run s = (.error e, s') := by
  change andThen p f s = _
  unfold andThen
  rw [show p s = (.error e, s') from h]

@[simp] theorem pure_ok {a b : α} : (pure a : Parser α).run s = (.ok b, s') ↔ a = b ∧ s = s' := by
  change (Except.ok a, s) = _ ↔ _
  simp

@[simp] theorem pure_bind_run (a : α) (f : α → Parser β) : ((pure a : Parser α) >>= f).run s = (f a).run s := (rfl)

theorem bind_pure_run (p : Parser α) (s : ParseState) : (p >>= pure).run s = p.run s := by
  change andThen p _ s = p s
  unfold andThen
  rcases p s with ⟨e | a, s₁⟩ <;> rfl

@[simp] theorem look_run (f : ParseState → α) : (look f).run s = (.ok (f s), s) := rfl

@[simp] theorem look_bind (l : ParseState → α) (f : α → Parser β) : (look l >>= f).run s = (f (l s)).run s := (rfl)

@[simp] theorem change_run (c : ParseState → ParseState) : (change c).run s = (.ok (), c s) := rfl

@[simp] theorem change_bind (c : ParseState → ParseState) (f : Unit → Parser β) :
    (change c >>= f).run s = (f ()).run (c s) := (rfl)

@[simp] theorem skip_bind (f : Span → Parser β) : (skip >>= f).run s = (f s.peek.span).run s.advance := (rfl)

@[simp] theorem ite_run (c : Prop) [Decidable c] (p q : Parser α) :
    (if c then p else q).run s = if c then p.run s else q.run s := by
  split <;> rfl

@[simp] theorem fail_ok {e : Diagnostic} {a : α} : (fail e).run s = (.ok a, s') ↔ False := by
  simp [fail, run]

@[simp] theorem unexpected_ok {wanted : Expected} {a : α} : (unexpected wanted).run s = (.ok a, s') ↔ False := by
  simp [unexpected, run]

/-! ### Tokens -/

@[simp] theorem accept_run (kind : TokenKind) :
    (accept kind).run s = if s.peek.kind = kind then (.ok true, s.advance) else (.ok false, s) := rfl

@[simp] theorem accept_bind (kind : TokenKind) (f : Bool → Parser β) :
    (accept kind >>= f).run s = if s.peek.kind = kind then (f true).run s.advance else (f false).run s := by
  change andThen (accept kind) f s = _
  unfold andThen accept
  by_cases h : s.peek.kind = kind
  · simp only [if_pos h]
    rfl
  · simp only [if_neg h]
    rfl

@[simp] theorem expect_ok {kind : TokenKind} {wanted : Expected} {span : Span} :
    (expect kind wanted).run s = (.ok span, s') ↔ s.peek.kind = kind ∧ s.peek.span = span ∧ s.advance = s' := by
  unfold run expect
  split <;> simp_all [unexpected]

@[simp] theorem identifier_ok {name : String} :
    identifier.run s = (.ok name, s') ↔ s.peek.kind = .ident name ∧ s.advance = s' := by
  unfold run identifier
  split <;> simp_all [unexpected]

@[simp] theorem semicolon_ok {u : Unit} :
    semicolon.run s = (.ok u, s') ↔ s.peek.kind = .punctuation .semicolon ∧ s.advance = s' := by
  unfold run semicolon
  split <;> simp_all

@[simp] theorem closing_ok {close : Punctuation} {opened : Span} {u : Unit} :
    (closing close opened).run s = (.ok u, s') ↔ s.peek.kind = .punctuation close ∧ s.advance = s' := by
  unfold run closing
  dsimp only
  by_cases h : s.peek.kind = .punctuation close
  · simp [h]
  · rw [if_neg h]
    split <;> split <;> simp_all [unexpected]

@[simp] theorem semicolon_bind {f : Unit → Parser β} {b : β} :
    (semicolon >>= f).run s = (.ok b, s') ↔
      s.peek.kind = .punctuation .semicolon ∧ (f ()).run s.advance = (.ok b, s') := by
  rw [bind_ok]
  constructor
  · rintro ⟨_, _, h, h'⟩
    obtain ⟨hk, rfl⟩ := semicolon_ok.1 h
    exact ⟨hk, h'⟩
  · rintro ⟨hk, h⟩
    exact ⟨(), _, semicolon_ok.2 ⟨hk, rfl⟩, h⟩

@[simp] theorem closing_bind {close : Punctuation} {opened : Span} {f : Unit → Parser β} {b : β} :
    (closing close opened >>= f).run s = (.ok b, s') ↔
      s.peek.kind = .punctuation close ∧ (f ()).run s.advance = (.ok b, s') := by
  rw [bind_ok]
  constructor
  · rintro ⟨_, _, h, h'⟩
    obtain ⟨hk, rfl⟩ := closing_ok.1 h
    exact ⟨hk, h'⟩
  · rintro ⟨hk, h⟩
    exact ⟨(), _, closing_ok.2 ⟨hk, rfl⟩, h⟩

@[simp] theorem onError_ok {f : Diagnostic → Diagnostic} {p : Parser α} {a : α} :
    (onError f p).run s = (.ok a, s') ↔ p.run s = (.ok a, s') := by
  unfold run onError
  rcases p s with ⟨e | a, s₁⟩ <;> simp

@[simp] theorem attempt_some {p : Parser α} {a : α} :
    (attempt p).run s = (.ok (some a), s') ↔ p.run s = (.ok a, s') := by
  unfold run attempt
  rcases p s with ⟨e | a, s₁⟩ <;> simp

@[simp] theorem attempt_none {p : Parser α} :
    (attempt p).run s = (.ok none, s') ↔ ∃ e s₁, p.run s = (.error e, s₁) ∧ s₁.rewindTo s = s' := by
  unfold run attempt
  rcases p s with ⟨e | a, s₁⟩
  · constructor
    · intro h
      exact ⟨e, s₁, rfl, by simpa using h⟩
    · rintro ⟨_, _, h, rfl⟩
      cases h
      rfl
  · simp

theorem attempt_run {p : Parser α} :
    (attempt p).run s = match p.run s with
      | (.ok a, s') => (.ok (some a), s')
      | (.error _, s') => (.ok none, s'.rewindTo s) := by
  unfold run attempt
  rcases p s with ⟨e | a, s₁⟩ <;> rfl

theorem attempt_bind {p : Parser α} {f : Option α → Parser β} {b : β} :
    (attempt p >>= f).run s = (.ok b, s') ↔
      (∃ a s₁, p.run s = (.ok a, s₁) ∧ (f (some a)).run s₁ = (.ok b, s')) ∨
        ∃ e s₁, p.run s = (.error e, s₁) ∧ (f none).run (s₁.rewindTo s) = (.ok b, s') := by
  rw [bind_ok]
  constructor
  · rintro ⟨_ | a, s₁, ha, h⟩
    · obtain ⟨e, s₂, he, rfl⟩ := attempt_none.1 ha
      exact .inr ⟨e, s₂, he, h⟩
    · exact .inl ⟨a, s₁, attempt_some.1 ha, h⟩
  · rintro (⟨a, s₁, ha, h⟩ | ⟨e, s₁, he, h⟩)
    · exact ⟨_, s₁, attempt_some.2 ha, h⟩
    · exact ⟨_, _, attempt_none.2 ⟨e, s₁, he, rfl⟩, h⟩

@[simp] theorem outcome_ok {p : Parser α} {a : α} : (outcome p).run s = (.ok (.ok a), s') ↔ p.run s = (.ok a, s') := by
  unfold run outcome
  rcases p s with ⟨e | a, s₁⟩ <;> simp

@[simp] theorem outcome_error {p : Parser α} {e : Diagnostic} :
    (outcome p).run s = (.ok (.error e), s') ↔ p.run s = (.error e, s') := by
  unfold run outcome
  rcases p s with ⟨e | a, s₁⟩ <;> simp

@[simp high] theorem outcome_bind {p : Parser α} {f : Except Diagnostic α → Parser β} {b : β} :
    (outcome p >>= f).run s = (.ok b, s') ↔
      (∃ a s₁, p.run s = (.ok a, s₁) ∧ (f (.ok a)).run s₁ = (.ok b, s')) ∨
        ∃ e s₁, p.run s = (.error e, s₁) ∧ (f (.error e)).run s₁ = (.ok b, s') := by
  change andThen (outcome p) f s = _ ↔ (∃ a s₁, p s = _ ∧ _) ∨ ∃ e s₁, p s = _ ∧ _
  unfold andThen outcome
  rcases p s with ⟨e | a, s₁⟩
  · constructor
    · intro h
      exact .inr ⟨e, s₁, rfl, h⟩
    · rintro (⟨_, _, h, -⟩ | ⟨_, _, h, h'⟩)
      · simp at h
      · cases h
        exact h'
  · constructor
    · intro h
      exact .inl ⟨a, s₁, rfl, h⟩
    · rintro (⟨_, _, h, h'⟩ | ⟨_, _, h, -⟩)
      · cases h
        exact h'
      · simp at h

/-! ### What holds along a run -/

/-- The property holds of the parsers that read nothing, and of one parser behind another if it holds of both. -/
structure Sequential (P : {α : Type} → Parser α → Prop) : Prop where
  pure : ∀ {α : Type} (a : α), P (Pure.pure a : Parser α)
  bind : ∀ {α β : Type} {p : Parser α} {f : α → Parser β}, P p → (∀ a, P (f a)) → P (p >>= f)

namespace Sequential

variable {P : {α : Type} → Parser α → Prop} (hP : Sequential P)
include hP

theorem growFor {step : α → Parser (Option α)} (hs : ∀ a, P (step a)) (budget : List Token) (a : α) :
    P (Parser.growFor step budget a) := by
  induction budget generalizing a with
  | nil => exact hP.pure a
  | cons t budget ih =>
    refine hP.bind (hs a) fun o => ?_
    cases o with
    | none => exact hP.pure a
    | some a' => exact ih a'

theorem collectFor {round : Parser (Round α)} (hr : P round) (budget : List Token) :
    P (Parser.collectFor round budget) := by
  induction budget with
  | nil => exact hP.pure []
  | cons t budget ih =>
    refine hP.bind hr fun r => ?_
    cases r with
    | stop => exact hP.pure []
    | last a => exact hP.pure [a]
    | more a => exact hP.bind ih fun as => hP.pure (a :: as)
    | none => exact ih

end Sequential

end Parser

/-! ### Repetition -/

/-- The rounds of `grow`, from a value and a place to another, where `step` declines. -/
inductive Grows (step : α → Parser (Option α)) : α → ParseState → α → ParseState → Prop
  | stop {a : α} {s s' : ParseState} : (step a).run s = (.ok none, s') → Grows step a s a s'
  | next {a a₁ a' : α} {s s₁ s' : ParseState} : (step a).run s = (.ok (some a₁), s₁) → Grows step a₁ s₁ a' s' →
    Grows step a s a' s'

/-- Where `step` goes on, it has passed a token. -/
def Shrinks (step : α → Parser (Option α)) : Prop :=
  ∀ a s a' s', (step a).run s = (.ok (some a'), s') → s'.rest.length < s.rest.length

/-- The rounds of `collect`, with the items of the run. -/
inductive Collects (round : Parser (Parser.Round α)) : ParseState → List α → ParseState → Prop
  | stop {s s' : ParseState} : round.run s = (.ok .stop, s') → Collects round s [] s'
  | last {a : α} {s s' : ParseState} : round.run s = (.ok (.last a), s') → Collects round s [a] s'
  | more {a : α} {as : List α} {s s₁ s' : ParseState} : round.run s = (.ok (.more a), s₁) → Collects round s₁ as s' →
    Collects round s (a :: as) s'
  | none {as : List α} {s s₁ s' : ParseState} : round.run s = (.ok .none, s₁) → Collects round s₁ as s' →
    Collects round s as s'

/-- Where another round follows, a token has been passed. -/
def RoundShrinks (round : Parser (Parser.Round α)) : Prop :=
  (∀ s a s', round.run s = (.ok (.more a), s') → s'.rest.length < s.rest.length) ∧
    ∀ s s', round.run s = (.ok .none, s') → s'.rest.length < s.rest.length

namespace Parser

/-- A budget that is larger than the number of tokens is never used up. -/
theorem growFor_ok {step : α → Parser (Option α)} (hs : Shrinks step) {budget : List Token} {a a' : α}
    (hb : s.rest.length < budget.length) : (growFor step budget a).run s = (.ok a', s') ↔ Grows step a s a' s' := by
  induction budget generalizing a s with
  | nil => simp at hb
  | cons t budget ih =>
    rw [List.length_cons] at hb
    unfold growFor
    rw [bind_ok]
    constructor
    · rintro ⟨o, s₁, ho, h⟩
      cases o with
      | none =>
        obtain ⟨rfl, rfl⟩ : a = a' ∧ s₁ = s' := pure_ok.1 h
        exact .stop ho
      | some a₁ =>
        have := hs a s a₁ s₁ ho
        exact .next ho ((ih (by omega)).1 h)
    · intro h
      cases h with
      | stop ho => exact ⟨none, s', ho, rfl⟩
      | @next _ a₁ _ _ s₁ _ ho h =>
        have := hs a s a₁ s₁ ho
        exact ⟨some a₁, s₁, ho, (ih (by omega)).2 h⟩

theorem grow_ok {step : α → Parser (Option α)} (hs : Shrinks step) {a a' : α} :
    (grow step a).run s = (.ok a', s') ↔ Grows step a s a' s' :=
  growFor_ok hs (by simp)

theorem collectFor_ok {round : Parser (Round α)} (hr : RoundShrinks round) {budget : List Token} {as : List α}
    (hb : s.rest.length < budget.length) : (collectFor round budget).run s = (.ok as, s') ↔ Collects round s as s' := by
  induction budget generalizing as s with
  | nil => simp at hb
  | cons t budget ih =>
    rw [List.length_cons] at hb
    unfold collectFor
    rw [bind_ok]
    constructor
    · rintro ⟨o, s₁, ho, h⟩
      cases o with
      | stop =>
        obtain ⟨rfl, rfl⟩ : [] = as ∧ s₁ = s' := pure_ok.1 h
        exact .stop ho
      | last a =>
        obtain ⟨rfl, rfl⟩ : [a] = as ∧ s₁ = s' := pure_ok.1 h
        exact .last ho
      | more a =>
        have := hr.1 s a s₁ ho
        obtain ⟨as', s₂, h', h''⟩ := bind_ok.1 h
        obtain ⟨rfl, rfl⟩ : a :: as' = as ∧ s₂ = s' := pure_ok.1 h''
        exact .more ho ((ih (by omega)).1 h')
      | none =>
        have := hr.2 s s₁ ho
        exact .none ho ((ih (by omega)).1 h)
    · intro h
      cases h with
      | stop ho => exact ⟨_, s', ho, rfl⟩
      | last ho => exact ⟨_, s', ho, rfl⟩
      | @more a as' _ s₁ _ ho h =>
        have := hr.1 s a s₁ ho
        exact ⟨_, s₁, ho, bind_ok.2 ⟨as', s', (ih (by omega)).2 h, rfl⟩⟩
      | @none _ _ s₁ _ ho h =>
        have := hr.2 s s₁ ho
        exact ⟨_, s₁, ho, (ih (by omega)).2 h⟩

theorem collect_ok {round : Parser (Round α)} (hr : RoundShrinks round) {as : List α} :
    (collect round).run s = (.ok as, s') ↔ Collects round s as s' :=
  collectFor_ok hr (by simp)

/-- Any two budgets that are larger than the number of tokens serve alike. -/
theorem growFor_budget {step : α → Parser (Option α)} (hs : Shrinks step) {xs ys : List Token} {a : α}
    (hx : s.rest.length < xs.length) (hy : s.rest.length < ys.length) : growFor step xs a s = growFor step ys a s := by
  induction xs generalizing ys a s with
  | nil => simp at hx
  | cons x xs ih =>
    cases ys with
    | nil => simp at hy
    | cons y ys =>
      rw [List.length_cons] at hx hy
      change andThen (step a) _ s = andThen (step a) _ s
      unfold andThen
      rcases ho : step a s with ⟨e | o, s₁⟩
      · rfl
      · cases o with
        | none => rfl
        | some a' =>
          have := hs a s a' s₁ ho
          exact ih (by omega) (by omega)

theorem collectFor_budget {round : Parser (Round α)} (hr : RoundShrinks round) {xs ys : List Token}
    (hx : s.rest.length < xs.length) (hy : s.rest.length < ys.length) :
    collectFor round xs s = collectFor round ys s := by
  induction xs generalizing ys s with
  | nil => simp at hx
  | cons x xs ih =>
    cases ys with
    | nil => simp at hy
    | cons y ys =>
      rw [List.length_cons] at hx hy
      change andThen round _ s = andThen round _ s
      unfold andThen
      rcases ho : round s with ⟨e | o, s₁⟩
      · rfl
      · cases o with
        | stop => rfl
        | last a => rfl
        | more a =>
          have := hr.1 s a s₁ ho
          have hrest : collectFor round xs s₁ = collectFor round ys s₁ := ih (by omega) (by omega)
          change andThen (collectFor round xs) _ s₁ = andThen (collectFor round ys) _ s₁
          unfold andThen
          rw [hrest]
        | none =>
          have := hr.2 s s₁ ho
          exact ih (by omega) (by omega)

/-- Behind a round that has no item, the list goes on. -/
theorem collect_none {round : Parser (Round α)} (hr : RoundShrinks round) (h : round.run s = (.ok .none, s')) :
    (collect round).run s = (collect round).run s' := by
  have hless := hr.2 s s' h
  change (collectFor round (s.peek :: s.rest)).run s = collectFor round (s'.peek :: s'.rest) s'
  refine (run_bind_of_ok h).trans ?_
  exact collectFor_budget hr hless (by simp)

/-- Behind a round that has an item, the list goes on. -/
theorem collect_more {round : Parser (Round α)} (hr : RoundShrinks round) {a : α}
    (h : round.run s = (.ok (.more a), s')) :
    (collect round).run s = (do let as ← collect round; pure (a :: as) : Parser (List α)).run s' := by
  have hless := hr.1 s a s' h
  change (collectFor round (s.peek :: s.rest)).run s = andThen (collectFor round (s'.peek :: s'.rest)) _ s'
  refine (run_bind_of_ok h).trans ?_
  have hbudget : collectFor round s.rest s' = collectFor round (s'.peek :: s'.rest) s' :=
    collectFor_budget hr hless (by simp)
  change andThen (collectFor round s.rest) _ s' = _
  unfold andThen
  rw [hbudget]

theorem advances_run {p : Parser α} {r : Except Diagnostic α} (hp : ∀ s, Advances s (p s).2) (h : p.run s = (r, s')) :
    Advances s s' := by
  have := hp s
  rw [show p s = (r, s') from h] at this
  exact this

theorem sequential_advances : Sequential fun p => ∀ s, Advances s (p s).2 where
  pure _ := .refl
  bind {_ _} {p} {f} hp hf s := by
    have h := hp s
    change Advances s (andThen p f s).2
    unfold andThen
    rcases hs : p s with ⟨e | a, s'⟩ <;> rw [hs] at h
    · exact h
    · exact h.trans (hf a s')

theorem advances_collectFor {round : Parser (Round α)} (hr : ∀ s, Advances s (round s).2) {budget : List Token}
    {r : Except Diagnostic (List α)} (h : (collectFor round budget).run s = (r, s')) : Advances s s' :=
  advances_run (sequential_advances.collectFor hr budget) h

theorem advances_of_collects {round : Parser (Round α)} (hr : ∀ s, Advances s (round s).2) {as : List α}
    (h : Collects round s as s') : Advances s s' := by
  induction h with
  | stop h => exact advances_run hr h
  | last h => exact advances_run hr h
  | more h _ ih => exact (advances_run hr h).trans ih
  | none h _ ih => exact (advances_run hr h).trans ih

/-- The rounds of a run that records nothing.  Only such rounds have to pass a token where another one follows. -/
theorem collectFor_clean {round : Parser (Round α)} (hr : ∀ s, Advances s (round s).2)
    (hmore : ∀ s a s', round.run s = (.ok (.more a), s') → s'.rest.length < s.rest.length)
    (hnone : ∀ s s', s'.errors = [] → round.run s = (.ok .none, s') → s'.rest.length < s.rest.length)
    {budget : List Token} {as : List α} (hb : s.rest.length < budget.length) (hs : s'.errors = []) :
    (collectFor round budget).run s = (.ok as, s') ↔ Collects round s as s' := by
  induction budget generalizing as s with
  | nil => simp at hb
  | cons t budget ih =>
    rw [List.length_cons] at hb
    unfold collectFor
    rw [bind_ok]
    constructor
    · rintro ⟨o, s₁, ho, h⟩
      cases o with
      | stop =>
        obtain ⟨rfl, rfl⟩ : [] = as ∧ s₁ = s' := pure_ok.1 h
        exact .stop ho
      | last a =>
        obtain ⟨rfl, rfl⟩ : [a] = as ∧ s₁ = s' := pure_ok.1 h
        exact .last ho
      | more a =>
        have := hmore s a s₁ ho
        obtain ⟨as', s₂, h', h''⟩ := bind_ok.1 h
        obtain ⟨rfl, rfl⟩ : a :: as' = as ∧ s₂ = s' := pure_ok.1 h''
        exact .more ho ((ih (by omega)).1 h')
      | none =>
        have hc : s₁.errors = [] := (advances_collectFor hr h).errors_nil hs
        have := hnone s s₁ hc ho
        exact .none ho ((ih (by omega)).1 h)
    · intro h
      cases h with
      | stop ho => exact ⟨_, s', ho, rfl⟩
      | last ho => exact ⟨_, s', ho, rfl⟩
      | @more a as' _ s₁ _ ho h =>
        have := hmore s a s₁ ho
        exact ⟨_, s₁, ho, bind_ok.2 ⟨as', s', (ih (by omega)).2 h, rfl⟩⟩
      | @none _ _ s₁ _ ho h =>
        have := hnone s s₁ ((advances_of_collects hr h).errors_nil hs) ho
        exact ⟨_, s₁, ho, (ih (by omega)).2 h⟩
theorem collect_clean {round : Parser (Round α)} (hr : ∀ s, Advances s (round s).2)
    (hmore : ∀ s a s', round.run s = (.ok (.more a), s') → s'.rest.length < s.rest.length)
    (hnone : ∀ s s', s'.errors = [] → round.run s = (.ok .none, s') → s'.rest.length < s.rest.length)
    {as : List α} (hs : s'.errors = []) : (collect round).run s = (.ok as, s') ↔ Collects round s as s' :=
  collectFor_clean hr hmore hnone (by simp) hs

end Parser

/-! ### Lists and runs of tokens -/

/-- The rounds of a list of items: before each item the list may end, and `separates` says behind which items another
one follows, behind the token that separates them. -/
inductive Listed (ends separates : ParseState → Prop) (item : Parser α) : ParseState → List α → ParseState → Prop
  | nil {s : ParseState} : ends s → Listed ends separates item s [] s
  | last {a : α} {s s' : ParseState} : ¬ ends s → item.run s = (.ok a, s') → ¬ separates s' →
    Listed ends separates item s [a] s'
  | more {a : α} {as : List α} {s s₁ s' : ParseState} : ¬ ends s → item.run s = (.ok a, s₁) → separates s₁ →
    Listed ends separates item s₁.advance as s' → Listed ends separates item s (a :: as) s'

/-- A run that takes the same step from place to place, as long as `p` holds. -/
inductive Stepped (p : ParseState → Prop) (step : ParseState → ParseState) : Nat → ParseState → ParseState → Prop
  | stop {s : ParseState} : ¬ p s → Stepped p step 0 s s
  | next {n : Nat} {s s' : ParseState} : p s → Stepped p step n (step s) s' → Stepped p step (n + 1) s s'

namespace Parser

/-- Behind a token that is no `eof`, there is less to read. -/
theorem length_advance_lt (h : s.peek.kind ≠ .eof) : s.advance.rest.length < s.rest.length := by
  obtain ⟨ts, hr⟩ := ParseState.rest_of_peek h
  rw [ParseState.advance_cons hr h, hr]
  simp

theorem advances_of_listed {ends separates : ParseState → Prop} {item : Parser α} {as : List α}
    (hi : ∀ s, Advances s (item s).2) (h : Listed ends separates item s as s') : Advances s s' := by
  induction h with
  | nil _ => exact .refl _
  | last _ h _ => exact advances_run hi h
  | more _ h _ _ ih => exact (advances_run hi h).trans ((Advances.advance _).trans ih)

/-- A list whose round reads an item and passes a separator behind it. -/
theorem collect_listed {round : Parser (Round α)} {item : Parser α} {ends separates : ParseState → Prop}
    (hi : ∀ s, Advances s (item s).2) (hk : ∀ s, separates s → s.peek.kind ≠ .eof)
    (hstop : ∀ s s', round.run s = (.ok .stop, s') ↔ ends s ∧ s = s')
    (hlast : ∀ s a s', round.run s = (.ok (.last a), s') ↔ ¬ ends s ∧ item.run s = (.ok a, s') ∧ ¬ separates s')
    (hmore : ∀ s a s', round.run s = (.ok (.more a), s') ↔
      ¬ ends s ∧ ∃ s₁, item.run s = (.ok a, s₁) ∧ separates s₁ ∧ s₁.advance = s')
    (hnone : ∀ s s', ¬ round.run s = (.ok .none, s')) {as : List α} :
    (collect round).run s = (.ok as, s') ↔ Listed ends separates item s as s' := by
  have hshrinks : RoundShrinks round := by
    refine ⟨fun s a s' h => ?_, fun s s' h => absurd h (hnone s s')⟩
    obtain ⟨-, s₁, ha, hsep, rfl⟩ := (hmore s a s').1 h
    have := (advances_run hi ha).length_le
    have := length_advance_lt (hk s₁ hsep)
    omega
  refine (collect_ok hshrinks).trans ?_
  constructor
  · intro h
    induction h with
    | stop h =>
      obtain ⟨he, rfl⟩ := (hstop _ _).1 h
      exact .nil he
    | last h =>
      obtain ⟨he, ha, hsep⟩ := (hlast _ _ _).1 h
      exact .last he ha hsep
    | more h _ ih =>
      obtain ⟨he, s₁, ha, hsep, rfl⟩ := (hmore _ _ _).1 h
      exact .more he ha hsep ih
    | none h _ _ => exact absurd h (hnone _ _)
  · intro h
    induction h with
    | nil he => exact .stop ((hstop _ _).2 ⟨he, rfl⟩)
    | last he ha hsep => exact .last ((hlast _ _ _).2 ⟨he, ha, hsep⟩)
    | more he ha hsep _ ih => exact .more ((hmore _ _ _).2 ⟨he, _, ha, hsep, rfl⟩) ih

theorem commaList_ok {close : Punctuation} {item : Parser α} {as : List α} (hi : ∀ s, Advances s (item s).2) :
    (commaList close item).run s = (.ok as, s') ↔
      Listed (fun s => s.peek.kind = .punctuation close ∨ s.atEnd = true)
        (fun s => s.peek.kind = .punctuation .comma) item s as s' := by
  refine collect_listed hi (fun s h => by simp [h]) ?_ ?_ ?_ ?_ <;> intros <;>
    simp [atMark, isAt, atEnd, acceptMark, ite_eq_iff] <;> grind

theorem separatedBy_ok {separator : TokenKind} (hk : separator ≠ .eof) {item : Parser α} {as : List α}
    (hi : ∀ s, Advances s (item s).2) :
    (separatedBy separator item).run s = (.ok as, s') ↔
      Listed (fun _ => False) (fun s => s.peek.kind = separator) item s as s' := by
  refine collect_listed hi (fun s h => by rwa [h]) ?_ ?_ ?_ ?_ <;> intros <;> simp [ite_eq_iff] <;> grind

/-! ### What results have in common -/

/-- Every result of the parser satisfies `P`. -/
def Yields (P : α → Prop) (p : Parser α) : Prop := ∀ s a s', p.run s = (.ok a, s') → P a

namespace Yields

variable {P : α → Prop}

theorem pure {a : α} (h : P a) : (Pure.pure a : Parser α).Yields P := by
  intro s a' s' hrun
  obtain ⟨rfl, -⟩ := pure_ok.1 hrun
  exact h

/-- Whatever comes first, the results are those of what follows. -/
theorem behind {p : Parser β} {f : β → Parser α} (hf : ∀ b, (f b).Yields P) : (p >>= f).Yields P := by
  intro s a s' h
  obtain ⟨b, s₁, -, h⟩ := bind_ok.1 h
  exact hf b s₁ a s' h

theorem ite {c : Prop} [Decidable c] {p q : Parser α} (hp : p.Yields P) (hq : q.Yields P) :
    (if c then p else q).Yields P := by
  split
  · exact hp
  · exact hq

theorem fails {p : Parser α} (h : ∀ s a s', p.run s ≠ (.ok a, s')) : p.Yields P := fun s a s' hs => absurd hs (h s a s')

/-- What each step of a repetition keeps up holds at its end. -/
theorem grows {step : α → Parser (Option α)} (hs : ∀ a, P a → (step a).Yields fun o => ∀ a' ∈ o, P a') {a a' : α}
    (h : Grows step a s a' s') (ha : P a) : P a' := by
  induction h with
  | stop _ => exact ha
  | next h _ ih => exact ih (hs _ ha _ _ _ h _ rfl)

theorem listed {ends separates : ParseState → Prop} {item : Parser α} (hi : item.Yields P) {as : List α}
    (h : Listed ends separates item s as s') : ∀ a ∈ as, P a := by
  induction h with
  | nil _ => simp
  | last _ h _ => simpa using hi _ _ _ h
  | more _ h _ _ ih => simpa using ⟨hi _ _ _ h, ih⟩

/-- The items that a round may end with. -/
def OfRound (P : α → Prop) : Round α → Prop
  | .last a | .more a => P a
  | .stop | .none => True

theorem collectFor {round : Parser (Round α)} (hr : round.Yields (OfRound P)) (budget : List Token) :
    (Parser.collectFor round budget).Yields fun as => ∀ a ∈ as, P a := by
  induction budget with
  | nil =>
    intro s as s' h
    obtain ⟨rfl, -⟩ : [] = as ∧ s = s' := pure_ok.1 h
    simp
  | cons t budget ih =>
    intro s as s' h
    obtain ⟨r, s₁, hround, h⟩ := bind_ok.1 h
    have hround := hr _ _ _ hround
    cases r with
    | stop =>
      obtain ⟨rfl, -⟩ : [] = as ∧ s₁ = s' := pure_ok.1 h
      simp
    | last a =>
      obtain ⟨rfl, -⟩ : [a] = as ∧ s₁ = s' := pure_ok.1 h
      intro a' ha'
      rw [List.mem_singleton.1 ha']
      exact hround
    | more a =>
      obtain ⟨items, s₂, hitems, h⟩ := bind_ok.1 h
      obtain ⟨rfl, -⟩ : a :: items = as ∧ s₂ = s' := pure_ok.1 h
      exact List.forall_mem_cons.2 ⟨hround, ih _ _ _ hitems⟩
    | none => exact ih _ _ _ h

/-- What holds of the end of a repetition held at its start, if each step hands it back. -/
theorem growFor {step : α → Parser (Option α)} (hs : ∀ a, (step a).Yields fun o => ∀ a' ∈ o, P a' → P a)
    (budget : List Token) (a : α) : (Parser.growFor step budget a).Yields fun a' => P a' → P a := by
  induction budget generalizing a with
  | nil => exact .pure id
  | cons t budget ih =>
    intro s a' s' h ha'
    obtain ⟨o, s₁, ho, h⟩ := bind_ok.1 h
    cases o with
    | none =>
      obtain ⟨rfl, -⟩ : a = a' ∧ s₁ = s' := pure_ok.1 h
      exact ha'
    | some a₁ => exact hs a _ _ _ ho a₁ rfl (ih a₁ _ _ _ h ha')

theorem grow {step : α → Parser (Option α)} (hs : ∀ a, (step a).Yields fun o => ∀ a' ∈ o, P a' → P a) (a : α) :
    (Parser.grow step a).Yields fun a' => P a' → P a :=
  fun s => growFor hs (s.peek :: s.rest) a s

theorem collect {round : Parser (Round α)} (hr : round.Yields (OfRound P)) :
    (Parser.collect round).Yields fun as => ∀ a ∈ as, P a :=
  fun s => collectFor hr (s.peek :: s.rest) s

end Yields

end Parser

end ElleFrontEnd
