import ElleFrontEnd.Grammar.Stmt
import ElleFrontEnd.Proofs.Run

/-!
# Runs that are tied together

A parser sees little of the state it runs from.  It does not see what has been recorded, and of the tokens to read it
sees none behind the next semicolon or closing brace before it has passed that one (`ParseState.near`).  So it runs
alike from two states that differ elsewhere.

A `Tie` is a relation between states that near sights cannot tell apart, and that is kept up when both states read on.
The first run may also leave what the tie is about, and then the second is free.  `Tie.Runs` says of two parsers that
they end alike from all tied states.  It is established for the ways of putting parsers together, whatever the tie is;
the grammar is walked once, for all ties, in `Proofs.TieType`, `Proofs.TieExpr` and `Proofs.TieProgram`.
-/

namespace ElleFrontEnd

/-- The marks that may end a statement or a declaration: the semicolon and the closing brace. -/
def TokenKind.endsItem : TokenKind → Bool
  | .punctuation .semicolon | .punctuation .rBrace => true
  | _ => false

/-- The tokens up to the first that may end an item. -/
def upToEnd : List Token → List Token
  | [] => []
  | t :: ts => if t.kind.endsItem then [t] else t :: upToEnd ts

namespace ParseState

/-- What a parser may look at before it reads on. -/
def near (s : ParseState) : ParseState := { s with rest := upToEnd s.rest, errors := [] }

@[simp] theorem peek_single (t : Token) : ({ rest := [t] } : ParseState).peek = t := by simp [peek]

variable (s : ParseState)

@[simp] theorem near_last : s.near.last = s.last := rfl

@[simp] theorem near_owed : s.near.owed = s.owed := rfl

@[simp] theorem near_peek : s.near.peek = s.peek := by
  unfold peek near
  cases hr : s.rest with
  | nil => rfl
  | cons t ts =>
    unfold upToEnd
    split <;> rfl

@[simp] theorem near_atEnd : s.near.atEnd = s.atEnd := by simp [atEnd]

@[simp] theorem near_spanFrom (start : Nat) : s.near.spanFrom start = s.spanFrom start := by simp [spanFrom, readStop]

@[simp] theorem near_isAdjacent : s.near.isAdjacent = s.isAdjacent := by simp [isAdjacent]

variable {s}

theorem near_kindAt_succ (h : s.peek.kind.endsItem = false) (n : Nat) :
    s.near.kindAt (n + 1) = ((upToEnd s.rest.tail)[n]?.map Token.kind).getD .eof := by
  unfold kindAt near
  cases hr : s.rest with
  | nil => simp [upToEnd]
  | cons t ts =>
    rw [peek_cons hr] at h
    simp [upToEnd, h]

/-- The token behind the next one is near, unless the next one may end an item. -/
theorem near_kindAt_one (h : s.peek.kind.endsItem = false) : s.near.kindAt 1 = s.kindAt 1 := by
  rw [near_kindAt_succ h]
  unfold kindAt
  cases s.rest with
  | nil => simp [upToEnd]
  | cons t ts =>
    cases ts with
    | nil => simp [upToEnd]
    | cons u us =>
      simp only [List.tail_cons]
      unfold upToEnd
      split <;> rfl

theorem near_kindAt_two (h : s.peek.kind.endsItem = false) (h' : (s.kindAt 1).endsItem = false) :
    s.near.kindAt 2 = s.kindAt 2 := by
  rw [near_kindAt_succ h]
  unfold kindAt at h' ⊢
  cases hr : s.rest with
  | nil => simp [upToEnd]
  | cons t ts =>
    cases ts with
    | nil => simp [upToEnd]
    | cons u us =>
      have hu : u.kind.endsItem = false := by simpa [hr] using h'
      cases us with
      | nil => simp [upToEnd, hu]
      | cons v vs =>
        simp only [List.tail_cons]
        unfold upToEnd
        rw [if_neg (by simp [hu])]
        unfold upToEnd
        split <;> rfl

theorem near_nextIsAdjacent (h : s.peek.kind.endsItem = false) : s.near.nextIsAdjacent = s.nextIsAdjacent := by
  unfold nextIsAdjacent near
  cases hr : s.rest with
  | nil => simp [upToEnd]
  | cons t ts =>
    rw [peek_cons hr] at h
    cases ts with
    | nil => simp [upToEnd, h]
    | cons u us => by_cases hu : u.kind.endsItem = true <;> simp [upToEnd, h, hu]

end ParseState

/-- The look depends on what is near only. -/
def Near {α : Type} (l : ParseState → α) : Prop := ∀ s : ParseState, l s.near = l s

/-- A relation between the states of two runs.  Where the first state is `gone`, nothing more is said of the second. -/
structure Tie where
  rel : ParseState → ParseState → Prop
  gone : ParseState → Prop
  near : ∀ {s t : ParseState}, rel s t → s.near = t.near
  gap : ∀ {s t s' t' : ParseState}, rel s t → rel s' t' → s.rest.length + t'.rest.length = s'.rest.length + t.rest.length
  within : ∀ {s t : ParseState}, rel s t → s.peek.kind.endsItem = false → rel s.advance t.advance
  advance : ∀ {s t : ParseState}, rel s t → rel s.advance t.advance ∨ gone s.advance
  rewind : ∀ {s t s' t' : ParseState}, rel s t → rel s' t' → rel (s'.rewindTo s) (t'.rewindTo t)
  record : ∀ {s t : ParseState} (e : Diagnostic), rel s t →
    rel { s with errors := s.errors ++ [e] } { t with errors := t.errors ++ [e] }
  next : ∀ {s t : ParseState}, rel s t →
    rel (Parser.toNextStatement s) (Parser.toNextStatement t) ∨ gone (Parser.toNextStatement s)
  gone_of_advances : ∀ {s s' : ParseState}, gone s → Advances s s' → gone s'

theorem Parser.advances_attempt {α : Type} {p : Parser α} (hp : ∀ s, Advances s (p s).2) (s : ParseState) :
    Advances s (Parser.attempt p s).2 := by
  have hadv := hp s
  unfold Parser.attempt
  rcases hr : p s with ⟨e | a, s'⟩ <;> rw [hr] at hadv
  · exact hadv.rewindTo
  · exact hadv

namespace Tie

variable {α β : Type} {K : Tie} {m : Prop} {P : ParseState → Prop}

theorem look_eq {l : ParseState → α} (hl : Near l) {s t : ParseState} (h : K.rel s t) : l s = l t := by
  rw [← hl s, K.near h, hl t]

theorem kind_eq {s t : ParseState} (h : K.rel s t) : s.peek.kind = t.peek.kind :=
  look_eq (l := fun s => s.peek.kind) (fun s => by simp) h

/-- Two runs end alike: with one result in tied states or, if they may (`m`), with the first state gone. -/
inductive Ends (K : Tie) (m : Prop) : Except Diagnostic α × ParseState → Except Diagnostic α × ParseState → Prop
  | same {r : Except Diagnostic α} {s t : ParseState} : K.rel s t → Ends K m (r, s) (r, t)
  | gone {r : Except Diagnostic α} {s : ParseState} {y : Except Diagnostic α × ParseState} : m → K.gone s →
    Ends K m (r, s) y

/-- Two parsers end alike from all tied states in which `P` holds, and the first of them reads on only. -/
structure Runs (K : Tie) (m : Prop) (P : ParseState → Prop) (p q : Parser α) : Prop where
  ends : ∀ s t, K.rel s t → P s → K.Ends m (p s) (q t)
  advances : ∀ s, Advances s (p s).2

/-- Two parsers end alike from all tied states, unless the first state is gone then. -/
abbrev Ties (K : Tie) (p q : Parser α) : Prop := K.Runs True (fun _ => True) p q

/-- Two parsers end alike from all tied states. -/
abbrev Holds (K : Tie) (p q : Parser α) : Prop := K.Runs False (fun _ => True) p q

namespace Runs

variable {p q : Parser α} {f f' : α → Parser β}

theorem mono {P' : ParseState → Prop} (h : K.Runs m P p q) (hP : ∀ s, P' s → P s) : K.Runs m P' p q :=
  ⟨fun s t hst hs => h.ends s t hst (hP s hs), h.advances⟩

theorem ties (h : K.Holds p q) : K.Ties p q := by
  refine ⟨fun s t hst hs => ?_, h.advances⟩
  have := h.ends s t hst hs
  generalize p s = x, q t = y at this
  cases this with
  | same hst => exact .same hst
  | gone hm => exact hm.elim

theorem done (a : α) : K.Runs m P (pure a) (pure a) := ⟨fun _ _ hst _ => .same hst, .refl⟩

theorem fail (e : Diagnostic) : K.Runs m P (Parser.fail e : Parser α) (Parser.fail e) :=
  ⟨fun _ _ hst _ => .same hst, .refl⟩

theorem bind (hp : K.Runs m P p q) (hf : ∀ a, K.Runs m (fun _ => True) (f a) (f' a)) :
    K.Runs m P (p >>= f) (q >>= f') := by
  constructor
  · intro s t hst hs
    change K.Ends m (Parser.andThen p f s) (Parser.andThen q f' t)
    unfold Parser.andThen
    have := hp.ends s t hst hs
    generalize p s = x, q t = y at this
    cases this with
    | @same r s₁ t₁ hst₁ =>
      cases r with
      | error e => exact .same hst₁
      | ok a => exact (hf a).ends s₁ t₁ hst₁ trivial
    | @gone r s₁ y hm hgone =>
      cases r with
      | error e => exact .gone hm hgone
      | ok a =>
        -- what follows reads on from a state that is gone
        have hadv := (hf a).advances s₁
        rcases hr : f a s₁ with ⟨r, s₂⟩
        rw [hr] at hadv
        simp only [hr]
        exact .gone hm (K.gone_of_advances hgone hadv)
  · exact Parser.sequential_advances.bind hp.advances fun a => (hf a).advances

theorem ite {c : Prop} [Decidable c] {p' q' : Parser α} (h : K.Runs m P p q) (h' : K.Runs m P p' q') :
    K.Runs m P (if c then p else p') (if c then q else q') := by
  split
  · exact h
  · exact h'

/-- Two parsers that do what a near look tells them to do. -/
theorem through {γ : Type} {l : ParseState → γ} (hl : Near l) {k j : γ → Parser α} (hp : ∀ s, p s = k (l s) s)
    (hq : ∀ s, q s = j (l s) s) (hk : ∀ c, K.Runs m P (k c) (j c)) : K.Runs m P p q := by
  constructor
  · intro s t hst hs
    rw [hp, hq, look_eq hl hst]
    exact (hk _).ends s t hst hs
  · intro s
    rw [hp]
    exact (hk _).advances s

/-- Two looks of which the second counts only if the first is true. -/
theorem both {a b : ParseState → Bool} (ha : Near a) (hb : ∀ s, a s = true → b s.near = b s)
    {k k' : Bool → Bool → Parser β} (hfalse : ∀ y, k false y = k false false)
      (hfalse' : ∀ y, k' false y = k' false false)
    (hk : ∀ x y, K.Runs m P (k x y) (k' x y)) :
    K.Runs m P (do k (← Parser.look a) (← Parser.look b)) (do k' (← Parser.look a) (← Parser.look b)) := by
  have hboth : Near fun s => (a s, a s && b s) := by
    intro s
    cases has : a s with
    | false => simp [ha s, has]
    | true => simp [ha s, has, hb s has]
  refine through hboth (k := fun c => k c.1 c.2) (j := fun c => k' c.1 c.2) (fun s => ?_) (fun s => ?_)
    fun c => hk c.1 c.2
  · change k (a s) (b s) s = k (a s) (a s && b s) s
    cases a s with
    | false => rw [hfalse, Bool.false_and]
    | true => rw [Bool.true_and]
  · change k' (a s) (b s) s = k' (a s) (a s && b s) s
    cases a s with
    | false => rw [hfalse', Bool.false_and]
    | true => rw [Bool.true_and]

/-- Behind a look, what was seen is known. -/
theorem seeing {l : ParseState → α} (hl : Near l) (hf : ∀ a, K.Runs m (fun s => P s ∧ l s = a) (f a) (f' a)) :
    K.Runs m P (Parser.look l >>= f) (Parser.look l >>= f') := by
  constructor
  · intro s t hst hs
    change K.Ends m (f (l s) s) (f' (l t) t)
    rw [← look_eq hl hst]
    exact (hf _).ends s t hst ⟨hs, rfl⟩
  · exact fun s => (hf (l s)).advances s

theorem onError (g : Diagnostic → Diagnostic) (h : K.Runs m P p q) :
    K.Runs m P (Parser.onError g p) (Parser.onError g q) := by
  constructor
  · intro s t hst hs
    have := h.ends s t hst hs
    unfold Parser.onError
    generalize p s = x, q t = y at this
    cases this with
    | @same r s₁ t₁ hst₁ => cases r <;> exact .same hst₁
    | @gone r s₁ y hm hgone => cases r <;> exact .gone hm hgone
  · intro s
    have hadv := h.advances s
    unfold Parser.onError
    rcases hr : p s with ⟨e | a, s₁⟩ <;> rw [hr] at hadv <;> exact hadv

theorem outcome (h : K.Runs m P p q) : K.Runs m P (Parser.outcome p) (Parser.outcome q) := by
  constructor
  · intro s t hst hs
    have := h.ends s t hst hs
    unfold Parser.outcome
    generalize p s = x, q t = y at this
    cases this with
    | @same r s₁ t₁ hst₁ => cases r <;> exact .same hst₁
    | @gone r s₁ y hm hgone => cases r <;> exact .gone hm hgone
  · intro s
    have hadv := h.advances s
    unfold Parser.outcome
    rcases hr : p s with ⟨e | a, s₁⟩ <;> rw [hr] at hadv <;> exact hadv

theorem attempt (h : K.Holds p q) : K.Holds (Parser.attempt p) (Parser.attempt q) := by
  constructor
  · intro s t hst _
    have := h.ends s t hst trivial
    unfold Parser.attempt
    generalize p s = x, q t = y at this
    cases this with
    | @same r s₁ t₁ hst₁ =>
      cases r with
      | ok a => exact .same hst₁
      | error e => exact .same (K.rewind hst hst₁)
    | gone hm => exact hm.elim
  · exact Parser.advances_attempt h.advances

/-! ### Tokens -/

theorem look {l : ParseState → α} (hl : Near l) : K.Runs m P (Parser.look l) (Parser.look l) :=
  through hl (k := Parser.done) (j := Parser.done) (fun _ => rfl) (fun _ => rfl) fun a => done a

/-- A parser that passes the next token or stays where it stands, as a near look tells it to. -/
theorem step {γ : Type} {p : Parser α} {l : ParseState → γ} (hl : Near l) {c : γ → Bool} {r : γ → Except Diagnostic α}
    (hp : ∀ s, p s = (r (l s), if c (l s) then s.advance else s))
    (hm : m ∨ ∀ s, P s → c (l s) = true → s.peek.kind.endsItem = false) : K.Runs m P p p := by
  constructor
  · intro s t hst hs
    rw [hp, hp, ← look_eq hl hst]
    by_cases h : c (l s) = true
    · rw [if_pos h, if_pos h]
      rcases hm with hm | hm
      · rcases K.advance hst with hst | hgone
        · exact .same hst
        · exact .gone hm hgone
      · exact .same (K.within hst (hm s hs h))
    · rw [if_neg h, if_neg h]
      exact .same hst
  · intro s
    rw [hp]
    split
    · exact .advance s
    · exact .refl s

/-- A parser that looks at the next token only, and passes it if it is of a kind. -/
theorem token {p : Parser α} {c : TokenKind → Bool}
    (hp : ∀ s, p s = ((p { rest := [s.peek] }).1, if c s.peek.kind then s.advance else s))
    (hm : m ∨ ∀ s, P s → c s.peek.kind = true → s.peek.kind.endsItem = false) : K.Runs m P p p :=
  step (l := ParseState.peek) ParseState.near_peek (c := fun t => c t.kind) (r := fun t => (p { rest := [t] }).1) hp hm

theorem nextKind : K.Runs m P Parser.nextKind Parser.nextKind := look fun s => by simp

theorem nextSpan : K.Runs m P Parser.nextSpan Parser.nextSpan := look fun s => by simp

theorem nextStart : K.Runs m P Parser.nextStart Parser.nextStart := look fun s => by simp

theorem spanFrom (start : Nat) : K.Runs m P (Parser.spanFrom start) (Parser.spanFrom start) := look fun s => by simp

theorem isAt (kind : TokenKind) : K.Runs m P (Parser.isAt kind) (Parser.isAt kind) := look fun s => by simp

theorem atIdent : K.Runs m P Parser.atIdent Parser.atIdent := look fun s => by simp

theorem atEnd : K.Runs m P Parser.atEnd Parser.atEnd := look fun s => by simp

theorem isAdjacent : K.Runs m P Parser.isAdjacent Parser.isAdjacent := look fun s => by simp

/-- A result that is built with the stretch it was read from. -/
theorem spanned (hp : K.Runs m P p q) {start : Nat} {build : α → Span → β} :
    K.Runs m P (do let a ← p; pure (build a (← Parser.spanFrom start)))
      (do let a ← q; pure (build a (← Parser.spanFrom start))) :=
  hp.bind fun _ => (spanFrom _).bind fun _ => done _

theorem skip_of (hm : m ∨ ∀ s, P s → s.peek.kind.endsItem = false) : K.Runs m P Parser.skip Parser.skip :=
  token (c := fun _ => true) (fun _ => rfl) (hm.imp_right fun h s hs _ => h s hs)

theorem accept_of {kind : TokenKind} (hm : m ∨ kind.endsItem = false) :
    K.Runs m P (Parser.accept kind) (Parser.accept kind) := by
  refine token (c := fun k => k = kind) (fun s => ?_) (hm.imp_right fun h s _ hk => ?_)
  · unfold Parser.accept
    by_cases hk : s.peek.kind = kind <;> simp [hk]
  · rwa [of_decide_eq_true hk]

theorem unexpected (wanted : Expected) :
    K.Runs m P (Parser.unexpected wanted : Parser α) (Parser.unexpected wanted) :=
  token (c := fun _ => false) (fun _ => rfl) (.inr fun _ _ h => by simp at h)

theorem expect_of {kind : TokenKind} {wanted : Expected} (hm : m ∨ kind.endsItem = false) :
    K.Runs m P (Parser.expect kind wanted) (Parser.expect kind wanted) := by
  refine token (c := fun k => k = kind) (fun s => ?_) (hm.imp_right fun h s _ hk => ?_)
  · unfold Parser.expect Parser.unexpected
    by_cases hk : s.peek.kind = kind <;> simp [hk]
  · rwa [of_decide_eq_true hk]

theorem identifier : K.Runs m P Parser.identifier Parser.identifier := by
  refine token (c := fun k => k.ident?.isSome) (fun s => ?_) (.inr fun s _ hk => ?_)
  · unfold Parser.identifier Parser.unexpected
    rw [ParseState.peek_single]
    cases s.peek.kind <;> rfl
  · cases hs : s.peek.kind <;> simp [hs, TokenKind.ident?] at hk ⊢ <;> rfl

theorem closing_of {close : Punctuation} {opened : Span} (hm : m ∨ (TokenKind.punctuation close).endsItem = false) :
    K.Runs m P (Parser.closing close opened) (Parser.closing close opened) := by
  refine token (c := fun k => k = .punctuation close) (fun s => ?_) (hm.imp_right fun h s _ hk => ?_)
  · unfold Parser.closing Parser.unexpected
    by_cases hk : s.peek.kind = .punctuation close
    · simp [hk]
    · simp only [hk, if_false, decide_false, Bool.false_eq_true, ParseState.peek_single]
      split <;> split <;> simp [*]
  · rwa [of_decide_eq_true hk]

/-! ### Repetition -/

theorem growFor {step step' : α → Parser (Option α)} (hs : ∀ a, K.Runs m (fun _ => True) (step a) (step' a))
    (budget : List Token) (a : α) :
    K.Runs m (fun _ => True) (Parser.growFor step budget a) (Parser.growFor step' budget a) := by
  induction budget generalizing a with
  | nil => exact done a
  | cons t budget ih =>
    refine (hs a).bind fun o => ?_
    cases o with
    | none => exact done a
    | some a' => exact ih a'

/-- The budgets of the two runs may differ, as long as both are large enough. -/
theorem growFor_ends {step step' : α → Parser (Option α)} (hs : ∀ a, K.Runs m (fun _ => True) (step a) (step' a))
    (hshrinks : Shrinks step) {xs ys : List Token} {a : α} {s t : ParseState} (hst : K.rel s t)
    (hx : s.rest.length < xs.length) (hy : t.rest.length < ys.length) :
    K.Ends m (Parser.growFor step xs a s) (Parser.growFor step' ys a t) := by
  induction xs generalizing ys a s t with
  | nil => simp at hx
  | cons x xs ih =>
    cases ys with
    | nil => simp at hy
    | cons y ys =>
      rw [List.length_cons] at hx hy
      have hends := (hs a).ends s t hst trivial
      change K.Ends m (Parser.andThen (step a) _ s) (Parser.andThen (step' a) _ t)
      unfold Parser.andThen
      have hless (a' : α) (s₁ : ParseState) (h : step a s = (.ok (some a'), s₁)) := hshrinks a s a' s₁ h
      generalize step a s = u, step' a t = v at hends hless
      cases hends with
      | @same r s₁ t₁ hst₁ =>
        rcases r with e | o
        · exact .same hst₁
        · cases o with
          | none => exact .same hst₁
          | some a' =>
            have := hless a' s₁ rfl
            have := K.gap hst hst₁
            exact ih hst₁ (by omega) (by omega)
      | @gone r s₁ v hm hgone =>
        rcases r with e | o
        · exact .gone hm hgone
        · cases o with
          | none => exact .gone hm hgone
          | some a' => exact .gone hm (K.gone_of_advances hgone ((growFor hs xs a').advances s₁))

theorem grow {step step' : α → Parser (Option α)} (hs : ∀ a, K.Runs m (fun _ => True) (step a) (step' a))
    (hshrinks : Shrinks step) (a : α) :
    K.Runs m (fun _ => True) (Parser.grow step a) (Parser.grow step' a) :=
  ⟨fun _ _ hst _ => growFor_ends hs hshrinks hst (by simp) (by simp), fun s => (growFor hs _ a).advances s⟩

theorem collectFor {round round' : Parser (Parser.Round α)} (hr : K.Runs m (fun _ => True) round round')
    (budget : List Token) :
    K.Runs m (fun _ => True) (Parser.collectFor round budget) (Parser.collectFor round' budget) := by
  induction budget with
  | nil => exact done []
  | cons t budget ih =>
    refine hr.bind fun r => ?_
    cases r with
    | stop => exact done []
    | last a => exact done [a]
    | more a => exact ih.bind fun as => done (a :: as)
    | none => exact ih

theorem collectFor_ends {round round' : Parser (Parser.Round α)} (hr : K.Runs m (fun _ => True) round round')
    (hshrinks : RoundShrinks round) {xs ys : List Token} {s t : ParseState} (hst : K.rel s t)
    (hx : s.rest.length < xs.length) (hy : t.rest.length < ys.length) :
    K.Ends m (Parser.collectFor round xs s) (Parser.collectFor round' ys t) := by
  induction xs generalizing ys s t with
  | nil => simp at hx
  | cons x xs ih =>
    cases ys with
    | nil => simp at hy
    | cons y ys =>
      rw [List.length_cons] at hx hy
      have hends := hr.ends s t hst trivial
      change K.Ends m (Parser.andThen round _ s) (Parser.andThen round' _ t)
      unfold Parser.andThen
      have hmore (a : α) (s₁ : ParseState) (h : round s = (.ok (.more a), s₁)) := hshrinks.1 s a s₁ h
      have hnone (s₁ : ParseState) (h : round s = (.ok .none, s₁)) := hshrinks.2 s s₁ h
      generalize round s = u, round' t = v at hends hmore hnone
      cases hends with
      | @same r s₁ t₁ hst₁ =>
        rcases r with e | r
        · exact .same hst₁
        · cases r with
          | stop | last _ => exact .same hst₁
          | more a =>
            have := hmore a s₁ rfl
            have := K.gap hst hst₁
            have hrest := ih hst₁ (show s₁.rest.length < xs.length by omega) (show t₁.rest.length < ys.length by omega)
            change K.Ends m (Parser.andThen (Parser.collectFor round xs) _ s₁)
              (Parser.andThen (Parser.collectFor round' ys) _ t₁)
            unfold Parser.andThen
            generalize Parser.collectFor round xs s₁ = u, Parser.collectFor round' ys t₁ = v at hrest
            cases hrest with
            | @same r _ _ hst₂ => cases r <;> exact .same hst₂
            | @gone r _ _ hm hgone => cases r <;> exact .gone hm hgone
          | none =>
            have := hnone s₁ rfl
            have := K.gap hst hst₁
            exact ih hst₁ (by omega) (by omega)
      | @gone r s₁ v hm hgone =>
        have hadv := (collectFor hr xs).advances s₁
        rcases r with e | r
        · exact .gone hm hgone
        · cases r with
          | stop | last _ => exact .gone hm hgone
          | none => exact .gone hm (K.gone_of_advances hgone hadv)
          | more a =>
            have hgone := K.gone_of_advances hgone hadv
            change K.Ends m (Parser.andThen (Parser.collectFor round xs) _ s₁) _
            unfold Parser.andThen
            rcases hc : Parser.collectFor round xs s₁ with ⟨r, s₂⟩
            rw [hc] at hgone
            cases r <;> exact .gone hm hgone

theorem collect {round round' : Parser (Parser.Round α)} (hr : K.Runs m (fun _ => True) round round')
    (hshrinks : RoundShrinks round) : K.Runs m (fun _ => True) (Parser.collect round) (Parser.collect round') :=
  ⟨fun _ _ hst _ => collectFor_ends hr hshrinks hst (by simp) (by simp), fun s => (collectFor hr _).advances s⟩

theorem separatedBy {separator : TokenKind} (he : separator ≠ .eof) (hm : m ∨ separator.endsItem = false)
    (hi : K.Runs m (fun _ => True) p q) :
    K.Runs m (fun _ => True) (Parser.separatedBy separator p) (Parser.separatedBy separator q) := by
  refine collect (hi.bind fun a => (accept_of hm).bind fun b => ite (done _) (done _)) ⟨fun s a s' h => ?_, ?_⟩
  · have hmore : ∃ a s₁, p.run s = (.ok a, s₁) ∧ s₁.peek.kind = separator ∧ s₁.advance = s' := by
      simp [ite_eq_iff] at h
      grind
    obtain ⟨_, s₁, hp, hk, rfl⟩ := hmore
    have := (Parser.advances_run hi.advances hp).length_le
    have := Parser.length_advance_lt (hk ▸ he)
    omega
  · intro s s' h
    simp [ite_eq_iff] at h

end Runs

/-! ### Up to the end of an item and behind it -/

namespace Runs

variable {p q : Parser α}

theorem skip : K.Ties Parser.skip Parser.skip := skip_of (.inl trivial)

theorem accept (kind : TokenKind) : K.Ties (Parser.accept kind) (Parser.accept kind) := accept_of (.inl trivial)

theorem expect (kind : TokenKind) (wanted : Expected) :
    K.Ties (Parser.expect kind wanted) (Parser.expect kind wanted) := expect_of (.inl trivial)

theorem closing (close : Punctuation) (opened : Span) :
    K.Ties (Parser.closing close opened) (Parser.closing close opened) := closing_of (.inl trivial)

theorem semicolon : K.Ties Parser.semicolon Parser.semicolon := by
  refine step (l := fun s => (s.peek, s.readStop)) (fun s => by simp [ParseState.readStop])
    (c := fun c => c.1.kind = .punctuation .semicolon)
    (r := fun c => if c.1.kind = .punctuation .semicolon then .ok () else
      .error { cause := .unexpected (.punctuation .semicolon) c.1.kind, span := c.1.span,
               notes := [.previousEndsAt c.2], hints := [.addSemicolon] }) (fun s => ?_) (.inl trivial)
  unfold Parser.semicolon
  by_cases hk : s.peek.kind = .punctuation .semicolon <;> simp [hk]

theorem commaList (close : Punctuation) (hi : K.Ties p q) :
    K.Ties (Parser.commaList close p) (Parser.commaList close q) := by
  refine collect ?_ ⟨fun s a s' h => ?_, fun s s' h => ?_⟩
  · refine (isAt _).bind fun _ => ite (done _) (atEnd.bind fun _ => ite (done _) ?_)
    exact hi.bind fun _ => (accept _).bind fun _ => ite (done _) (done _)
  · have hmore : ∃ a s₁, p.run s = (.ok a, s₁) ∧ s₁.peek.kind = .punctuation .comma ∧ s₁.advance = s' := by
      simp [Parser.atMark, Parser.isAt, Parser.atEnd, Parser.acceptMark, ite_eq_iff] at h
      grind
    obtain ⟨_, s₁, hp, hk, rfl⟩ := hmore
    have := (Parser.advances_run hi.advances hp).length_le
    have := Parser.length_advance_lt (s := s₁) (by simp [hk])
    omega
  · simp [Parser.atMark, Parser.isAt, Parser.atEnd, Parser.acceptMark, ite_eq_iff] at h

end Runs

/-! ### What is only tried -/

/-- Two runs that are tried from the states `s` and `t` end alike: where they fail, the states are tied again that
they go back to. -/
inductive TrialEnds (K : Tie) (s t : ParseState) :
    Except Diagnostic α × ParseState → Except Diagnostic α × ParseState → Prop
  | same {a : α} {s' t' : ParseState} : K.rel s' t' → TrialEnds K s t (.ok a, s') (.ok a, t')
  | gone {a : α} {s' : ParseState} {y : Except Diagnostic α × ParseState} : K.gone s' → TrialEnds K s t (.ok a, s') y
  | failed {d e : Diagnostic} {s' t' : ParseState} : K.rel (s'.rewindTo s) (t'.rewindTo t) →
    TrialEnds K s t (.error d, s') (.error e, t')

/-- Two parsers that may be tried. -/
structure Tried (K : Tie) (p q : Parser α) : Prop where
  ends : ∀ s t, K.rel s t → K.TrialEnds s t (p s) (q t)
  advances : ∀ s, Advances s (p s).2

namespace Tried

variable {p q : Parser α}

theorem of_holds (h : K.Holds p q) : K.Tried p q := by
  refine ⟨fun s t hst => ?_, h.advances⟩
  have := h.ends s t hst trivial
  generalize p s = x, q t = y at this
  cases this with
  | @same r s' t' hst' =>
    cases r with
    | ok a => exact .same hst'
    | error e => exact .failed (K.rewind hst hst')
  | gone hm => exact hm.elim

/-- What is tried may pass a last token of any kind. -/
theorem before_expect (h : K.Holds p q) (kind : TokenKind) (wanted : Expected) :
    K.Tried (do let a ← p; let _ ← Parser.expect kind wanted; pure a)
      (do let a ← q; let _ ← Parser.expect kind wanted; pure a) := by
  have hlast (a : α) : K.Ties (do let _ ← Parser.expect kind wanted; pure a)
      (do let _ ← Parser.expect kind wanted; pure a) := (Runs.expect _ _).bind fun _ => .done a
  refine ⟨fun s t hst => ?_, (h.ties.bind hlast).advances⟩
  change K.TrialEnds s t (Parser.andThen p _ s) (Parser.andThen q _ t)
  unfold Parser.andThen
  have := h.ends s t hst trivial
  generalize p s = x, q t = y at this
  cases this with
  | @same r s' t' hst' =>
    cases r with
    | error e => exact .failed (K.rewind hst hst')
    | ok a =>
      have := (hlast a).ends s' t' hst' trivial
      have hk := kind_eq hst'
      change K.TrialEnds s t (Parser.andThen (Parser.expect kind wanted) _ s')
        (Parser.andThen (Parser.expect kind wanted) _ t')
      change K.Ends True (Parser.andThen (Parser.expect kind wanted) _ s')
        (Parser.andThen (Parser.expect kind wanted) _ t') at this
      unfold Parser.andThen Parser.expect at this ⊢
      rw [← hk] at this ⊢
      by_cases hs : s'.peek.kind = kind
      · simp only [if_pos hs] at this ⊢
        rcases K.advance hst' with hst' | hgone
        · exact .same hst'
        · exact .gone hgone
      · simp only [if_neg hs]
        exact .failed (K.rewind hst hst')
  | gone hm => exact hm.elim

theorem attempt (h : K.Tried p q) : K.Ties (Parser.attempt p) (Parser.attempt q) := by
  constructor
  · intro s t hst _
    have := h.ends s t hst
    unfold Parser.attempt
    generalize p s = x, q t = y at this
    cases this with
    | same hst' => exact .same hst'
    | gone hgone => exact .gone trivial hgone
    | failed hst' => exact .same hst'
  · exact Parser.advances_attempt h.advances

end Tried

end Tie

end ElleFrontEnd
