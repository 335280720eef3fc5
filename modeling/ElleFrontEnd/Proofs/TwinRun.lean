import ElleFrontEnd.Proofs.Progress
import ElleFrontEnd.Tree.Spans
import Mathlib.Data.List.Forall2

/-!
# Two runs side by side

Two token streams of the same kinds may differ in their layout, and a parser that runs on both stands at the same
place of both.  `Alike R p q` says that `p` on the one stream and `q` on the other end in the same way: both succeed
with results that `R` relates, or both fail with the same report, and again at one place, which is not before the
place where they began.  A parser that runs beside itself shows in particular that it only reads on
(`Alike.advances`).

A parser may look at the gap between two tokens only where the gap matters (`GapMatters`): before a `<`, after a `$`,
and before the parenthesis behind a name that follows a `$`.
-/

namespace ElleFrontEnd

/-- The gap between the token number `i` and the next one decides how they are read. -/
def GapMatters (kinds : List TokenKind) (i : Nat) : Prop :=
  kinds[i + 1]? = some (.operator .lt) ∨ kinds[i]? = some (.punctuation .dollar) ∨
    (1 ≤ i ∧ kinds[i - 1]? = some (.punctuation .dollar) ∧ kinds[i + 1]? = some (.punctuation .lParen))

instance (kinds : List TokenKind) (i : Nat) : Decidable (GapMatters kinds i) :=
  inferInstanceAs (Decidable (_ ∨ _ ∨ _))

/-- Whether the token number `i` ends where the next one starts, if there are two such tokens. -/
def touchAt (ts : List Token) (i : Nat) : Option Bool := do
  pure ((← ts[i]?).isAdjacentTo (← ts[i + 1]?))

/-- Two token streams of the same kinds, which agree on whether two neighbours touch wherever that matters. -/
structure SameLayout (ts us : List Token) : Prop where
  kinds : ts.map Token.kind = us.map Token.kind
  gaps : ∀ i < ts.length, GapMatters (ts.map Token.kind) i → touchAt ts i = touchAt us i

instance (ts us : List Token) : Decidable (SameLayout ts us) :=
  decidable_of_iff (ts.map Token.kind = us.map Token.kind ∧
      ∀ i < ts.length, GapMatters (ts.map Token.kind) i → touchAt ts i = touchAt us i)
    ⟨fun h => ⟨h.1, h.2⟩, fun h => ⟨h.kinds, h.gaps⟩⟩

namespace SameLayout

variable {ts us : List Token}

theorem length_eq (h : SameLayout ts us) : ts.length = us.length := by
  have := congrArg List.length h.kinds
  simpa only [List.length_map] using this

/-- Neighbours at a gap that matters touch in both streams or in neither. -/
theorem isAdjacentTo (h : SameLayout ts us) {i : Nat} (hm : GapMatters (ts.map Token.kind) i) (hi : i + 1 < ts.length)
    (hi' : i + 1 < us.length) : ts[i].isAdjacentTo ts[i + 1] = us[i].isAdjacentTo us[i + 1] := by
  have := h.gaps i (by omega) hm
  simpa [touchAt, hi, hi', Nat.lt_of_succ_lt hi, Nat.lt_of_succ_lt hi'] using this

end SameLayout

/-- Two diagnostics that read alike but for the places they name. -/
structure SameReport (d e : Diagnostic) : Prop where
  kind : d.kind = e.kind
  message : d.message = e.message
  hints : d.hints = e.hints

theorem SameReport.withHint {d e : Diagnostic} (h : SameReport d e) (hint : Hint) :
    SameReport (d.withHint hint) (e.withHint hint) :=
  ⟨h.kind, h.message, by simp [Diagnostic.withHint, h.hints]⟩

theorem SameReport.of_cause {d e : Diagnostic} (hc : d.cause = e.cause) (hh : d.hints = e.hints) : SameReport d e :=
  ⟨by simp [Diagnostic.kind, hc], by simp [Diagnostic.message, hc], hh⟩

/-- The state has `n` tokens of a stream behind it. -/
structure StandsAt (ts : List Token) (n : Nat) (s : ParseState) : Prop where
  bound : n ≤ ts.length
  rest : s.rest = ts.drop n
  last : s.last = (ts.take n).getLast?

/-- Two states at the place `n` of their streams, which differ in no more than spans. -/
structure TwinAt (ts us : List Token) (n : Nat) (s u : ParseState) : Prop where
  left : StandsAt ts n s
  right : StandsAt us n u
  owed : s.owed = u.owed
  errors : List.Forall₂ SameReport s.errors u.errors

/-- Two states at one place of their streams. -/
def Twin (ts us : List Token) (s u : ParseState) : Prop := ∃ n, TwinAt ts us n s u

namespace StandsAt

variable {ts : List Token} {n : Nat} {s : ParseState}

theorem kindAt (h : StandsAt ts n s) (k : Nat) : s.kindAt k = ((ts.map Token.kind)[n + k]?).getD .eof := by
  simp [ParseState.kindAt, h.rest]

/-- Unless the next token is the end, it is a token of the stream. -/
theorem peek (h : StandsAt ts n s) (hk : s.peek.kind ≠ .eof) :
    ∃ hn : n < ts.length, s.peek = ts[n] ∧ s.rest = ts[n] :: ts.drop (n + 1) := by
  have hn : n < ts.length := by
    by_contra hn
    rw [ParseState.peek_kind, h.kindAt] at hk
    simp [List.getElem?_eq_none (Nat.le_of_not_lt hn)] at hk
  have hr : s.rest = ts[n] :: ts.drop (n + 1) := by rw [h.rest, List.drop_eq_getElem_cons hn]
  exact ⟨hn, ParseState.peek_cons hr, hr⟩

theorem advance (h : StandsAt ts n s) (hk : s.peek.kind ≠ .eof) : StandsAt ts (n + 1) s.advance := by
  obtain ⟨hn, hp, hr⟩ := h.peek hk
  rw [hp] at hk
  rw [ParseState.advance_cons hr hk]
  refine ⟨hn, rfl, ?_⟩
  rw [List.take_succ_eq_append_getElem hn, List.getLast?_append]
  rfl

theorem last_succ (h : StandsAt ts (n + 1) s) : ∃ hn : n < ts.length, s.last = some ts[n] := by
  have hn : n < ts.length := h.bound
  refine ⟨hn, ?_⟩
  rw [h.last, List.take_succ_eq_append_getElem hn, List.getLast?_append]
  rfl

end StandsAt

variable {ts us : List Token}

namespace TwinAt

variable {n : Nat} {s u : ParseState}

theorem kindAt (hl : SameLayout ts us) (h : TwinAt ts us n s u) (k : Nat) : s.kindAt k = u.kindAt k := by
  rw [h.left.kindAt, h.right.kindAt, hl.kinds]

theorem kind (hl : SameLayout ts us) (h : TwinAt ts us n s u) : s.peek.kind = u.peek.kind := by
  rw [s.peek_kind, u.peek_kind, h.kindAt hl]

/-- Behind the next token, unless it is the end. -/
theorem advance (hl : SameLayout ts us) (h : TwinAt ts us n s u) (hk : s.peek.kind ≠ .eof) :
    TwinAt ts us (n + 1) s.advance u.advance := by
  have hs := h.left.advance hk
  have hu := h.right.advance (h.kind hl ▸ hk)
  refine ⟨hs, hu, ?_, ?_⟩
  · simpa only [ParseState.advance_owed] using h.owed
  · simpa only [ParseState.advance_errors] using h.errors

/-- Where the gap before the next token matters, both see it alike. -/
theorem isAdjacent (hl : SameLayout ts us) (h : TwinAt ts us (n + 1) s u) (hk : s.peek.kind ≠ .eof)
    (hm : GapMatters (ts.map Token.kind) n) : s.isAdjacent = u.isAdjacent := by
  obtain ⟨hn, hs⟩ := h.left.last_succ
  obtain ⟨hm', hu⟩ := h.right.last_succ
  obtain ⟨hn', hps, -⟩ := h.left.peek hk
  obtain ⟨hm'', hpu, -⟩ := h.right.peek (h.kind hl ▸ hk)
  simpa only [ParseState.isAdjacent, hs, hu, hps, hpu] using hl.isAdjacentTo hm hn' hm''

end TwinAt

namespace Twin

variable {s u : ParseState}

theorem kindAt (hl : SameLayout ts us) (h : Twin ts us s u) (k : Nat) : s.kindAt k = u.kindAt k := by
  obtain ⟨n, h⟩ := h
  exact h.kindAt hl k

theorem kind (hl : SameLayout ts us) (h : Twin ts us s u) : s.peek.kind = u.peek.kind := by
  rw [s.peek_kind, u.peek_kind, h.kindAt hl]

theorem owed (h : Twin ts us s u) : s.owed = u.owed := by
  obtain ⟨n, h⟩ := h
  exact h.owed

theorem length (hl : SameLayout ts us) (h : Twin ts us s u) : s.rest.length = u.rest.length := by
  obtain ⟨n, h⟩ := h
  rw [h.left.rest, h.right.rest, List.length_drop, List.length_drop, hl.length_eq]

theorem advance (hl : SameLayout ts us) (h : Twin ts us s u) : Twin ts us s.advance u.advance := by
  by_cases hk : s.peek.kind = .eof
  · rw [ParseState.advance_eof hk, ParseState.advance_eof (h.kind hl ▸ hk)]
    exact h
  · obtain ⟨n, h⟩ := h
    exact ⟨n + 1, h.advance hl hk⟩

theorem rewindTo {s' u' : ParseState} (h : Twin ts us s u) (h' : Twin ts us s' u') :
    Twin ts us (s'.rewindTo s) (u'.rewindTo u) := by
  obtain ⟨n, h⟩ := h
  obtain ⟨n', h'⟩ := h'
  exact ⟨n, ⟨h.left.bound, h.left.rest, h.left.last⟩, ⟨h.right.bound, h.right.rest, h.right.last⟩, h.owed, h'.errors⟩

theorem withOwed (h : Twin ts us s u) (f : Nat → Nat) :
    Twin ts us { s with owed := f s.owed } { u with owed := f u.owed } := by
  obtain ⟨n, h⟩ := h
  refine ⟨n, ⟨h.left.bound, h.left.rest, h.left.last⟩, ⟨h.right.bound, h.right.rest, h.right.last⟩, ?_, h.errors⟩
  exact congrArg f h.owed

theorem record {d e : Diagnostic} (h : Twin ts us s u) (hd : SameReport d e) :
    Twin ts us { s with errors := s.errors ++ [d] } { u with errors := u.errors ++ [e] } := by
  obtain ⟨n, h⟩ := h
  refine ⟨n, ⟨h.left.bound, h.left.rest, h.left.last⟩, ⟨h.right.bound, h.right.rest, h.right.last⟩, h.owed, ?_⟩
  exact List.rel_append h.errors (.cons hd .nil)

end Twin

/-! ### Parsers that run alike -/

variable {α β γ δ : Type}

/-- Two runs that end in the same way, not before the place of `b`. -/
inductive Paired (ts us : List Token) (b : ParseState) (R : α → β → Prop) :
    Except Diagnostic α × ParseState → Except Diagnostic β × ParseState → Prop
  | ok {x y s u} (value : R x y) (place : Twin ts us s u) (moved : Advances b s) :
    Paired ts us b R (.ok x, s) (.ok y, u)
  | error {d e s u} (report : SameReport d e) (place : Twin ts us s u) (moved : Advances b s) :
    Paired ts us b R (.error d, s) (.error e, u)

/-- Two parsers that end in the same way wherever both start at one place. -/
def Alike (ts us : List Token) (R : α → β → Prop) (p : Parser α) (q : Parser β) : Prop :=
  ∀ s u, Twin ts us s u → Paired ts us s R (p s) (q u)

/-- Two parsers that end in the same way, not before the place of `b`, wherever both start at one place behind it. -/
def AlikeFrom (ts us : List Token) (b : ParseState) (R : α → β → Prop) (p : Parser α) (q : Parser β) : Prop :=
  ∀ s u, Twin ts us s u → Advances b s → Paired ts us b R (p s) (q u)

/-- Values that `f` cannot tell apart. -/
abbrev Same (f : α → γ) (a b : α) : Prop := f a = f b

/-- No relation between two values. -/
abbrev Unrelated (_ : α) (_ : β) : Prop := True

/-- The relation of optional values whose contents are related. -/
def OptionRel (R : α → β → Prop) : Option α → Option β → Prop
  | some a, some b => R a b
  | none, none => True
  | _, _ => False

theorem optionRel_iff {R : α → β → Prop} {o : Option α} {o' : Option β} :
    OptionRel R o o' ↔ (o = none ∧ o' = none) ∨ ∃ a b, o = some a ∧ o' = some b ∧ R a b := by
  cases o <;> cases o' <;> simp [OptionRel]

/-- The relation of outcomes: related results, or the same report. -/
inductive OutcomeRel (R : α → β → Prop) : Except Diagnostic α → Except Diagnostic β → Prop
  | ok {a b} (value : R a b) : OutcomeRel R (.ok a) (.ok b)
  | error {d e} (report : SameReport d e) : OutcomeRel R (.error d) (.error e)

/-- The relation of rounds that go on alike with related items. -/
def RoundRel (R : α → β → Prop) : Parser.Round α → Parser.Round β → Prop
  | .stop, .stop => True
  | .last a, .last b => R a b
  | .more a, .more b => R a b
  | .none, .none => True
  | _, _ => False

theorem Paired.from {b b' : ParseState} {R : α → β → Prop} {x : Except Diagnostic α × ParseState}
    {y : Except Diagnostic β × ParseState} (h : Paired ts us b' R x y) (hb : Advances b b') :
    Paired ts us b R x y := by
  cases h with
  | ok value place moved => exact .ok value place (hb.trans moved)
  | error report place moved => exact .error report place (hb.trans moved)

theorem AlikeFrom.of_alike {b : ParseState} {R : α → β → Prop} {p : Parser α} {q : Parser β}
    (h : Alike ts us R p q) : AlikeFrom ts us b R p q :=
  fun s u ht hb => (h s u ht).from hb

theorem Paired.bind {b : ParseState} {R : α → β → Prop} {S : γ → δ → Prop} {p : Parser α} {q : Parser β}
    {f : α → Parser γ} {g : β → Parser δ} {s u : ParseState} (hp : Paired ts us b R (p s) (q u))
    (hf : ∀ x y, R x y → AlikeFrom ts us b S (f x) (g y)) : Paired ts us b S ((p >>= f) s) ((q >>= g) u) := by
  change Paired ts us b S (Parser.andThen p f s) (Parser.andThen q g u)
  unfold Parser.andThen
  generalize p s = x at hp
  generalize q u = y at hp
  cases hp with
  | ok value place moved => exact hf _ _ value _ _ place moved
  | error report place moved => exact .error report place moved

namespace Alike

variable {R : α → β → Prop} {S : γ → δ → Prop}

theorem done {a : α} {b : β} (h : R a b) : Alike ts us R (pure a) (pure b) := fun s _ ht => .ok h ht (.refl s)

theorem bind {p : Parser α} {q : Parser β} {f : α → Parser γ} {g : β → Parser δ} (hp : Alike ts us R p q)
    (hf : ∀ a b, R a b → Alike ts us S (f a) (g b)) : Alike ts us S (p >>= f) (q >>= g) :=
  fun s u ht => (hp s u ht).bind fun x y hxy => .of_alike (hf x y hxy)

/-- Behind two runs with one result. -/
theorem thenEq {p q : Parser α} {f : α → Parser γ} {g : α → Parser δ} (hp : Alike ts us Eq p q)
    (hf : ∀ a, Alike ts us S (f a) (g a)) : Alike ts us S (p >>= f) (q >>= g) :=
  hp.bind fun a _ hab => hab ▸ hf a

theorem ite {c : Prop} [Decidable c] {p p' : Parser α} {q q' : Parser β} (hp : Alike ts us R p q)
    (hq : Alike ts us R p' q') : Alike ts us R (if c then p else p') (if c then q else q') := by
  split
  · exact hp
  · exact hq

theorem mono {R' : α → β → Prop} {p : Parser α} {q : Parser β} (hp : Alike ts us R p q) (hr : ∀ a b, R a b → R' a b) :
    Alike ts us R' p q := by
  intro s u ht
  have := hp s u ht
  generalize p s = x at this
  generalize q u = y at this
  cases this with
  | ok value place moved => exact .ok (hr _ _ value) place moved
  | error report place moved => exact .error report place moved

theorem fail {d e : Diagnostic} (h : SameReport d e) : Alike ts us R (Parser.fail d) (Parser.fail e) :=
  fun s _ ht => .error h ht (.refl s)

theorem look {f : ParseState → α} {g : ParseState → β} (h : ∀ s u, Twin ts us s u → R (f s) (g u)) :
    Alike ts us R (Parser.look f) (Parser.look g) :=
  fun s u ht => .ok (h s u ht) ht (.refl s)

theorem change {f g : ParseState → ParseState}
    (h : ∀ s u, Twin ts us s u → Twin ts us (f s) (g u) ∧ Advances s (f s)) :
    Alike ts us Unrelated (Parser.change f) (Parser.change g) :=
  fun s u ht => .ok trivial (h s u ht).1 (h s u ht).2

theorem onError {f g : Diagnostic → Diagnostic} {p : Parser α} {q : Parser β} (hp : Alike ts us R p q)
    (hf : ∀ d e, SameReport d e → SameReport (f d) (g e)) :
    Alike ts us R (Parser.onError f p) (Parser.onError g q) := by
  intro s u ht
  have := hp s u ht
  unfold Parser.onError
  generalize p s = x at this
  generalize q u = y at this
  cases this with
  | ok value place moved => exact .ok value place moved
  | error report place moved => exact .error (hf _ _ report) place moved

theorem attempt {p : Parser α} {q : Parser β} (hp : Alike ts us R p q) :
    Alike ts us (OptionRel R) (Parser.attempt p) (Parser.attempt q) := by
  intro s u ht
  have := hp s u ht
  unfold Parser.attempt
  generalize p s = x at this
  generalize q u = y at this
  cases this with
  | ok value place moved => exact .ok value place moved
  | error report place moved => exact .ok trivial (ht.rewindTo place) moved.rewindTo

theorem outcome {p : Parser α} {q : Parser β} (hp : Alike ts us R p q) :
    Alike ts us (OutcomeRel R) (Parser.outcome p) (Parser.outcome q) := by
  intro s u ht
  have := hp s u ht
  unfold Parser.outcome
  generalize p s = x at this
  generalize q u = y at this
  cases this with
  | ok value place moved => exact .ok (.ok value) place moved
  | error report place moved => exact .ok (.error report) place moved

theorem growFor {step : α → Parser (Option α)} {step' : β → Parser (Option β)}
    (hs : ∀ a b, R a b → Alike ts us (OptionRel R) (step a) (step' b)) {xs ys : List Token}
    (hl : xs.length = ys.length) {a : α} {b : β} (hab : R a b) :
    Alike ts us R (Parser.growFor step xs a) (Parser.growFor step' ys b) := by
  induction xs generalizing ys a b with
  | nil =>
    cases ys with
    | nil => exact .done hab
    | cons y ys => simp at hl
  | cons x xs ih =>
    cases ys with
    | nil => simp at hl
    | cons y ys =>
      refine (hs a b hab).bind fun o o' ho => ?_
      match o, o', ho with
      | none, none, _ => exact .done hab
      | some a', some b', ho => exact ih (by simpa using hl) ho

theorem grow (hl : SameLayout ts us) {step : α → Parser (Option α)} {step' : β → Parser (Option β)}
    (hs : ∀ a b, R a b → Alike ts us (OptionRel R) (step a) (step' b)) {a : α} {b : β} (hab : R a b) :
    Alike ts us R (Parser.grow step a) (Parser.grow step' b) :=
  fun s u ht => growFor hs (by simpa using ht.length hl) hab s u ht

theorem collectFor {round : Parser (Parser.Round α)} {round' : Parser (Parser.Round β)}
    (hr : Alike ts us (RoundRel R) round round') {xs ys : List Token} (hl : xs.length = ys.length) :
    Alike ts us (List.Forall₂ R) (Parser.collectFor round xs) (Parser.collectFor round' ys) := by
  induction xs generalizing ys with
  | nil =>
    cases ys with
    | nil => exact .done .nil
    | cons y ys => simp at hl
  | cons x xs ih =>
    cases ys with
    | nil => simp at hl
    | cons y ys =>
      have ih := @ih ys (by simpa using hl)
      refine hr.bind fun o o' ho => ?_
      match o, o', ho with
      | .stop, .stop, _ => exact .done .nil
      | .last a, .last b, ho => exact .done (.cons ho .nil)
      | .more a, .more b, ho => exact ih.bind fun as bs h => .done (.cons ho h)
      | .none, .none, _ => exact ih

theorem collect (hl : SameLayout ts us) {round : Parser (Parser.Round α)} {round' : Parser (Parser.Round β)}
    (hr : Alike ts us (RoundRel R) round round') :
    Alike ts us (List.Forall₂ R) (Parser.collect round) (Parser.collect round') :=
  fun s u ht => collectFor hr (by simpa using ht.length hl) s u ht

/-! ### Tokens -/

variable (hl : SameLayout ts us)
include hl

theorem kind : Alike ts us Eq Parser.nextKind Parser.nextKind := .look fun _ _ ht => ht.kind hl

theorem isAt (kind : TokenKind) : Alike ts us Eq (Parser.isAt kind) (Parser.isAt kind) :=
  .look fun s u ht => by rw [ht.kind hl]

theorem isAhead (n : Nat) (kind : TokenKind) : Alike ts us Eq (Parser.isAhead n kind) (Parser.isAhead n kind) :=
  .look fun s u ht => by rw [ht.kindAt hl]

theorem atIdent : Alike ts us Eq Parser.atIdent Parser.atIdent := .look fun s u ht => by rw [ht.kind hl]

theorem atEnd : Alike ts us Eq Parser.atEnd Parser.atEnd :=
  .look fun s u ht => by unfold ParseState.atEnd; rw [ht.kind hl]

theorem skip : Alike ts us Unrelated Parser.skip Parser.skip :=
  fun s _ ht => .ok trivial (ht.advance hl) (.advance s)

theorem accept (kind : TokenKind) : Alike ts us Eq (Parser.accept kind) (Parser.accept kind) := by
  intro s u ht
  unfold Parser.accept
  rw [ht.kind hl]
  split
  · exact .ok rfl (ht.advance hl) (.advance s)
  · exact .ok rfl ht (.refl s)

theorem unexpected (wanted : Expected) {R : α → β → Prop} :
    Alike ts us R (Parser.unexpected wanted) (Parser.unexpected wanted) := by
  intro s u ht
  unfold Parser.unexpected
  rw [ht.kind hl]
  exact .error (.of_cause rfl rfl) ht (.refl s)

theorem expect (kind : TokenKind) (wanted : Expected) :
    Alike ts us Unrelated (Parser.expect kind wanted) (Parser.expect kind wanted) := by
  intro s u ht
  unfold Parser.expect
  rw [ht.kind hl]
  split
  · exact .ok trivial (ht.advance hl) (.advance s)
  · exact Alike.unexpected hl wanted s u ht

theorem identifier : Alike ts us Eq Parser.identifier Parser.identifier := by
  intro s u ht
  unfold Parser.identifier
  rw [ht.kind hl]
  split
  · exact .ok rfl (ht.advance hl) (.advance s)
  · exact Alike.unexpected hl .identifier s u ht

theorem semicolon : Alike ts us Eq Parser.semicolon Parser.semicolon := by
  intro s u ht
  unfold Parser.semicolon
  rw [ht.kind hl]
  split
  · exact .ok rfl (ht.advance hl) (.advance s)
  · exact .error (.of_cause rfl rfl) ht (.refl s)

theorem closing (close : Punctuation) (opened opened' : Span) :
    Alike ts us Eq (Parser.closing close opened) (Parser.closing close opened') := by
  intro s u ht
  unfold Parser.closing
  simp only [ht.kind hl]
  split
  · exact .ok rfl (ht.advance hl) (.advance s)
  · split <;> split
    all_goals first
      | exact .error (.of_cause rfl rfl) ht (.refl s)
      | exact Alike.unexpected hl _ s u ht

theorem commaList (close : Punctuation) {R : α → β → Prop} {item : Parser α} {item' : Parser β}
    (hi : Alike ts us R item item') :
    Alike ts us (List.Forall₂ R) (Parser.commaList close item) (Parser.commaList close item') := by
  unfold Parser.commaList
  refine .collect hl ?_
  refine (Alike.isAt hl _).thenEq fun closes => .ite (.done trivial) ?_
  refine (Alike.atEnd hl).thenEq fun ends => .ite (.done trivial) ?_
  refine hi.bind fun a b hab => ?_
  exact (Alike.accept hl _).thenEq fun more => .ite (.done hab) (.done hab)

theorem separatedBy (separator : TokenKind) {R : α → β → Prop} {item : Parser α} {item' : Parser β}
    (hi : Alike ts us R item item') :
    Alike ts us (List.Forall₂ R) (Parser.separatedBy separator item) (Parser.separatedBy separator item') := by
  unfold Parser.separatedBy
  refine .collect hl ?_
  refine hi.bind fun a b hab => ?_
  exact (Alike.accept hl _).thenEq fun more => .ite (.done hab) (.done hab)

/-- Where the next token is a `<`, whether it touches the one before is the same for both. -/
theorem touchingLt {S : γ → δ → Prop} {f : Bool → Bool → Parser γ} {g : Bool → Bool → Parser δ}
    (hf : ∀ touches, f false touches = f false false) (hg : ∀ touches, g false touches = g false false)
    (hfg : ∀ opens touches, Alike ts us S (f opens touches) (g opens touches)) :
    Alike ts us S (do f (← Parser.atOperator .lt) (← Parser.isAdjacent))
      (do g (← Parser.atOperator .lt) (← Parser.isAdjacent)) := by
  intro s u ht
  change Paired ts us s S (f (decide (s.peek.kind = .operator .lt)) s.isAdjacent s)
    (g (decide (u.peek.kind = .operator .lt)) u.isAdjacent u)
  rw [← ht.kind hl]
  by_cases hk : s.peek.kind = .operator .lt
  · obtain ⟨n, hn⟩ := ht
    have hadj : s.isAdjacent = u.isAdjacent := by
      cases n with
      | zero =>
        have hs : s.last = none := by rw [hn.left.last]; rfl
        have hu : u.last = none := by rw [hn.right.last]; rfl
        simp only [ParseState.isAdjacent, hs, hu]
      | succ n =>
        refine hn.isAdjacent hl (by simp [hk]) (.inl ?_)
        obtain ⟨hlt, hp, -⟩ := hn.left.peek (by simp [hk])
        rw [List.getElem?_map, List.getElem?_eq_getElem hlt, ← hp, Option.map_some, hk]
    rw [← hadj]
    exact hfg _ _ s u ⟨n, hn⟩
  · rw [decide_eq_false hk, hf, hg]
    exact hfg _ _ s u ht

end Alike

/-! ### Going back -/

namespace AlikeFrom

variable {b c : ParseState} {R : α → β → Prop} {S : γ → δ → Prop}

/-- The states where both runs begin are kept, to go back to them. -/
theorem save {f : ParseState → Parser γ} {g : ParseState → Parser δ}
    (h : ∀ s u, Twin ts us s u → AlikeFrom ts us s S (f s) (g u)) :
    Alike ts us S (Parser.look id >>= f) (Parser.look id >>= g) :=
  fun s u ht => h s u ht s u ht (.refl s)

theorem bind {p : Parser α} {q : Parser β} {f : α → Parser γ} {g : β → Parser δ} (hp : Alike ts us R p q)
    (hf : ∀ x y, R x y → AlikeFrom ts us b S (f x) (g y)) : AlikeFrom ts us b S (p >>= f) (q >>= g) :=
  fun s u ht hb => ((hp s u ht).from hb).bind hf

theorem thenEq {p q : Parser α} {f : α → Parser γ} {g : α → Parser δ} (hp : Alike ts us Eq p q)
    (hf : ∀ a, AlikeFrom ts us b S (f a) (g a)) : AlikeFrom ts us b S (p >>= f) (q >>= g) :=
  bind hp fun a _ hab => hab ▸ hf a

theorem ite {e : Prop} [Decidable e] {p p' : Parser α} {q q' : Parser β} (hp : AlikeFrom ts us b R p q)
    (hq : AlikeFrom ts us b R p' q') : AlikeFrom ts us b R (if e then p else p') (if e then q else q') := by
  split
  · exact hp
  · exact hq

/-- Both runs go back and end there. -/
theorem rewind (hbc : Twin ts us b c) {x : α} {y : β} (h : R x y) :
    AlikeFrom ts us b R (do Parser.change (·.rewindTo b); pure x) (do Parser.change (·.rewindTo c); pure y) :=
  fun _ _ ht hb => .ok h (hbc.rewindTo ht) hb.rewindTo

end AlikeFrom

theorem SameLayout.refl (ts : List Token) : SameLayout ts ts := ⟨rfl, fun _ _ _ => rfl⟩

theorem forall₂_sameReport_refl (es : List Diagnostic) : List.Forall₂ SameReport es es := by
  induction es with
  | nil => exact .nil
  | cons e es ih => exact .cons (.of_cause rfl rfl) ih

/-- A state stands beside itself in the stream of its own tokens. -/
theorem Twin.self (s : ParseState) : Twin (s.last.toList ++ s.rest) (s.last.toList ++ s.rest) s s := by
  have h : StandsAt (s.last.toList ++ s.rest) s.last.toList.length s := by
    refine ⟨by simp, by simp, ?_⟩
    rw [List.take_left]
    cases s.last <;> rfl
  exact ⟨_, h, h, rfl, forall₂_sameReport_refl _⟩

/-- A parser that runs alike beside itself only reads on. -/
theorem Alike.advances {R : α → α → Prop} {p : Parser α} (h : ∀ ts, Alike ts ts R p p) (s : ParseState) :
    Advances s (p s).2 := by
  have := h _ s s (Twin.self s)
  generalize p s = x at this
  cases this with
  | ok _ _ moved => exact moved
  | error _ _ moved => exact moved

/-! ### At a known place -/

/-- The kind of the token number `n`; behind the last token, the end. -/
def kindNumber (ts : List Token) (n : Nat) : TokenKind := ((ts.map Token.kind)[n]?).getD .eof

/-- Two parsers that end in the same way wherever both start at the place `n`. -/
def AlikeAt (ts us : List Token) (n : Nat) (R : α → β → Prop) (p : Parser α) (q : Parser β) : Prop :=
  ∀ s u, TwinAt ts us n s u → Paired ts us s R (p s) (q u)

theorem getElem?_of_kindNumber {n : Nat} {kind : TokenKind} (h : kindNumber ts n = kind) (hk : kind ≠ .eof) :
    (ts.map Token.kind)[n]? = some kind := by
  unfold kindNumber at h
  cases hn : (ts.map Token.kind)[n]? with
  | none => exact absurd (by rw [← h, hn]; rfl) hk
  | some k => rw [← h, hn]; rfl

namespace TwinAt

variable {n : Nat} {s u : ParseState}

theorem kindAt_left (h : TwinAt ts us n s u) (k : Nat) : s.kindAt k = kindNumber ts (n + k) := h.left.kindAt k

theorem kind_left (h : TwinAt ts us n s u) : s.peek.kind = kindNumber ts n := by
  rw [s.peek_kind, h.kindAt_left, Nat.add_zero]

theorem nextIsAdjacent (hl : SameLayout ts us) (h : TwinAt ts us n s u) (hk : kindNumber ts n ≠ .eof)
    (hk' : kindNumber ts (n + 1) ≠ .eof) (hm : GapMatters (ts.map Token.kind) n) :
    s.nextIsAdjacent = u.nextIsAdjacent := by
  have hs := h.kind_left ▸ hk
  obtain ⟨hn, -, hr⟩ := h.left.peek hs
  obtain ⟨hm', -, hru⟩ := h.right.peek (h.kind hl ▸ hs)
  have hn' : n + 1 < ts.length := by
    by_contra hge
    exact hk' (by simp [kindNumber, List.getElem?_eq_none (Nat.le_of_not_lt hge)])
  have hm'' : n + 1 < us.length := hl.length_eq ▸ hn'
  have := hl.isAdjacentTo hm hn' hm''
  rw [List.drop_eq_getElem_cons hn'] at hr
  rw [List.drop_eq_getElem_cons hm''] at hru
  simpa only [ParseState.nextIsAdjacent, hr, hru] using this

end TwinAt

namespace AlikeAt

variable {n : Nat} {R : α → β → Prop} {S : γ → δ → Prop}

theorem of_alike {p : Parser α} {q : Parser β} (h : Alike ts us R p q) : AlikeAt ts us n R p q :=
  fun s u ht => h s u ⟨n, ht⟩

theorem look {l : ParseState → α} {l' : ParseState → β} {f : α → Parser γ} {g : β → Parser δ}
    (h : ∀ s u, TwinAt ts us n s u → R (l s) (l' u)) (hf : ∀ a b, R a b → AlikeAt ts us n S (f a) (g b)) :
    AlikeAt ts us n S (Parser.look l >>= f) (Parser.look l' >>= g) :=
  fun s u ht => hf _ _ (h s u ht) s u ht

theorem ite {c c' : Prop} [Decidable c] [Decidable c'] (hc : c ↔ c') {p p' : Parser α} {q q' : Parser β}
    (hp : c → AlikeAt ts us n R p q) (hq : AlikeAt ts us n R p' q') :
    AlikeAt ts us n R (if c then p else p') (if c' then q else q') := by
  by_cases h : c
  · rw [if_pos h, if_pos (hc.1 h)]
    exact hp h
  · rw [if_neg h, if_neg (fun h' => h (hc.2 h'))]
    exact hq

variable (hl : SameLayout ts us)
include hl

theorem isAhead (k : Nat) (kind : TokenKind) {f : Bool → Parser γ} {g : Bool → Parser δ}
    (hf : AlikeAt ts us n S (f (kindNumber ts (n + k) = kind)) (g (kindNumber ts (n + k) = kind))) :
    AlikeAt ts us n S (Parser.isAhead k kind >>= f) (Parser.isAhead k kind >>= g) := by
  refine look (R := fun a b => a = decide (kindNumber ts (n + k) = kind) ∧ b = a) (fun s u ht => ?_) fun a b h => ?_
  · rw [← ht.kindAt hl, ht.kindAt_left]
    exact ⟨rfl, rfl⟩
  · rw [h.2, h.1]
    exact hf

theorem isAt (kind : TokenKind) {f : Bool → Parser γ} {g : Bool → Parser δ}
    (hf : AlikeAt ts us n S (f (kindNumber ts n = kind)) (g (kindNumber ts n = kind))) :
    AlikeAt ts us n S (Parser.isAt kind >>= f) (Parser.isAt kind >>= g) := by
  refine look (R := fun a b => a = decide (kindNumber ts n = kind) ∧ b = a) (fun s u ht => ?_) fun a b h => ?_
  · rw [← ht.kind hl, ht.kind_left]
    exact ⟨rfl, rfl⟩
  · rw [h.2, h.1]
    exact hf

theorem expect {kind : TokenKind} (hk : kind ≠ .eof) (wanted : Expected) {f : Span → Parser γ} {g : Span → Parser δ}
    (hf : kindNumber ts n = kind → ∀ a b, AlikeAt ts us (n + 1) S (f a) (g b)) :
    AlikeAt ts us n S (Parser.expect kind wanted >>= f) (Parser.expect kind wanted >>= g) := by
  intro s u ht
  change Paired ts us s S (Parser.andThen (Parser.expect kind wanted) f s)
    (Parser.andThen (Parser.expect kind wanted) g u)
  unfold Parser.andThen Parser.expect
  rw [← ht.kind hl]
  by_cases h : s.peek.kind = kind
  · simp only [if_pos h]
    exact (hf (ht.kind_left ▸ h) _ _ _ _ (ht.advance hl (h ▸ hk))).from (.advance s)
  · simp only [if_neg h]
    exact Alike.unexpected hl wanted s u ⟨n, ht⟩

theorem identifier {f : String → Parser γ} {g : String → Parser δ}
    (hf : ∀ name, AlikeAt ts us (n + 1) S (f name) (g name)) :
    AlikeAt ts us n S (Parser.identifier >>= f) (Parser.identifier >>= g) := by
  intro s u ht
  change Paired ts us s S (Parser.andThen Parser.identifier f s) (Parser.andThen Parser.identifier g u)
  unfold Parser.andThen Parser.identifier
  rw [← ht.kind hl]
  cases h : s.peek.kind with
  | ident name => exact (hf name _ _ (ht.advance hl (by simp [h]))).from (.advance s)
  | _ => exact Alike.unexpected hl .identifier s u ⟨n, ht⟩

end AlikeAt

end ElleFrontEnd
