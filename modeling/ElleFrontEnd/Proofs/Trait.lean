import ElleFrontEnd.Proofs.TieExpr

/-!
# Traits of parsers

A trait is a property that single steps have and that the ways of putting parsers together keep up.  Whatever the trait
is, every parser of the grammar has it as soon as blocks do: the grammar is walked once, for all traits, here and in
`Proofs.TraitGrammar`.

The steps that are allowed for look at kinds and stretches only, not at the lines and columns of tokens.
-/

namespace ElleFrontEnd

/-- The token, with no line and column of its own. -/
def Token.unplaced (t : Token) : Token := { t with pos := .first }

/-- The state, with no lines and columns in its tokens. -/
def ParseState.unplaced (s : ParseState) : ParseState :=
  { s with last := s.last.map Token.unplaced, rest := s.rest.map Token.unplaced }

/-- The look depends on kinds and stretches only. -/
def Blind {α : Type} (l : ParseState → α) : Prop := ∀ s : ParseState, l s.unplaced = l s

namespace Blind

theorem const {α : Type} (a : α) : Blind fun _ => a := fun _ => rfl

theorem comp {α β : Type} {l : ParseState → α} (h : Blind l) (f : α → β) : Blind fun s => f (l s) :=
  fun s => congrArg f (h s)

theorem both {α β γ : Type} {l : ParseState → α} {l' : ParseState → β} (h : Blind l) (h' : Blind l') (f : α → β → γ) :
    Blind fun s => f (l s) (l' s) := fun s => congr (congrArg f (h s)) (h' s)

theorem owed : Blind ParseState.owed := fun _ => rfl

theorem peekKind : Blind fun s => s.peek.kind := by
  rintro ⟨last, _ | ⟨t, ts⟩, owed, errors⟩ <;> rfl

theorem peekSpan : Blind fun s => s.peek.span := by
  rintro ⟨_ | u, _ | ⟨t, ts⟩, owed, errors⟩ <;> rfl

theorem kindAt (n : Nat) : Blind (ParseState.kindAt · n) := by
  intro s
  have hmap : (s.rest.map Token.unplaced)[n]?.map Token.kind = s.rest[n]?.map Token.kind := by
    rw [List.getElem?_map, Option.map_map]
    rfl
  exact congrArg (Option.getD · .eof) hmap

theorem atEnd : Blind ParseState.atEnd := peekKind.comp TokenKind.isEof

theorem readStop : Blind ParseState.readStop := by
  rintro ⟨_ | u, _ | ⟨t, ts⟩, owed, errors⟩ <;> rfl

theorem spanFrom (start : Nat) : Blind (ParseState.spanFrom · start) := readStop.comp (Span.mk start)

theorem isAdjacent : Blind ParseState.isAdjacent := by
  rintro ⟨_ | u, _ | ⟨t, ts⟩, owed, errors⟩ <;> rfl

theorem nextIsAdjacent : Blind ParseState.nextIsAdjacent := by
  rintro ⟨last, _ | ⟨t, _ | ⟨u, us⟩⟩, owed, errors⟩ <;> rfl

end Blind

/-- A property of parsers that single steps have and that the ways of putting parsers together keep up. -/
structure Trait where
  /-- whether a parser has the property -/
  holds : {α : Type} → Parser α → Prop
  done : ∀ {α : Type} (a : α), holds (pure a : Parser α)
  bind : ∀ {α β : Type} {p : Parser α} {f : α → Parser β}, holds p → (∀ a, holds (f a)) → holds (p >>= f)
  /-- a parser that passes the next token or stays where it stands, as a look tells it to -/
  step : ∀ {α γ : Type} {p : Parser α} {l : ParseState → γ} (c : γ → Bool) (r : γ → Except Diagnostic α),
    Blind l → (∀ s, p s = (r (l s), if c (l s) then s.advance else s)) → holds p
  owe : ∀ f : Nat → Nat, holds (Parser.change fun s => { s with owed := f s.owed })
  onError : ∀ {α : Type} {p : Parser α} (f : Diagnostic → Diagnostic), holds p → holds (Parser.onError f p)
  /-- only what records nothing is tried -/
  attempt : ∀ {α : Type} {p : Parser α}, p.Silent → holds p → holds (Parser.attempt p)
  grow : ∀ {α : Type} {step : α → Parser (Option α)}, (∀ a, holds (step a)) → ∀ a, holds (Parser.grow step a)
  collect : ∀ {α : Type} {round : Parser (Parser.Round α)}, holds round → holds (Parser.collect round)

namespace Trait

variable {α β : Type} {T : Trait} {p : Parser α}

/-! ### Steps -/

theorem ite {c : Prop} [Decidable c] {p q : Parser α} (hp : T.holds p) (hq : T.holds q) :
    T.holds (if c then p else q) := by
  split
  · exact hp
  · exact hq

theorem look {l : ParseState → α} (hl : Blind l) : T.holds (Parser.look l) :=
  T.step (fun _ => false) .ok hl fun _ => rfl

/-- A parser that goes by a look, and then does what it tells it to. -/
theorem looking {l : ParseState → α} (hl : Blind l) {f : α → Parser β} (hf : ∀ a, T.holds (f a)) :
    T.holds (Parser.look l >>= f) := T.bind (look hl) hf

theorem skip : T.holds Parser.skip := T.step (fun _ => true) .ok Blind.peekSpan fun _ => rfl

/-- A failure where the parser stands. -/
theorem stuck {e : ParseState → Diagnostic} (he : Blind e) : T.holds (fun s => (.error (e s), s) : Parser α) :=
  T.step (fun _ => false) .error he fun _ => rfl

theorem fail (e : Diagnostic) : T.holds (Parser.fail e : Parser α) := stuck (.const e)

/-- A failure that cites the next token. -/
theorem failHere {e : TokenKind → Span → Diagnostic} :
    T.holds (fun s => (.error (e s.peek.kind s.peek.span), s) : Parser α) :=
  stuck (Blind.peekKind.both .peekSpan e)

theorem unexpected (wanted : Expected) : T.holds (Parser.unexpected wanted : Parser α) :=
  failHere (e := fun kind span => { cause := .unexpected wanted kind, span })

theorem nextKind : T.holds Parser.nextKind := look Blind.peekKind

theorem nextSpan : T.holds Parser.nextSpan := look Blind.peekSpan

theorem nextStart : T.holds Parser.nextStart := look (Blind.peekSpan.comp Span.start)

theorem spanFrom (start : Nat) : T.holds (Parser.spanFrom start) := look (.spanFrom start)

theorem isAt (kind : TokenKind) : T.holds (Parser.isAt kind) := look (Blind.peekKind.comp fun k => decide (k = kind))

theorem isAhead (n : Nat) (kind : TokenKind) : T.holds (Parser.isAhead n kind) :=
  look ((Blind.kindAt n).comp fun k => decide (k = kind))

theorem isAdjacent : T.holds Parser.isAdjacent := look .isAdjacent

theorem atIdent : T.holds Parser.atIdent := look (Blind.peekKind.comp fun k => k.ident?.isSome)

theorem atEnd : T.holds Parser.atEnd := look .atEnd

theorem owed : T.holds Parser.owed := look .owed

theorem accept (kind : TokenKind) : T.holds (Parser.accept kind) := by
  refine T.step (fun k => decide (k = kind)) (fun k => .ok (decide (k = kind))) Blind.peekKind fun s => ?_
  unfold Parser.accept
  by_cases h : s.peek.kind = kind <;> simp [h]

theorem expect (kind : TokenKind) (wanted : Expected) : T.holds (Parser.expect kind wanted) := by
  refine T.step (l := fun s => (s.peek.kind, s.peek.span)) (fun k => decide (k.1 = kind))
    (fun k => if k.1 = kind then .ok k.2 else .error { cause := .unexpected wanted k.1, span := k.2 })
    (Blind.peekKind.both .peekSpan Prod.mk) fun s => ?_
  unfold Parser.expect Parser.unexpected
  by_cases h : s.peek.kind = kind <;> simp [h]

theorem identifier : T.holds Parser.identifier := by
  refine T.step (l := fun s => (s.peek.kind, s.peek.span)) (fun k => k.1.ident?.isSome)
    (fun k => k.1.ident?.elim (.error { cause := .unexpected .identifier k.1, span := k.2 }) .ok)
    (Blind.peekKind.both .peekSpan Prod.mk) fun s => ?_
  unfold Parser.identifier Parser.unexpected
  cases s.peek.kind <;> rfl

theorem semicolon : T.holds Parser.semicolon := by
  refine T.step (l := fun s => (s.peek.kind, s.peek.span, s.readStop)) (fun k => decide (k.1 = .punctuation .semicolon))
    (fun k => if k.1 = .punctuation .semicolon then .ok () else .error
      { cause := .unexpected (.punctuation .semicolon) k.1
        span := k.2.1
        notes := [.previousEndsAt k.2.2]
        hints := [.addSemicolon] })
    (Blind.peekKind.both (Blind.peekSpan.both .readStop Prod.mk) Prod.mk) fun s => ?_
  unfold Parser.semicolon
  by_cases h : s.peek.kind = .punctuation .semicolon <;> simp [h]

theorem closing (close : Punctuation) (opened : Span) : T.holds (Parser.closing close opened) := by
  refine T.step (l := fun s => (s.peek.kind, s.peek.span)) (fun k => decide (k.1 = .punctuation close))
    (fun k => (Parser.closing close opened { rest := [⟨k.1, k.2, .first⟩] }).1)
    (Blind.peekKind.both .peekSpan Prod.mk) fun s => ?_
  unfold Parser.closing Parser.unexpected
  simp only [ParseState.peek_single]
  by_cases h : s.peek.kind = .punctuation close
  · simp [h]
  · simp only [h, if_false, decide_false, Bool.false_eq_true]
    split <;> split <;> rfl

theorem requireOperand (op : Operator) : T.holds (Parser.requireOperand op) := by
  refine T.step (l := fun s => (s.peek.kind, s.peek.span)) (fun _ => false)
    (fun k => if Parser.opensOperand true k.1 then .ok () else .error { cause := .noOperand op k.1, span := k.2 })
    (Blind.peekKind.both .peekSpan Prod.mk) fun s => ?_
  unfold Parser.requireOperand
  by_cases h : Parser.opensOperand true s.peek.kind = true <;> simp [h]

/-- A result that is built with the stretch it was read from. -/
theorem spanned (hp : T.holds p) {start : Nat} {build : α → Span → β} :
    T.holds (do let a ← p; pure (build a (← Parser.spanFrom start))) :=
  T.bind hp fun _ => looking (.spanFrom start) fun _ => T.done _

/-- A result that is built with the stretch up to here. -/
theorem doneFrom {start : Nat} {build : Span → α} : T.holds (do pure (build (← Parser.spanFrom start))) :=
  looking (.spanFrom start) fun _ => T.done _

theorem commaList (close : Punctuation) (hp : T.holds p) : T.holds (Parser.commaList close p) := by
  refine T.collect (T.bind (isAt _) fun _ => ite (T.done _) (T.bind atEnd fun _ => ite (T.done _) ?_))
  exact T.bind hp fun _ => T.bind (accept _) fun _ => ite (T.done _) (T.done _)

theorem separatedBy (separator : TokenKind) (hp : T.holds p) : T.holds (Parser.separatedBy separator p) :=
  T.collect (T.bind hp fun _ => T.bind (accept _) fun _ => ite (T.done _) (T.done _))

/-! ### Types -/

theorem tooDeep (limit : Nat) : T.holds (Parser.tooDeep limit : Parser α) :=
  failHere (e := fun _ span => { cause := .tooDeep limit, span })

theorem starRun : T.holds Parser.starRun :=
  T.grow (fun _ => T.bind (accept _) fun _ => ite (T.done _) (T.done _)) 0

theorem atEmptyBrackets : T.holds Parser.atEmptyBrackets :=
  look (Blind.peekKind.both (.kindAt 1) fun k l =>
    decide (k = .punctuation .lBracket) && decide (l = .punctuation .rBracket))

theorem bracketRun : T.holds Parser.bracketRun := by
  refine T.grow (fun _ => T.bind atEmptyBrackets fun _ => ite ?_ (T.done _)) 0
  exact T.bind skip fun _ => T.bind skip fun _ => T.done _

theorem typeSuffix (start : Nat) (t : TypeExpr) : T.holds (Parser.typeSuffix start t) := by
  refine T.bind owed fun _ => ite (T.done _) (T.bind (isAt _) fun _ => ite (T.bind starRun fun _ => doneFrom) ?_)
  exact T.bind atEmptyBrackets fun _ => ite (T.bind bracketRun fun _ => doneFrom) (T.done _)

theorem closeAngle (angles : Nat) : T.holds (Parser.closeAngle angles) := by
  refine T.bind owed fun _ => ite (T.owe (· - 1)) (T.bind (accept _) fun _ => ite (T.done _) ?_)
  exact ite (T.bind (accept _) fun _ => ite (T.owe (· + 1)) (unexpected _)) (unexpected _)

theorem typeParams : T.holds Parser.typeParams := by
  refine T.bind (accept _) fun _ => ite ?_ (T.done _)
  exact T.bind (separatedBy _ identifier) fun _ => T.bind (expect _ _) fun _ => T.done _

section
variable {type : Nat → Parser TypeExpr} (ht : ∀ angles, T.holds (type angles))
include ht

theorem typeArgs (angles : Nat) : T.holds (Parser.typeArgs type angles) := by
  refine T.bind (expect _ _) fun _ => T.bind (T.collect ?_) fun _ => T.bind (closeAngle _) fun _ => T.done _
  refine T.bind (ht _) fun _ => T.bind owed fun _ => ite (T.done _) ?_
  exact T.bind (accept _) fun _ => ite (T.done _) (T.done _)

theorem namedType (angles start : Nat) (name : String) : T.holds (Parser.namedType type angles start name) := by
  refine T.bind skip fun _ => T.bind (isAt _) fun _ => T.bind isAdjacent fun _ => ite ?_ doneFrom
  exact T.bind (typeArgs ht angles) fun _ => doneFrom

theorem tupleType (angles start : Nat) : T.holds (Parser.tupleType type angles start) := by
  refine T.bind skip fun _ => T.bind (ht _) fun _ => T.bind (accept _) fun _ =>
    ite (T.bind (spanFrom _) fun _ => fail _) ?_
  refine T.bind (ht _) fun _ => T.bind (isAt _) fun _ => ite (T.bind nextSpan fun _ => fail _) ?_
  exact T.bind (closing _ _) fun _ => doneFrom

theorem baseType (angles start : Nat) : T.holds (Parser.baseType type angles start) := by
  refine T.bind nextKind fun kind => ?_
  split
  · exact T.bind skip fun _ => doneFrom
  · exact namedType ht _ _ _
  · exact tupleType ht _ _
  · exact failHere (e := fun kind span => { cause := .noType kind, span, hints := [.typeForms] })

theorem typeBody (angles : Nat) : T.holds (Parser.typeBody type angles) :=
  T.bind nextStart fun _ => T.bind (baseType ht _ _) fun _ => T.grow (typeSuffix _) _

omit ht in
theorem typeExpr (limit room angles : Nat) : T.holds (Parser.typeExpr limit room angles) := by
  induction room generalizing angles with
  | zero => exact tooDeep limit
  | succ room ih => exact typeBody ih angles

end

end Trait

end ElleFrontEnd
