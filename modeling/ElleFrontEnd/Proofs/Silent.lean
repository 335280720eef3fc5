import ElleFrontEnd.Grammar.Stmt
import ElleFrontEnd.Proofs.Run

/-!
# Types are read silently

Only blocks and programs record diagnostics.  A type is read without recording any, whether it succeeds or not, so that
giving up a type that was only tried leaves no trace.
-/

namespace ElleFrontEnd

namespace Parser

variable {α β : Type}

/-- The parser never records a diagnostic. -/
def Silent (p : Parser α) : Prop := ∀ s, (p s).2.errors = s.errors

namespace Silent

theorem pure (a : α) : Silent (Pure.pure a : Parser α) := fun _ => rfl

theorem bind {p : Parser α} {f : α → Parser β} (hp : Silent p) (hf : ∀ a, Silent (f a)) : Silent (p >>= f) := by
  intro s
  change (andThen p f s).2.errors = _
  have h := hp s
  unfold andThen
  rcases hs : p s with ⟨e | a, s'⟩ <;> rw [hs] at h
  · exact h
  · exact (hf a s').trans h

theorem ite {c : Prop} [Decidable c] {p q : Parser α} (hp : Silent p) (hq : Silent q) :
    Silent (if c then p else q) := by
  split
  · exact hp
  · exact hq

theorem fail (e : Diagnostic) : Silent (Parser.fail e : Parser α) := fun _ => rfl

theorem look (f : ParseState → α) : Silent (Parser.look f) := fun _ => rfl

theorem change {f : ParseState → ParseState} (h : ∀ s, (f s).errors = s.errors) : Silent (Parser.change f) := h

theorem skip : Silent Parser.skip := ParseState.advance_errors

theorem accept (kind : TokenKind) : Silent (Parser.accept kind) := by
  intro s
  unfold Parser.accept
  split
  · exact s.advance_errors
  · rfl

theorem unexpected (wanted : Expected) : Silent (Parser.unexpected wanted : Parser α) := fun _ => rfl

theorem expect (kind : TokenKind) (wanted : Expected) : Silent (Parser.expect kind wanted) := by
  intro s
  unfold Parser.expect
  split
  · exact s.advance_errors
  · rfl

theorem identifier : Silent Parser.identifier := by
  intro s
  unfold Parser.identifier
  split
  · exact s.advance_errors
  · rfl

theorem closing (close : Punctuation) (opened : Span) : Silent (Parser.closing close opened) := by
  intro s
  unfold Parser.closing
  dsimp only
  split
  · exact s.advance_errors
  · split <;> split <;> rfl

theorem onError (f : Diagnostic → Diagnostic) {p : Parser α} (hp : Silent p) : Silent (Parser.onError f p) := by
  intro s
  have h := hp s
  unfold Parser.onError
  rcases hs : p s with ⟨e | a, s'⟩ <;> rw [hs] at h <;> exact h

theorem semicolon : Silent Parser.semicolon := by
  intro s
  unfold Parser.semicolon
  split
  · exact s.advance_errors
  · rfl

theorem attempt {p : Parser α} (hp : Silent p) : Silent (Parser.attempt p) := by
  intro s
  have h := hp s
  unfold Parser.attempt
  rcases hs : p s with ⟨e | a, s'⟩ <;> rw [hs] at h <;> exact h

theorem sequential : Sequential @Silent := ⟨pure, bind⟩

theorem grow {step : α → Parser (Option α)} (hs : ∀ a, Silent (step a)) (a : α) : Silent (Parser.grow step a) :=
  fun s => sequential.growFor hs (s.peek :: s.rest) a s

theorem collect {round : Parser (Round α)} (hr : Silent round) : Silent (Parser.collect round) :=
  fun s => sequential.collectFor hr (s.peek :: s.rest) s

theorem separatedBy (separator : TokenKind) {item : Parser α} (hi : Silent item) :
    Silent (Parser.separatedBy separator item) :=
  collect (hi.bind fun _ => (accept _).bind fun _ => ite (pure _) (pure _))

/-! ### The grammar of types -/

theorem starRun : Silent Parser.starRun :=
  grow (fun _ => (accept _).bind fun _ => ite (pure _) (pure _)) 0

theorem bracketRun : Silent Parser.bracketRun :=
  grow (fun _ => (look _).bind fun _ => ite (skip.bind fun _ => skip.bind fun _ => pure _) (pure _)) 0

theorem typeSuffix (start : Nat) (t : TypeExpr) : Silent (Parser.typeSuffix start t) := by
  refine (look _).bind fun _ => ite (pure _) ((look _).bind fun _ => ite ?_ ((look _).bind fun _ => ite ?_ (pure _)))
  · exact starRun.bind fun _ => (look _).bind fun _ => pure _
  · exact bracketRun.bind fun _ => (look _).bind fun _ => pure _

theorem closeAngle (angles : Nat) : Silent (Parser.closeAngle angles) := by
  refine (look _).bind fun _ => ite (change fun _ => rfl) ?_
  refine (accept _).bind fun _ => ite (pure _) (ite ?_ (unexpected _))
  exact (accept _).bind fun _ => ite (change fun _ => rfl) (unexpected _)

theorem typeParams : Silent Parser.typeParams := by
  refine (accept _).bind fun _ => ite ?_ (pure _)
  exact (separatedBy _ identifier).bind fun _ => (expect _ _).bind fun _ => pure _

variable {type : Nat → Parser TypeExpr} (ht : ∀ angles, Silent (type angles))
include ht

theorem typeArgs (angles : Nat) : Silent (Parser.typeArgs type angles) := by
  refine (expect _ _).bind fun _ => (collect ?_).bind fun _ => (closeAngle _).bind fun _ => pure _
  exact (ht _).bind fun _ => (look _).bind fun _ => ite (pure _) ((accept _).bind fun _ => ite (pure _) (pure _))

theorem namedType (angles start : Nat) (name : String) : Silent (Parser.namedType type angles start name) := by
  refine skip.bind fun _ => (look _).bind fun _ => (look _).bind fun _ => ite ?_ ((look _).bind fun _ => pure _)
  exact (typeArgs ht angles).bind fun _ => (look _).bind fun _ => pure _

theorem tupleType (angles start : Nat) : Silent (Parser.tupleType type angles start) := by
  refine skip.bind fun _ => (ht _).bind fun _ => (accept _).bind fun _ => ite ((look _).bind fun _ => fail _) ?_
  refine (ht _).bind fun _ => (look _).bind fun _ => ite ((look _).bind fun _ => fail _) ?_
  exact (closing _ _).bind fun _ => (look _).bind fun _ => pure _

theorem baseType (angles start : Nat) : Silent (Parser.baseType type angles start) := by
  refine (look _).bind fun kind => ?_
  split
  · exact skip.bind fun _ => (look _).bind fun _ => pure _
  · exact namedType ht _ _ _
  · exact tupleType ht _ _
  · exact fun _ => rfl

theorem typeBody (angles : Nat) : Silent (Parser.typeBody type angles) :=
  (look _).bind fun _ => (baseType ht _ _).bind fun _ => grow (typeSuffix _) _

omit ht in
theorem typeExpr (limit room : Nat) : ∀ angles, Silent (Parser.typeExpr limit room angles) := by
  induction room with
  | zero => exact fun _ _ => rfl
  | succ room ih => exact typeBody ih

/-! ### What is tried with a type -/

section
variable {g : Inner} (hg : ∀ angles, Silent (g.type angles))
include hg

omit ht

theorem structTypeArgs : Silent (Parser.structTypeArgs g) := by
  refine (look _).bind fun _ => (look _).bind fun _ => ite ?_ (pure _)
  refine (typeArgs hg 0).attempt.bind fun o => ?_
  cases o with
  | none => exact pure _
  | some args => exact (look _).bind fun _ => ite (pure _) (pure _)

theorem callTypeArgs : Silent (Parser.callTypeArgs g) := by
  refine (typeArgs hg 0).bind fun _ => (look _).bind fun _ => ite (unexpected _) ?_
  exact (look _).bind fun _ => ite (pure _) (unexpected _)

theorem castType : Silent (Parser.castType g) := (hg 0).bind fun _ => (expect _ _).bind fun _ => pure _

theorem typeAndName : Silent (Parser.typeAndName g) := (hg 0).bind fun _ => identifier.bind fun _ => pure _

end

end Silent

/-! ### Giving up -/

/-- The parser fails. -/
def Fails (p : Parser α) (s : ParseState) : Prop := ∃ e s', p.run s = (.error e, s')

theorem rewindTo_eq {s s' : ParseState} (h : s'.errors = s.errors) : s'.rewindTo s = s := by
  unfold ParseState.rewindTo
  rw [h]

theorem Silent.errors_eq {p : Parser α} (hp : Silent p) {s s' : ParseState} {r : Except Diagnostic α}
    (h : p.run s = (r, s')) : s'.errors = s.errors := by
  have := hp s
  rwa [show p s = (r, s') from h] at this

/-- Where a silent parser is tried and fails, nothing has happened. -/
theorem attempt_silent {p : Parser α} (hp : Silent p) {f : Option α → Parser β} {b : β} {s s' : ParseState} :
    (attempt p >>= f).run s = (.ok b, s') ↔
      (∃ a s₁, p.run s = (.ok a, s₁) ∧ (f (some a)).run s₁ = (.ok b, s')) ∨
        (p.Fails s ∧ (f none).run s = (.ok b, s')) := by
  rw [attempt_bind]
  refine or_congr_right ?_
  constructor
  · rintro ⟨e, s₁, he, h⟩
    rw [rewindTo_eq (hp.errors_eq he)] at h
    exact ⟨⟨e, s₁, he⟩, h⟩
  · rintro ⟨⟨e, s₁, he⟩, h⟩
    rw [← rewindTo_eq (hp.errors_eq he)] at h
    exact ⟨e, s₁, he, h⟩

end Parser

end ElleFrontEnd
