import ElleFrontEnd.Proofs.Run
import ElleFrontEnd.Proofs.TwinProgram

/-!
# Successful runs of the type grammar

One lemma for each parser of `Grammar.Type`: what its successful runs are made of.  The parser of what nests in a type
is assumed to read on only.
-/

namespace ElleFrontEnd

namespace ParseState

/-- Whether a pair of empty brackets comes next. -/
def atBrackets (s : ParseState) : Prop :=
  s.peek.kind = .punctuation .lBracket ∧ s.kindAt 1 = .punctuation .rBracket

end ParseState

namespace Parser

variable {s s' : ParseState}

theorem stepped_ok {p : ParseState → Prop} {move : ParseState → ParseState} {round : Nat → Parser (Option Nat)}
    (hp : ∀ s, p s → (move s).rest.length < s.rest.length)
    (hsome : ∀ n s m s', (round n).run s = (.ok (some m), s') ↔ p s ∧ n + 1 = m ∧ move s = s')
    (hnone : ∀ n s s', (round n).run s = (.ok none, s') ↔ ¬ p s ∧ s = s') {n : Nat} :
    (grow round 0).run s = (.ok n, s') ↔ Stepped p move n s s' := by
  have hshrinks : Shrinks round := by
    intro n s m s' h
    obtain ⟨hs, -, rfl⟩ := (hsome n s m s').1 h
    exact hp s hs
  refine (grow_ok hshrinks).trans ?_
  have hgen (k : Nat) : Grows round k s (k + n) s' ↔ Stepped p move n s s' := by
    induction n generalizing s k with
    | zero =>
      constructor
      · intro h
        cases h with
        | stop h =>
          obtain ⟨hs, rfl⟩ := (hnone _ _ _).1 h
          exact .stop hs
        | next h h' =>
          obtain ⟨-, rfl, rfl⟩ := (hsome _ _ _ _).1 h
          have : k + 1 ≤ k + 0 := le_of_grows hsome h'
          omega
      · intro h
        cases h with
        | stop h => exact .stop ((hnone _ _ _).2 ⟨h, rfl⟩)
    | succ n ih =>
      constructor
      · intro h
        generalize hm : k + (n + 1) = m at h
        cases h with
        | stop h => omega
        | next h h' =>
          obtain ⟨hs, rfl, rfl⟩ := (hsome _ _ _ _).1 h
          exact .next hs ((ih (k + 1)).1 (by rwa [show k + 1 + n = m by omega]))
      · intro h
        cases h with
        | next h h' =>
          have := (ih (k + 1)).2 h'
          rw [show k + 1 + n = k + (n + 1) by omega] at this
          exact .next ((hsome _ _ _ _).2 ⟨h, rfl, rfl⟩) this
  simpa using hgen 0
where
  le_of_grows {p : ParseState → Prop} {move : ParseState → ParseState} {round : Nat → Parser (Option Nat)}
      (hsome : ∀ n s m s', (round n).run s = (.ok (some m), s') ↔ p s ∧ n + 1 = m ∧ move s = s')
      {k m : Nat} {s s' : ParseState} (h : Grows round k s m s') : k ≤ m := by
    induction h with
    | stop _ => exact Nat.le_refl _
    | next h _ ih =>
      obtain ⟨-, rfl, -⟩ := (hsome _ _ _ _).1 h
      omega

/-- A run of `*` is as long as can be. -/
theorem starRun_ok {n : Nat} :
    starRun.run s = (.ok n, s') ↔ Stepped (fun s => s.peek.kind = .operator .star) ParseState.advance n s s' := by
  refine stepped_ok (fun s h => length_advance_lt (by simp [h])) ?_ ?_ <;> intros <;>
    simp [acceptOperator, ite_eq_iff]

theorem length_advance_brackets (h : s.atBrackets) : s.advance.advance.rest.length < s.rest.length := by
  have h₁ := length_advance_lt (s := s) (by simp [h.1])
  have h₂ := (Advances.advance s.advance).length_le
  omega

/-- A run of `[]` is as long as can be. -/
theorem bracketRun_ok {n : Nat} :
    bracketRun.run s = (.ok n, s') ↔ Stepped ParseState.atBrackets (fun s => s.advance.advance) n s s' := by
  refine stepped_ok (fun s h => length_advance_brackets h) ?_ ?_ <;> intros <;>
    simp [atEmptyBrackets, ite_eq_iff, ParseState.atBrackets]

theorem typeSuffix_none {start : Nat} {t : TypeExpr} :
    (typeSuffix start t).run s = (.ok none, s') ↔
      (0 < s.owed ∨ s.peek.kind ≠ .operator .star ∧ ¬ s.atBrackets) ∧ s = s' := by
  simp [typeSuffix, owed, atOperator, isAt, atEmptyBrackets, spanFrom, ite_eq_iff, ParseState.atBrackets]
  grind

theorem typeSuffix_some {start : Nat} {t t' : TypeExpr} :
    (typeSuffix start t).run s = (.ok (some t'), s') ↔ s.owed = 0 ∧
      ((s.peek.kind = .operator .star ∧
          ∃ n, starRun.run s = (.ok n, s') ∧ t' = .pointer (s'.spanFrom start) t n) ∨
        (s.peek.kind ≠ .operator .star ∧ s.atBrackets ∧
          ∃ n, bracketRun.run s = (.ok n, s') ∧ t' = .array (s'.spanFrom start) t n)) := by
  simp [typeSuffix, owed, atOperator, isAt, atEmptyBrackets, spanFrom, ite_eq_iff, ParseState.atBrackets]
  grind

@[simp] theorem noType_ok {α : Type} {a : α} : noType.run s = (.ok a, s') ↔ False := by
  simp [noType, run]

@[simp] theorem tooDeep_ok {α : Type} {limit : Nat} {a : α} : (tooDeep limit).run s = (.ok a, s') ↔ False := by
  simp [tooDeep, run]

theorem closeAngle_ok {angles : Nat} {u : Unit} :
    (closeAngle angles).run s = (.ok u, s') ↔
      (0 < s.owed ∧ s' = { s with owed := s.owed - 1 }) ∨
        (s.owed = 0 ∧ s.peek.kind = .operator .gt ∧ s' = s.advance) ∨
        (s.owed = 0 ∧ 1 < angles ∧ s.peek.kind = .operator .shr ∧ s' = { s.advance with owed := s.owed + 1 }) := by
  simp [closeAngle, owed, acceptOperator, ite_eq_iff]
  grind

theorem stepped_length {p : ParseState → Prop} {move : ParseState → ParseState} {n : Nat}
    (hm : ∀ s, p s → (move s).rest.length < s.rest.length) (h : Stepped p move n s s') :
    s'.rest.length + n ≤ s.rest.length := by
  induction h with
  | stop _ => omega
  | next hp _ ih =>
    have := hm _ hp
    omega

/-- A run of `*` or `[]` behind a type holds at least one of them. -/
theorem typeSuffix_shrinks (start : Nat) : Shrinks (typeSuffix start) := by
  intro t s t' s' h
  obtain ⟨-, ⟨hk, n, hn, -⟩ | ⟨-, hk, n, hn, -⟩⟩ := typeSuffix_some.1 h
  · have hn := starRun_ok.1 hn
    cases hn with
    | stop hs => exact absurd hk hs
    | next _ h =>
      have := stepped_length (fun s h => length_advance_lt (by simp [h])) h
      have := length_advance_lt (s := s) (by simp [hk])
      omega
  · have hn := bracketRun_ok.1 hn
    cases hn with
    | stop hs => exact absurd hk hs
    | next _ h =>
      have := stepped_length (fun s h => length_advance_brackets h) h
      have := length_advance_brackets hk
      omega

section

variable {type : Nat → Parser TypeExpr} {angles start : Nat}

/-- What separates two type arguments: a comma, while no `>` is owed. -/
def separatesArgs (s : ParseState) : Prop := s.owed = 0 ∧ s.peek.kind = .punctuation .comma

theorem typeArgs_ok (ht : ∀ angles s, Advances s (type angles s).2) {args : List TypeExpr} :
    (typeArgs type angles).run s = (.ok args, s') ↔ s.peek.kind = .operator .lt ∧
      ∃ s₁, Listed (fun _ => False) separatesArgs (type (angles + 1)) s.advance args s₁ ∧
        (closeAngle (angles + 1)).run s₁ = (.ok (), s') := by
  have hlist (s s' : ParseState) (as : List TypeExpr) : (collect do
        let t ← type (angles + 1)
        if 0 < (← owed) then pure (.last t)
        else if ← acceptMark .comma then pure (.more t)
        else pure (.last t)).run s = (.ok as, s') ↔
      Listed (fun _ => False) separatesArgs (type (angles + 1)) s as s' := by
    refine collect_listed (ht _) (fun s h => by simp [h.2]) ?_ ?_ ?_ ?_ <;> intros <;>
      simp [owed, acceptMark, ite_eq_iff, separatesArgs] <;> grind
  unfold typeArgs expectOperator
  simp only [bind_ok, expect_ok, hlist, pure_ok]
  grind

theorem namedType_ok {name : String} {t : TypeExpr} :
    (namedType type angles start name).run s = (.ok t, s') ↔
      (s.advance.peek.kind = .operator .lt ∧ s.advance.isAdjacent = true ∧
          ∃ args, (typeArgs type angles).run s.advance = (.ok args, s') ∧
            t = .generic (s'.spanFrom start) name args) ∨
        (¬ (s.advance.peek.kind = .operator .lt ∧ s.advance.isAdjacent = true) ∧ s' = s.advance ∧
          t = .named (s'.spanFrom start) name) := by
  simp [namedType, atOperator, isAt, isAdjacent, spanFrom, ite_eq_iff]
  grind

theorem tupleType_ok {t : TypeExpr} :
    (tupleType type angles start).run s = (.ok t, s') ↔
      ∃ first s₁ second s₂, (type angles).run s.advance = (.ok first, s₁) ∧ s₁.peek.kind = .punctuation .comma ∧
        (type angles).run s₁.advance = (.ok second, s₂) ∧ s₂.peek.kind = .punctuation .rParen ∧ s' = s₂.advance ∧
        t = .tuple (s'.spanFrom start) first second := by
  simp [tupleType, atMark, isAt, acceptMark, spanFrom, nextSpan, ite_eq_iff]
  grind

theorem baseType_ok {t : TypeExpr} :
    (baseType type angles start).run s = (.ok t, s') ↔
      (∃ p, s.peek.kind = .keyword (.primitive p) ∧ s' = s.advance ∧ t = .primitive (s'.spanFrom start) p) ∨
        (∃ name, s.peek.kind = .ident name ∧ (namedType type angles start name).run s = (.ok t, s')) ∨
        (s.peek.kind = .punctuation .lParen ∧ (tupleType type angles start).run s = (.ok t, s')) := by
  unfold baseType nextKind
  rw [look_bind]
  split <;> simp_all [spanFrom]
  grind

theorem typeBody_ok {t : TypeExpr} :
    (typeBody type angles).run s = (.ok t, s') ↔
      ∃ base s₁, (baseType type angles s.peek.span.start).run s = (.ok base, s₁) ∧
        Grows (typeSuffix s.peek.span.start) base s₁ t s' := by
  unfold typeBody nextStart
  simp [grow_ok (typeSuffix_shrinks _)]

end

theorem typeExpr_ok {limit room angles : Nat} {t : TypeExpr} :
    (typeExpr limit room angles).run s = (.ok t, s') ↔
      ∃ inner, room = inner + 1 ∧ (typeBody (typeExpr limit inner) angles).run s = (.ok t, s') := by
  cases room with
  | zero => simp [typeExpr]
  | succ inner => simp [typeExpr]

theorem typeParams_ok {names : List String} :
    typeParams.run s = (.ok names, s') ↔
      (s.peek.kind = .operator .lt ∧ ∃ s₁,
          Listed (fun _ => False) (fun s => s.peek.kind = .punctuation .comma) identifier s.advance names s₁ ∧
            s₁.peek.kind = .operator .gt ∧ s' = s₁.advance) ∨
        (s.peek.kind ≠ .operator .lt ∧ s = s' ∧ names = []) := by
  have hi (s : ParseState) : Advances s (identifier s).2 := Alike.advances (fun ts => Alike.identifier (.refl ts)) s
  unfold typeParams
  simp [acceptOperator, expectOperator, ite_eq_iff, separatedBy_ok _ hi]
  grind

end Parser

end ElleFrontEnd
