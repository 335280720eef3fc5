import ElleFrontEnd.Proofs.ReadType
import ElleFrontEnd.Proofs.Tie

/-!
# Types in tied runs

A type passes no token that may end an item, so that types are read alike from tied states to their end, whether they
succeed or not.  All that is asked of the tie is that argument lists are closed alike; so they are if the tie bears a
change in the number of owed `>`.
-/

namespace ElleFrontEnd

/-- The tie bears a change in the number of owed `>`. -/
def Tie.Owing (K : Tie) : Prop :=
  ∀ (s t : ParseState) (n : Nat), K.rel s t → K.rel { s with owed := n } { t with owed := n }

theorem near_atEmptyBrackets :
    Near fun s => decide (s.peek.kind = .punctuation .lBracket) && decide (s.kindAt 1 = .punctuation .rBracket) := by
  intro s
  by_cases hk : s.peek.kind = .punctuation .lBracket
  · have hend : s.peek.kind.endsItem = false := by rw [hk]; rfl
    simp [hk, ParseState.near_kindAt_one hend]
  · simp [hk]

namespace Tie.Runs

variable {α : Type} {K : Tie}

theorem tooDeep (limit : Nat) : K.Holds (Parser.tooDeep limit : Parser α) (Parser.tooDeep limit) :=
  token (c := fun _ => false) (fun _ => rfl) (.inr fun _ _ h => by simp at h)

theorem noType : K.Holds (Parser.noType : Parser α) Parser.noType :=
  token (c := fun _ => false) (fun _ => by simp [Parser.noType]) (.inr fun _ _ h => by simp at h)

theorem owed : K.Holds Parser.owed Parser.owed := look fun _ => rfl

theorem starRun : K.Holds Parser.starRun Parser.starRun := by
  refine grow (fun _ => (accept_of (.inr rfl)).bind fun _ => ite (done _) (done _)) ?_ 0
  intro n s n' s' h
  simp [ite_eq_iff] at h
  obtain ⟨hk, -, rfl⟩ := h
  exact Parser.length_advance_lt (by simp [hk])

/-- A pair of brackets that has been seen is passed. -/
theorem brackets (n : Nat) : K.Runs False
    (fun s => (decide (s.peek.kind = .punctuation .lBracket) && decide (s.kindAt 1 = .punctuation .rBracket)) = true)
    (do let _ ← Parser.skip; let _ ← Parser.skip; pure (some n))
    (do let _ ← Parser.skip; let _ ← Parser.skip; pure (some n)) := by
  constructor
  · intro s t hst hs
    simp at hs
    have hclose : s.advance.peek.kind = .punctuation .rBracket := by
      rw [← ParseState.kindAt_one (by simp [hs.1])]
      exact hs.2
    have hopened := K.within hst (by rw [hs.1]; rfl)
    exact .same (K.within hopened (by rw [hclose]; rfl))
  · exact fun s => (Advances.advance s).trans (.advance s.advance)

theorem bracketRun : K.Holds Parser.bracketRun Parser.bracketRun := by
  refine grow (fun n => seeing near_atEmptyBrackets fun b => ?_) ?_ 0
  · cases b with
    | true => exact (brackets (n + 1)).mono fun _ h => h.2
    | false => exact done none
  · intro n s n' s' h
    simp [ite_eq_iff] at h
    obtain ⟨hk, -, rfl⟩ := h
    exact Parser.length_advance_brackets hk

theorem typeSuffix (start : Nat) (t : TypeExpr) : K.Holds (Parser.typeSuffix start t) (Parser.typeSuffix start t) := by
  refine owed.bind fun _ => ite (done _) ((isAt _).bind fun _ => ite ?_ ?_)
  · exact starRun.bind fun _ => (spanFrom _).bind fun _ => done _
  refine (look near_atEmptyBrackets).bind fun _ => ite ?_ (done _)
  exact bracketRun.bind fun _ => (spanFrom _).bind fun _ => done _

theorem typeParams : K.Holds Parser.typeParams Parser.typeParams := by
  refine (accept_of (.inr rfl)).bind fun _ => ite ?_ (done _)
  exact (separatedBy (by simp) (.inr rfl) identifier).bind fun _ => (expect_of (.inr rfl)).bind fun _ => done _

theorem changeOwed (hK : K.Owing) (f : Nat → Nat) : K.Holds (Parser.change fun s => { s with owed := f s.owed })
    (Parser.change fun s => { s with owed := f s.owed }) := by
  constructor
  · intro s t hst _
    have ho : s.owed = t.owed := look_eq (l := ParseState.owed) (fun _ => rfl) hst
    change K.Ends False (.ok (), { s with owed := f s.owed }) (.ok (), { t with owed := f t.owed })
    rw [ho]
    exact .same (hK s t _ hst)
  · exact fun s => .withOwed s _

theorem closeAngle (hK : K.Owing) (angles : Nat) : K.Holds (Parser.closeAngle angles) (Parser.closeAngle angles) := by
  refine owed.bind fun _ => ite (changeOwed hK (· - 1)) ((accept_of (.inr rfl)).bind fun _ => ite (done _) ?_)
  refine ite ((accept_of (.inr rfl)).bind fun _ => ite (changeOwed hK (· + 1)) ?_) ?_ <;> exact unexpected _

section
variable (hc : ∀ angles, K.Holds (Parser.closeAngle angles) (Parser.closeAngle angles))
  {type : Nat → Parser TypeExpr} (ht : ∀ angles, K.Holds (type angles) (type angles))
include hc ht

theorem typeArgs (angles : Nat) : K.Holds (Parser.typeArgs type angles) (Parser.typeArgs type angles) := by
  refine (expect_of (.inr rfl)).bind fun _ => (collect ?_ ⟨fun s t s' h => ?_, fun s s' h => ?_⟩).bind fun _ => ?_
  · refine (ht _).bind fun _ => owed.bind fun _ => ite (done _) ?_
    exact (accept_of (.inr rfl)).bind fun _ => ite (done _) (done _)
  · simp [Parser.owed, Parser.acceptMark, ite_eq_iff] at h
    obtain ⟨s₁, ht₁, -, hk, rfl⟩ := h
    have := (Parser.advances_run (ht _).advances ht₁).length_le
    have := Parser.length_advance_lt (s := s₁) (by simp [hk])
    omega
  · simp [Parser.owed, Parser.acceptMark, ite_eq_iff] at h
  · exact (hc _).bind fun _ => done _

theorem namedType (angles start : Nat) (name : String) :
    K.Runs False (fun s => s.peek.kind = .ident name) (Parser.namedType type angles start name)
      (Parser.namedType type angles start name) := by
  refine (skip_of (.inr fun s hs => by rw [hs]; rfl)).bind fun _ => ?_
  refine (isAt _).bind fun _ => isAdjacent.bind fun _ => ite ?_ ((spanFrom _).bind fun _ => done _)
  exact (typeArgs hc ht angles).bind fun _ => (spanFrom _).bind fun _ => done _

omit hc in
theorem tupleType (angles start : Nat) :
    K.Runs False (fun s => s.peek.kind = .punctuation .lParen) (Parser.tupleType type angles start)
      (Parser.tupleType type angles start) := by
  refine (skip_of (.inr fun s hs => by rw [hs]; rfl)).bind fun _ => (ht _).bind fun _ => ?_
  refine (accept_of (.inr rfl)).bind fun _ => ite ((spanFrom _).bind fun _ => fail _) ((ht _).bind fun _ => ?_)
  refine (isAt _).bind fun _ => ite (nextSpan.bind fun _ => fail _) ?_
  exact (closing_of (.inr rfl)).bind fun _ => (spanFrom _).bind fun _ => done _

theorem typeBody (angles : Nat) : K.Holds (Parser.typeBody type angles) (Parser.typeBody type angles) := by
  refine nextStart.bind fun start => Runs.bind ?_ fun base => grow (typeSuffix start)
    (Parser.typeSuffix_shrinks start) base
  refine seeing (fun s => by simp) fun kind => ?_
  split
  · refine (skip_of (.inr fun s hs => by rw [hs.2]; rfl)).bind fun _ => (spanFrom _).bind fun _ => done _
  · exact (namedType hc ht _ _ _).mono fun _ h => h.2
  · exact (tupleType ht _ _).mono fun _ h => h.2
  · exact noType.mono fun _ _ => trivial

omit ht

theorem typeExpr (limit room angles : Nat) :
    K.Holds (Parser.typeExpr limit room angles) (Parser.typeExpr limit room angles) := by
  induction room generalizing angles with
  | zero => exact tooDeep limit
  | succ room ih => exact typeBody hc ih angles

end

end Tie.Runs

end ElleFrontEnd
