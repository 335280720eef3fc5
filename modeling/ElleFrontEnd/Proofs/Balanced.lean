import ElleFrontEnd.Proofs.Progress

/-!
# Balanced sequences

In a balanced sequence every opener is followed by its own closer, with a balanced sequence between the two, and there
is no closer besides.  `Brackets.nests` decides that in one pass, with the closers still to come on a stack
(`Brackets.nests_iff`).

A stretch of tokens that a parser has passed is balanced if so are the kinds of its tokens (`Nested`).
-/

namespace ElleFrontEnd

/-- The letters that open a group, each with the closer it asks for, and the letters that close one. -/
structure Brackets (α : Type) where
  closer? : α → Option α
  isCloser : α → Bool
  isCloser_closer : ∀ {a z : α}, closer? a = some z → isCloser z = true
  closer?_of_isCloser : ∀ {z : α}, isCloser z = true → closer? z = none

namespace Brackets

variable {α : Type} {b : Brackets α} {a z : α} {as as' : List α}

/-- Whether a letter neither opens nor closes a group. -/
def IsPlain (b : Brackets α) (a : α) : Prop := b.closer? a = none ∧ b.isCloser a = false

/-- The sequences in which every group is closed. -/
inductive Balanced (b : Brackets α) : List α → Prop
  | nil : Balanced b []
  | plain {a : α} {as : List α} : b.IsPlain a → Balanced b as → Balanced b (a :: as)
  | group {a z : α} {inside as : List α} : b.closer? a = some z → Balanced b inside → Balanced b as →
    Balanced b (a :: (inside ++ z :: as))

namespace Balanced

theorem append (h : b.Balanced as) (h' : b.Balanced as') : b.Balanced (as ++ as') := by
  induction h with
  | nil => exact h'
  | plain ha _ ih => exact .plain ha ih
  | @group a z inside as ha hin _ _ ih =>
    rw [List.cons_append, List.append_assoc, List.cons_append]
    exact .group ha hin ih

theorem single (h : b.IsPlain a) : b.Balanced [a] := .plain h .nil

/-- A group around a balanced sequence. -/
theorem wrap (ha : b.closer? a = some z) (h : b.Balanced as) : b.Balanced (a :: (as ++ [z])) := .group ha h .nil

end Balanced

/-- The sequences that close the awaited groups one after another, with balanced sequences in between. -/
inductive Closes (b : Brackets α) : (awaited : List α) → List α → Prop
  | nil {as : List α} : b.Balanced as → Closes b [] as
  | cons {z : α} {awaited inside as : List α} : b.Balanced inside → Closes b awaited as →
    Closes b (z :: awaited) (inside ++ z :: as)

namespace Closes

variable {awaited : List α}

theorem plain (ha : b.IsPlain a) (h : Closes b awaited as) : Closes b awaited (a :: as) := by
  cases h with
  | nil h => exact .nil (.plain ha h)
  | cons hin h => exact .cons (.plain ha hin) h

/-- The first of the awaited closers answers an opener put before the sequence. -/
theorem group (ha : b.closer? a = some z) (h : Closes b (z :: awaited) as) : Closes b awaited (a :: as) := by
  cases h with
  | cons hin h =>
    cases h with
    | nil h => exact .nil (.group ha hin h)
    | @cons y awaited inside' as hin' h =>
      have hgroup := Balanced.group ha hin hin'
      simpa using Closes.cons hgroup h

end Closes

variable [DecidableEq α]

/-- Whether the closers of a sequence answer its openers, and before them those that are awaited. -/
def nests (b : Brackets α) : (awaited : List α) → List α → Bool
  | awaited, [] => awaited.isEmpty
  | awaited, a :: as =>
    match b.closer? a, b.isCloser a, awaited with
    | some z, _, _ => nests b (z :: awaited) as
    | none, false, _ => nests b awaited as
    | none, true, z :: awaited => z = a && nests b awaited as
    | none, true, [] => false

theorem closes_of_nests {awaited : List α} (h : b.nests awaited as = true) : Closes b awaited as := by
  induction as generalizing awaited with
  | nil =>
    cases awaited with
    | nil => exact .nil .nil
    | cons z awaited => simp [nests] at h
  | cons a as ih =>
    unfold nests at h
    split at h
    · rename_i z ha
      exact .group ha (ih h)
    · rename_i ha hc
      exact .plain ⟨ha, hc⟩ (ih h)
    · simp at h
      obtain ⟨rfl, h⟩ := h
      exact .cons .nil (ih h)
    · cases h

/-- A balanced sequence leaves the awaited closers as they are. -/
theorem nests_append (h : b.Balanced as) (awaited as' : List α) :
    b.nests awaited (as ++ as') = b.nests awaited as' := by
  induction h generalizing awaited as' with
  | nil => rfl
  | plain ha _ ih => simp [nests, ha.1, ha.2, ih]
  | @group a z inside as ha _ _ ihin ih =>
    have hz : b.isCloser z = true := b.isCloser_closer ha
    simp [nests, ha, ihin, b.closer?_of_isCloser hz, hz, ih]

/-- The stack tells the balanced sequences from all others. -/
theorem nests_iff : b.nests [] as = true ↔ b.Balanced as := by
  constructor
  · intro h
    cases closes_of_nests h with
    | nil h => exact h
  · intro h
    simpa [nests] using nests_append h [] []

instance (as : List α) : Decidable (b.Balanced as) := decidable_of_iff _ nests_iff

end Brackets

/-- The brackets of the source: parentheses, brackets and braces. -/
def TokenKind.brackets : Brackets TokenKind where
  closer?
    | .punctuation mark => mark.closing?.map .punctuation
    | _ => none
  isCloser
    | .punctuation mark => mark.isCloser
    | _ => false
  isCloser_closer := by
    intro a z h
    split at h
    · rename_i mark
      cases mark <;> cases h <;> rfl
    · cases h
  closer?_of_isCloser := by
    intro z h
    split at h
    · rename_i mark
      cases mark <;> first | exact Bool.noConfusion h | rfl
    · exact Bool.noConfusion h

/-- Braces within parentheses, but not across them. -/
example : (TokenKind.brackets.Balanced ((lex "({x})").tokens.map Token.kind) ∧
    ¬ TokenKind.brackets.Balanced ((lex "({x)}").tokens.map Token.kind)) := by decide +kernel

/-- From `s` to `s'`, a balanced stretch of tokens is passed. -/
def Nested (s s' : ParseState) : Prop :=
  ∃ used, Passes s used s' ∧ TokenKind.brackets.Balanced (used.map Token.kind)

namespace Nested

variable {s s' s'' : ParseState}

theorem refl (s : ParseState) : Nested s s := ⟨[], .refl s, .nil⟩

theorem trans (h : Nested s s') (h' : Nested s' s'') : Nested s s'' := by
  obtain ⟨used, hp, hb⟩ := h
  obtain ⟨used', hp', hb'⟩ := h'
  exact ⟨used ++ used', hp.trans hp', by simpa using hb.append hb'⟩

/-- Owed `>` are no tokens. -/
theorem withOwed (s : ParseState) (n : Nat) : Nested s { s with owed := n } := ⟨[], ⟨rfl, rfl, by simp⟩, .nil⟩

theorem advance (h : TokenKind.brackets.IsPlain s.peek.kind) : Nested s s.advance := by
  by_cases hk : s.peek.kind = .eof
  · rw [ParseState.advance_eof hk]
    exact refl s
  · exact ⟨_, .advance hk, .single h⟩

/-- Behind a token of a kind that is no bracket, all is nested that is nested from there. -/
theorem pass {kind : TokenKind} (hk : s.peek.kind = kind) (h : TokenKind.brackets.IsPlain kind)
    (h' : Nested s.advance s'') : Nested s s'' :=
  (advance (hk ▸ h)).trans h'

/-- A group from its opener to behind its closer. -/
theorem group {opener closer : Punctuation} (ho : s.peek.kind = .punctuation opener)
    (hc : opener.closing? = some closer) (h : Nested s.advance s') (hk : s'.peek.kind = .punctuation closer) :
    Nested s s'.advance := by
  obtain ⟨used, hp, hb⟩ := h
  have hopen := Passes.advance (s := s) (by simp [ho])
  have hclose := Passes.advance (s := s') (by simp [hk])
  refine ⟨[s.peek] ++ used ++ [s'.peek], (hopen.trans hp).trans hclose, ?_⟩
  have hpair : TokenKind.brackets.closer? (.punctuation opener) = some (.punctuation closer) := by
    simp [TokenKind.brackets, hc]
  simpa [ho, hk] using hb.wrap hpair

end Nested

end ElleFrontEnd
