import ElleFrontEnd.Grammar.Parser

/-!
# Reading on

`Advances s s'` says that `s'` is reached from `s` by passing some of the tokens and recording some diagnostics.
Whatever a parser does, it never goes back behind the place where it began, and it never takes a diagnostic back.
-/

namespace ElleFrontEnd

theorem TokenKind.isEof_iff {kind : TokenKind} : kind.isEof = true ↔ kind = .eof := by
  cases kind <;> simp [isEof]

namespace ParseState

theorem peek_kind (s : ParseState) : s.peek.kind = s.kindAt 0 := by
  cases hr : s.rest with
  | nil => simp [peek, kindAt, hr, eof]
  | cons t ts => simp [peek, kindAt, hr]

theorem peek_cons {s : ParseState} {t : Token} {ts : List Token} (h : s.rest = t :: ts) : s.peek = t := by
  simp [peek, h]

/-- Unless the next token is the end, it is the first of the tokens to read. -/
theorem rest_of_peek {s : ParseState} (h : s.peek.kind ≠ .eof) : ∃ ts, s.rest = s.peek :: ts := by
  cases hr : s.rest with
  | nil =>
    have hp : s.peek = s.eof := by simp [peek, hr]
    exact absurd (by rw [hp, eof]) h
  | cons t ts => exact ⟨ts, by rw [peek_cons hr]⟩

theorem advance_cons {s : ParseState} {t : Token} {ts : List Token} (h : s.rest = t :: ts) (ht : t.kind ≠ .eof) :
    s.advance = { s with last := some t, rest := ts } := by
  have he : t.kind.isEof = false := by
    cases hk : t.kind with
    | eof => exact absurd hk ht
    | _ => rfl
  unfold advance
  rw [h]
  simp [he]

/-- What stands behind the next token comes next once that token is passed. -/
theorem kindAt_succ {s : ParseState} (h : s.peek.kind ≠ .eof) (n : Nat) : s.kindAt (n + 1) = s.advance.kindAt n := by
  obtain ⟨ts, hr⟩ := rest_of_peek h
  rw [advance_cons hr h]
  simp [kindAt, hr]

theorem kindAt_one {s : ParseState} (h : s.peek.kind ≠ .eof) : s.kindAt 1 = s.advance.peek.kind := by
  rw [kindAt_succ h, peek_kind]

/-- The end is not passed. -/
theorem advance_eof {s : ParseState} (hk : s.peek.kind = .eof) : s.advance = s := by
  unfold advance
  cases hr : s.rest with
  | nil => rfl
  | cons t ts =>
    rw [peek_cons hr] at hk
    simp [hk, TokenKind.isEof]

@[simp] theorem advance_owed (s : ParseState) : s.advance.owed = s.owed := by
  unfold advance
  split
  · rfl
  · split <;> rfl

@[simp] theorem advance_errors (s : ParseState) : s.advance.errors = s.errors := by
  unfold advance
  split
  · rfl
  · split <;> rfl

end ParseState

/-- The reading place behind `used`, which holds no `eof`. -/
structure Passes (s : ParseState) (used : List Token) (s' : ParseState) : Prop where
  rest : s.rest = used ++ s'.rest
  last : s'.last = used.getLast?.or s.last
  noEof : ∀ t ∈ used, t.kind ≠ .eof

namespace Passes

variable {s s' s'' : ParseState} {used used' : List Token}

/-- Only the reading place counts. -/
theorem of_place (hl : s'.last = s.last) (hr : s'.rest = s.rest) : Passes s [] s' :=
  ⟨by rw [hr, List.nil_append], by rw [hl]; rfl, by simp⟩

theorem refl (s : ParseState) : Passes s [] s := .of_place rfl rfl

theorem trans (h : Passes s used s') (h' : Passes s' used' s'') : Passes s (used ++ used') s'' := by
  refine ⟨by rw [h.rest, h'.rest, List.append_assoc], ?_, ?_⟩
  · rw [h'.last, h.last, List.getLast?_append, Option.or_assoc]
  · intro t ht
    rcases List.mem_append.1 ht with ht | ht
    · exact h.noEof t ht
    · exact h'.noEof t ht

theorem advance (h : s.peek.kind ≠ .eof) : Passes s [s.peek] s.advance := by
  obtain ⟨ts, hr⟩ := ParseState.rest_of_peek h
  rw [ParseState.advance_cons hr h]
  exact ⟨hr, rfl, by simpa using h⟩

theorem length_le (h : Passes s used s') : s'.rest.length ≤ s.rest.length := by
  rw [h.rest, List.length_append]
  omega

end Passes

/-- `s'` is reached from `s` by reading on. -/
structure Advances (s s' : ParseState) : Prop where
  passes : ∃ used, Passes s used s'
  errors : ∃ new, s'.errors = s.errors ++ new

namespace Advances

variable {s s' s'' : ParseState}

theorem refl (s : ParseState) : Advances s s := ⟨⟨[], .refl s⟩, ⟨[], by simp⟩⟩

theorem trans (h : Advances s s') (h' : Advances s' s'') : Advances s s'' := by
  obtain ⟨⟨used, hu⟩, new, hn⟩ := h
  obtain ⟨⟨used', hu'⟩, new', hn'⟩ := h'
  exact ⟨⟨used ++ used', hu.trans hu'⟩, ⟨new ++ new', by rw [hn', hn, List.append_assoc]⟩⟩

theorem advance (s : ParseState) : Advances s s.advance := by
  by_cases hk : s.peek.kind = .eof
  · rw [ParseState.advance_eof hk]
    exact refl s
  · exact ⟨⟨_, .advance hk⟩, ⟨[], by simp⟩⟩

/-- Back at the place of `s`, with what has been recorded since. -/
theorem rewindTo (h : Advances s s') : Advances s (s'.rewindTo s) :=
  ⟨⟨[], rfl, rfl, by simp⟩, h.errors⟩

theorem withOwed (s : ParseState) (n : Nat) : Advances s { s with owed := n } :=
  ⟨⟨[], rfl, rfl, by simp⟩, ⟨[], by simp⟩⟩

theorem record (s : ParseState) (e : Diagnostic) : Advances s { s with errors := s.errors ++ [e] } :=
  ⟨⟨[], rfl, rfl, by simp⟩, ⟨[e], rfl⟩⟩

theorem length_le (h : Advances s s') : s'.rest.length ≤ s.rest.length := by
  obtain ⟨⟨used, hu⟩, -⟩ := h
  exact hu.length_le

theorem errors_nil (h : Advances s s') (h' : s'.errors = []) : s.errors = [] := by
  obtain ⟨-, new, hn⟩ := h
  rw [hn, List.append_eq_nil_iff] at h'
  exact h'.1

end Advances

end ElleFrontEnd
