import ElleFrontEnd.Layout.Fragment
import ElleFrontEnd.Proofs.Run
import Mathlib.Tactic.ByContra
import Mathlib.Tactic.Push

/-!
# Reading what was printed

`Shows s f` says that the tokens a state has still to read are those of the fragments `f`: the same kinds, touching
each other where no space stands between the fragments.  Two `>` that touch are one token `>>`, whose second half is
owed once the first has been taken; so the fragments that are shown do not depend on how far a `>>` has been read.

The lemmas say what a parser sees of a state that shows given fragments, and what the state shows once it has gone on.
-/

namespace ElleFrontEnd

open Fragment

/-! ### Fragments as tokens -/

/-- A token, and whether it touches the one before it. -/
structure Mark where
  kind : TokenKind
  glued : Bool
deriving DecidableEq

/-- The same tokens behind a space. -/
def unglued : List Mark → List Mark
  | [] => []
  | m :: ms => { m with glued := false } :: ms

/-- The tokens of fragments that follow a token. -/
def marks : List Fragment → List Mark
  | [] => []
  | .token k :: f => ⟨k, true⟩ :: marks f
  | .space :: f => unglued (marks f)
  | .line _ :: f => unglued (marks f)

/-- The tokens as they are read: two `>` that touch are one token. -/
def fuse : List Mark → List Mark
  | [] => []
  | [m] => [m]
  | m :: n :: ms =>
    if m.kind = .operator .gt ∧ n = ⟨.operator .gt, true⟩ then ⟨.operator .shr, m.glued⟩ :: fuse ms
    else m :: fuse (n :: ms)

/-- The tokens of a stream behind another one, up to the end of the source. -/
def marksOf (last : Option Token) : List Token → List Mark
  | [] => []
  | t :: ts => if t.kind.isEof then [] else ⟨t.kind, last.any (·.isAdjacentTo t)⟩ :: marksOf (some t) ts

namespace Fragment

/-- The first token of fragments, or the end of the source. -/
def next : List Fragment → TokenKind
  | [] => .eof
  | .token k :: _ => k
  | .space :: f => next f
  | .line _ :: f => next f

/-- What follows the first token. -/
def after : List Fragment → List Fragment
  | [] => []
  | .token _ :: f => f
  | .space :: f => after f
  | .line _ :: f => after f

/-- Whether fragments begin with a token, and so touch what stands before them. -/
def touches : List Fragment → Bool
  | .token _ :: _ => true
  | _ => false

/-- Whether fragments begin with a token of a kind. -/
def touchesWith (k : TokenKind) (f : List Fragment) : Prop := touches f = true ∧ next f = k

@[simp] theorem next_nil : next [] = .eof := rfl
@[simp] theorem next_token (k : TokenKind) (f : List Fragment) : next (.token k :: f) = k := rfl
@[simp] theorem next_space (f : List Fragment) : next (.space :: f) = next f := rfl
@[simp] theorem next_line (d : Nat) (f : List Fragment) : next (.line d :: f) = next f := rfl
@[simp] theorem after_token (k : TokenKind) (f : List Fragment) : after (.token k :: f) = f := rfl
@[simp] theorem after_space (f : List Fragment) : after (.space :: f) = after f := rfl
@[simp] theorem after_line (d : Nat) (f : List Fragment) : after (.line d :: f) = after f := rfl
@[simp] theorem touches_nil : touches [] = false := rfl
@[simp] theorem touches_token (k : TokenKind) (f : List Fragment) : touches (.token k :: f) = true := rfl
@[simp] theorem touches_space (f : List Fragment) : touches (.space :: f) = false := rfl
@[simp] theorem touches_line (d : Nat) (f : List Fragment) : touches (.line d :: f) = false := rfl

end Fragment

theorem marks_head {f : List Fragment} {m : Mark} {ms : List Mark} (h : marks f = m :: ms) :
    m = ⟨next f, touches f⟩ ∧ ms = marks (after f) := by
  induction f generalizing m ms with
  | nil => simp [marks] at h
  | cons a f ih =>
    cases a with
    | token k =>
      cases h
      exact ⟨rfl, rfl⟩
    | space | line =>
      cases hf : marks f with
      | nil => simp [marks, hf, unglued] at h
      | cons n ns =>
        obtain ⟨rfl, rfl⟩ := ih hf
        simp [marks, hf, unglued] at h
        obtain ⟨rfl, rfl⟩ := h
        exact ⟨rfl, rfl⟩

theorem marks_next {f : List Fragment} (h : next f ≠ .eof) : marks f = ⟨next f, touches f⟩ :: marks (after f) := by
  cases hf : marks f with
  | cons m ms =>
    obtain ⟨rfl, rfl⟩ := marks_head hf
    rfl
  | nil =>
    refine absurd ?_ h
    clear h
    induction f with
    | nil => rfl
    | cons a f ih =>
      cases a with
      | token k => simp [marks] at hf
      | space | line =>
        refine ih ?_
        cases hm : marks f with
        | nil => rfl
        | cons m ms => simp [marks, hm, unglued] at hf

/-- Whether the first token of fragments is read as it stands, and not as a half of `>>`. -/
def Loose (f : List Fragment) : Prop := next f = .operator .gt → ¬ touchesWith (.operator .gt) (after f)

theorem loose_of_ne {f : List Fragment} (h : next f ≠ .operator .gt) : Loose f := fun hk => absurd hk h

theorem fuse_head {f : List Fragment} {m : Mark} {ms : List Mark} (h : marks f = m :: ms) (hl : Loose f) :
    fuse (marks f) = m :: fuse ms := by
  obtain ⟨rfl, rfl⟩ := marks_head h
  rw [h]
  cases hf : marks (after f) with
  | nil => rfl
  | cons n ms =>
    obtain ⟨rfl, rfl⟩ := marks_head hf
    rw [fuse, if_neg]
    rintro ⟨hk, hn⟩
    injection hn with hn ht
    exact hl hk ⟨ht, hn⟩

theorem fuse_pair {f : List Fragment} (h : next f = .operator .gt) (ht : touchesWith (.operator .gt) (after f)) :
    fuse (marks f) = ⟨.operator .shr, touches f⟩ :: fuse (marks (after (after f))) := by
  rw [marks_next (by simp [h]), marks_next (by simp [ht.2]), ht.1, ht.2, h]
  simp [fuse]

/-! ### Streams -/

theorem marksOf_cons {last : Option Token} {ts : List Token} {m : Mark} {ms : List Mark} :
    marksOf last ts = m :: ms ↔ ∃ t us, ts = t :: us ∧ t.kind ≠ .eof ∧ m = ⟨t.kind, last.any (·.isAdjacentTo t)⟩ ∧
      ms = marksOf (some t) us := by
  cases ts with
  | nil => simp [marksOf]
  | cons t us =>
    cases hk : t.kind with
    | eof =>
      simp [marksOf, hk, TokenKind.isEof]
    | _ => simp [marksOf, hk, TokenKind.isEof]; grind

theorem peek_of_marksOf_nil {s : ParseState} (h : marksOf s.last s.rest = []) : s.peek.kind = .eof := by
  by_contra hk
  obtain ⟨ts, hr⟩ := ParseState.rest_of_peek hk
  have : marksOf s.last s.rest ≠ [] := by
    intro h
    have := (marksOf_cons (m := ⟨s.peek.kind, s.last.any (·.isAdjacentTo s.peek)⟩)).2 ⟨s.peek, ts, hr, hk, rfl, rfl⟩
    rw [h] at this
    simp at this
  exact this h

/-- What the first of the tokens to read is. -/
theorem marksOf_head {s : ParseState} {m : Mark} {ms : List Mark} (h : marksOf s.last s.rest = m :: ms) :
    s.peek.kind = m.kind ∧ s.peek.kind ≠ .eof ∧ s.isAdjacent = m.glued ∧
      marksOf s.advance.last s.advance.rest = ms := by
  obtain ⟨t, us, hr, hk, rfl, rfl⟩ := marksOf_cons.1 h
  have hp := ParseState.peek_cons hr
  rw [ParseState.advance_cons hr hk, hp]
  refine ⟨rfl, hk, ?_, rfl⟩
  unfold ParseState.isAdjacent
  rw [hp]
  cases s.last <;> rfl

/-! ### States that show fragments -/

/-- The tokens to read are those of the fragments, an owed `>` first, and nothing has been recorded. -/
structure Shows (s : ParseState) (f : List Fragment) : Prop where
  clean : s.errors = []
  tokens : ∃ g, f = List.replicate s.owed (op .gt) ++ g ∧ marksOf s.last s.rest = fuse (marks g)

namespace Shows

variable {s : ParseState} {f : List Fragment}

/-- Only a `>` can be owed. -/
theorem owed (h : Shows s f) (hn : next f ≠ .operator .gt) : s.owed = 0 := by
  obtain ⟨g, rfl, -⟩ := h.tokens
  cases ho : s.owed with
  | zero => rfl
  | succ n => simp [ho, List.replicate_succ] at hn

theorem marksOf_eq (h : Shows s f) (ho : s.owed = 0) : marksOf s.last s.rest = fuse (marks f) := by
  obtain ⟨g, rfl, hg⟩ := h.tokens
  simpa [ho] using hg

theorem of_marksOf (hc : s.errors = []) (ho : s.owed = 0) (hm : marksOf s.last s.rest = fuse (marks f)) : Shows s f :=
  ⟨hc, f, by simp [ho], hm⟩

section
variable (h : Shows s f) (ho : s.owed = 0) (hl : Loose f)
include h ho hl

theorem peek_of_loose : s.peek.kind = next f := by
  have hm := h.marksOf_eq ho
  cases hf : marks f with
  | nil =>
    have hn : next f = .eof := by
      by_contra hn
      rw [marks_next hn] at hf
      simp at hf
    rw [hf] at hm
    rw [peek_of_marksOf_nil hm, hn]
  | cons m ms =>
    obtain ⟨rfl, rfl⟩ := marks_head hf
    rw [fuse_head hf hl] at hm
    exact (marksOf_head hm).1

theorem isAdjacent_of_loose (hn : next f ≠ .eof) : s.isAdjacent = touches f := by
  have hm := h.marksOf_eq ho
  rw [fuse_head (marks_next hn) hl] at hm
  exact (marksOf_head hm).2.2.1

theorem advance_of_loose (hn : next f ≠ .eof) : Shows s.advance (after f) := by
  have hm := h.marksOf_eq ho
  rw [fuse_head (marks_next hn) hl] at hm
  exact of_marksOf (by simp [h.clean]) (by simp [ho]) (marksOf_head hm).2.2.2

end

section
variable (h : Shows s f) (hn : next f ≠ .operator .gt)
include h hn

theorem peek : s.peek.kind = next f := h.peek_of_loose (h.owed hn) (loose_of_ne hn)

theorem isAdjacent (he : next f ≠ .eof) : s.isAdjacent = touches f :=
  h.isAdjacent_of_loose (h.owed hn) (loose_of_ne hn) he

theorem advance (he : next f ≠ .eof) : Shows s.advance (after f) :=
  h.advance_of_loose (h.owed hn) (loose_of_ne hn) he

theorem kindAt_one (he : next f ≠ .eof) (hn' : next (after f) ≠ .operator .gt) : s.kindAt 1 = next (after f) := by
  have hk : s.peek.kind ≠ .eof := by rwa [h.peek hn]
  rw [ParseState.kindAt_one hk, (h.advance hn he).peek hn']

end

/-- A `>` that is not owed is read as such, or as the first half of a `>>`. -/
theorem peek_gt (h : Shows s (op .gt :: f)) (ho : s.owed = 0) :
    (s.peek.kind = .operator .gt ∧ Shows s.advance f) ∨
      (touchesWith (.operator .gt) f ∧ s.peek.kind = .operator .shr ∧
        Shows { s.advance with owed := s.owed + 1 } f) := by
  by_cases ht : touchesWith (.operator .gt) f
  · right
    have hm := h.marksOf_eq ho
    rw [fuse_pair (by simp) (by simpa using ht)] at hm
    obtain ⟨hk, -, -, hrest⟩ := marksOf_head hm
    refine ⟨ht, hk, by simp [h.clean], after f, ?_, by simpa using hrest⟩
    cases f with
    | nil => simp [touchesWith] at ht
    | cons a f =>
      cases a with
      | token k =>
        obtain rfl : k = .operator .gt := ht.2
        simp [ho]
      | space | line => simp [touchesWith] at ht
  · left
    have hl : Loose (op .gt :: f) := fun _ => by simpa using ht
    exact ⟨h.peek_of_loose ho hl, h.advance_of_loose ho hl (by simp)⟩

/-- The next token is that of the fragments, unless it is two `>` at once. -/
theorem peek_cases (h : Shows s f) (ho : s.owed = 0) :
    s.peek.kind = next f ∨ (next f = .operator .gt ∧ s.peek.kind = .operator .shr) := by
  by_cases hl : Loose f
  · exact .inl (h.peek_of_loose ho hl)
  · right
    unfold Loose at hl
    push Not at hl
    have hm := h.marksOf_eq ho
    rw [fuse_pair hl.1 hl.2] at hm
    exact ⟨hl.1, (marksOf_head hm).1⟩

/-- A token that is neither `>` nor `>>` is that of the fragments. -/
theorem next_of_peek (h : Shows s f) (ho : s.owed = 0) {k : TokenKind} (hk : s.peek.kind = k)
    (hne : k ≠ .operator .shr) : next f = k := by
  rcases h.peek_cases ho with hp | ⟨-, hp⟩
  · rw [← hp, hk]
  · exact absurd (hk.symm.trans hp) hne

/-- No `<` touches the token read last. -/
theorem not_lt (h : Shows s f) (ho : s.owed = 0) (hf : ¬ touchesWith (.operator .lt) f) :
    ¬ (s.peek.kind = .operator .lt ∧ s.isAdjacent = true) := by
  rintro ⟨hk, ha⟩
  have hn := h.next_of_peek ho hk (by simp)
  rw [h.isAdjacent_of_loose ho (loose_of_ne (by simp [hn])) (by simp [hn])] at ha
  exact hf ⟨ha, hn⟩

/-- An owed `>` is taken without reading a token. -/
theorem take_owed (h : Shows s (op .gt :: f)) (ho : 0 < s.owed) : Shows { s with owed := s.owed - 1 } f := by
  obtain ⟨g, hg, hm⟩ := h.tokens
  refine ⟨h.clean, g, ?_, hm⟩
  obtain ⟨n, hn⟩ : ∃ n, s.owed = n + 1 := ⟨s.owed - 1, by omega⟩
  rw [hn, List.replicate_succ, List.cons_append] at hg
  injection hg with _ hg
  simpa [hn] using hg

end Shows

/-- The state shows the fragments, with a space before them or without. -/
def Faces (s : ParseState) (f : List Fragment) : Prop := Shows s f ∨ Shows s (.space :: f)

namespace Faces

variable {s : ParseState} {f : List Fragment} (h : Faces s f) (hn : next f ≠ .operator .gt)
include h

theorem clean : s.errors = [] := by
  rcases h with h | h
  · exact h.clean
  · exact h.clean

include hn

theorem owed : s.owed = 0 := by
  rcases h with h | h
  · exact h.owed hn
  · exact h.owed hn

theorem peek : s.peek.kind = next f := by
  rcases h with h | h
  · exact h.peek hn
  · exact h.peek hn

theorem advance (he : next f ≠ .eof) : Shows s.advance (after f) := by
  rcases h with h | h
  · exact h.advance hn he
  · exact h.advance hn he

theorem kindAt_one (he : next f ≠ .eof) (hn' : next (after f) ≠ .operator .gt) : s.kindAt 1 = next (after f) := by
  rcases h with h | h
  · exact h.kindAt_one hn he hn'
  · exact h.kindAt_one hn he hn'

end Faces

/-- The state shows the fragments, and no `>` is owed. -/
structure Clear (s : ParseState) (f : List Fragment) : Prop where
  fragments : Shows s f
  owed : s.owed = 0

namespace Clear

variable {s : ParseState} {f : List Fragment}

theorem faces (h : Clear s f) : Faces s f := .inl h.fragments

theorem of_shows (h : Shows s f) (hn : next f ≠ .operator .gt) : Clear s f := ⟨h, h.owed hn⟩

theorem marksOf_eq (h : Clear s f) : marksOf s.last s.rest = fuse (marks f) := h.fragments.marksOf_eq h.owed

theorem advance (h : Clear s f) (hn : next f ≠ .operator .gt) (he : next f ≠ .eof) : Clear s.advance (after f) :=
  ⟨h.fragments.advance hn he, by simp [h.owed]⟩

theorem next_of_peek (h : Clear s f) {k : TokenKind} (hk : s.peek.kind = k) (hne : k ≠ .operator .shr) : next f = k :=
  h.fragments.next_of_peek h.owed hk hne

theorem isAdjacent {k : TokenKind} (h : Clear s (.token k :: f)) (hk : k ≠ .operator .gt) (he : k ≠ .eof) :
    s.isAdjacent = true :=
  h.fragments.isAdjacent hk he

/-- A line break counts as a space. -/
theorem line {d : Nat} (h : Clear s (.line d :: f)) : Clear s (.space :: f) :=
  ⟨.of_marksOf h.fragments.clean h.owed h.marksOf_eq, h.owed⟩

theorem space (h : Clear s (.space :: f)) : Faces s f := .inr h.fragments

/-- An operator with spaces around it is read as it stands. -/
theorem between {o : Operator} (h : Clear s (.space :: Fragment.op o :: .space :: f)) :
    s.peek.kind = .operator o ∧ Clear s.advance (.space :: f) := by
  have hl : Loose (.space :: Fragment.op o :: .space :: f) := fun _ => by simp [touchesWith]
  exact ⟨h.fragments.peek_of_loose h.owed hl, h.fragments.advance_of_loose h.owed hl (by simp), by simp [h.owed]⟩

end Clear

namespace Faces

variable {s : ParseState} {f : List Fragment}

theorem token {k : TokenKind} (h : Faces s (.token k :: f)) (hk : k ≠ .operator .gt) (he : k ≠ .eof) :
    s.peek.kind = k ∧ Clear s.advance f :=
  ⟨h.peek hk, h.advance hk he, by rw [ParseState.advance_owed]; exact h.owed hk⟩

theorem mark {p : Punctuation} (h : Faces s (Fragment.mark p :: f)) :
    s.peek.kind = .punctuation p ∧ Clear s.advance f :=
  h.token (by simp) (by simp)

theorem word {k : Keyword} (h : Faces s (Fragment.word k :: f)) : s.peek.kind = .keyword k ∧ Clear s.advance f :=
  h.token (by simp) (by simp)

theorem name {n : String} (h : Faces s (ofName n :: f)) : s.peek.kind = .ident n ∧ Clear s.advance f :=
  h.token (by simp) (by simp)

theorem op {o : Operator} (h : Faces s (Fragment.op o :: f)) (ho : o ≠ .gt) :
    s.peek.kind = .operator o ∧ Clear s.advance f :=
  h.token (by simpa using ho) (by simp)

end Faces

end ElleFrontEnd
