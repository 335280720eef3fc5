import ElleFrontEnd.Proofs.Lossless
import ElleFrontEnd.Proofs.Rendered
import ElleFrontEnd.Proofs.Shows

/-!
# Printed text that is lexed again

Fragments are legible where each token can be read from its text and none that touches the next would run into it.  The
text of legible fragments has no malformed place, and its tokens are those of the fragments, where two `>` that touch
are read as one `>>` (`lex_render`).
-/

namespace ElleFrontEnd

open Fragment

/-! ### Tokens that touch -/

namespace TokenKind

/-- The first character of a symbol. -/
def symbolStart? : TokenKind → Option Char
  | .operator o => o.spelling.toList.head?
  | .punctuation p => p.spelling.toList.head?
  | _ => none

/-- Whether a token may stand right before another one.  No number stands behind a point, which could make a fraction
with what stands before it. -/
def mayTouch : TokenKind → TokenKind → Bool
  | .keyword _, b | .ident _, b | .number _, b => !b.isWord
  | .operator o, b => b.symbolStart?.all (· ∉ o.extensions)
  | .punctuation .dot, .number _ => false
  | .punctuation p, b => b.symbolStart?.all (· ∉ p.extensions)
  | .str _, _ | .char _, _ | .rawName _, _ | .eof, _ => true

end TokenKind

namespace Fragment

/-- Whether each token can be read from its text and does not run into the one that touches it. -/
def Legible : List Fragment → Prop
  | [] => True
  | .token k :: f => k.Legible ∧ (touches f = true →
      k.mayTouch (next f) = true ∨ k = .operator .gt ∧ next f = .operator .gt) ∧ Legible f
  | .space :: f | .line _ :: f => Legible f

end Fragment

/-! ### What stands behind a token -/

theorem render_cons (indent : Nat) (a : Fragment) (f : List Fragment) :
    (render indent (a :: f)).toList = (a.text indent).toList ++ (render indent f).toList := by
  simp [render]

theorem text_space (indent : Nat) : (Fragment.text indent .space).toList = [' '] := by
  simp [Fragment.text]

theorem text_line (indent depth : Nat) :
    (Fragment.text indent (.line depth)).toList = '\n' :: List.replicate (depth * indent) ' ' := by
  simp [Fragment.text]

theorem Operator.extensions_subset (o : Operator) : ∀ c ∈ o.extensions, c ∈ extensionChars := by
  cases o <;> simp [extensions, extensionChars]

theorem Punctuation.extensions_subset (p : Punctuation) : ∀ c ∈ p.extensions, c ∈ extensionChars := by
  cases p <;> simp [extensions, extensionChars]

theorem TokenKind.Spells.symbolStart? {b : TokenKind} {c : Char} {cs : List Char} (h : b.Spells (lexemeAt c) c cs)
    (hs : b.isSymbol = true) : b.symbolStart? = some c := by
  have hd := h.display
  cases b <;> simp [TokenKind.isSymbol] at hs
  all_goals
    simp only [TokenKind.display] at hd
    simp [TokenKind.symbolStart?, hd]

/-- A point and what touches it make no fraction, unless that is a number. -/
theorem fractionPart?_eq_none {b : TokenKind} {c : Char} {cs rest : List Char} (h : b.Spells (lexemeAt c) c cs)
    (hrest : b = .punctuation .dot → ∀ c ∈ rest.head?, c.isDigit = false) :
    fractionPart? (c :: (cs ++ rest)) = none := by
  by_cases hc : c = '.'
  · subst hc
    have hs := h.isSymbol (by decide)
    have hnone {d : Char} {ds : List Char} (hd : d.isDigit = false) : fractionPart? ('.' :: d :: ds) = none := by
      simp [fractionPart?, hd]
    have hd := h.display
    cases b with
    | operator o =>
      have hsecond : ∀ o : Operator, o.spelling.toList.head? = some '.' → o.spelling.toList.tail.head? = some '.' := by
        intro o
        cases o <;> decide
      have := hsecond o
      rw [show o.spelling.toList = '.' :: cs from hd] at this
      cases cs with
      | nil => simp at this
      | cons d ds =>
        obtain rfl : d = '.' := by simpa using this
        exact hnone (by decide)
    | punctuation p =>
      have hsecond : ∀ p : Punctuation, p.spelling.toList.head? = some '.' → p = .dot ∨
          p.spelling.toList.tail.head? = some '.' := by
        intro p
        cases p <;> decide
      have hd : p.spelling.toList = '.' :: cs := hd
      rcases hsecond p (by rw [hd]; rfl) with rfl | hp
      · obtain rfl : cs = [] := by simpa [Punctuation.spelling, eq_comm] using hd
        cases rest with
        | nil => rfl
        | cons d ds => exact hnone (hrest rfl d rfl)
      · rw [hd] at hp
        cases cs with
        | nil => simp at hp
        | cons d ds =>
          obtain rfl : d = '.' := by simpa using hp
          exact hnone (by decide)
    | keyword | ident | number | str | char | rawName | eof => simp [TokenKind.isSymbol] at hs
  · unfold fractionPart?
    split
    · rename_i h
      exact absurd (List.cons.inj h).1 hc
    · rfl

/-- A token is left as it is by one that may touch it. -/
theorem halts_of_mayTouch {k b : TokenKind} {rest : List Char} (hb : b.Legible) (h : k.mayTouch b = true)
    (hrest : b = .punctuation .dot → ∀ c ∈ rest.head?, c.isDigit = false) : k.Halts (b.display.toList ++ rest) := by
  obtain ⟨c, cs, hs⟩ := hb
  rw [hs.display, List.cons_append]
  have hword (hw : b.isWord = false) : ∀ d ∈ (c :: (cs ++ rest)).head?, isWordPart d = false := by
    rintro _ ⟨⟩
    rw [← Bool.not_eq_true]
    intro hc
    simp [hs.isWord hc] at hw
  have hsymbol {ds : List Char} (hd : ∀ d ∈ ds, d ∈ extensionChars) (h : b.symbolStart?.all (· ∉ ds) = true) :
      ∀ d ∈ (c :: (cs ++ rest)).head?, d ∉ ds := by
    rintro _ ⟨⟩ hc
    rw [hs.symbolStart? (hs.isSymbol (hd c hc))] at h
    simp [hc] at h
  cases k with
  | keyword | ident => exact hword (by simpa [TokenKind.mayTouch] using h)
  | number => exact ⟨hword (by simpa [TokenKind.mayTouch] using h), fractionPart?_eq_none hs hrest⟩
  | operator o => exact hsymbol o.extensions_subset h
  | punctuation p =>
    refine hsymbol p.extensions_subset ?_
    cases p <;> cases b <;> first | exact h | simp [TokenKind.mayTouch] at h
  | str | char | rawName | eof => trivial

/-- The text behind a token of legible fragments leaves it as it is. -/
theorem halts_render {indent : Nat} {k : TokenKind} {f : List Fragment} (h : Fragment.Legible (.token k :: f))
    (hgt : ¬ (k = .operator .gt ∧ touchesWith (.operator .gt) f)) : k.Halts (render indent f).toList := by
  cases f with
  | nil => exact k.halts_nil
  | cons a f =>
    rw [render_cons]
    cases a with
    | space =>
      rw [text_space, List.singleton_append]
      exact halts_blank (.inl rfl) _
    | line depth =>
      rw [text_line, List.cons_append]
      exact halts_blank (.inr rfl) _
    | token b =>
      obtain ⟨-, htouch, hb, htouch', hf⟩ := h
      have hk : k.mayTouch b = true := (htouch rfl).resolve_right fun h => hgt ⟨h.1, rfl, h.2⟩
      refine halts_of_mayTouch hb hk ?_
      rintro rfl c hc
      -- what stands behind a point is no number
      cases f with
      | nil => simp [render] at hc
      | cons a f =>
        rw [render_cons] at hc
        cases a with
        | space =>
          obtain rfl : ' ' = c := by simpa [Fragment.text] using hc
          decide
        | line depth =>
          obtain rfl : '\n' = c := by simpa [text_line] using hc
          decide
        | token d =>
          obtain ⟨⟨c', cs, hs⟩, -, -⟩ := hf
          rw [Fragment.text, hs.display] at hc
          obtain rfl : c' = c := by simpa using hc
          rw [← Bool.not_eq_true]
          intro hd
          obtain ⟨n, rfl⟩ := hs.number hd
          simpa [TokenKind.mayTouch] using htouch' rfl

/-! ### The tokens of printed text -/

theorem fuse_cons {m : Mark} {ms : List Mark} (h : ¬ (m.kind = .operator .gt ∧ ms.head? = some ⟨.operator .gt, true⟩)) :
    fuse (m :: ms) = m :: fuse ms := by
  cases ms with
  | nil => rfl
  | cons n ms =>
    rw [fuse, if_neg]
    simpa using h

theorem unglued_unglued (ms : List Mark) : unglued (unglued ms) = unglued ms := by cases ms <;> rfl

/-- Marks behind the token that was read last, which they touch where it ends at their place. -/
def marksAt (last : Option Token) (place : Place) (ms : List Mark) : List Mark :=
  if last.any (·.span.stop = place.offset) then ms else unglued ms

theorem marksAt_token (last : Option Token) (place : Place) (k : TokenKind) (ms : List Mark) :
    marksAt last place (⟨k, true⟩ :: ms) = ⟨k, last.any (·.span.stop = place.offset)⟩ :: ms := by
  unfold marksAt
  split
  · rename_i h
    rw [h]
  · rename_i h
    rw [Bool.eq_false_iff.2 h]
    rfl

/-- Whether nothing was lexed but given tokens, behind the token read last. -/
structure Lexed.AreMarks (lexed : Lexed) (last : Option Token) (ms : List Mark) : Prop where
  tokens : marksOf last lexed.tokens = ms
  comments : lexed.comments = []
  errors : lexed.errors = []

/-- A text is lexed without a fault or a comment as given tokens, wherever it stands behind the token read last. -/
def LexedAs (text : List Char) (ms : List Mark) : Prop :=
  ∀ (last : Option Token) (place : Place), (∀ t ∈ last, t.span.stop ≤ place.offset) →
    (placed place (lexemes text)).AreMarks last (fuse (marksAt last place ms))

namespace LexedAs

variable {k : TokenKind} {rest : List Char} {ms : List Mark}

theorem nil : LexedAs [] [] := by
  refine fun last place _ => ⟨?_, rfl, rfl⟩
  unfold marksAt
  split <;> rfl

/-- What stands behind a blank touches nothing. -/
theorem blanks (h : LexedAs rest ms) {blanks : List Char} (hne : blanks ≠ []) (hb : ∀ c ∈ blanks, isBlank c = true) :
    LexedAs (blanks ++ rest) (unglued ms) := by
  intro last place hlast
  have hlt : ∀ t ∈ last, t.span.stop < (place.after blanks).offset := by
    intro t ht
    have hle := hlast t ht
    have hpos : 0 < byteLength blanks := byteLength_pos hne
    rw [Place.offset_after]
    omega
  have hapart : last.any (·.span.stop = (place.after blanks).offset) = false := by
    cases last with
    | none => rfl
    | some t => simpa using Nat.ne_of_lt (hlt t rfl)
  have hlexed := h last (place.after blanks) fun t ht => Nat.le_of_lt (hlt t ht)
  rw [marksAt, hapart] at hlexed
  rw [placed_blanks hb, marksAt, unglued_unglued, ite_self]
  exact hlexed

/-- A token that halts is read first, and what follows touches it. -/
theorem behind (h : LexedAs rest ms) (hk : k.Legible) (hr : k.Halts rest) (last : Option Token) (place : Place) :
    (placed place (lexemes (k.display.toList ++ rest))).AreMarks last
      (⟨k, last.any (·.span.stop = place.offset)⟩ :: fuse ms) := by
  obtain ⟨hm, hc, he⟩ := h (some ⟨k, ⟨place.offset, (place.after k.display.toList).offset⟩, place.position⟩)
    (place.after k.display.toList) (by rintro _ ⟨⟩; exact Nat.le_refl _)
  rw [marksAt, if_pos (by simp)] at hm
  rw [placed_token hk place hr]
  refine ⟨?_, hc, he⟩
  rw [Lexed.behind, marksOf, if_neg (by simp [hk.isEof]), hm]
  rfl

theorem token (h : LexedAs rest ms) (hk : k.Legible) (hr : k.Halts rest)
    (hgt : ¬ (k = .operator .gt ∧ ms.head? = some ⟨.operator .gt, true⟩)) :
    LexedAs (k.display.toList ++ rest) (⟨k, true⟩ :: ms) := by
  intro last place _
  rw [marksAt_token, fuse_cons hgt]
  exact h.behind hk hr last place

/-- Two `>` that touch are read as one token. -/
theorem shr (h : LexedAs rest ms) (hr : (TokenKind.operator .shr).Halts rest) :
    LexedAs ('>' :: '>' :: rest) (⟨.operator .gt, true⟩ :: ⟨.operator .gt, true⟩ :: ms) := by
  intro last place _
  rw [marksAt_token, fuse, if_pos ⟨rfl, rfl⟩]
  exact h.behind (legible_operator .shr) hr last place

end LexedAs

theorem head?_marks {f : List Fragment} {k : TokenKind} (h : (marks f).head? = some ⟨k, true⟩) : touchesWith k f := by
  cases hm : marks f with
  | nil => simp [hm] at h
  | cons m ms =>
    obtain ⟨rfl, rfl⟩ := marks_head hm
    simp [hm] at h
    exact ⟨h.2, h.1⟩

/-- Behind two `>` that touch, no `=` makes a longer symbol of them. -/
theorem halts_shr {indent : Nat} {f : List Fragment} (h : Fragment.Legible (Fragment.op .gt :: f)) :
    (TokenKind.operator .shr).Halts (render indent f).toList := by
  by_cases ht : touchesWith (.operator .gt) f
  · cases f with
    | nil => simp [touchesWith] at ht
    | cons a f =>
      cases a with
      | token k =>
        obtain rfl : k = .operator .gt := ht.2
        intro c hc
        obtain rfl : '>' = c := by simpa [render_cons, Fragment.text, TokenKind.display, Operator.spelling] using hc
        simp [Operator.extensions]
      | space | line => simp [touchesWith] at ht
  · intro c hc
    have := halts_render h (fun h => ht h.2) c hc
    simp_all [Operator.extensions]

/-- The text of legible fragments is lexed as their tokens. -/
theorem lexedAs_render (indent : Nat) {f : List Fragment} (h : Fragment.Legible f) :
    LexedAs (render indent f).toList (marks f) := by
  induction hn : f.length using Nat.strongRecOn generalizing f with
  | ind n ih =>
    subst hn
    cases f with
    | nil => exact .nil
    | cons a f =>
      have hf : Fragment.Legible f → LexedAs (render indent f).toList (marks f) := fun h => ih _ (by simp) h rfl
      cases a with
      | space =>
        rw [render_cons, text_space]
        exact (hf h).blanks (by simp) (by simp [isBlank])
      | line depth =>
        rw [render_cons, text_line]
        exact (hf h).blanks (by simp) (by simp +contextual [isBlank, or_imp])
      | token k =>
        by_cases hgt : k = .operator .gt ∧ touchesWith (.operator .gt) f
        · obtain ⟨rfl, htouch⟩ := hgt
          cases f with
          | nil => simp [touchesWith] at htouch
          | cons a f =>
            cases a with
            | token k =>
              obtain rfl : k = .operator .gt := htouch.2
              have hf' := ih _ (by rw [List.length_cons, List.length_cons]; omega) h.2.2.2.2 rfl
              have htext : (render indent (Fragment.op .gt :: Fragment.op .gt :: f)).toList =
                  '>' :: '>' :: (render indent f).toList := by
                simp [render_cons, Fragment.text, TokenKind.display, Operator.spelling]
              rw [htext]
              exact hf'.shr (halts_shr h.2.2)
            | space | line => simp [touchesWith] at htouch
        · rw [render_cons]
          exact (hf h.2.2).token h.1 (halts_render h hgt) fun hg => hgt ⟨hg.1, head?_marks hg.2⟩

/-- The text of legible fragments is lexed without a fault or a comment, as the tokens of the fragments. -/
theorem lex_render (indent : Nat) {f : List Fragment} (h : Fragment.Legible f) :
    (lex (render indent f)).AreMarks none (fuse (marks (.space :: f))) :=
  lexedAs_render indent h none .start (by simp)

end ElleFrontEnd
