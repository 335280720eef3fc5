import ElleFrontEnd.Proofs.Lossless
import ElleFrontEnd.Proofs.Unplaced

/-!
# Comments are transparent

Blanked, a comment leaves a space for each of its bytes, and its line feeds.  The tokens around it are cut as before,
for no reader takes a space in that it would not have taken a slash for, and a slash that opens a comment prolongs no
token (`lexemeAt_fades`).  So a source without malformed places yields the same tokens at the same stretches without its
comments, and is read as the same program (`comments_transparent`).
-/

namespace ElleFrontEnd

/-! ### Texts that fade -/

/-- Whether a token can only end before the character: a space, or a semicolon. -/
def isBreak (c : Char) : Bool := c = ' ' || c = ';'

theorem isWordPart_of_isBreak {c : Char} (h : isBreak c = true) : isWordPart c = false := by
  simp only [isBreak, Bool.or_eq_true, decide_eq_true_eq] at h
  rcases h with rfl | rfl <;> decide

/-- What `ds` begins with before its first break, `cs` begins with too. -/
def Fades (cs ds : List Char) : Prop := ∀ text, (∀ c ∈ text, isBreak c = false) → text <+: ds → text <+: cs

namespace Fades

variable {cs ds : List Char}

theorem refl (cs : List Char) : Fades cs cs := fun _ _ h => h

theorem of_isBreak {c : Char} (hc : isBreak c = true) (cs ds : List Char) : Fades cs (c :: ds) := by
  intro text hs h
  cases text with
  | nil => exact List.nil_prefix
  | cons d text =>
    obtain ⟨rfl, -⟩ := List.cons_prefix_cons.1 h
    simp [hs d List.mem_cons_self] at hc

theorem append (h : Fades cs ds) (before : List Char) : Fades (before ++ cs) (before ++ ds) := by
  induction before with
  | nil => exact h
  | cons c before ih =>
    intro text hs hpre
    cases text with
    | nil => exact List.nil_prefix
    | cons d text =>
      rw [List.cons_append] at hpre
      obtain ⟨rfl, htail⟩ := List.cons_prefix_cons.1 hpre
      exact List.cons_prefix_cons.2 ⟨rfl, ih text (fun c hc => hs c (List.mem_cons_of_mem _ hc)) htail⟩

theorem head (h : Fades cs ds) : ∀ c ∈ ds.head?, isBreak c = true ∨ cs.head? = some c := by
  intro c hc
  cases ds with
  | nil => simp at hc
  | cons d ds =>
    obtain rfl : d = c := by simpa using hc
    cases hs : isBreak d with
    | true => exact .inl rfl
    | false =>
      obtain ⟨rest, rfl⟩ := h [d] (by simpa using hs) (by simp)
      exact .inr rfl

/-- A word or a number that ended before `cs` ends before `ds`. -/
theorem halts (h : Fades cs ds) (hcs : ∀ c ∈ cs.head?, isWordPart c = false) :
    ∀ c ∈ ds.head?, isWordPart c = false := by
  intro c hc
  rcases h.head c hc with hc | hc
  · exact isWordPart_of_isBreak hc
  · exact hcs c hc

theorem fractionPart? (h : Fades cs ds) (hcs : fractionPart? cs = none) : ElleFrontEnd.fractionPart? ds = none := by
  cases hds : ElleFrontEnd.fractionPart? ds with
  | none => rfl
  | some part =>
    unfold ElleFrontEnd.fractionPart? at hds
    split at hds
    · rename_i c rest
      split at hds
      · rename_i hc
        have hs : ∀ d ∈ ['.', c], isBreak d = false := by
          simp only [List.forall_mem_cons, List.not_mem_nil, false_implies, implies_true, and_true]
          refine ⟨by decide, ?_⟩
          rw [← Bool.not_eq_true]
          intro hb
          have := isWordPart_of_isBreak hb
          simp [isWordPart, Char.isAlphanum, hc] at this
        obtain ⟨rest', rfl⟩ := h _ hs (by simp)
        simp [ElleFrontEnd.fractionPart?, hc] at hcs
      · simp at hds
    · simp at hds

end Fades

/-! ### Tokens before a comment -/

/-- The token at the head of a text is read again where the text behind it fades. -/
def Lasts (read : List Char → Lexeme) (k : TokenKind) (cs : List Char) : Prop :=
  ∃ text rest, cs = text ++ rest ∧ read cs = .ofToken text.length k ∧
    ∀ ds, Fades rest ds → read (text ++ ds) = .ofToken text.length k

section
variable {c : Char} {cs : List Char} {k : TokenKind}

theorem TokenKind.Cuts.lasts {read : List Char → Lexeme} (h : k.Cuts read c cs) (hk : ∀ ds, k.Halts ds) :
    Lasts read k cs := by
  obtain ⟨text, rest, rfl, hspells, hread⟩ := h
  exact ⟨text, rest, rfl, hread, fun ds _ => hspells.reads ds (hk ds)⟩

theorem lasts_word (h : (wordAt c cs).token = some k) : Lasts (wordAt c) k cs := by
  obtain rfl : _ = k := Option.some.inj h
  have hstop : ∀ d ∈ (cs.drop (cs.takeWhile isWordPart).length).head?, isWordPart d = false := by
    have hle := (List.takeWhile_prefix (p := isWordPart) (l := cs)).length_le
    have hall : cs.take (cs.length + 1) = cs := List.take_of_length_le (Nat.le_succ _)
    have := @head_drop_takeWhile isWordPart (cs.length + 1) cs (by rw [hall]; omega)
    rwa [hall] at this
  refine ⟨_, _, (takeWhile_append_drop isWordPart cs).symm, rfl, fun ds hd => ?_⟩
  unfold wordAt
  rw [takeWhile_append_halt of_mem_takeWhile (hd.halts hstop)]

/-- The first entry that passes a test passes another as well, and no entry before it does. -/
theorem find?_of_imp {α : Type} {p q : α → Bool} {l : List α} {a : α} (h : l.find? p = some a)
    (himp : ∀ x ∈ l, q x = true → p x = true) (ha : q a = true) : l.find? q = some a := by
  induction l with
  | nil => simp at h
  | cons x l ih =>
    rw [List.find?_cons] at h ⊢
    by_cases hx : p x = true
    · rw [hx] at h
      obtain rfl := Option.some.inj h
      rw [ha]
    · rw [Bool.not_eq_true] at hx
      rw [hx] at h
      have hq : q x = false := by
        rw [← Bool.not_eq_true]
        exact fun hq => by simp [himp x List.mem_cons_self hq] at hx
      rw [hq]
      exact ih h fun y hy => himp y (List.mem_cons_of_mem _ hy)

theorem lasts_symbol (h : (symbolAt c cs).token = some k) : Lasts (symbolAt c) k cs := by
  have hentries : ∀ entry ∈ symbolsFrom c, entry.1.any isBreak = false := by
    unfold symbolsFrom
    split <;> decide
  unfold symbolAt at h
  split at h
  · rename_i tail kind hfind
    obtain rfl : kind = k := Option.some.inj h
    obtain ⟨rest, rfl⟩ : tail <+: cs := by simpa using List.find?_some hfind
    refine ⟨tail, rest, rfl, by rw [symbolAt, hfind], fun ds hd => ?_⟩
    -- an entry before it would have been found in the text itself
    have hagain : ((symbolsFrom c).find? fun entry => entry.1.isPrefixOf (tail ++ ds)) = some (tail, kind) := by
      refine find?_of_imp hfind (fun entry hm hpre => ?_) (by simp)
      rw [List.isPrefixOf_iff_prefix] at hpre ⊢
      exact hd.append tail entry.1 (fun c hc => by simpa using List.any_eq_false.1 (hentries entry hm) c hc) hpre
    rw [symbolAt, hagain]
  · simp [Lexeme.refused] at h

theorem lasts_slash (h : (slashAt cs).token = some k) : Lasts slashAt k cs := by
  have hne := slashAt_of_token h
  rw [slashAt_symbol hne] at h
  obtain ⟨text, rest, rfl, hread, hlasts⟩ := lasts_symbol h
  refine ⟨text, rest, rfl, (slashAt_symbol hne).trans hread, fun ds hd => ?_⟩
  rw [← hlasts ds hd]
  refine slashAt_symbol fun c hc => ?_
  rcases (hd.append text).head c hc with hb | hc
  · constructor <;> rintro rfl <;> exact absurd hb (by decide)
  · exact hne c hc

theorem lasts_number (h : (numberAt c cs).token = some k) : Lasts (numberAt c) k cs := by
  obtain ⟨text, rest, rfl, -, hread, hstop, hagain⟩ := numberAt_reads h
  exact ⟨text, rest, rfl, hread, fun ds hd => hagain ds (hd.halts hstop) hd.fractionPart?⟩

/-- A token before a comment is read before the blanks that are left of it. -/
theorem lexemeAt_fades (h : (lexemeAt c cs).token = some k) (hf : (lexemeAt c cs).faults = []) :
    Lasts (lexemeAt c) k cs := by
  have hreader := lexemeAt_of_token h
  rw [hreader] at h hf ⊢
  unfold readerFrom at h hf ⊢
  split_ifs at h hf ⊢ with h₁ h₂ h₃ h₄
  · exact lasts_slash h
  · obtain ⟨parts, rfl⟩ := str_of_stringAt h
    exact (cuts_string h hf).lasts fun _ => trivial
  · obtain ⟨part, rfl⟩ := char_of_charAt h
    exact (cuts_char h).lasts fun _ => trivial
  · obtain ⟨raw, rfl⟩ := rawName_of_rawNameAt h
    exact (cuts_rawName h).lasts fun _ => trivial
  · exact lasts_number h
  · exact lasts_word h
  · exact lasts_symbol h

end

/-! ### Blanks for comments -/

/-- What is left of a character that is blanked: a space for each of its bytes, or a line feed. -/
def blankOf (c : Char) : List Char := if c = '\n' then [c] else List.replicate c.utf8Size ' '

/-- A text that begins at an offset, with the characters in the given stretches blanked. -/
def blanked (comments : List Span) : (offset : Nat) → List Char → List Char
  | _, [] => []
  | offset, c :: cs =>
    (if comments.any fun s => s.start ≤ offset && offset < s.stop then blankOf c else [c]) ++
      blanked comments (offset + c.utf8Size) cs

/-- What a lexeme has taken, blanked if it is a comment. -/
def Cut.blanked (cut : Cut) : List Char := if cut.lexeme.isComment then cut.taken.flatMap blankOf else cut.taken

theorem isBlank_of_mem_blankOf {c : Char} : ∀ d ∈ blankOf c, isBlank d = true := by
  intro d hd
  unfold blankOf at hd
  split at hd
  · rename_i hc
    rw [List.mem_singleton.1 hd, hc]
    rfl
  · rw [List.eq_of_mem_replicate hd]
    rfl

@[simp] theorem byteLength_blankOf (c : Char) : byteLength (blankOf c) = c.utf8Size := by
  have hspaces (n : Nat) : byteLength (List.replicate n ' ') = n := by
    induction n with
    | zero => rfl
    | succ n ih =>
      rw [List.replicate_succ, byteLength_cons, ih, Nat.add_comm]
      rfl
  unfold blankOf
  split
  · simp
  · exact hspaces _

theorem byteLength_blanked (cut : Cut) : byteLength cut.blanked = byteLength cut.taken := by
  unfold Cut.blanked
  split
  · generalize cut.taken = text
    induction text with
    | nil => rfl
    | cons c text ih => rw [List.flatMap_cons, byteLength_append, ih, byteLength_blankOf, byteLength_cons]
  · rfl

section
variable {comments : List Span} {offset : Nat}

theorem blanked_append (comments : List Span) (offset : Nat) (a b : List Char) : blanked comments offset (a ++ b) =
    blanked comments offset a ++ blanked comments (offset + byteLength a) b := by
  induction a generalizing offset with
  | nil => rfl
  | cons c a ih => simp [blanked, ih, Nat.add_assoc]

theorem blanked_inside {s : Span} (hs : s ∈ comments) {text : List Char} (hstart : s.start ≤ offset)
    (hstop : offset + byteLength text ≤ s.stop) : blanked comments offset text = text.flatMap blankOf := by
  induction text generalizing offset with
  | nil => rfl
  | cons c text ih =>
    have hpos := c.utf8Size_pos
    rw [byteLength_cons] at hstop
    have hin : (comments.any fun s => s.start ≤ offset && offset < s.stop) = true := by
      rw [List.any_eq_true]
      refine ⟨s, hs, ?_⟩
      simp
      omega
    rw [blanked, hin, if_pos rfl, ih (by omega) (by omega), List.flatMap_cons]

theorem blanked_outside {text : List Char}
    (h : ∀ s ∈ comments, s.stop ≤ offset ∨ offset + byteLength text ≤ s.start) :
    blanked comments offset text = text := by
  induction text generalizing offset with
  | nil => rfl
  | cons c text ih =>
    have hpos := c.utf8Size_pos
    rw [byteLength_cons] at h
    have hout : (comments.any fun s => s.start ≤ offset && offset < s.stop) = false := by
      rw [List.any_eq_false]
      intro s hs
      have := h s hs
      simp
      omega
    rw [blanked, hout, if_neg Bool.false_ne_true, ih fun s hs => by have := h s hs; omega]
    rfl

end

theorem le_of_mem_comments {place : Place} {cuts : List Cut} : ∀ s ∈ (placed place cuts).comments,
    place.offset ≤ s.start := by
  induction cuts generalizing place with
  | nil => simp [placed]
  | cons cut cuts ih =>
    intro s hs
    rcases List.mem_append.1 hs with hs | hs
    · unfold Cut.commentAt at hs
      split at hs
      · rw [List.mem_singleton.1 hs, Cut.span_eq]
      · simp at hs
    · have := ih s hs
      rw [Place.offset_after] at this
      omega

/-- To blank the comments of a text is to blank the lexemes that are comments. -/
theorem blanked_placed {before : List Span} {place : Place} (hb : ∀ s ∈ before, s.stop ≤ place.offset)
    (cuts : List Cut) : blanked (before ++ (placed place cuts).comments) place.offset (cuts.flatMap Cut.taken) =
      cuts.flatMap Cut.blanked := by
  induction cuts generalizing before place with
  | nil => rfl
  | cons cut cuts ih =>
    have hspan := Cut.span_eq place cut
    have hoffset := Place.offset_after place cut.taken
    have hlater : ∀ s ∈ (placed (place.after cut.taken) cuts).comments, (place.after cut.taken).offset ≤ s.start :=
      le_of_mem_comments
    have hbefore : ∀ s ∈ before ++ cut.commentAt place, s.stop ≤ (place.after cut.taken).offset := by
      intro s hs
      rcases List.mem_append.1 hs with hs | hs
      · have := hb s hs
        omega
      · unfold Cut.commentAt at hs
        split at hs
        · rw [List.mem_singleton.1 hs, hspan, hoffset]
        · simp at hs
    rw [List.flatMap_cons, List.flatMap_cons, blanked_append, ← hoffset, ← ih hbefore]
    congr 1
    · unfold Cut.blanked
      split
      · rename_i hc
        refine blanked_inside (s := cut.span place) ?_ (by rw [hspan]) (by rw [hspan])
        simp [placed, Cut.commentAt, hc]
      · rename_i hc
        refine blanked_outside fun s hs => ?_
        rcases List.mem_append.1 hs with hs | hs
        · exact .inl (hb s hs)
        · have := hlater s (by simpa [placed, Cut.commentAt, hc] using hs)
          omega
    · rw [placed, List.append_assoc]

/-! ### The lexemes of a blanked text -/

theorem fades_blanked (text : List Char) : Fades text ((lexemes text).flatMap Cut.blanked) := by
  conv => lhs; rw [← flatMap_taken_lexemes text]
  have hcuts : ∀ cut ∈ lexemes text, cut.lexeme.isComment = true → ∃ c cs, cut.taken = c :: cs ∧ c ≠ '\n' := by
    intro cut hm hc
    obtain ⟨c, cs, rfl⟩ := exists_lexemeAt hm
    refine ⟨c, _, rfl, ?_⟩
    rintro rfl
    simp [lexemeAt_of_isBlank, isBlank, Lexeme.blank] at hc
  generalize lexemes text = cuts at hcuts
  induction cuts with
  | nil => exact .refl _
  | cons cut cuts ih =>
    rw [List.flatMap_cons, List.flatMap_cons]
    have hlater := ih fun cut hm => hcuts cut (List.mem_cons_of_mem _ hm)
    unfold Cut.blanked
    split
    · rename_i hc
      obtain ⟨c, cs, htaken, hn⟩ := hcuts cut List.mem_cons_self hc
      obtain ⟨n, hsize⟩ : ∃ n, c.utf8Size = n + 1 := ⟨c.utf8Size - 1, by have := c.utf8Size_pos; omega⟩
      have hfirst : blankOf c = ' ' :: List.replicate n ' ' := by
        rw [blankOf, if_neg hn, hsize, List.replicate_succ]
      rw [htaken, List.flatMap_cons, hfirst]
      exact .of_isBreak rfl _ _
    · exact hlater.append _

/-- Kinds and stretches of the tokens of a lexed source. -/
def Lexed.spans (l : Lexed) : List (TokenKind × Span) := l.tokens.map fun t => (t.kind, t.span)

theorem spans_cons_none {place : Place} {cut : Cut} {cuts : List Cut} (h : cut.lexeme.token = none) :
    (placed place (cut :: cuts)).spans = (placed (place.after cut.taken) cuts).spans := by
  rw [Lexed.spans, placed_cons_none h, Lexed.spans]

theorem spans_cons_some {place : Place} {cut : Cut} {cuts : List Cut} {k : TokenKind}
    (h : cut.lexeme.token = some k) : (placed place (cut :: cuts)).spans =
      (k, cut.span place) :: (placed (place.after cut.taken) cuts).spans := by
  rw [Lexed.spans, placed_cons_some h, List.map_cons, Lexed.spans]

/-- The tokens are those of `l`, at the same stretches, and there are neither comments nor malformed places. -/
structure Lexed.Clears (l' l : Lexed) : Prop where
  errors : l'.errors = []
  comments : l'.comments = []
  spans : l'.spans = l.spans

theorem placed_space {c : Char} {cs : List Char} {n : Nat} (h : lexemeAt c cs = .blank n) (place : Place) :
    placed place (lexemes (c :: cs)) = placed (place.after (c :: cs.take n)) (lexemes (cs.drop n)) := by
  rw [lexemes_cons, h]
  simp [placed, Cut.tokenAt, Cut.commentAt, Cut.errorsAt, Lexeme.blank]

/-- What stands between tokens still does where it is blanked. -/
theorem placed_filler {c : Char} {cs ds : List Char} (hf : (lexemeAt c cs).faults = [])
    (ht : (lexemeAt c cs).token = none) (hd : Fades (cs.drop (lexemeAt c cs).more) ds) (place : Place) :
    let cut : Cut := ⟨c :: cs.take (lexemeAt c cs).more, lexemeAt c cs⟩
    placed place (lexemes (cut.blanked ++ ds)) = placed (place.after cut.blanked) (lexemes ds) := by
  intro cut
  rcases lexemeAt_of_none hf ht with ⟨hc, hl⟩ | ⟨rfl, d, rest, rfl, hn, hl⟩ | ⟨rfl, rest, rfl, hl⟩ | ⟨rfl, m, hl, hm⟩
  · have hblanked : cut.blanked = [c] := by simp [cut, Cut.blanked, hl, Lexeme.blank]
    rw [hblanked]
    exact placed_blank hc place ds
  · have hblanked : cut.blanked = ['\\', d] := by simp [cut, Cut.blanked, hl, Lexeme.blank]
    rw [hl] at hd
    -- no line feed comes up behind the carriage return
    have hread : lexemeAt '\\' (d :: ds) = .blank 1 := by
      rcases hn with rfl | rfl
      · rfl
      · rw [lexemeAt_backslash]
        split
        · rename_i tail heq
          obtain rfl : ds = '\n' :: tail := (List.cons.inj heq).2
          rcases hd.head '\n' rfl with hbreak | hline
          · exact absurd hbreak (by decide)
          · obtain ⟨tail', rfl⟩ : ∃ tail', rest = '\n' :: tail' := List.head?_eq_some_iff.1 hline
            simp [lexemeAt_backslash, Lexeme.blank] at hl
        · rfl
        · rfl
        · rename_i hnone
          exact absurd rfl (hnone ds)
    rw [hblanked]
    exact placed_space hread place
  · have hblanked : cut.blanked = ['\\', '\r', '\n'] := by simp [cut, Cut.blanked, hl, Lexeme.blank]
    rw [hblanked]
    exact placed_space (n := 2) rfl place
  · have hblanks : ∀ d ∈ cut.blanked, isBlank d = true := by
      intro d hd
      simp only [cut, Cut.blanked, hl, Lexeme.comment, if_true] at hd
      obtain ⟨c, -, hc⟩ := List.mem_flatMap.1 hd
      exact isBlank_of_mem_blankOf d hc
    exact placed_blanks hblanks place ds

/-- Where no place is malformed, the comments can be blanked. -/
theorem clears_blanked {text : List Char} (h : ∀ cut ∈ lexemes text, cut.lexeme.faults = []) {place place' : Place}
    (hp : place'.offset = place.offset) :
    (placed place' (lexemes ((lexemes text).flatMap Cut.blanked))).Clears (placed place (lexemes text)) := by
  induction hn : text.length using Nat.strongRecOn generalizing text place place' with
  | ind n ih =>
    cases text with
    | nil => exact ⟨rfl, rfl, by simp [placed, Lexed.spans, hp]⟩
    | cons c cs =>
      rw [lexemes_cons] at h ⊢
      obtain ⟨hf, hrest⟩ := List.forall_mem_cons.1 h
      have hlt : (cs.drop (lexemeAt c cs).more).length < n := by
        rw [← hn, List.length_drop, List.length_cons]
        omega
      have hfades := fades_blanked (cs.drop (lexemeAt c cs).more)
      rw [List.flatMap_cons]
      cases ht : (lexemeAt c cs).token with
      | none =>
        have hoffset : (place'.after (Cut.blanked ⟨c :: cs.take (lexemeAt c cs).more, lexemeAt c cs⟩)).offset =
            (place.after (c :: cs.take (lexemeAt c cs).more)).offset := by
          rw [Place.offset_after, Place.offset_after, byteLength_blanked, hp]
        have hlater := ih _ hlt hrest hoffset rfl
        have hfiller := placed_filler hf ht hfades place'
        rw [hfiller]
        refine ⟨hlater.errors, hlater.comments, ?_⟩
        rw [spans_cons_none ht, hlater.spans]
      | some k =>
        obtain ⟨tail, rest, rfl, hread, hlasts⟩ := lexemeAt_fades ht hf
        rw [hread] at hrest hlt hfades ⊢
        simp only [Lexeme.ofToken, List.drop_left] at hrest hlt hfades
        have hoffset : (place'.after (c :: tail)).offset = (place.after (c :: tail)).offset := by
          rw [Place.offset_after, Place.offset_after, hp]
        have hlater := ih _ hlt hrest hoffset rfl
        have hagain := hlasts _ hfades
        simp only [Cut.blanked, Lexeme.ofToken, List.take_left, List.drop_left, Bool.false_eq_true, if_false,
          List.cons_append] at hagain ⊢
        rw [lexemes_cons, hagain, List.take_left, List.drop_left]
        refine ⟨hlater.errors, hlater.comments, ?_⟩
        rw [spans_cons_some rfl, spans_cons_some rfl, Cut.span_eq, Cut.span_eq, hp, hlater.spans]

theorem errors_placed {place : Place} {cuts : List Cut} :
    (placed place cuts).errors = [] ↔ ∀ cut ∈ cuts, cut.lexeme.faults = [] := by
  induction cuts generalizing place with
  | nil => simp [placed]
  | cons cut cuts ih =>
    rw [placed, List.append_eq_nil_iff, ih, List.forall_mem_cons, Cut.errorsAt, List.map_eq_nil_iff]

/-- A source without malformed places has no comments any more once they are blanked, and yields the same tokens at
the same stretches.  So it is read as the same program, with the same diagnostics. -/
theorem comments_transparent (source : String) (h : (lex source).errors = []) :
    let blank := String.ofList (blanked (lex source).comments 0 source.toList)
    (lex blank).errors = [] ∧ (lex blank).comments = [] ∧ (lex blank).spans = (lex source).spans ∧
      ∀ o, parsePartial (lex blank).tokens o = parsePartial (lex source).tokens o ∧
        parseSource blank o = parseSource source o := by
  intro blank
  have hfaults : ∀ cut ∈ lexemes source.toList, cut.lexeme.faults = [] := errors_placed.1 h
  have hblank : blank.toList = (lexemes source.toList).flatMap Cut.blanked := by
    have : blanked ([] ++ (lex source).comments) 0 ((lexemes source.toList).flatMap Cut.taken) = _ :=
      blanked_placed (by simp) (lexemes source.toList)
    rw [flatMap_taken_lexemes] at this
    rw [String.toList_ofList]
    exact this
  have hlex : lex blank = placed .start (lexemes ((lexemes source.toList).flatMap Cut.blanked)) := by
    rw [lex, hblank]
  have hcleared : (lex blank).Clears (lex source) := by
    rw [hlex]
    exact clears_blanked hfaults rfl
  have hread (o : ParseOptions) : parsePartial (lex blank).tokens o = parsePartial (lex source).tokens o :=
    parsePartial_of_spans hcleared.spans o
  refine ⟨hcleared.errors, hcleared.comments, hcleared.spans, fun o => ⟨hread o, ?_⟩⟩
  unfold parseSource
  dsimp only
  rw [hread, hcleared.errors, h]

/-- Comments next to a slash, between the parts of a number, and with a line feed and a wide character in them. -/
theorem comments_transparent_glued : (lex "x//* é\n/1./*.*/5/**/").errors = [] ∧
    let blank := String.ofList (blanked (lex "x//* é\n/1./*.*/5/**/").comments 0 "x//* é\n/1./*.*/5/**/".toList)
    (lex blank).errors = [] ∧ (lex blank).comments = [] ∧ (lex blank).spans = (lex "x//* é\n/1./*.*/5/**/").spans ∧
      ∀ o, parsePartial (lex blank).tokens o = parsePartial (lex "x//* é\n/1./*.*/5/**/").tokens o ∧
        parseSource blank o = parseSource "x//* é\n/1./*.*/5/**/" o :=
  ⟨by decide +kernel, comments_transparent _ (by decide +kernel)⟩

end ElleFrontEnd
