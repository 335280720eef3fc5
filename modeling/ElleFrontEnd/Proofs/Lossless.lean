import ElleFrontEnd.Proofs.Rendered
import Mathlib.Data.List.Forall2

/-!
# Nothing is lost in lexing

Each lexeme takes at least one character and they take all of the source, so the tokens of a source stand in order and
apart.  Where no place is malformed, a token is written as its stretch of the source reads, and what stands between two
tokens is white space, continued lines and comments, each of which is recorded (`lex_lossless`).
-/

namespace ElleFrontEnd

/-! ### Stretches of a text -/

/-- Whether a byte offset lies at one end of a text or between two of its characters. -/
def OnBoundary (text : List Char) (offset : Nat) : Prop :=
  ∃ before rest, text = before ++ rest ∧ offset = byteLength before

/-- `part` is what a text reads at a stretch. -/
def Span.Holds (text : List Char) (s : Span) (part : List Char) : Prop :=
  ∃ before rest, text = before ++ (part ++ rest) ∧ s = ⟨byteLength before, byteLength before + byteLength part⟩

@[simp] theorem byteLength_nil : byteLength [] = 0 := rfl

@[simp] theorem byteLength_cons (c : Char) (cs : List Char) : byteLength (c :: cs) = c.utf8Size + byteLength cs := rfl

theorem byteLength_pos {text : List Char} (h : text ≠ []) : 0 < byteLength text := by
  cases text with
  | nil => exact absurd rfl h
  | cons c cs =>
    have := c.utf8Size_pos
    rw [byteLength_cons]
    omega

/-- An offset cuts a text in one way. -/
theorem eq_of_byteLength {a b rest rest' : List Char} (h : a ++ rest = b ++ rest')
    (hlength : byteLength a = byteLength b) : a = b ∧ rest = rest' := by
  induction a generalizing b with
  | nil =>
    cases b with
    | nil => exact ⟨rfl, h⟩
    | cons c b =>
      have := byteLength_pos (List.cons_ne_nil c b)
      simp only [byteLength_nil] at hlength
      omega
  | cons c a ih =>
    cases b with
    | nil =>
      have := byteLength_pos (List.cons_ne_nil c a)
      simp only [byteLength_nil] at hlength
      omega
    | cons d b =>
      obtain ⟨rfl, htail⟩ := List.cons.inj h
      obtain ⟨rfl, hrest⟩ := ih htail (by simpa using hlength)
      exact ⟨rfl, hrest⟩

theorem OnBoundary.le {text : List Char} {n : Nat} (h : OnBoundary text n) : n ≤ byteLength text := by
  obtain ⟨before, rest, rfl, rfl⟩ := h
  rw [byteLength_append]
  omega

theorem Span.Holds.onBoundary {text part : List Char} {s : Span} (h : s.Holds text part) :
    OnBoundary text s.start ∧ OnBoundary text s.stop := by
  obtain ⟨before, rest, rfl, rfl⟩ := h
  exact ⟨⟨before, part ++ rest, rfl, rfl⟩, before ++ part, rest, by simp, (byteLength_append _ _).symm⟩

/-- A stretch reads one text. -/
theorem Span.Holds.unique {text part part' : List Char} {s : Span} (h : s.Holds text part) (h' : s.Holds text part') :
    part = part' := by
  obtain ⟨before, rest, rfl, rfl⟩ := h
  obtain ⟨before', rest', htext, hs⟩ := h'
  obtain ⟨hstart, hstop⟩ := Span.mk.inj hs
  obtain ⟨rfl, hparts⟩ := eq_of_byteLength htext hstart
  exact (eq_of_byteLength hparts (by omega)).1

/-! ### What stands between tokens -/

/-- A comment: up to the end of a line, or up to the first `*/`. -/
inductive IsComment : List Char → Prop
  | line {body : List Char} (h : '\n' ∉ body) : IsComment ('/' :: '/' :: body)
  | block {body : List Char} (h : ¬ ['*', '/'] <:+: body) : IsComment ('/' :: '*' :: (body ++ ['*', '/']))

/-- What may stand between two tokens, from an offset on: white space, backslashes that continue a line, and comments,
whose stretches are given. -/
inductive Filled : Nat → List Char → List Span → Prop
  | nil (n : Nat) : Filled n [] []
  | blank {n : Nat} {c : Char} {cs : List Char} {comments : List Span} (hc : isBlank c = true)
      (h : Filled (n + c.utf8Size) cs comments) : Filled n (c :: cs) comments
  | continued {n : Nat} {c : Char} {cs : List Char} {comments : List Span} (hc : c = '\n' ∨ c = '\r')
      (h : Filled (n + 2) cs comments) : Filled n ('\\' :: c :: cs) comments
  | comment {n : Nat} {text cs : List Char} {comments : List Span} (ht : IsComment text)
      (h : Filled (n + byteLength text) cs comments) :
      Filled n (text ++ cs) (⟨n, n + byteLength text⟩ :: comments)

/-- The stretches that tokens leave, from an offset on: one before each token, and one behind the last. -/
def gapsFrom (n stop : Nat) : List Token → List Span
  | [] => [⟨n, stop⟩]
  | t :: ts => ⟨n, t.span.start⟩ :: gapsFrom t.span.stop stop ts

/-- Whether what stands at a stretch of a text may stand between tokens, with the given comments in it. -/
def GapFilled (text : List Char) (gap : Span) (comments : List Span) : Prop :=
  ∃ part, gap.Holds text part ∧ Filled gap.start part comments

/-- Where tokens stand in a text: one behind another, between characters, and each on one character at least, but for
the one `eof` at the end. -/
structure TokensLaid (text : List Char) (tokens : List Token) : Prop where
  ordered : tokens.Pairwise (·.span.stop ≤ ·.span.start)
  onBoundary : ∀ t ∈ tokens, OnBoundary text t.span.start ∧ OnBoundary text t.span.stop
  ended : ∃ ts e, tokens = ts ++ [e] ∧ e.kind = .eof ∧ e.span = ⟨byteLength text, byteLength text⟩ ∧
    ∀ t ∈ ts, t.kind ≠ .eof ∧ t.span.start < t.span.stop

/-- Tokens are written as a text reads, and the comments are all that is more than space between them. -/
structure Covers (text : List Char) (lexed : Lexed) : Prop where
  written : ∀ t ∈ lexed.tokens, t.span.Holds text t.kind.display.toList
  filled : ∃ comments : List (List Span), comments.flatten = lexed.comments ∧
    List.Forall₂ (GapFilled text) (gapsFrom 0 (byteLength text) lexed.tokens) comments

/-! ### Lexemes without faults -/

/-- A comment that ends with its line takes what is left of the line. -/
theorem isComment_line (cs : List Char) : IsComment ('/' :: '/' :: cs.takeWhile (· ≠ '\n')) :=
  .line fun h => by simpa using of_mem_takeWhile _ h

theorem blockCommentLength?_reads {cs : List Char} {n : Nat} (h : blockCommentLength? cs = some n) :
    ∃ body rest, cs = body ++ ('*' :: '/' :: rest) ∧ n = body.length + 2 ∧ ¬ ['*', '/'] <:+: body := by
  fun_induction blockCommentLength? cs generalizing n with
  | case1 => simp at h
  | case2 cs => exact ⟨[], cs, rfl, by simpa using h.symm, by simp⟩
  | case3 c cs hne ih =>
    obtain ⟨m, hm, rfl⟩ := Option.map_eq_some_iff.1 h
    obtain ⟨body, rest, rfl, rfl, hbody⟩ := ih hm
    refine ⟨c :: body, rest, rfl, rfl, fun hin => ?_⟩
    rcases List.infix_cons_iff.1 hin with hpre | hin
    · -- then `*/` stands before
      obtain ⟨rfl, htail⟩ := List.cons_prefix_cons.1 hpre
      obtain ⟨tail, rfl⟩ := htail
      exact hne _ rfl rfl
    · exact hbody hin

/-- What a lexeme takes and yields.  Without faults, it is written as it is read, or may stand between tokens.  A token
that is no string is written as it is read in any case. -/
structure Cut.Faithful (cut : Cut) : Prop where
  taken : cut.taken ≠ []
  token : cut.lexeme.token ≠ some .eof
  written : ∀ k, cut.lexeme.token = some k → (cut.lexeme.faults = [] ∨ ∀ parts, k ≠ .str parts) →
    k.display.toList = cut.taken ∧ cut.lexeme.isComment = false
  filled : cut.lexeme.faults = [] → cut.lexeme.token = none → ∀ {n : Nat} {cs : List Char} {comments : List Span},
    Filled (n + byteLength cut.taken) cs comments → Filled n (cut.taken ++ cs)
      ((if cut.lexeme.isComment then [⟨n, n + byteLength cut.taken⟩] else []) ++ comments)

/-- Whether a lexeme yields a token or a fault. -/
def Lexeme.Yields (l : Lexeme) : Prop := l.token.isSome = true ∨ l.faults ≠ []

theorem yields_string (cs : List Char) : (stringAt cs).Yields := by
  unfold stringAt
  dsimp only
  split
  · exact .inl rfl
  · exact .inr (by simp)

theorem yields_closeChar (part : StrPart) (taken : Nat) (cs : List Char) : (closeChar part taken cs).Yields := by
  unfold closeChar
  split
  · exact .inl rfl
  · exact .inr (List.cons_ne_nil _ _)

theorem yields_char (cs : List Char) : (charAt cs).Yields := by
  have hrefused (more : Nat) (cause : Cause) : (Lexeme.refused more cause).Yields := .inr (List.cons_ne_nil _ _)
  unfold charAt
  split
  · exact hrefused _ _
  · exact hrefused _ _
  · exact hrefused _ _
  · split
    · exact hrefused _ _
    · exact yields_closeChar _ _ _
    · exact .inr (List.cons_ne_nil _ _)
  · exact yields_closeChar _ _ _

theorem yields_rawName (cs : List Char) : (rawNameAt cs).Yields := by
  unfold rawNameAt
  dsimp only
  split
  · split
    · exact .inr (List.cons_ne_nil _ _)
    · exact .inl rfl
  · exact .inr (List.cons_ne_nil _ _)

theorem yields_number (c : Char) (cs : List Char) : (numberAt c cs).Yields := by
  unfold numberAt
  dsimp only
  split
  · exact .inl rfl
  · exact .inr (List.cons_ne_nil _ _)

theorem yields_symbol (c : Char) (cs : List Char) : (symbolAt c cs).Yields := by
  unfold symbolAt
  split
  · exact .inl rfl
  · exact .inr (List.cons_ne_nil _ _)

theorem lexemeAt_backslash (cs : List Char) : lexemeAt '\\' cs =
    match cs with
    | '\r' :: '\n' :: _ => .blank 2
    | '\n' :: _ | '\r' :: _ => .blank 1
    | _ => .refused 0 (.unexpectedCharacter '\\') := by
  rfl

/-- What begins with a slash and yields neither a token nor a fault is a comment. -/
theorem slashAt_of_none {cs : List Char} (hf : (slashAt cs).faults = []) (ht : (slashAt cs).token = none) :
    ∃ n, slashAt cs = .comment n ∧ IsComment ('/' :: cs.take n) := by
  unfold slashAt at hf ht ⊢
  split at hf
  · rename_i cs
    refine ⟨_, rfl, ?_⟩
    rw [List.take_succ_cons, ← takeWhile_eq_take]
    exact isComment_line cs
  · rename_i cs
    split at hf
    · rename_i n hn
      obtain ⟨body, rest, rfl, rfl, hbody⟩ := blockCommentLength?_reads hn
      refine ⟨_, rfl, ?_⟩
      have : (body ++ '*' :: '/' :: rest).take (body.length + 2) = body ++ ['*', '/'] := by
        simp [List.take_append, List.take_of_length_le]
      rw [List.take_succ_cons, this]
      exact .block hbody
    · simp [Lexeme.refused] at hf
  · exact absurd (yields_symbol '/' cs) (by simp_all [Lexeme.Yields])

/-- A lexeme that yields no token and has no fault is blank, or a comment, or continues the line. -/
theorem lexemeAt_of_none {c : Char} {cs : List Char} (hf : (lexemeAt c cs).faults = [])
    (ht : (lexemeAt c cs).token = none) : isBlank c = true ∧ lexemeAt c cs = .blank 0 ∨
      c = '\\' ∧ (∃ d rest, cs = d :: rest ∧ (d = '\n' ∨ d = '\r') ∧ lexemeAt c cs = .blank 1) ∨
      c = '\\' ∧ (∃ rest, cs = '\r' :: '\n' :: rest ∧ lexemeAt c cs = .blank 2) ∨
      c = '/' ∧ ∃ n, lexemeAt c cs = .comment n ∧ IsComment (c :: cs.take n) := by
  by_cases hb : isBlank c = true
  · exact .inl ⟨hb, lexemeAt_of_isBlank hb cs⟩
  by_cases hc : c = '\\'
  · subst hc
    rw [lexemeAt_backslash] at hf ⊢
    split at hf
    · exact .inr (.inr (.inl ⟨rfl, _, rfl, rfl⟩))
    · exact .inr (.inl ⟨rfl, _, _, rfl, .inl rfl, rfl⟩)
    · exact .inr (.inl ⟨rfl, _, _, rfl, .inr rfl, rfl⟩)
    · simp [Lexeme.refused] at hf
  rw [lexemeAt_eq (Bool.not_eq_true _ ▸ hb) hc] at hf ht ⊢
  have hyields : ∀ {l : Lexeme}, l.Yields → l.faults = [] → l.token = none → False := fun h hf ht =>
    h.elim (fun h => by simp [ht] at h) fun h => h hf
  unfold readerFrom at hf ht ⊢
  split_ifs at hf ht ⊢ with h₁ h₂ h₃ h₄
  · obtain rfl := h₁
    exact .inr (.inr (.inr ⟨rfl, slashAt_of_none hf ht⟩))
  · exact (hyields (yields_string cs) hf ht).elim
  · exact (hyields (yields_char cs) hf ht).elim
  · exact (hyields (yields_rawName cs) hf ht).elim
  · exact (hyields (yields_number c cs) hf ht).elim
  · exact absurd ht (Option.some_ne_none _)
  · exact (hyields (yields_symbol c cs) hf ht).elim

theorem faithful_lexemeAt (c : Char) (cs : List Char) :
    Cut.Faithful ⟨c :: cs.take (lexemeAt c cs).more, lexemeAt c cs⟩ where
  taken := List.cons_ne_nil _ _
  token h := by simpa [TokenKind.isEof] using (legible_of_lexemeAt h).isEof
  written k hk hf := by
    obtain ⟨text, rest, rfl, hs, hlexeme⟩ := cuts_lexemeAt hk hf
    rw [hlexeme, hs.display]
    simp [Lexeme.ofToken]
  filled hf ht n rest comments h := by
    dsimp only at hf ht h ⊢
    rcases lexemeAt_of_none hf ht with ⟨hc, hl⟩ | ⟨rfl, d, cs, rfl, hd, hl⟩ | ⟨rfl, cs, rfl, hl⟩ | ⟨rfl, m, hl, hm⟩
    · rw [hl] at h ⊢
      exact .blank hc h
    · rw [hl] at h ⊢
      refine .continued hd ?_
      rcases hd with rfl | rfl <;> exact h
    · rw [hl] at h ⊢
      exact .continued (.inr rfl) (.blank rfl h)
    · rw [hl] at h ⊢
      exact .comment hm h

theorem faithful_of_mem {text : List Char} {cut : Cut} (h : cut ∈ lexemes text) : cut.Faithful := by
  obtain ⟨c, cs, rfl⟩ := exists_lexemeAt h
  exact faithful_lexemeAt c cs

/-! ### Lexemes in their places -/

section
variable {text before : List Char} {place : Place} {cut : Cut} {cuts : List Cut}

theorem Cut.span_eq (place : Place) (cut : Cut) :
    cut.span place = ⟨place.offset, place.offset + byteLength cut.taken⟩ := by
  rw [Cut.span, Place.offset_after]

/-- The stretch of a lexeme reads what the lexeme has taken. -/
theorem Cut.span_holds (htext : text = before ++ (cut :: cuts).flatMap Cut.taken)
    (hplace : place.offset = byteLength before) : (cut.span place).Holds text cut.taken :=
  ⟨before, cuts.flatMap Cut.taken, by rw [htext, List.flatMap_cons], by rw [Cut.span_eq, hplace]⟩

theorem placed_cons_none (h : cut.lexeme.token = none) : (placed place (cut :: cuts)).tokens =
    (placed (place.after cut.taken) cuts).tokens := by
  simp [placed, Cut.tokenAt, h]

theorem placed_cons_some {k : TokenKind} (h : cut.lexeme.token = some k) : (placed place (cut :: cuts)).tokens =
    ⟨k, cut.span place, place.position⟩ :: (placed (place.after cut.taken) cuts).tokens := by
  simp [placed, Cut.tokenAt, h]

/-- Behind the first lexeme, too, the lexemes are what the text goes on with. -/
theorem Cut.behind (htext : text = before ++ (cut :: cuts).flatMap Cut.taken)
    (hplace : place.offset = byteLength before) : text = (before ++ cut.taken) ++ cuts.flatMap Cut.taken ∧
      (place.after cut.taken).offset = byteLength (before ++ cut.taken) :=
  ⟨by simpa using htext, by rw [Place.offset_after, byteLength_append, hplace]⟩

/-- Lexemes put in their places stand in order and apart. -/
theorem laid_placed (hcuts : ∀ cut ∈ cuts, cut.Faithful) (htext : text = before ++ cuts.flatMap Cut.taken)
    (hplace : place.offset = byteLength before) :
    TokensLaid text (placed place cuts).tokens ∧ ∀ t ∈ (placed place cuts).tokens, place.offset ≤ t.span.start := by
  induction cuts generalizing before place with
  | nil =>
    obtain rfl : text = before := by simpa using htext
    have hstop : OnBoundary text (byteLength text) := ⟨text, [], (List.append_nil _).symm, rfl⟩
    rw [placed, hplace]
    exact ⟨⟨List.pairwise_singleton _ _, by simpa using hstop, [], _, rfl, rfl, rfl, by simp⟩, by simp⟩
  | cons cut cuts ih =>
    have hspan := Cut.span_eq place cut
    obtain ⟨htext', hplace'⟩ := Cut.behind htext hplace
    obtain ⟨hlaid, hle⟩ := ih (fun c hc => hcuts c (List.mem_cons_of_mem _ hc)) htext' hplace'
    have hcut := hcuts cut List.mem_cons_self
    rw [Place.offset_after] at hle
    cases htoken : cut.lexeme.token with
    | none =>
      rw [placed_cons_none htoken]
      exact ⟨hlaid, fun t ht => Nat.le_trans (by omega) (hle t ht)⟩
    | some k =>
      have hpos := byteLength_pos hcut.taken
      rw [placed_cons_some htoken, hspan]
      obtain ⟨ts, e, htokens, heof, hend, hts⟩ := hlaid.ended
      refine ⟨⟨List.pairwise_cons.2 ⟨hle, hlaid.ordered⟩, List.forall_mem_cons.2 ⟨?_, hlaid.onBoundary⟩,
        _ :: ts, e, by rw [htokens, List.cons_append], heof, hend, List.forall_mem_cons.2 ⟨⟨?_, ?_⟩, hts⟩⟩, ?_⟩
      · exact hspan ▸ (Cut.span_holds htext hplace).onBoundary
      · rintro rfl
        exact hcut.token htoken
      · dsimp only
        omega
      · exact List.forall_mem_cons.2 ⟨Nat.le_refl _, fun t ht => Nat.le_trans (by omega) (hle t ht)⟩

/-- The first gap begins where the counting does. -/
theorem exists_gapsFrom (stop : Nat) (ts : List Token) : ∃ first rest, ∀ n,
    gapsFrom n stop ts = ⟨n, first⟩ :: rest := by
  cases ts with
  | nil => exact ⟨stop, [], fun n => rfl⟩
  | cons t ts => exact ⟨t.span.start, gapsFrom t.span.stop stop ts, fun n => rfl⟩

theorem gapFilled_empty (htext : ∃ rest, text = before ++ rest) :
    GapFilled text ⟨byteLength before, byteLength before⟩ [] := by
  obtain ⟨rest, rfl⟩ := htext
  exact ⟨[], ⟨before, rest, by simp, by simp⟩, .nil _⟩

/-- A gap with what may stand in front of it. -/
theorem GapFilled.lexeme (hcut : cut.Faithful) (hf : cut.lexeme.faults = []) (ht : cut.lexeme.token = none)
    (htext : text = before ++ (cut :: cuts).flatMap Cut.taken) (hplace : place.offset = byteLength before) {stop : Nat}
    {comments : List Span} (h : GapFilled text ⟨(place.after cut.taken).offset, stop⟩ comments) :
    GapFilled text ⟨place.offset, stop⟩ (cut.commentAt place ++ comments) := by
  obtain ⟨part, ⟨before', rest, htext', hspan⟩, hfilled⟩ := h
  obtain ⟨hstart, rfl⟩ := Span.mk.inj hspan
  rw [Place.offset_after] at hstart hfilled
  have hwhole : text = (before ++ cut.taken) ++ cuts.flatMap Cut.taken := by simpa using htext
  obtain ⟨rfl, -⟩ := eq_of_byteLength (htext'.symm.trans hwhole) (by rw [byteLength_append]; omega)
  refine ⟨cut.taken ++ part, ⟨before, rest, by simpa using htext', ?_⟩, ?_⟩
  · rw [hplace]
    simp only [byteLength_append, Nat.add_assoc]
  · rw [Cut.commentAt, Cut.span_eq]
    exact hcut.filled hf ht hfilled

/-- Lexemes without faults are written as they are read, and fill what stands between tokens. -/
theorem covers_placed (hcuts : ∀ cut ∈ cuts, cut.Faithful) (htext : text = before ++ cuts.flatMap Cut.taken)
    (hplace : place.offset = byteLength before) (hf : (placed place cuts).errors = []) :
    (∀ t ∈ (placed place cuts).tokens, t.span.Holds text t.kind.display.toList) ∧
      ∃ comments : List (List Span), comments.flatten = (placed place cuts).comments ∧
        List.Forall₂ (GapFilled text) (gapsFrom place.offset (byteLength text) (placed place cuts).tokens)
          comments := by
  induction cuts generalizing before place with
  | nil =>
    obtain rfl : text = before := by simpa using htext
    have hempty : GapFilled text ⟨byteLength text, byteLength text⟩ [] := gapFilled_empty ⟨[], by simp⟩
    rw [placed, hplace]
    refine ⟨?_, [[], []], rfl, .cons hempty (.cons hempty .nil)⟩
    simpa [TokenKind.display] using ⟨text, [], by simp, rfl⟩
  | cons cut cuts ih =>
    obtain ⟨hfaults, hlater⟩ : cut.lexeme.faults = [] ∧ (placed (place.after cut.taken) cuts).errors = [] := by
      simpa [placed, Cut.errorsAt] using hf
    obtain ⟨htext', hplace'⟩ := Cut.behind htext hplace
    obtain ⟨hwritten, comments, hcomments, hgaps⟩ :=
      ih (fun c hc => hcuts c (List.mem_cons_of_mem _ hc)) htext' hplace' hlater
    have hcut := hcuts cut List.mem_cons_self
    cases htoken : cut.lexeme.token with
    | none =>
      rw [placed_cons_none htoken]
      refine ⟨hwritten, ?_⟩
      obtain ⟨stop, gaps, hfrom⟩ := exists_gapsFrom (byteLength text) (placed (place.after cut.taken) cuts).tokens
      rw [hfrom] at hgaps ⊢
      cases hgaps with
      | @cons _ spans _ later hgap hgaps =>
        refine ⟨(cut.commentAt place ++ spans) :: later, ?_, .cons (hgap.lexeme hcut hfaults htoken htext hplace) hgaps⟩
        rw [placed, ← hcomments]
        simp
    | some k =>
      obtain ⟨hdisplay, hcomment⟩ := hcut.written k htoken (.inl hfaults)
      have hspan := Cut.span_holds htext hplace
      rw [placed_cons_some htoken]
      refine ⟨List.forall_mem_cons.2 ⟨hdisplay ▸ hspan, hwritten⟩, [] :: comments, ?_, .cons ?_ hgaps⟩
      · rw [placed, ← hcomments]
        simp [Cut.commentAt, hcomment]
      · rw [Cut.span_eq, hplace]
        exact gapFilled_empty ⟨_, htext⟩

end

/-- The tokens of a source stand in order and apart. -/
theorem tokensLaid_lex (source : String) : TokensLaid source.toList (lex source).tokens := by
  have htext : source.toList = [] ++ (lexemes source.toList).flatMap Cut.taken := (flatMap_taken_lexemes _).symm
  exact (laid_placed (fun _ h => faithful_of_mem h) htext rfl).1

/-- The tokens of a source stand in order and apart, and where no place is malformed, they are written as they are read,
and the comments are all that is more than space between them. -/
theorem lex_lossless (source : String) : TokensLaid source.toList (lex source).tokens ∧
    ((lex source).errors = [] → Covers source.toList (lex source)) := by
  have hcuts : ∀ cut ∈ lexemes source.toList, cut.Faithful := fun _ h => faithful_of_mem h
  have htext : source.toList = [] ++ (lexemes source.toList).flatMap Cut.taken := (flatMap_taken_lexemes _).symm
  refine ⟨(laid_placed hcuts htext rfl).1, fun hf => ?_⟩
  obtain ⟨hwritten, hfilled⟩ := covers_placed hcuts htext rfl hf
  exact ⟨hwritten, hfilled⟩

/-- A comment in front, a continued line between two tokens, and a comment at the end. -/
theorem lex_lossless_commented : (lex "/* é */x \\\n+ \"b\" // c").errors = [] ∧
    (lex "/* é */x \\\n+ \"b\" // c").comments.length = 2 ∧
      Covers "/* é */x \\\n+ \"b\" // c".toList (lex "/* é */x \\\n+ \"b\" // c") :=
  ⟨by decide +kernel, by decide +kernel, (lex_lossless _).2 (by decide +kernel)⟩

end ElleFrontEnd
