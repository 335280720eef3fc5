import ElleFrontEnd.Grammar.Stmt
import ElleFrontEnd.Proofs.Placed
import ElleFrontEnd.Proofs.Run

/-!
# Where diagnostics point

Whatever a parser does at a place of a source, the diagnostics that it records, and the one that it may fail with, point
to stretches of the source (`Cites`).  Most of them point to the next token.  Those that point back, to where a
construct began, need to know that something has been read since: `Cites text n` speaks of places behind the offset
`n`, which a parser does not leave.

The lemmas of this module are about the ways of putting parsers together.
-/

namespace ElleFrontEnd

/-- Whether a stretch lies within a text, between characters. -/
structure Span.Within (text : List Char) (s : Span) : Prop where
  start : OnBoundary text s.start
  stop : OnBoundary text s.stop
  le : s.start ≤ s.stop
  length : s.stop ≤ byteLength text

theorem Span.Within.intro {text : List Char} {s : Span} (hstart : OnBoundary text s.start)
    (hstop : OnBoundary text s.stop)
    (hle : s.start ≤ s.stop) : s.Within text :=
  ⟨hstart, hstop, hle, hstop.le⟩

/-- Whether what is left to read stands in a text, and what has been recorded points into it. -/
structure Cited (text : List Char) (s : ParseState) : Prop where
  placed : Placed text s
  recorded : ∀ d ∈ s.errors, d.span.Within text

theorem Cited.peek {text : List Char} {s : ParseState} (h : Cited text s) : s.peek.span.Within text :=
  .intro h.placed.peek.start h.placed.peek.stop h.placed.peek.le

theorem Cited.of_place {text : List Char} {s s' : ParseState} (h : Cited text s) (hr : s'.rest = s.rest)
    (hl : s'.last = s.last) (he : s'.errors = s.errors) : Cited text s' :=
  ⟨h.placed.of_place hr hl, by rw [he]; exact h.recorded⟩

/-- Reading on records nothing by itself. -/
theorem Cited.advance {text : List Char} {s : ParseState} (h : Cited text s) : Cited text s.advance :=
  ⟨(h.placed.advances (.advance s)).1, by rw [ParseState.advance_errors]; exact h.recorded⟩

/-- Back at a place of the text, with what has been recorded since. -/
theorem Cited.rewindTo {text : List Char} {s saved : ParseState} (h : Cited text s) (hp : Placed text saved) :
    Cited text (s.rewindTo saved) where
  placed := hp.of_place rfl rfl
  recorded := h.recorded

theorem Cited.record {text : List Char} {s : ParseState} {e : Diagnostic} (h : Cited text s) (he : e.span.Within text) :
    Cited text { s with errors := s.errors ++ [e] } where
  placed := h.placed.of_place rfl rfl
  recorded := List.forall_mem_append.2 ⟨h.recorded, List.forall_mem_singleton.2 he⟩

/-- The stretch from an offset up to the end of what has been read. -/
theorem Cited.spanFrom {text : List Char} {s : ParseState} {n : Nat} (h : Cited text s) (hn : OnBoundary text n)
    (hle : n ≤ s.readStop) : (s.spanFrom n).Within text :=
  .intro hn h.placed.onBoundary_readStop hle

namespace Parser

variable {α β : Type} {text : List Char} {n m : Nat} {s s' : ParseState}

/-- What a run comes to behind an offset: all that was recorded, and what it may have failed with, points into the
text. -/
structure Kept (text : List Char) (n : Nat) (r : Except Diagnostic α × ParseState) : Prop where
  cited : Cited text r.2
  le : n ≤ r.2.readStop
  error : ∀ e, r.1 = .error e → e.span.Within text

/-- Behind an offset, the parser fails with and records only what points into the text. -/
def Cites (text : List Char) (n : Nat) (p : Parser α) : Prop := ∀ s, Cited text s → n ≤ s.readStop → Kept text n (p s)

namespace Kept

theorem ok (hc : Cited text s) (hn : n ≤ s.readStop) (a : α) : Kept text n ((.ok a, s) : Except Diagnostic α × _) :=
  ⟨hc, hn, by simp⟩

theorem fails (hc : Cited text s) (hn : n ≤ s.readStop) {e : Diagnostic} (he : e.span.Within text) :
    Kept text n ((.error e, s) : Except Diagnostic α × _) :=
  ⟨hc, hn, by rintro _ ⟨⟩; exact he⟩

theorem mono {r : Except Diagnostic α × ParseState} (h : Kept text m r) (hle : n ≤ m) : Kept text n r :=
  ⟨h.cited, Nat.le_trans hle h.le, h.error⟩

theorem bind {p : Parser α} {f : α → Parser β} (hp : Kept text n (p s))
    (hf : ∀ a s', p.run s = (.ok a, s') → Cited text s' → n ≤ s'.readStop → Kept text n (f a s')) :
    Kept text n ((p >>= f) s) := by
  change Kept text n (andThen p f s)
  unfold andThen
  rcases hs : p s with ⟨e | a, s'⟩ <;> rw [hs] at hp
  · exact .fails hp.cited hp.le (hp.error e rfl)
  · exact hf a s' hs hp.cited hp.le

end Kept

namespace Cites

/-! ### Steps -/

theorem pure (a : α) : Cites text n (Pure.pure a : Parser α) := fun _ hc hn => .ok hc hn a

theorem bind {p : Parser α} {f : α → Parser β} (hp : Cites text n p) (hf : ∀ a, Cites text n (f a)) :
    Cites text n (p >>= f) :=
  fun s hc hn => (hp s hc hn).bind fun a s' _ hc' hn' => hf a s' hc' hn'

/-- What follows may count on what the result is. -/
theorem bindOf {p : Parser α} {f : α → Parser β} (hp : Cites text n p)
    (hf : ∀ s a s', Placed text s → p.run s = (.ok a, s') → Cites text n (f a)) : Cites text n (p >>= f) :=
  fun s hc hn => (hp s hc hn).bind fun a s' h hc' hn' => hf s a s' hc.placed h s' hc' hn'

theorem ite {c : Prop} [Decidable c] {p q : Parser α} (hp : Cites text n p) (hq : Cites text n q) :
    Cites text n (if c then p else q) := by
  split
  · exact hp
  · exact hq

theorem look (f : ParseState → α) : Cites text n (Parser.look f) := fun _ hc hn => .ok hc hn _

theorem kept_look {l : ParseState → α} {f : α → Parser β} (h : Kept text n (f (l s) s)) :
    Kept text n ((Parser.look l >>= f) s) := h

theorem skip : Cites text n Parser.skip :=
  fun s hc hn => .ok hc.advance (Nat.le_trans hn (hc.placed.advances (.advance s)).2.1) _

theorem accept (kind : TokenKind) : Cites text n (Parser.accept kind) := by
  intro s hc hn
  unfold Parser.accept
  split
  · exact .ok hc.advance (Nat.le_trans hn (hc.placed.advances (.advance s)).2.1) _
  · exact .ok hc hn _

/-- A change that leaves the place and what has been recorded. -/
theorem change {f : ParseState → ParseState} (hr : ∀ s, (f s).rest = s.rest) (hl : ∀ s, (f s).last = s.last)
    (he : ∀ s, (f s).errors = s.errors) : Cites text n (Parser.change f) := by
  intro s hc hn
  have hpeek := ParseState.peek_eq_of_place (hr s) (hl s)
  have hstop : (f s).readStop = s.readStop := by rw [ParseState.readStop, ParseState.readStop, hl, hpeek]
  exact .ok (hc.of_place (hr s) (hl s) (he s)) (hstop ▸ hn) _

/-- A change that reads on. -/
theorem advances {f : ParseState → ParseState} (ha : ∀ s, Advances s (f s)) (he : ∀ s, (f s).errors = s.errors) :
    Cites text n (Parser.change f) := by
  intro s hc hn
  obtain ⟨hplaced, hstop, -⟩ := hc.placed.advances (ha s)
  exact .ok ⟨hplaced, by rw [he]; exact hc.recorded⟩ (Nat.le_trans hn hstop) _

/-! ### Failures -/

theorem fail {e : Diagnostic} (he : e.span.Within text) : Cites text n (Parser.fail e : Parser α) :=
  fun _ hc hn => .fails hc hn he

/-- A failure at the next token. -/
theorem failHere {e : Span → Diagnostic} (he : ∀ span, (e span).span = span) :
    Cites text n (do Parser.fail (e (← nextSpan)) : Parser α) :=
  fun s hc hn => .fails hc hn (he s.peek.span ▸ hc.peek)

/-- A failure that points to all that has been read from an offset on. -/
theorem failFrom (hb : OnBoundary text n) {e : Span → Diagnostic} (he : ∀ span, (e span).span = span) :
    Cites text n (do Parser.fail (e (← Parser.spanFrom n)) : Parser α) :=
  fun s hc hn => .fails hc hn (he (s.spanFrom n) ▸ hc.spanFrom hb hn)

theorem unexpected (wanted : Expected) : Cites text n (Parser.unexpected wanted : Parser α) :=
  fun _ hc hn => .fails hc hn hc.peek

theorem expect (kind : TokenKind) (wanted : Expected) : Cites text n (Parser.expect kind wanted) := by
  intro s hc hn
  unfold Parser.expect
  split
  · exact skip s hc hn
  · exact .fails hc hn hc.peek

theorem identifier : Cites text n Parser.identifier := by
  intro s hc hn
  unfold Parser.identifier
  split
  · exact .ok hc.advance (skip s hc hn).le _
  · exact .fails hc hn hc.peek

theorem semicolon : Cites text n Parser.semicolon := by
  intro s hc hn
  unfold Parser.semicolon
  split
  · exact .ok hc.advance (skip s hc hn).le _
  · exact .fails hc hn hc.peek

theorem closing (close : Punctuation) (opened : Span) : Cites text n (Parser.closing close opened) := by
  intro s hc hn
  unfold Parser.closing
  dsimp only
  split
  · exact .ok hc.advance (skip s hc hn).le _
  · split <;> split <;> exact .fails hc hn hc.peek

/-! ### Behind a token -/

/-- Behind the next token, failures may point back to it. -/
theorem kept_skip {f : Span → Parser α} (hc : Cited text s) (hn : n ≤ s.readStop) (hk : s.peek.kind ≠ .eof)
    (hf : OnBoundary text s.start → Cites text s.start (f s.peek.span)) : Kept text n ((Parser.skip >>= f) s) := by
  have hlt := (hc.placed.advance hk).2
  have hle := hc.placed.readStop_le_start
  exact (hf hc.placed.peek.start s.advance hc.advance (Nat.le_of_lt hlt)).mono (Nat.le_trans hn hle)

/-- Behind a token that opens a construct, failures may point back to it. -/
theorem opened {kind : TokenKind} {wanted : Expected} {f : Span → Parser α} (hk : kind ≠ .eof)
    (hf : ∀ span, OnBoundary text span.start → Cites text span.start (f span)) :
    Cites text n (Parser.expect kind wanted >>= f) := by
  intro s hc hn
  by_cases h : s.peek.kind = kind
  · rw [show (Parser.expect kind wanted >>= f) s = (Parser.skip >>= f) s by
      change andThen _ f s = andThen _ f s
      rw [andThen, andThen, Parser.expect, if_pos h, Parser.skip]]
    exact kept_skip hc hn (h ▸ hk) (hf s.peek.span)
  · exact .bind (expect kind wanted s hc hn) fun a s' hrun _ _ => absurd (expect_ok.1 hrun).1 h

/-! ### Trials and recovery -/

theorem withHint (hint : Hint) {p : Parser α} (hp : Cites text n p) : Cites text n (onError (·.withHint hint) p) := by
  intro s hc hn
  have h := hp s hc hn
  unfold onError
  rcases hs : p s with ⟨e | a, s'⟩ <;> rw [hs] at h
  · exact .fails h.cited h.le (h.error e rfl)
  · exact h

theorem attempt {p : Parser α} (hp : Cites text n p) : Cites text n (Parser.attempt p) := by
  intro s hc hn
  have h := hp s hc hn
  unfold Parser.attempt
  rcases hs : p s with ⟨e | a, s'⟩ <;> rw [hs] at h
  · exact .ok (h.cited.rewindTo hc.placed) hn _
  · exact .ok h.cited h.le _

/-- A state that is kept to come back to. -/
theorem save {f : ParseState → Parser α}
    (hf : ∀ saved, Placed text saved → n ≤ saved.readStop → Cites text n (f saved)) :
    Cites text n (Parser.look id >>= f) :=
  fun s hc hn => hf s hc.placed hn s hc hn

theorem rewind {saved : ParseState} (hp : Placed text saved) (hn : n ≤ saved.readStop) :
    Cites text n (Parser.change (·.rewindTo saved)) :=
  fun _ hc _ => .ok (hc.rewindTo hp) hn _

theorem outcome {p : Parser α} {f : Except Diagnostic α → Parser β} (hp : Cites text n p)
    (hok : ∀ a, Cites text n (f (.ok a)))
      (herror : ∀ e : Diagnostic, e.span.Within text → Cites text n (f (.error e))) :
    Cites text n (Parser.outcome p >>= f) := by
  intro s hc hn
  have h := hp s hc hn
  change Kept text n (andThen (Parser.outcome p) f s)
  unfold andThen Parser.outcome
  rcases hs : p s with ⟨e | a, s'⟩ <;> rw [hs] at h
  · exact herror e (h.error e rfl) s' h.cited h.le
  · exact hok a s' h.cited h.le

theorem record {e : Diagnostic} (he : e.span.Within text) : Cites text n (Parser.record e) :=
  fun _ hc hn => .ok (hc.record he) hn _

/-! ### Repetition -/

theorem sequential : Sequential fun {_} => Cites text n := ⟨pure, bind⟩

theorem grow {step : α → Parser (Option α)} (hs : ∀ a, Cites text n (step a)) (a : α) :
    Cites text n (Parser.grow step a) :=
  fun s => sequential.growFor hs (s.peek :: s.rest) a s

theorem collect {round : Parser (Round α)} (hr : Cites text n round) : Cites text n (Parser.collect round) :=
  fun s => sequential.collectFor hr (s.peek :: s.rest) s

theorem commaList (close : Punctuation) {item : Parser α} (hi : Cites text n item) :
    Cites text n (Parser.commaList close item) :=
  collect ((look _).bind fun _ => ite (pure _) ((look _).bind fun _ => ite (pure _)
    (hi.bind fun _ => (accept _).bind fun _ => ite (pure _) (pure _))))

theorem separatedBy (separator : TokenKind) {item : Parser α} (hi : Cites text n item) :
    Cites text n (Parser.separatedBy separator item) :=
  collect (hi.bind fun _ => (accept _).bind fun _ => ite (pure _) (pure _))

end Cites

end Parser

end ElleFrontEnd
