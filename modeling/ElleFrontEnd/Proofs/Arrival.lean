import ElleFrontEnd.Proofs.LineEnds

/-!
# Where lexemes begin

Lexing a text cuts off one lexeme after another.  `Arrives` says at which offsets it begins to cut one, and what of the
text it has ahead there.  What begins at such an offset is up to the one lexeme that is cut there: the token that
begins there is its token, and the diagnostics that point there are for its faults (`lex_of_arrives`).
-/

namespace ElleFrontEnd

/-- Lexing a text comes to the offset `p`, and has `rest` ahead there. -/
inductive Arrives (text : List Char) : Nat → List Char → Prop
  | start : Arrives text 0 text
  | next {p : Nat} {c : Char} {cs : List Char} (h : Arrives text p (c :: cs)) :
    Arrives text (p + byteLength (c :: cs.take (lexemeAt c cs).more)) (cs.drop (lexemeAt c cs).more)

/-- What has been cut where lexing has come to `p`. -/
theorem Arrives.split {text rest : List Char} {p : Nat} (h : Arrives text p rest) : ∃ before : List Cut,
    lexemes text = before ++ lexemes rest ∧ text = before.flatMap Cut.taken ++ rest ∧
      p = byteLength (before.flatMap Cut.taken) ∧ ∀ cut ∈ before, cut ∈ lexemes text := by
  induction h with
  | start => exact ⟨[], rfl, rfl, rfl, by simp⟩
  | @next p c cs h ih =>
    obtain ⟨before, hcuts, htext, hp, hmem⟩ := ih
    rw [lexemes_cons] at hcuts
    refine ⟨before ++ [⟨c :: cs.take (lexemeAt c cs).more, lexemeAt c cs⟩], by simp [hcuts], ?_, ?_, ?_⟩
    · rw [htext]
      simp
    · rw [hp, ← byteLength_append]
      simp
    · rw [List.forall_mem_append]
      refine ⟨hmem, fun cut hcut => ?_⟩
      rw [List.mem_singleton.1 hcut, hcuts]
      simp

/-- Lexing comes to each lexeme. -/
theorem arrives_of_cut {text : List Char} {before after : List Cut} {cut : Cut}
    (h : lexemes text = before ++ cut :: after) : ∃ c cs,
      Arrives text (byteLength (before.flatMap Cut.taken)) (c :: cs) ∧ cut.lexeme = lexemeAt c cs ∧
        cut.taken = c :: cs.take (lexemeAt c cs).more := by
  have hstep : ∀ {rest : List Char} {p : Nat} {before : List Cut}, Arrives text p rest →
      lexemes rest = before ++ cut :: after → ∃ c cs,
        Arrives text (p + byteLength (before.flatMap Cut.taken)) (c :: cs) ∧ cut.lexeme = lexemeAt c cs ∧
          cut.taken = c :: cs.take (lexemeAt c cs).more := by
    intro rest p before ha hrest
    induction before generalizing rest p with
    | nil =>
      cases rest with
      | nil => cases hrest
      | cons c cs =>
        rw [lexemes_cons] at hrest
        obtain ⟨rfl, -⟩ := List.cons.inj hrest
        exact ⟨c, cs, ha, rfl, rfl⟩
    | cons first before ih =>
      cases rest with
      | nil => cases hrest
      | cons c cs =>
        rw [lexemes_cons, List.cons_append] at hrest
        obtain ⟨rfl, hlater⟩ := List.cons.inj hrest
        obtain ⟨d, ds, ha', hcut⟩ := ih ha.next hlater
        rw [Nat.add_assoc, ← byteLength_append] at ha'
        exact ⟨d, ds, ha', hcut⟩
  simpa using hstep .start h

/-! ### Words and digits are not blank -/

section
variable {c : Char}

theorem toNat_of_isDigit (h : c.isDigit = true) : 48 ≤ c.toNat ∧ c.toNat ≤ 57 := by
  obtain ⟨hl, hu⟩ := Bool.and_eq_true_iff.1 h
  exact ⟨of_decide_eq_true hl, of_decide_eq_true hu⟩

theorem toNat_of_isAlpha (h : c.isAlpha = true) : 65 ≤ c.toNat ∧ c.toNat ≤ 122 := by
  rcases Bool.or_eq_true_iff.1 h with h | h
  · obtain ⟨hl, hu⟩ : 65 ≤ c.toNat ∧ c.toNat ≤ 90 := of_decide_eq_true h
    omega
  · obtain ⟨hl, hu⟩ := Bool.and_eq_true_iff.1 h
    have hl : 97 ≤ c.toNat := of_decide_eq_true hl
    have hu : c.toNat ≤ 122 := of_decide_eq_true hu
    omega

theorem isBlank_of_isWordPart (h : isWordPart c = true) : isBlank c = false := by
  have hrange : 48 ≤ c.toNat ∧ c.toNat ≤ 122 := by
    simp only [isWordPart, Char.isAlphanum, Bool.or_eq_true, decide_eq_true_eq] at h
    rcases h with (h | h) | rfl
    · have := toNat_of_isAlpha h
      omega
    · have := toNat_of_isDigit h
      omega
    · decide
  rw [← Bool.not_eq_true]
  intro hb
  simp only [isBlank, Bool.or_eq_true, Bool.and_eq_true, decide_eq_true_eq] at hb
  omega

end

/-! ### Faults begin inside their lexeme -/

/-- Whether the faults of a lexeme begin at characters that it takes of a text with `n` characters behind its first. -/
def Lexeme.Inside (l : Lexeme) (n : Nat) : Prop := ∀ f ∈ l.faults, f.start ≤ min l.more n

theorem Lexeme.Inside.of_zero {l : Lexeme} {n : Nat} (h : ∀ f ∈ l.faults, f.start = 0) : l.Inside n :=
  fun f hf => (h f hf).symm ▸ Nat.zero_le _

theorem Lexeme.inside_refused (more n : Nat) (cause : Cause) : (Lexeme.refused more cause).Inside n :=
  .of_zero fun _ hf => List.mem_singleton.1 hf ▸ rfl

theorem Lexeme.inside_of_nil {l : Lexeme} {n : Nat} (h : l.faults = []) : l.Inside n := .of_zero (by simp [h])

theorem inside_stringBodyFrom {fuel place : Nat} {cs : List Char} :
    (stringBodyFrom fuel place cs).length ≤ cs.length ∧ ∀ f ∈ (stringBodyFrom fuel place cs).faults,
      f.start < place + (stringBodyFrom fuel place cs).length := by
  induction fuel generalizing place cs with
  | zero => simp [stringBodyFrom]
  | succ fuel ih =>
    cases cs with
    | nil => simp [stringBodyFrom]
    | cons c cs =>
      unfold stringBodyFrom
      split_ifs
      · simp
      · simp
      · split
        · simp
        · rename_i e n hread
          obtain ⟨hle, hin⟩ := @ih (place + 1 + n) (cs.drop n)
          have hn := length_of_read hread
          rw [List.length_drop] at hle
          refine ⟨by simp only [StringBody.push, List.length_cons]; omega, fun f hf => ?_⟩
          have := hin f hf
          simp only [StringBody.push]
          omega
        · rename_i digits n hshort
          obtain ⟨hle, hin⟩ := @ih (place + 1 + n) (cs.drop n)
          have hn := length_of_short hshort
          rw [List.length_drop] at hle
          refine ⟨by simp only [StringBody.push, List.length_cons]; omega, ?_⟩
          simp only [StringBody.push]
          refine List.forall_mem_cons.2 ⟨by dsimp only; omega, fun f hf => ?_⟩
          have := hin f hf
          omega
      · obtain ⟨hle, hin⟩ := @ih (place + 1) cs
        refine ⟨by simp only [StringBody.push, List.length_cons]; omega, fun f hf => ?_⟩
        have := hin f hf
        simp only [StringBody.push]
        omega

theorem inside_stringAt (cs : List Char) : (stringAt cs).Inside cs.length := by
  obtain ⟨hle, hin⟩ := @inside_stringBodyFrom (cs.length + 1) 1 cs
  have hbody : ∀ f ∈ (stringBodyFrom (cs.length + 1) 1 cs).faults,
      f.start ≤ min (stringBodyFrom (cs.length + 1) 1 cs).length cs.length := fun f hf => by
    have := hin f hf
    omega
  unfold stringAt
  dsimp only
  split
  · exact hbody
  · exact List.forall_mem_append.2 ⟨hbody, by simp⟩

theorem inside_closeChar (part : StrPart) (taken n : Nat) (cs : List Char) : (closeChar part taken cs).Inside n := by
  unfold closeChar
  split
  · exact Lexeme.inside_of_nil rfl
  · exact Lexeme.inside_refused _ _ _

theorem inside_charAt (cs : List Char) : (charAt cs).Inside cs.length := by
  unfold charAt
  split
  · exact Lexeme.inside_refused _ _ _
  · exact Lexeme.inside_refused _ _ _
  · exact Lexeme.inside_refused _ _ _
  · split
    · exact Lexeme.inside_refused _ _ _
    · exact inside_closeChar _ _ _ _
    · simp [Lexeme.Inside]
      omega
  · exact inside_closeChar _ _ _ _

theorem inside_symbolAt (c : Char) (cs : List Char) (n : Nat) : (symbolAt c cs).Inside n := by
  unfold symbolAt
  split
  · exact Lexeme.inside_of_nil rfl
  · exact Lexeme.inside_refused _ _ _

theorem inside_slashAt (cs : List Char) (n : Nat) : (slashAt cs).Inside n := by
  unfold slashAt
  split
  · exact Lexeme.inside_of_nil rfl
  · split
    · exact Lexeme.inside_of_nil rfl
    · exact Lexeme.inside_refused _ _ _
  · exact inside_symbolAt _ _ _

theorem inside_rawNameAt (cs : List Char) (n : Nat) : (rawNameAt cs).Inside n := by
  unfold rawNameAt
  dsimp only
  split
  · split
    · exact Lexeme.inside_refused _ _ _
    · exact Lexeme.inside_of_nil rfl
  · exact Lexeme.inside_refused _ _ _

theorem inside_numberAt (c : Char) (cs : List Char) (n : Nat) : (numberAt c cs).Inside n := by
  unfold numberAt
  dsimp only
  split
  · exact Lexeme.inside_of_nil rfl
  · exact Lexeme.inside_refused _ _ _

theorem inside_lexemeAt (c : Char) (cs : List Char) : (lexemeAt c cs).Inside cs.length := by
  by_cases hb : isBlank c = true
  · rw [lexemeAt_of_isBlank hb]
    exact Lexeme.inside_of_nil rfl
  by_cases hc : c = '\\'
  · subst hc
    rw [lexemeAt_backslash]
    split
    · exact Lexeme.inside_of_nil rfl
    · exact Lexeme.inside_of_nil rfl
    · exact Lexeme.inside_of_nil rfl
    · exact Lexeme.inside_refused _ _ _
  rw [lexemeAt_eq (Bool.not_eq_true _ ▸ hb) hc]
  unfold readerFrom
  split_ifs
  · exact inside_slashAt _ _
  · exact inside_stringAt _
  · exact inside_charAt _
  · exact inside_rawNameAt _ _
  · exact inside_numberAt _ _ _
  · exact Lexeme.inside_of_nil rfl
  · exact inside_symbolAt _ _ _

/-! ### What begins with a lexeme -/

section
variable {cut : Cut} {before : List Cut}

/-- Tokens begin where the lexemes do, or behind. -/
theorem le_start_of_tokens (place : Place) (cuts : List Cut) :
    ∀ t ∈ (placed place cuts).tokens, place.offset ≤ t.span.start := by
  induction cuts generalizing place with
  | nil => simp [placed]
  | cons cut cuts ih =>
    refine List.forall_mem_append.2 ⟨?_, fun t ht => ?_⟩
    · simp [Cut.tokenAt, Cut.span]
    · have := ih (place.after cut.taken) t ht
      rw [Place.offset_after] at this
      omega

/-- Diagnostics point to where the lexemes begin, or behind. -/
theorem le_start_of_errors (place : Place) (cuts : List Cut) :
    ∀ d ∈ (placed place cuts).errors, place.offset ≤ d.span.start := by
  induction cuts generalizing place with
  | nil => simp [placed]
  | cons cut cuts ih =>
    refine List.forall_mem_append.2 ⟨?_, fun d hd => ?_⟩
    · simp [Cut.errorsAt, spanWithin]
    · have := ih (place.after cut.taken) d hd
      rw [Place.offset_after] at this
      omega

/-- A fault of a lexeme begins before the next lexeme. -/
theorem start_lt_of_errorsAt (h : ∃ c cs, cut = ⟨c :: cs.take (lexemeAt c cs).more, lexemeAt c cs⟩) (place : Place) :
    ∀ d ∈ cut.errorsAt place, d.span.start < place.offset + byteLength cut.taken := by
  obtain ⟨c, cs, rfl⟩ := h
  intro d hd
  obtain ⟨f, hf, rfl⟩ := List.mem_map.1 hd
  have hin : f.start ≤ min (lexemeAt c cs).more cs.length := inside_lexemeAt c cs f hf
  dsimp only [spanWithin]
  obtain ⟨taken, htaken⟩ : ∃ taken, taken = c :: cs.take (lexemeAt c cs).more := ⟨_, rfl⟩
  have hlt : f.start < taken.length := by
    rw [htaken, List.length_cons, List.length_take]
    omega
  rw [← htaken]
  conv => rhs; rw [← List.take_append_drop f.start taken, byteLength_append]
  have hpos : 0 < byteLength (taken.drop f.start) := byteLength_pos (by simpa using hlt)
  omega

/-- What lexemes yield begins before a lexeme that follows them, and is followed by what that lexeme and those behind it
yield. -/
theorem placed_before (place : Place) (cuts : List Cut)
    (hb : ∀ cut ∈ before, ∃ c cs, cut = ⟨c :: cs.take (lexemeAt c cs).more, lexemeAt c cs⟩) :
    let here := place.after (before.flatMap Cut.taken)
    ∃ tokens errors, (placed place (before ++ cuts)).tokens = tokens ++ (placed here cuts).tokens ∧
      (placed place (before ++ cuts)).errors = errors ++ (placed here cuts).errors ∧
        (∀ t ∈ tokens, t.span.start < here.offset) ∧ ∀ d ∈ errors, d.span.start < here.offset := by
  induction before generalizing place with
  | nil => exact ⟨[], [], rfl, rfl, by simp, by simp⟩
  | cons first before ih =>
    have hfirst := hb first List.mem_cons_self
    obtain ⟨tokens, errors, htokens, herrors, ht, hd⟩ :=
      ih (place.after first.taken) fun c hc => hb c (List.mem_cons_of_mem _ hc)
    have hafter : place.after ((first :: before).flatMap Cut.taken) =
        (place.after first.taken).after (before.flatMap Cut.taken) := by
      simp [Place.after, List.foldl_append]
    have hle : place.offset + byteLength first.taken ≤
        ((place.after first.taken).after (before.flatMap Cut.taken)).offset := by
      simp only [Place.offset_after]
      omega
    rw [hafter]
    refine ⟨first.tokenAt place ++ tokens, first.errorsAt place ++ errors, ?_, ?_, ?_, ?_⟩
    · rw [List.cons_append, placed, List.append_assoc, ← htokens]
    · rw [List.cons_append, placed, List.append_assoc, ← herrors]
    · refine List.forall_mem_append.2 ⟨fun t ht => ?_, ht⟩
      obtain ⟨k, -, rfl⟩ := List.mem_map.1 ht
      have hpos : 0 < byteLength first.taken := by
        obtain ⟨c, cs, rfl⟩ := hfirst
        exact byteLength_pos (List.cons_ne_nil _ _)
      dsimp only [Cut.span]
      omega
    · exact List.forall_mem_append.2
        ⟨fun d hd => Nat.lt_of_lt_of_le (start_lt_of_errorsAt hfirst place d hd) hle, hd⟩

theorem filter_between {α : Type} {start : α → Nat} {p : Nat} {before here later : List α}
    (hb : ∀ a ∈ before, start a < p) (hl : ∀ a ∈ later, p < start a) :
    (before ++ (here ++ later)).filter (fun a => start a = p) = here.filter fun a => start a = p := by
  have hbefore : before.filter (fun a => start a = p) = [] := List.filter_eq_nil_iff.2 fun a ha => by
    have := hb a ha
    simp only [decide_eq_true_eq]
    omega
  have hlater : later.filter (fun a => start a = p) = [] := List.filter_eq_nil_iff.2 fun a ha => by
    have := hl a ha
    simp only [decide_eq_true_eq]
    omega
  rw [List.filter_append, List.filter_append, hbefore, hlater, List.nil_append, List.append_nil]

end

/-! ### What begins at an offset -/

section
variable {source : String} {p : Nat} {c : Char} {cs : List Char}

/-- What begins where lexing has come to is up to the lexeme there: its token, and the diagnostics for its faults. -/
theorem lex_of_arrives (h : Arrives source.toList p (c :: cs)) : ∃ (place : Place) (cut : Cut),
    place.offset = p ∧ cut = ⟨c :: cs.take (lexemeAt c cs).more, lexemeAt c cs⟩ ∧
      (lex source).tokens.filter (fun t => t.span.start = p) = cut.tokenAt place ∧
        (lex source).errors.filter (fun d => d.span.start = p) =
          (cut.errorsAt place).filter fun d => d.span.start = p := by
  obtain ⟨before, hcuts, -, hp, hmem⟩ := h.split
  rw [lexemes_cons] at hcuts
  obtain ⟨cut, hcut⟩ : ∃ cut : Cut, cut = ⟨c :: cs.take (lexemeAt c cs).more, lexemeAt c cs⟩ := ⟨_, rfl⟩
  obtain ⟨place, hplace⟩ : ∃ place, place = Place.start.after (before.flatMap Cut.taken) := ⟨_, rfl⟩
  obtain ⟨tokens, errors, htokens, herrors, ht, hd⟩ :=
    placed_before .start (cut :: lexemes (cs.drop (lexemeAt c cs).more)) fun cut h => exists_lexemeAt (hmem cut h)
  have hoffset : place.offset = p := by
    rw [hplace, Place.offset_after, hp]
    exact Nat.zero_add _
  have hlt : p < (place.after cut.taken).offset := by
    have hpos : 0 < byteLength cut.taken := byteLength_pos (hcut ▸ List.cons_ne_nil _ _)
    rw [Place.offset_after, hoffset]
    omega
  rw [← hplace, hoffset] at ht hd
  rw [← hplace, placed] at htokens herrors
  refine ⟨place, cut, hoffset, hcut, ?_, ?_⟩
  · rw [lex, hcuts, ← hcut, htokens,
      filter_between ht fun t ht => Nat.lt_of_lt_of_le hlt (le_start_of_tokens _ _ t ht)]
    refine List.filter_eq_self.2 fun t ht => ?_
    obtain ⟨k, -, rfl⟩ := List.mem_map.1 ht
    exact decide_eq_true hoffset
  · rw [lex, hcuts, ← hcut, herrors]
    exact filter_between hd fun d hd => Nat.lt_of_lt_of_le hlt (le_start_of_errors _ _ d hd)

/-- Lexing has come to where a token begins. -/
theorem arrives_of_token {t : Token} (ht : t ∈ (lex source).tokens) (hk : t.kind ≠ .eof) : ∃ c cs,
    Arrives source.toList t.span.start (c :: cs) ∧ (lexemeAt c cs).token = some t.kind := by
  have hsplit : ∀ {cuts : List Cut} {place : Place}, t ∈ (placed place cuts).tokens →
      ∃ before cut after, cuts = before ++ cut :: after ∧ cut.lexeme.token = some t.kind ∧
        t.span.start = place.offset + byteLength (before.flatMap Cut.taken) := by
    intro cuts
    induction cuts with
    | nil =>
      intro place ht
      rw [placed, List.mem_singleton] at ht
      exact absurd (congrArg Token.kind ht) hk
    | cons cut cuts ih =>
      intro place ht
      rcases List.mem_append.1 ht with ht | ht
      · obtain ⟨k, htoken, rfl⟩ := List.mem_map.1 ht
        exact ⟨[], cut, cuts, rfl, by simpa using htoken, rfl⟩
      · obtain ⟨before, here, after, rfl, htoken, hstart⟩ := ih ht
        refine ⟨cut :: before, here, after, rfl, htoken, ?_⟩
        rw [hstart, Place.offset_after, Nat.add_assoc, ← byteLength_append, List.flatMap_cons]
  obtain ⟨before, cut, after, hcuts, htoken, hstart⟩ := hsplit ht
  obtain ⟨c, cs, ha, hlexeme, -⟩ := arrives_of_cut hcuts
  rw [hstart, show Place.start.offset = 0 from rfl, Nat.zero_add]
  exact ⟨c, cs, ha, by rw [← hlexeme, htoken]⟩

end

end ElleFrontEnd
