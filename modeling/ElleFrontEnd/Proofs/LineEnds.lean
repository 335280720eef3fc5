import ElleFrontEnd.Proofs.Positions
import Mathlib.Data.List.Find

/-!
# Line ends

Most readers of lexemes never look behind the line feed that ends their line.  A string, a character literal and a
block comment can take a line feed in, but where the text stops right behind it they refuse all that is left of the
text.  So a text that ends in a line feed, with nothing refused up to its end, is cut alike whatever follows it
(`lexemes_append`), and what follows is lexed as it would be alone, only further down (`lex_append`).
-/

namespace ElleFrontEnd

/-! ### Readers that stay in their line -/

section
variable {cs : List Char}

/-- A run that no line feed belongs to ends in its line. -/
theorem takeWhile_line {p : Char → Bool} (hp : p '\n' = false) (h : '\n' ∈ cs) (b : List Char) :
    (cs ++ b).takeWhile p = cs.takeWhile p := by
  have hstops : (cs.takeWhile p).length ≠ cs.length := by
    intro hlength
    have hall : cs.takeWhile p = cs := (List.takeWhile_prefix p).eq_of_length hlength
    rw [← hall] at h
    exact absurd (of_mem_takeWhile _ h) (by simp [hp])
  rw [List.takeWhile_append, if_neg hstops]

/-- The line feed stands behind the run. -/
theorem mem_drop_takeWhile {p : Char → Bool} (hp : p '\n' = false) (h : '\n' ∈ cs) :
    '\n' ∈ cs.drop (cs.takeWhile p).length := by
  rw [← takeWhile_append_drop p cs] at h
  exact (List.mem_append.1 h).resolve_left fun h => by simpa [hp] using of_mem_takeWhile _ h

theorem drop_line {n : Nat} (h : '\n' ∈ cs.drop n) (b : List Char) : (cs ++ b).drop n = cs.drop n ++ b := by
  refine List.drop_append_of_le_length (Nat.le_of_lt ?_)
  have hpos := List.length_pos_of_mem h
  rw [List.length_drop] at hpos
  omega

/-- Whether the line goes on with a word does not depend on later lines. -/
theorem isPrefixOf_line {tail : List Char} (ht : '\n' ∉ tail) (h : '\n' ∈ cs) (b : List Char) :
    tail.isPrefixOf (cs ++ b) = tail.isPrefixOf cs := by
  induction tail generalizing cs with
  | nil => simp
  | cons d tail ih =>
    cases cs with
    | nil => simp at h
    | cons c cs =>
      rw [List.cons_append, List.isPrefixOf_cons_cons, List.isPrefixOf_cons_cons]
      by_cases hd : d = c
      · subst hd
        obtain ⟨hne, ht⟩ := not_or.1 (mt List.mem_cons.2 ht)
        rw [ih ht ((List.mem_cons.1 h).resolve_left hne)]
      · rw [beq_false_of_ne hd, Bool.false_and, Bool.false_and]

/-- A lexeme is refused up to the end of a text of `n` characters behind its first. -/
def Lexeme.Reaches (l : Lexeme) (n : Nat) : Prop := n ≤ l.more ∧ ∃ f ∈ l.faults, f.stop = n + 1

/-- What a reader finds before a text does not depend on what follows the text, or is refused up to its end. -/
def Bounded (read : List Char → Lexeme) (cs : List Char) : Prop :=
  ((∀ b, read (cs ++ b) = read cs) ∧ (read cs).more ≤ cs.length) ∨ (read cs).Reaches cs.length

theorem Lexeme.reaches_refused {more n : Nat} {cause : Cause} (h : more = n) : (refused more cause).Reaches n :=
  h ▸ ⟨Nat.le_refl _, _, List.mem_singleton_self _, rfl⟩

theorem bounded_word (c : Char) (h : '\n' ∈ cs) : Bounded (wordAt c) cs :=
  .inl ⟨fun b => by simp only [wordAt, takeWhile_line (p := isWordPart) (by decide) h b],
    (List.takeWhile_prefix isWordPart).length_le⟩

theorem bounded_symbol (c : Char) (h : '\n' ∈ cs) : Bounded (symbolAt c) cs := by
  have hentries (c : Char) : ∀ entry ∈ symbolsFrom c, '\n' ∉ entry.1 := by
    unfold symbolsFrom
    split <;> decide
  refine .inl ⟨fun b => ?_, ?_⟩
  · have hfind : ((symbolsFrom c).find? fun entry => entry.1.isPrefixOf (cs ++ b)) =
        (symbolsFrom c).find? fun entry => entry.1.isPrefixOf cs :=
      List.find?_congr fun entry hm => isPrefixOf_line (hentries c entry hm) h b
    rw [symbolAt, hfind, symbolAt]
  · unfold symbolAt
    split
    · rename_i tail kind hfind
      have hprefix : tail <+: cs := by simpa using List.find?_some hfind
      exact hprefix.length_le
    · exact Nat.zero_le _

theorem bounded_rawName (h : '\n' ∈ cs) : Bounded rawNameAt cs := by
  obtain ⟨p, hp⟩ : ∃ p : Char → Bool, p = fun c => decide (c ≠ '`') && decide (c ≠ '\n') := ⟨_, rfl⟩
  have hnot : p '\n' = false := by rw [hp]; decide
  have hmem := mem_drop_takeWhile hnot h
  have hlt := List.length_pos_of_mem hmem
  rw [List.length_drop] at hlt
  refine .inl ⟨fun b => ?_, ?_⟩ <;> unfold rawNameAt <;> dsimp only <;> rw [← hp]
  · rw [takeWhile_line hnot h b, drop_line hmem b]
    cases hdrop : cs.drop (cs.takeWhile p).length with
    | nil => simp [hdrop] at hmem
    | cons d ds =>
      rw [List.cons_append]
      by_cases hd : d = '`'
      · subst hd
        rfl
      · split
        · exact absurd (List.cons.inj ‹_›).1 hd
        · split
          · exact absurd (List.cons.inj ‹_›).1 hd
          · rfl
  · split
    · split
      · show 1 ≤ cs.length
        omega
      · show (cs.takeWhile p).length + 1 ≤ cs.length
        omega
    · show (cs.takeWhile p).length ≤ cs.length
      omega

/-! ### Numbers -/

theorem digitRun_line {isDigit : Char → Bool} (hd : isDigit '\n' = false) (h : '\n' ∈ cs) (b : List Char) :
    digitRun isDigit (cs ++ b) = digitRun isDigit cs :=
  takeWhile_line (by simp [hd]) h b

theorem mem_drop_digitRun {isDigit : Char → Bool} (hd : isDigit '\n' = false) (h : '\n' ∈ cs) :
    '\n' ∈ cs.drop (digitRun isDigit cs).length :=
  mem_drop_takeWhile (by simp [hd]) h

theorem fractionPart?_line (h : '\n' ∈ cs) (b : List Char) : fractionPart? (cs ++ b) = fractionPart? cs ∧
    '\n' ∈ cs.drop (((fractionPart? cs).map NumberPart.length).getD 0) := by
  have hnone {c : Char} (hc : c ≠ '.') (cs : List Char) : fractionPart? (c :: cs) = none := by
    unfold fractionPart?
    split
    · rename_i heq
      exact absurd (List.cons.inj heq).1 hc
    · rfl
  cases cs with
  | nil => simp at h
  | cons c cs =>
    by_cases hc : c = '.'
    · subst hc
      have hcs : '\n' ∈ cs := (List.mem_cons.1 h).resolve_left (by decide)
      cases cs with
      | nil => simp at hcs
      | cons d ds =>
        have hrun := digitRun_line (show Char.isDigit '\n' = false from rfl) hcs b
        rw [List.cons_append] at hrun
        by_cases hd : d.isDigit = true
        · refine ⟨by simp [fractionPart?, hd, hrun], ?_⟩
          simpa [fractionPart?, hd] using mem_drop_digitRun (show Char.isDigit '\n' = false from rfl) hcs
        · exact ⟨by simp [fractionPart?, hd], by simpa [fractionPart?, hd] using h⟩
    · rw [List.cons_append, hnone hc, hnone hc]
      exact ⟨rfl, h⟩

theorem signLength_line (h : '\n' ∈ cs) (b : List Char) :
    signLength (cs ++ b) = signLength cs ∧ '\n' ∈ cs.drop (signLength cs) := by
  cases cs with
  | nil => simp at h
  | cons c cs =>
    by_cases hplus : c = '+'
    · subst hplus
      exact ⟨rfl, (List.mem_cons.1 h).resolve_left (by decide)⟩
    by_cases hminus : c = '-'
    · subst hminus
      exact ⟨rfl, (List.mem_cons.1 h).resolve_left (by decide)⟩
    have hnone (cs : List Char) : signLength (c :: cs) = 0 := by
      unfold signLength
      split
      · exact absurd (List.cons.inj ‹_›).1 hplus
      · exact absurd (List.cons.inj ‹_›).1 hminus
      · rfl
    rw [List.cons_append, hnone, hnone]
    exact ⟨rfl, h⟩

theorem exponentPart?_line (h : '\n' ∈ cs) (b : List Char) : exponentPart? (cs ++ b) = exponentPart? cs ∧
    '\n' ∈ cs.drop (((exponentPart? cs).map NumberPart.length).getD 0) := by
  cases cs with
  | nil => simp at h
  | cons e cs =>
    rw [List.cons_append, exponentPart?_cons, exponentPart?_cons]
    by_cases he : (e = 'e' || e = 'E') = true
    · have hcs : '\n' ∈ cs := (List.mem_cons.1 h).resolve_left fun h => by simp [← h] at he
      obtain ⟨hsign, hmem⟩ := signLength_line hcs b
      rw [if_pos he, if_pos he, hsign, drop_line hmem, digitRun_line rfl hmem]
      refine ⟨rfl, ?_⟩
      have hrun := mem_drop_digitRun (show Char.isDigit '\n' = false from rfl) hmem
      rw [List.drop_drop, Nat.add_comm] at hrun
      exact hrun
    · rw [if_neg he, if_neg he]
      exact ⟨rfl, h⟩

/-- The form of a number shows before its line ends. -/
theorem numberShape_line (c : Char) (h : '\n' ∈ cs) (b : List Char) : numberShape c (cs ++ b) = numberShape c cs ∧
    '\n' ∈ cs.drop ((numberShape c cs).2.length - 1) := by
  by_cases hradix : c = '0' ∧ ∃ mark digits form, cs = mark :: digits ∧ radixOf? mark = some form
  · obtain ⟨rfl, mark, digits, ⟨kind, isDigit⟩, rfl, hmark⟩ := hradix
    obtain ⟨hword, hdigit⟩ := isWordPart_of_radixOf? hmark
    have hd : isDigit '\n' = false := by
      rw [← Bool.not_eq_true]
      exact fun h => absurd (hdigit _ h) (by decide)
    have hmem : '\n' ∈ digits := (List.mem_cons.1 h).resolve_left fun h => by
      rw [← h] at hword
      exact absurd hword (by decide)
    rw [List.cons_append, numberShape_radix _ hmark, numberShape_radix _ hmark, digitRun_line hd hmem]
    exact ⟨rfl, mem_drop_digitRun hd hmem⟩
  · have hdecimal (cs' : List Char) (hhead : cs'.head? = cs.head?) : c = '0' → ∀ m ∈ cs'.head?, radixOf? m = none := by
      intro hc m hm
      rw [Option.eq_none_iff_forall_ne_some]
      intro form hform
      cases cs with
      | nil => simp at h
      | cons d ds =>
        obtain rfl : d = m := by simpa [hhead] using hm
        exact hradix ⟨hc, d, ds, form, rfl, hform⟩
    have hhead : (cs ++ b).head? = cs.head? := by
      cases cs with
      | nil => simp at h
      | cons d ds => rfl
    rw [numberShape_decimal (hdecimal _ hhead), numberShape_decimal (hdecimal _ rfl)]
    have hwhole := mem_drop_digitRun (show Char.isDigit '\n' = false from rfl) h
    obtain ⟨hfraction, hf⟩ := fractionPart?_line hwhole b
    rw [List.drop_drop] at hf
    obtain ⟨hexponent, he⟩ := exponentPart?_line hf b
    rw [List.drop_drop] at he
    simp only [decimalShape, digitRun_line (show Char.isDigit '\n' = false from rfl) h b, drop_line hwhole b, hfraction,
      drop_line hf b, hexponent, true_and]
    exact he

theorem bounded_number (c : Char) (h : '\n' ∈ cs) : Bounded (numberAt c) cs := by
  -- the number is read from its shape and what touches its end
  have hread (cs : List Char) : numberAt c cs =
      let shape := numberShape c cs
      let glued := (cs.drop (shape.2.length - 1)).takeWhile isWordPart
      let more := shape.2.length - 1 + glued.length
      if shape.2.valid && glued.isEmpty then .ofToken more (.number ⟨shape.1, String.ofList (c :: cs.take more)⟩)
      else .refused more (.malformedNumber (String.ofList (c :: cs.take more))) := rfl
  have hmem := (numberShape_line c h []).2
  have hle : (numberShape c cs).2.length - 1 +
      ((cs.drop ((numberShape c cs).2.length - 1)).takeWhile isWordPart).length ≤ cs.length := by
    have hglued := (List.takeWhile_prefix (p := isWordPart) (l := cs.drop ((numberShape c cs).2.length - 1))).length_le
    have hpos := List.length_pos_of_mem hmem
    rw [List.length_drop] at hglued hpos
    omega
  refine .inl ⟨fun b => ?_, ?_⟩
  · rw [hread, hread, (numberShape_line c h b).1]
    simp only [drop_line hmem b, takeWhile_line (p := isWordPart) (by decide) hmem b,
      List.take_append_of_le_length hle]
  · rw [hread]
    dsimp only
    split <;> exact hle

end

/-! ### Texts that end in a line feed -/

/-- A text is empty or ends in a line feed. -/
def Ended (cs : List Char) : Prop := ∀ c ∈ cs.getLast?, c = '\n'

namespace Ended

variable {c : Char} {cs : List Char}

theorem drop (h : Ended cs) (n : Nat) : Ended (cs.drop n) := by
  intro c hc
  rw [List.getLast?_drop] at hc
  split at hc
  · simp at hc
  · exact h c hc

theorem tail (h : Ended (c :: cs)) : Ended cs := h.drop 1

theorem mem (h : Ended cs) (hne : cs ≠ []) : '\n' ∈ cs := by
  have hlast := List.getLast?_eq_getLast_of_ne_nil hne
  rw [← h _ hlast]
  exact List.getLast_mem hne

/-- What is not the line feed at the end stands before it. -/
theorem mem_tail (h : Ended (c :: cs)) (hc : c ≠ '\n') : '\n' ∈ cs :=
  (List.mem_cons.1 (h.mem (List.cons_ne_nil _ _))).resolve_left (Ne.symm hc)

end Ended

/-! ### Escapes -/

section
variable {cs : List Char}

theorem takeWhile_take_line {p : Char → Bool} (hp : p '\n' = false) (h : '\n' ∈ cs) (n : Nat) (b : List Char) :
    ((cs ++ b).take n).takeWhile p = (cs.take n).takeWhile p := by
  induction cs generalizing n with
  | nil => simp at h
  | cons c cs ih =>
    cases n with
    | zero => rfl
    | succ n =>
      rw [List.cons_append, List.take_succ_cons, List.take_succ_cons, List.takeWhile_cons, List.takeWhile_cons]
      by_cases hc : p c = true
      · rw [if_pos hc, if_pos hc, ih ((List.mem_cons.1 h).resolve_left fun h => by simp [← h, hp] at hc)]
      · rw [if_neg hc, if_neg hc]

theorem escapeAt_line (h : '\n' ∈ cs) (b : List Char) : escapeAt (cs ++ b) = escapeAt cs := by
  have hfixed {width : Nat} {build : String → Escape} {cs : List Char} (h : '\n' ∈ cs) :
      fixedEscape width build (cs ++ b) = fixedEscape width build cs := by
    unfold fixedEscape
    rw [takeWhile_take_line (by decide) h]
  cases cs with
  | nil => simp at h
  | cons c cs =>
    by_cases hx : c = 'x'
    · subst hx
      exact hfixed ((List.mem_cons.1 h).resolve_left (by decide))
    by_cases hu : c = 'u'
    · subst hu
      exact hfixed ((List.mem_cons.1 h).resolve_left (by decide))
    rw [List.cons_append, escapeAt_unmarked hx hu, escapeAt_unmarked hx hu]
    by_cases ho : isOctalDigit c = true
    · have hmem : '\n' ∈ cs := (List.mem_cons.1 h).resolve_left fun h => by
        rw [← h] at ho
        exact absurd ho (by decide)
      rw [if_pos ho, if_pos ho, takeWhile_take_line (by decide) hmem]
    · rw [if_neg ho, if_neg ho]

theorem length_of_read {e : Escape} {n : Nat} (h : escapeAt cs = .read e n) : n ≤ cs.length := by
  obtain ⟨text, rest, rfl, rfl, -⟩ := escapeAt_reads h
  simp

theorem length_of_short {digits : String} {n : Nat} (h : escapeAt cs = .short digits n) : n ≤ cs.length := by
  have hfixed {width : Nat} {build : String → Escape} {m : Char} {cs : List Char}
      (h : fixedEscape width build cs = .short digits n) : n ≤ (m :: cs).length := by
    unfold fixedEscape at h
    dsimp only at h
    split at h
    · simp at h
    · obtain ⟨-, rfl⟩ : _ ∧ _ := EscapeRead.short.inj h
      have hle := (List.takeWhile_prefix (p := isHexDigit) (l := cs.take width)).length_le
      rw [List.length_take] at hle
      rw [List.length_cons]
      omega
  cases cs with
  | nil => simp [escapeAt] at h
  | cons c cs =>
    by_cases hx : c = 'x'
    · subst hx
      exact hfixed h
    by_cases hu : c = 'u'
    · subst hu
      exact hfixed h
    rw [escapeAt_unmarked hx hu] at h
    split at h <;> simp at h

end

/-! ### Readers that can leave their line -/

section
variable {cs : List Char}

/-- A string that was not closed before a text ended does not depend on what follows, unless it takes all of the
text. -/
theorem stringBodyFrom_line {fuel fuel' place : Nat} {b : List Char} (h : Ended cs) (hf : cs.length < fuel)
    (hf' : (cs ++ b).length < fuel') :
    stringBodyFrom fuel' place (cs ++ b) = stringBodyFrom fuel place cs ∧
        (stringBodyFrom fuel place cs).length ≤ cs.length ∨
      (stringBodyFrom fuel place cs).closed = false ∧ (stringBodyFrom fuel place cs).length = cs.length := by
  induction fuel generalizing cs place fuel' with
  | zero => omega
  | succ fuel ih =>
    obtain ⟨fuel', rfl⟩ : ∃ n, fuel' = n + 1 := ⟨fuel' - 1, by omega⟩
    cases cs with
    | nil => exact .inr ⟨rfl, rfl⟩
    | cons c cs =>
      rw [List.cons_append] at hf' ⊢
      simp only [List.length_cons] at hf hf'
      -- what follows something of `n` characters behind the first
      have hpush {n place : Nat} (hn : n ≤ cs.length) (item : Option StringItem) (faults : List Fault) :
          (stringBodyFrom fuel' place ((cs ++ b).drop n)).push (1 + n) item faults =
                (stringBodyFrom fuel place (cs.drop n)).push (1 + n) item faults ∧
              ((stringBodyFrom fuel place (cs.drop n)).push (1 + n) item faults).length ≤ (c :: cs).length ∨
            ((stringBodyFrom fuel place (cs.drop n)).push (1 + n) item faults).closed = false ∧
              ((stringBodyFrom fuel place (cs.drop n)).push (1 + n) item faults).length = (c :: cs).length := by
        have hdrop : (cs.drop n).length = cs.length - n := List.length_drop
        have hlength : (cs.drop n ++ b).length = (cs ++ b).length - n := by simp; omega
        rw [List.drop_append_of_le_length hn]
        have hrec : stringBodyFrom fuel' place (cs.drop n ++ b) = stringBodyFrom fuel place (cs.drop n) ∧
              (stringBodyFrom fuel place (cs.drop n)).length ≤ (cs.drop n).length ∨
            (stringBodyFrom fuel place (cs.drop n)).closed = false ∧
              (stringBodyFrom fuel place (cs.drop n)).length = (cs.drop n).length :=
          ih (h.tail.drop n) (by omega) (by omega)
        rcases hrec with ⟨heq, hle⟩ | ⟨hclosed, hall⟩
        · refine .inl ⟨by rw [heq], ?_⟩
          show _ + (1 + n) ≤ cs.length + 1
          omega
        · refine .inr ⟨hclosed, ?_⟩
          show _ + (1 + n) = cs.length + 1
          omega
      by_cases hn : c = '\n'
      · exact .inl (by simp [stringBodyFrom, hn])
      by_cases hq : c = '"'
      · exact .inl (by simp [stringBodyFrom, hq])
      by_cases hb : c = '\\'
      · subst hb
        have hline := escapeAt_line (h.mem_tail hn) b
        cases hescape : escapeAt cs with
        | atEnd => exact .inl (by simp [stringBodyFrom, hline, hescape])
        | read e n =>
          rw [stringBodyFrom_escape hescape, stringBodyFrom_escape (hline.trans hescape)]
          exact hpush (length_of_read hescape) _ _
        | short digits n =>
          rw [stringBodyFrom_short hescape, stringBodyFrom_short (hline.trans hescape)]
          exact hpush (length_of_short hescape) _ _
      · rw [stringBodyFrom_char hn hq hb, stringBodyFrom_char hn hq hb]
        exact hpush (Nat.zero_le _) _ _

theorem bounded_string (h : Ended cs) : Bounded stringAt cs := by
  by_cases hall : (stringBodyFrom (cs.length + 1) 1 cs).closed = false ∧
      (stringBodyFrom (cs.length + 1) 1 cs).length = cs.length
  · refine .inr ?_
    unfold stringAt
    simp [Lexeme.Reaches, hall]
  · have hline (b : List Char) := (stringBodyFrom_line h (Nat.lt_succ_self _)
      (Nat.lt_succ_self (cs ++ b).length)).resolve_right hall
    refine .inl ⟨fun b => ?_, ?_⟩
    · unfold stringAt
      rw [(hline b).1]
    · have hle := (hline []).2
      unfold stringAt
      dsimp only
      split <;> exact hle

theorem charRestLength_line (h : '\n' ∈ cs) (b : List Char) :
    charRestLength (cs ++ b) = charRestLength cs ∧ charRestLength cs ≤ cs.length := by
  induction cs with
  | nil => simp at h
  | cons c cs ih =>
    rw [List.cons_append, charRestLength, charRestLength]
    by_cases hn : c = '\n'
    · simp [hn]
    by_cases hq : c = '\''
    · simp [hq]
    · obtain ⟨heq, hle⟩ := ih ((List.mem_cons.1 h).resolve_left (Ne.symm hn))
      rw [if_neg hn, if_neg hq, if_neg hn, if_neg hq, heq]
      exact ⟨rfl, Nat.succ_le_succ hle⟩

theorem bounded_closeChar (part : StrPart) {taken : Nat} (h : Ended cs) (ht : taken ≤ cs.length) :
    Bounded (closeChar part taken) cs := by
  cases hdrop : cs.drop taken with
  | nil =>
    have hall : taken = cs.length := Nat.le_antisymm ht (List.drop_eq_nil_iff.1 hdrop)
    refine .inr ?_
    unfold closeChar
    rw [hdrop]
    exact Lexeme.reaches_refused hall
  | cons d ds =>
    have hmem : '\n' ∈ cs.drop taken := (h.drop taken).mem (by simp [hdrop])
    have hlength : (cs.drop taken).length = cs.length - taken := List.length_drop
    by_cases hd : d = '\''
    · subst hd
      rw [hdrop, List.length_cons] at hlength
      refine .inl ⟨fun b => ?_, ?_⟩ <;> unfold closeChar
      · rw [drop_line hmem, hdrop]
        rfl
      · rw [hdrop]
        show taken + 1 ≤ cs.length
        omega
    · have hread {cs cs' : List Char} (hcs : cs.drop taken = d :: cs') :
          closeChar part taken cs = .refused (taken + charRestLength (d :: cs')) .charLength := by
        unfold closeChar
        rw [hcs]
        split
        · exact absurd (List.cons.inj ‹_›).1 hd
        · rfl
      rw [hdrop] at hmem hlength
      refine .inl ⟨fun b => ?_, ?_⟩
      · have hline := (charRestLength_line hmem b).1
        rw [List.cons_append] at hline
        rw [hread hdrop, hread (by rw [drop_line (hdrop ▸ hmem), hdrop, List.cons_append]), hline]
      · rw [hread hdrop]
        have := (charRestLength_line hmem []).2
        show taken + charRestLength (d :: ds) ≤ cs.length
        omega

theorem bounded_char (h : Ended cs) (hne : cs ≠ []) : Bounded charAt cs := by
  cases cs with
  | nil => exact absurd rfl hne
  | cons c cs =>
    by_cases hn : c = '\n'
    · subst hn
      exact .inl ⟨fun _ => rfl, Nat.zero_le _⟩
    by_cases hq : c = '\''
    · subst hq
      exact .inl ⟨fun _ => rfl, Nat.succ_le_succ (Nat.zero_le _)⟩
    by_cases hb : c = '\\'
    · subst hb
      have hline := escapeAt_line (h.mem_tail hn)
      cases hescape : escapeAt cs with
      | atEnd =>
        refine .inl ⟨fun b => by simp [charAt, hline b, hescape], ?_⟩
        simp [charAt, hescape, Lexeme.refused]
      | read e n =>
        have hread (b : List Char) : charAt ('\\' :: cs ++ b) = closeChar (.escape e) (n + 1) ('\\' :: cs ++ b) := by
          simp [charAt, hline b, hescape]
        have hself : charAt ('\\' :: cs) = closeChar (.escape e) (n + 1) ('\\' :: cs) := by simpa using hread []
        unfold Bounded
        simp only [hread, hself]
        exact bounded_closeChar _ h (Nat.succ_le_succ (length_of_read hescape))
      | short digits n =>
        have hle := length_of_short hescape
        have hlength : (cs.drop n).length = cs.length - n := List.length_drop
        cases hdrop : cs.drop n with
        | nil =>
          rw [hdrop, List.length_nil] at hlength
          refine .inr ?_
          simp [charAt, hescape, hdrop, charRestLength, Lexeme.Reaches]
          omega
        | cons d ds =>
          have hmem : '\n' ∈ cs.drop n := (h.tail.drop n).mem (by simp [hdrop])
          refine .inl ⟨fun b => ?_, ?_⟩
          · simp [charAt, hline b, hescape, drop_line hmem b, (charRestLength_line hmem b).1]
          · have := (charRestLength_line hmem []).2
            simp [charAt, hescape]
            omega
    · have hself := charAt_char hn hq hb cs
      unfold Bounded
      simp only [List.cons_append, charAt_char hn hq hb]
      exact bounded_closeChar _ h (Nat.succ_le_succ (Nat.zero_le _))

theorem blockCommentLength?_append {n : Nat} (h : blockCommentLength? cs = some n) (b : List Char) :
    blockCommentLength? (cs ++ b) = some n ∧ n ≤ cs.length := by
  fun_induction blockCommentLength? cs generalizing n with
  | case1 => simp at h
  | case2 cs =>
    obtain rfl : 2 = n := by simpa using h
    exact ⟨rfl, by simp⟩
  | case3 c cs hne ih =>
    obtain ⟨m, hm, rfl⟩ := Option.map_eq_some_iff.1 h
    obtain ⟨hread, hle⟩ := ih hm
    refine ⟨?_, Nat.succ_le_succ hle⟩
    rw [List.cons_append, blockCommentLength?, hread]
    · rfl
    · rintro tail rfl htail
      cases cs with
      | nil => simp [blockCommentLength?] at hm
      | cons d cs => exact hne cs rfl (by rw [(List.cons.inj htail).1])

theorem bounded_slash (h : '\n' ∈ cs) : Bounded slashAt cs := by
  cases cs with
  | nil => simp at h
  | cons c cs =>
    by_cases hs : c = '/'
    · subst hs
      have hmem : '\n' ∈ cs := (List.mem_cons.1 h).resolve_left (by decide)
      refine .inl ⟨fun b => ?_, Nat.succ_le_succ (List.takeWhile_prefix _).length_le⟩
      simp only [slashAt, List.cons_append]
      rw [takeWhile_line (by decide) hmem]
    by_cases hstar : c = '*'
    · subst hstar
      cases hblock : blockCommentLength? cs with
      | none =>
        refine .inr ?_
        simp only [slashAt, hblock]
        exact Lexeme.reaches_refused rfl
      | some n =>
        refine .inl ⟨fun b => ?_, ?_⟩
        · simp [slashAt, hblock, (blockCommentLength?_append hblock b).1]
        · simp only [slashAt, hblock]
          exact Nat.succ_le_succ (blockCommentLength?_append hblock []).2
    · have hread (cs : List Char) : slashAt (c :: cs) = symbolAt '/' (c :: cs) :=
        slashAt_symbol (by simp [hs, hstar])
      unfold Bounded
      simp only [List.cons_append, hread]
      exact bounded_symbol '/' h

theorem bounded_backslash (h : Ended cs) (hne : cs ≠ []) : Bounded (lexemeAt '\\') cs := by
  cases cs with
  | nil => exact absurd rfl hne
  | cons c cs =>
    by_cases hn : c = '\n'
    · subst hn
      exact .inl ⟨fun _ => rfl, Nat.succ_le_succ (Nat.zero_le _)⟩
    by_cases hr : c = '\r'
    · subst hr
      cases cs with
      | nil => exact absurd (h.mem_tail hn) List.not_mem_nil
      | cons d ds =>
        by_cases hd : d = '\n'
        · subst hd
          exact .inl ⟨fun _ => rfl, Nat.succ_le_succ (Nat.succ_le_succ (Nat.zero_le _))⟩
        · have hread (cs : List Char) : lexemeAt '\\' ('\r' :: d :: cs) = .blank 1 := by
            rw [lexemeAt_backslash]
            split
            · exact absurd (List.cons.inj (List.cons.inj ‹_›).2).1 hd
            · rfl
            · rfl
            · rename_i hall
              exact absurd rfl (hall _)
          refine .inl ⟨fun b => ?_, ?_⟩
          · rw [List.cons_append, List.cons_append, hread, hread]
          · rw [hread]
            exact Nat.succ_le_succ (Nat.zero_le _)
    · have hread (cs : List Char) : lexemeAt '\\' (c :: cs) = .refused 0 (.unexpectedCharacter '\\') := by
        rw [lexemeAt_backslash]
        split
        · exact absurd (List.cons.inj ‹_›).1 hr
        · exact absurd (List.cons.inj ‹_›).1 hn
        · exact absurd (List.cons.inj ‹_›).1 hr
        · rfl
      refine .inl ⟨fun b => ?_, ?_⟩
      · rw [List.cons_append, hread, hread]
      · rw [hread]
        exact Nat.zero_le _

/-- The lexeme that begins a text that ends in a line feed does not depend on what follows, or is refused up to the
end of the text. -/
theorem bounded_lexemeAt {c : Char} (h : Ended (c :: cs)) : Bounded (lexemeAt c) cs := by
  by_cases hblank : isBlank c = true
  · refine .inl ⟨fun b => ?_, ?_⟩ <;> rw [lexemeAt_of_isBlank hblank]
    · rw [lexemeAt_of_isBlank hblank]
    · exact Nat.zero_le _
  have hn : c ≠ '\n' := by
    rintro rfl
    exact hblank (by decide)
  have hmem := h.mem_tail hn
  have hne := List.ne_nil_of_mem hmem
  by_cases hb : c = '\\'
  · exact hb ▸ bounded_backslash h.tail hne
  rw [lexemeAt_eq (Bool.not_eq_true _ ▸ hblank) hb]
  unfold readerFrom
  split_ifs with h₁ h₂ h₃ h₄
  · exact bounded_slash hmem
  · exact bounded_string h.tail
  · exact bounded_char h.tail hne
  · exact bounded_rawName hmem
  · exact bounded_number c hmem
  · exact bounded_word c hmem
  · exact bounded_symbol c hmem

end

/-! ### Whole texts -/

/-- A text that ends in a line feed is cut alike whatever follows, or something is refused up to its end. -/
theorem lexemes_append {a : List Char} (h : Ended a) (b : List Char) : lexemes (a ++ b) = lexemes a ++ lexemes b ∨
    ∀ place, ∃ d ∈ (placed place (lexemes a)).errors, d.span.stop = place.offset + byteLength a := by
  induction hn : a.length using Nat.strongRecOn generalizing a with
  | ind n ih =>
    cases a with
    | nil => exact .inl rfl
    | cons c cs =>
      rcases bounded_lexemeAt h with ⟨hread, hle⟩ | ⟨hmore, f, hf, hstop⟩
      · have hlt : (cs.drop (lexemeAt c cs).more).length < n := by
          rw [← hn, List.length_drop, List.length_cons]
          omega
        rw [List.cons_append, lexemes_cons, hread b, lexemes_cons c cs, List.take_append_of_le_length hle,
          List.drop_append_of_le_length hle]
        rcases ih _ hlt (h.tail.drop _) rfl with heq | hreaches
        · exact .inl (by rw [heq, List.cons_append])
        · refine .inr fun place => ?_
          obtain ⟨d, hd, hstop⟩ := hreaches (place.after (c :: cs.take (lexemeAt c cs).more))
          refine ⟨d, List.mem_append_right _ hd, ?_⟩
          rw [hstop, Place.offset_after, Nat.add_assoc, ← byteLength_append, List.cons_append, List.take_append_drop]
      · refine .inr fun place => ?_
        rw [lexemes_cons, List.take_of_length_le hmore]
        refine ⟨_, List.mem_append_left _ (List.mem_map_of_mem hf), ?_⟩
        simp only [spanWithin, hstop]
        rw [List.take_of_length_le (by simp)]

/-- Lexemes put in their places one behind the other: the end of the source comes behind the last. -/
theorem placed_append (place : Place) (cuts cuts' : List Cut) :
    ∃ tokens e, e.kind = .eof ∧ (placed place cuts).tokens = tokens ++ [e] ∧
      placed place (cuts ++ cuts') =
        let later := placed (place.after (cuts.flatMap Cut.taken)) cuts'
        { tokens := tokens ++ later.tokens
          comments := (placed place cuts).comments ++ later.comments
          errors := (placed place cuts).errors ++ later.errors } := by
  induction cuts generalizing place with
  | nil => exact ⟨[], _, rfl, rfl, rfl⟩
  | cons cut cuts ih =>
    obtain ⟨tokens, e, he, htokens, hplaced⟩ := ih (place.after cut.taken)
    have hafter : place.after ((cut :: cuts).flatMap Cut.taken) =
        (place.after cut.taken).after (cuts.flatMap Cut.taken) := by
      simp [Place.after, List.foldl_append]
    refine ⟨cut.tokenAt place ++ tokens, e, he, by simp [placed, htokens], ?_⟩
    rw [List.cons_append, placed, hplaced, hafter]
    simp [placed]

/-! ### Further down -/

/-- A stretch `n` bytes further on. -/
def Span.moved (n : Nat) (s : Span) : Span := ⟨s.start + n, s.stop + n⟩

/-- A position `m` lines further down, in the same column. -/
def Position.moved (m : Nat) (p : Position) : Position := ⟨p.line + m, p.column⟩

/-- A place `n` bytes further on and `m` lines further down. -/
def Place.moved (n m : Nat) (p : Place) : Place := ⟨p.offset + n, p.position.moved m⟩

/-- A token `n` bytes further on and `m` lines further down. -/
def Token.moved (n m : Nat) (t : Token) : Token := { t with span := t.span.moved n, pos := t.pos.moved m }

/-- A diagnostic for what stands `n` bytes further on. -/
def Diagnostic.moved (n : Nat) (d : Diagnostic) : Diagnostic := { d with span := d.span.moved n }

/-- What lexing makes of a source that stands `n` bytes further on and `m` lines further down. -/
def Lexed.moved (n m : Nat) (l : Lexed) : Lexed where
  tokens := l.tokens.map (Token.moved n m)
  comments := l.comments.map (Span.moved n)
  errors := l.errors.map (Diagnostic.moved n)

section
variable (n m : Nat) (place : Place)

theorem Place.moved_after (text : List Char) : (place.moved n m).after text = (place.after text).moved n m := by
  have hstep (place : Place) (c : Char) : (place.moved n m).step c = (place.step c).moved n m := by
    unfold Place.moved Place.step Position.moved Position.after
    split <;> simp [Nat.add_right_comm]
  induction text generalizing place with
  | nil => rfl
  | cons c text ih =>
    have hlater := ih (place.step c)
    rw [← hstep] at hlater
    exact hlater

theorem spanWithin_moved (text : List Char) (start stop : Nat) :
    spanWithin (place.moved n m) text start stop = (spanWithin place text start stop).moved n := by
  simp [spanWithin, Place.moved, Span.moved, Nat.add_right_comm]

/-- Lexemes further down yield the same, further down. -/
theorem placed_moved (cuts : List Cut) : placed (place.moved n m) cuts = (placed place cuts).moved n m := by
  induction cuts generalizing place with
  | nil => rfl
  | cons cut cuts ih =>
    have hspan : cut.span (place.moved n m) = (cut.span place).moved n := by
      rw [Cut.span, Place.moved_after]
      rfl
    have htoken : cut.tokenAt (place.moved n m) = (cut.tokenAt place).map (Token.moved n m) := by
      simp only [Cut.tokenAt, hspan, List.map_map]
      rfl
    have hcomment : cut.commentAt (place.moved n m) = (cut.commentAt place).map (Span.moved n) := by
      simp only [Cut.commentAt, hspan]
      split <;> rfl
    have herrors : cut.errorsAt (place.moved n m) = (cut.errorsAt place).map (Diagnostic.moved n) := by
      simp only [Cut.errorsAt, spanWithin_moved, List.map_map]
      rfl
    simp only [placed, Place.moved_after, ih, htoken, hcomment, herrors, Lexed.moved, List.map_append]

end

/-- Lexing goes on at the end of a line as if it began there: behind a text that ends in a line feed, and in which
nothing is refused up to its end, another text yields what it yields alone, as many bytes further on and as many lines
further down as the first has. -/
theorem lex_append (a b : String) (ha : a.toList.getLast? = some '\n')
    (herrors : ∀ d ∈ (lex a).errors, d.span.stop < byteLength a.toList) :
    let later := (lex b).moved (byteLength a.toList) (a.toList.count '\n')
    ∃ tokens e, e.kind = .eof ∧ (lex a).tokens = tokens ++ [e] ∧ lex (a ++ b) =
      { tokens := tokens ++ later.tokens
        comments := (lex a).comments ++ later.comments
        errors := (lex a).errors ++ later.errors } := by
  intro later
  have hended : Ended a.toList := fun c hc => by
    rw [ha] at hc
    exact (Option.some.inj hc).symm
  -- the place behind the first text is the first place, moved
  have hplace : Place.start.after a.toList = Place.start.moved (byteLength a.toList) (a.toList.count '\n') := by
    have hlast : lastLine a.toList = [] := by
      obtain ⟨text, htext⟩ := List.getLast?_eq_some_iff.1 ha
      rw [htext, lastLine_concat_newline]
    have hposition : (Place.start.after a.toList).position = ⟨1 + a.toList.count '\n', 1⟩ := by
      rw [Place.position_after, Position.behind, hlast]
      rfl
    have hoffset := Place.offset_after .start a.toList
    calc Place.start.after a.toList
      _ = ⟨(Place.start.after a.toList).offset, (Place.start.after a.toList).position⟩ := rfl
      _ = _ := by rw [hposition, hoffset]; rfl
  have hcut : lexemes (a ++ b).toList = lexemes a.toList ++ lexemes b.toList := by
    rw [String.toList_append]
    refine (lexemes_append hended b.toList).resolve_right fun hreaches => ?_
    obtain ⟨d, hd, hstop⟩ := hreaches .start
    have hlt := herrors d hd
    simp only [hstop, Place.start, Nat.zero_add] at hlt
    omega
  obtain ⟨tokens, e, he, htokens, hplaced⟩ := placed_append .start (lexemes a.toList) (lexemes b.toList)
  refine ⟨tokens, e, he, htokens, ?_⟩
  rw [lex, hcut, hplaced, flatMap_taken_lexemes, hplace, placed_moved]
  rfl

/-- A second line behind a first one with an open string. -/
theorem lex_append_recovered : "a \"b\n".toList.getLast? = some '\n' ∧
    (∀ d ∈ (lex "a \"b\n").errors, d.span.stop < byteLength "a \"b\n".toList) ∧
    (lex "a \"b\n").errors.length = 1 ∧
    ∃ tokens e, e.kind = .eof ∧ (lex "a \"b\n").tokens = tokens ++ [e] ∧ lex ("a \"b\n" ++ "\"c\" d // e") =
      let later := (lex "\"c\" d // e").moved (byteLength "a \"b\n".toList) ("a \"b\n".toList.count '\n')
      { tokens := tokens ++ later.tokens
        comments := (lex "a \"b\n").comments ++ later.comments
        errors := (lex "a \"b\n").errors ++ later.errors } :=
  ⟨by decide, by decide +kernel, by decide +kernel, lex_append _ _ (by decide) (by decide +kernel)⟩

end ElleFrontEnd
