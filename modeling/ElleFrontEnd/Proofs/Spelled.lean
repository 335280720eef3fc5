import ElleFrontEnd.Token.Stream
import ElleFrontEnd.Vocabulary.Directive
import Mathlib.Data.List.TakeWhile

/-!
# The text of a token

A lexeme depends on the characters that it takes and on what stops it there.  So the text of a token that was cut from
one source is read as the same token in another, unless what follows there would prolong it (`TokenKind.Halts`): a word
by a letter, a symbol by a character that makes a longer symbol of it, a number by a letter or a fraction.
-/

namespace ElleFrontEnd

/-! ### What prolongs a token -/

/-- The characters that make a longer symbol of an operator, or open a comment with it. -/
def Operator.extensions : Operator → List Char
  | .minus | .gt => ['=', '>']
  | .slash => ['=', '/', '*']
  | .amp => ['=', '&']
  | .pipe => ['=', '|']
  | .lt => ['=', '<', '>']
  | .dotDot => ['=', '.']
  | .plus | .star | .percent | .bang | .caret | .eq | .shl | .concat | .shr => ['=']
  | _ => []

/-- The characters that make a longer symbol of a mark. -/
def Punctuation.extensions : Punctuation → List Char
  | .dot => ['.']
  | .colon => ['=', ':']
  | _ => []

/-- Whether a text leaves a token that stands before it as it is. -/
def TokenKind.Halts : TokenKind → List Char → Prop
  | .keyword _, rest | .ident _, rest => ∀ c ∈ rest.head?, isWordPart c = false
  | .number _, rest => (∀ c ∈ rest.head?, isWordPart c = false) ∧ fractionPart? rest = none
  | .operator o, rest => ∀ c ∈ rest.head?, c ∉ o.extensions
  | .punctuation p, rest => ∀ c ∈ rest.head?, c ∉ p.extensions
  | _, _ => True

/-- A token is written with a first character and others, and `read` yields it for the others, whatever follows that
leaves it as it is. -/
structure TokenKind.Spells (read : List Char → Lexeme) (k : TokenKind) (c : Char) (cs : List Char) : Prop where
  display : k.display.toList = c :: cs
  reads : ∀ rest, k.Halts rest → read (cs ++ rest) = .ofToken cs.length k

/-- A token whose text is read as the token. -/
def TokenKind.Legible (k : TokenKind) : Prop := ∃ c cs, k.Spells (lexemeAt c) c cs

/-- `read` cuts a token off a text, as it would off any other that begins alike. -/
def TokenKind.Cuts (read : List Char → Lexeme) (k : TokenKind) (c : Char) (cs : List Char) : Prop :=
  ∃ text rest, cs = text ++ rest ∧ k.Spells read c text ∧ read cs = .ofToken text.length k

/-! ### Words -/

theorem takeWhile_append_halt {p : Char → Bool} {text rest : List Char} (ht : ∀ c ∈ text, p c = true)
    (hr : ∀ c ∈ rest.head?, p c = false) : (text ++ rest).takeWhile p = text := by
  rw [List.takeWhile_append_of_pos ht]
  cases rest with
  | nil => simp
  | cons c rest => simp [hr c rfl]

theorem takeWhile_eq_take (p : Char → Bool) (cs : List Char) : cs.takeWhile p = cs.take (cs.takeWhile p).length :=
  List.prefix_iff_eq_take.1 (List.takeWhile_prefix p)

theorem takeWhile_append_drop (p : Char → Bool) (cs : List Char) :
    cs.takeWhile p ++ cs.drop (cs.takeWhile p).length = cs :=
  (congrArg (· ++ _) (takeWhile_eq_take p cs)).trans (List.take_append_drop _ cs)

theorem of_mem_takeWhile {p : Char → Bool} {cs : List Char} : ∀ c ∈ cs.takeWhile p, p c = true :=
  fun _ h => List.mem_takeWhile_imp h

theorem display_wordKind (word : String) : (wordKind word).display = word := by
  unfold wordKind
  cases h : Keyword.ofSpelling? word with
  | none => rfl
  | some k =>
    have : k.spelling = word := by simpa using List.find?_some h
    exact this

theorem halts_wordKind {word : String} {rest : List Char} (h : (wordKind word).Halts rest) :
    ∀ c ∈ rest.head?, isWordPart c = false := by
  unfold wordKind at h
  split at h <;> exact h

theorem spells_word {c : Char} {tail : List Char} (ht : ∀ c ∈ tail, isWordPart c = true) :
    (wordKind (String.ofList (c :: tail))).Spells (wordAt c) c tail := by
  refine ⟨by rw [display_wordKind, String.toList_ofList], fun rest hr => ?_⟩
  simp only [wordAt, takeWhile_append_halt ht (halts_wordKind hr)]

/-! ### Symbols -/

/-- The entries for symbols are their spellings without the first character, and longer ones come first. -/
theorem spells_symbol (c : Char) : ∀ entry ∈ symbolsFrom c, entry.2.Spells (symbolAt c) c entry.1 := by
  unfold symbolsFrom
  split
  all_goals
    simp only [List.mem_cons, List.not_mem_nil, or_false, forall_eq_or_imp, forall_eq, false_imp_iff, implies_true]
  all_goals and_intros
  all_goals
    refine ⟨by decide, fun rest hr => ?_⟩
    cases rest with
    | nil => decide
    | cons d rest =>
      simp [TokenKind.Halts, Operator.extensions, Punctuation.extensions] at hr
      simp [symbolAt, symbolsFrom, List.find?, List.isPrefixOf, beq_eq_decide, @eq_comm _ _ d, hr]

theorem cuts_symbol {c : Char} {cs : List Char} {k : TokenKind} (h : (symbolAt c cs).token = some k) :
    k.Cuts (symbolAt c) c cs := by
  unfold symbolAt at h
  split at h
  · rename_i tail kind hfind
    obtain rfl : kind = k := by simpa [Lexeme.ofToken] using h
    obtain ⟨rest, rfl⟩ : tail <+: cs := by simpa using List.find?_some hfind
    exact ⟨tail, rest, rfl, spells_symbol c _ (List.mem_of_find?_eq_some hfind), by rw [symbolAt, hfind]⟩
  · simp [Lexeme.refused] at h

theorem TokenKind.halts_nil (k : TokenKind) : k.Halts [] := by
  cases k <;> simp [Halts, fractionPart?]

/-- A slash that opens no comment begins a symbol. -/
theorem slashAt_symbol {cs : List Char} (h : ∀ c ∈ cs.head?, c ≠ '/' ∧ c ≠ '*') : slashAt cs = symbolAt '/' cs := by
  unfold slashAt
  split
  · exact absurd rfl (h '/' rfl).1
  · exact absurd rfl (h '*' rfl).2
  · rfl

theorem slashAt_of_token {cs : List Char} {k : TokenKind} (h : (slashAt cs).token = some k) :
    ∀ c ∈ cs.head?, c ≠ '/' ∧ c ≠ '*' := by
  unfold slashAt at h
  split at h
  · simp [Lexeme.comment] at h
  · split at h <;> simp [Lexeme.comment, Lexeme.refused] at h
  rename_i hslash hstar
  cases cs with
  | nil => simp
  | cons d cs =>
    rintro c ⟨⟩
    exact ⟨fun h => hslash cs (by rw [h]), fun h => hstar cs (by rw [h])⟩

/-- A symbol that begins with a slash opens no comment. -/
theorem cuts_slash {cs : List Char} {k : TokenKind} (h : (slashAt cs).token = some k) : k.Cuts slashAt '/' cs := by
  have hne := slashAt_of_token h
  rw [slashAt_symbol hne] at h
  obtain ⟨tail, rest, rfl, hspells, hread⟩ := cuts_symbol h
  refine ⟨tail, rest, rfl, ⟨hspells.display, fun rest' hr => ?_⟩, (slashAt_symbol hne).trans hread⟩
  rw [← hspells.reads rest' hr]
  refine slashAt_symbol ?_
  cases tail with
  | cons d tail => simpa using hne
  | nil =>
    obtain rfl : k = .operator .slash := by
      have := hspells.reads [] k.halts_nil
      simpa [symbolAt, symbolsFrom, List.find?, Lexeme.ofToken, eq_comm] using this
    cases rest' with
    | nil => simp
    | cons d rest' =>
      simp [TokenKind.Halts, Operator.extensions] at hr
      simp [hr]

/-! ### Names in backticks -/

theorem cuts_rawName {cs : List Char} {k : TokenKind} (h : (rawNameAt cs).token = some k) :
    k.Cuts rawNameAt '`' cs := by
  unfold rawNameAt at h
  generalize hraw : cs.takeWhile (fun c => c ≠ '`' && c ≠ '\n') = raw at h
  have hall : ∀ c ∈ raw, (c ≠ '`' && c ≠ '\n') = true := hraw ▸ of_mem_takeWhile
  have hcs : raw ++ cs.drop raw.length = cs := hraw ▸ takeWhile_append_drop _ cs
  dsimp only at h
  split at h
  · rename_i tail hdrop
    split at h
    · simp [Lexeme.refused] at h
    · rename_i hne
      obtain rfl : _ = k := by simpa [Lexeme.ofToken] using h
      have hread (rest : List Char) : rawNameAt (raw ++ '`' :: rest) =
          .ofToken (raw.length + 1) (.rawName (String.ofList raw)) := by
        unfold rawNameAt
        rw [takeWhile_append_halt hall (by simp)]
        simp [hne]
      rw [hdrop] at hcs
      refine ⟨raw ++ ['`'], tail, by simp [← hcs], ⟨?_, fun rest _ => ?_⟩, ?_⟩
      · simp [TokenKind.display]
      · simpa using hread rest
      · rw [← hcs, hread, List.length_append, List.length_singleton]
  · simp [Lexeme.refused] at h

/-! ### Escapes -/

/-- What ends a run of limited width, where the run could have gone on, is no part of it. -/
theorem head_drop_takeWhile (p : Char → Bool) {width : Nat} {cs : List Char}
    (h : ((cs.take width).takeWhile p).length < width) :
    ∀ c ∈ (cs.drop ((cs.take width).takeWhile p).length).head?, p c = false := by
  induction cs generalizing width with
  | nil => simp
  | cons c cs ih =>
    cases width with
    | zero => simp at h
    | succ width =>
      by_cases hp : p c = true
      · simp only [List.take_succ_cons, List.takeWhile_cons, hp, if_true, List.length_cons, List.drop_succ_cons] at h ⊢
        exact ih (by omega)
      · simp [hp]

theorem fixedEscape_read {width n : Nat} {build : String → Escape} {cs : List Char} {e : Escape}
    (h : fixedEscape width build cs = .read e n) :
    n = width + 1 ∧ e = build (String.ofList (cs.take width)) ∧ width ≤ cs.length ∧
      ∀ ds, ds.take width = cs.take width → fixedEscape width build ds = .read e n := by
  have hcongr (ds : List Char) (hd : ds.take width = cs.take width) : fixedEscape width build ds = .read e n := by
    rw [← h]
    unfold fixedEscape
    rw [hd]
  unfold fixedEscape at h
  dsimp only at h
  split at h
  · rename_i hl
    have hle : (cs.take width).length ≤ width := List.length_take_le _ _
    have hdigits : (cs.take width).takeWhile isHexDigit = cs.take width :=
      (List.takeWhile_prefix _).eq_of_length_le (by omega)
    have hle : width ≤ cs.length := by
      rw [hdigits, List.length_take] at hl
      omega
    rw [hdigits] at h
    simp only [EscapeRead.read.injEq] at h
    exact ⟨h.2.symm, h.1.symm, hle, hcongr⟩
  · simp at h

/-- An escape without a mark is a run of octal digits, or the one character. -/
theorem escapeAt_unmarked {c : Char} (hx : c ≠ 'x') (hu : c ≠ 'u') (cs : List Char) :
    escapeAt (c :: cs) = if isOctalDigit c then
      .read (.octal (String.ofList (c :: (cs.take 2).takeWhile isOctalDigit)))
        (c :: (cs.take 2).takeWhile isOctalDigit).length
      else .read (.simple c) 1 := by
  unfold escapeAt
  split
  · simp_all
  · rename_i hc
    exact absurd (List.cons.inj hc).1 hx
  · rename_i hc
    exact absurd (List.cons.inj hc).1 hu
  · rename_i hc
    obtain ⟨rfl, rfl⟩ := List.cons.inj hc
    rfl

/-- Whether a text leaves an escape that stands before it as it is, where the escape was read before `rest`: no octal
digit stands there but the one that the escape ended before. -/
def EndsEscape (rest rest' : List Char) : Prop := ∀ c ∈ rest'.head?, rest.head? = some c ∨ isOctalDigit c = false

/-- An escape is written as it was read, and read again where what follows leaves it as it is. -/
theorem escapeAt_reads {cs : List Char} {e : Escape} {n : Nat} (h : escapeAt cs = .read e n) :
    ∃ text rest, cs = text ++ rest ∧ text.length = n ∧ e.display.toList = '\\' :: text ∧
      ∀ rest', EndsEscape rest rest' → escapeAt (text ++ rest') = .read e n := by
  have hmark {width n : Nat} {build : String → Escape} {m : Char} {cs : List Char} {e : Escape}
      (hb : ∀ digits, (build digits).display = "\\" ++ m.toString ++ digits)
      (hm : ∀ cs, escapeAt (m :: cs) = fixedEscape width build cs) (h : fixedEscape width build cs = .read e n) :
      ∃ text rest, m :: cs = text ++ rest ∧ text.length = n ∧ e.display.toList = '\\' :: text ∧
        ∀ rest', EndsEscape rest rest' → escapeAt (text ++ rest') = .read e n := by
    obtain ⟨rfl, rfl, hle, hcongr⟩ := fixedEscape_read h
    refine ⟨m :: cs.take width, cs.drop width, by simp, by simp [hle], by simp [hb], fun rest' _ => ?_⟩
    rw [List.cons_append, hm]
    exact hcongr _ (by simp [hle])
  cases cs with
  | nil => simp [escapeAt] at h
  | cons c cs =>
    by_cases hx : c = 'x'
    · subst hx
      exact hmark (fun _ => rfl) (fun _ => rfl) h
    by_cases hu : c = 'u'
    · subst hu
      exact hmark (fun _ => rfl) (fun _ => rfl) h
    rw [escapeAt_unmarked hx hu] at h
    by_cases ho : isOctalDigit c = true
    · rw [if_pos ho] at h
      obtain ⟨rfl, rfl⟩ : _ ∧ _ := EscapeRead.read.inj h
      have hlength : ((cs.take 2).takeWhile isOctalDigit).length ≤ 2 :=
        Nat.le_trans (List.takeWhile_prefix _).length_le (List.length_take_le _ _)
      have htext : cs.take ((cs.take 2).takeWhile isOctalDigit).length = (cs.take 2).takeWhile isOctalDigit := by
        conv => rhs; rw [takeWhile_eq_take isOctalDigit (cs.take 2)]
        rw [List.take_take, Nat.min_eq_left hlength]
      have hall : ∀ c ∈ (cs.take 2).takeWhile isOctalDigit, isOctalDigit c = true := of_mem_takeWhile
      have hstop : ((cs.take 2).takeWhile isOctalDigit).length < 2 → _ := head_drop_takeWhile isOctalDigit
      generalize (cs.take 2).takeWhile isOctalDigit = digits at hlength htext hall hstop
      refine ⟨c :: digits, cs.drop digits.length, ?_, rfl, by simp [Escape.display],
        fun rest' hr => ?_⟩
      · conv => lhs; rw [← List.take_append_drop digits.length cs, htext]
        rfl
      -- a third digit ends the escape, and before that no octal digit follows
      have hagain : ((digits ++ rest').take 2).takeWhile isOctalDigit = digits := by
        rw [List.take_append, List.take_of_length_le hlength]
        by_cases h₂ : digits.length = 2
        · simp [h₂, List.takeWhile_eq_self_iff.2 hall]
        · refine takeWhile_append_halt hall fun d hd => ?_
          have hd : d ∈ rest'.head? := by
            cases rest' with
            | nil => simp at hd
            | cons a as =>
              rw [show 2 - digits.length = (1 - digits.length) + 1 by omega] at hd
              simpa using hd
          exact (hr d hd).elim (hstop (by omega) d) id
      rw [List.cons_append, escapeAt_unmarked hx hu, if_pos ho, hagain]
    · rw [if_neg ho] at h
      obtain ⟨rfl, rfl⟩ : _ ∧ _ := EscapeRead.read.inj h
      exact ⟨[c], cs, rfl, rfl, by simp [Escape.display], fun rest' _ => by
        rw [List.singleton_append, escapeAt_unmarked hx hu, if_neg ho]⟩

/-! ### Character literals -/

theorem closeChar_of_append (part : StrPart) (text rest : List Char) :
    closeChar part text.length (text ++ '\'' :: rest) = .ofToken (text.length + 1) (.char part) := by
  unfold closeChar
  rw [List.drop_left]
  rfl

theorem closeChar_token {part : StrPart} {taken : Nat} {cs : List Char} {k : TokenKind}
    (h : (closeChar part taken cs).token = some k) : k = .char part ∧ ∃ rest, cs.drop taken = '\'' :: rest := by
  unfold closeChar at h
  split at h
  · rename_i rest hdrop
    exact ⟨by simpa [Lexeme.ofToken, eq_comm] using h, rest, hdrop⟩
  · simp [Lexeme.refused] at h

theorem charAt_char {c : Char} (hn : c ≠ '\n') (hq : c ≠ '\'') (hb : c ≠ '\\') (cs : List Char) :
    charAt (c :: cs) = closeChar (.text (String.ofList [c])) 1 (c :: cs) := by
  unfold charAt
  split
  · simp_all
  · exact absurd (List.cons.inj ‹_›).1 hn
  · exact absurd (List.cons.inj ‹_›).1 hq
  · exact absurd (List.cons.inj ‹_›).1 hb
  · rename_i heq
    obtain ⟨rfl, rfl⟩ := List.cons.inj heq
    rfl

theorem cuts_char {cs : List Char} {k : TokenKind} (h : (charAt cs).token = some k) : k.Cuts charAt '\'' cs := by
  unfold charAt at h
  split at h
  · simp [Lexeme.refused] at h
  · simp [Lexeme.refused] at h
  · simp [Lexeme.refused] at h
  · rename_i cs
    split at h
    · simp [Lexeme.refused] at h
    · rename_i e n hescape
      obtain ⟨rfl, tail, hdrop⟩ := closeChar_token h
      obtain ⟨text, rest, rfl, rfl, hdisplay, hagain⟩ := escapeAt_reads hescape
      obtain rfl : rest = '\'' :: tail := by simpa using hdrop
      have hread (rest : List Char) : charAt ('\\' :: (text ++ '\'' :: rest)) =
          .ofToken (text.length + 2) (.char (.escape e)) := by
        simp only [charAt, hagain ('\'' :: rest) (by simp [EndsEscape])]
        exact closeChar_of_append _ ('\\' :: text) rest
      refine ⟨'\\' :: text ++ ['\''], tail, by simp, ⟨?_, fun rest _ => ?_⟩, ?_⟩
      · simp [TokenKind.display, StrPart.display, hdisplay]
      · simpa using hread rest
      · simpa using hread tail
    · simp at h
  · rename_i c cs hn hq hb
    obtain ⟨rfl, tail, hdrop⟩ := closeChar_token h
    obtain rfl : cs = '\'' :: tail := hdrop
    have hread (rest : List Char) : charAt (c :: '\'' :: rest) = .ofToken 2 (.char (.text (String.ofList [c]))) :=
      (charAt_char hn hq hb _).trans (closeChar_of_append _ [c] rest)
    exact ⟨[c, '\''], tail, rfl, ⟨by simp [TokenKind.display, StrPart.display], fun rest _ => hread rest⟩, hread tail⟩

/-! ### Strings -/

/-- The characters that an item of a string was read from. -/
def StringItem.text : StringItem → List Char
  | .char c => [c]
  | .escape e => e.display.toList

/-- The characters of a piece of a string: those of its text, or those of its escape. -/
def pieceText : List Char ⊕ Escape → List Char
  | .inl text => text
  | .inr e => e.display.toList

theorem toList_displayParts_map {f : List Char ⊕ Escape → StrPart}
    (hf : ∀ piece, (f piece).display.toList = pieceText piece)
    (pieces : List (List Char ⊕ Escape)) : (displayParts (pieces.map f)).toList = pieces.flatMap pieceText := by
  induction pieces with
  | nil => rfl
  | cons piece pieces ih =>
    simp only [displayParts, List.map_cons, String.join_cons, String.toList_append, List.flatMap_cons, hf] at ih ⊢
    rw [ih]

theorem flatMap_pieceText_consTo (item : StringItem) (pieces : List (List Char ⊕ Escape)) :
    (item.consTo pieces).flatMap pieceText = item.text ++ pieces.flatMap pieceText := by
  cases item with
  | escape e => rfl
  | char c =>
    cases pieces with
    | nil => rfl
    | cons piece pieces => cases piece <;> rfl

/-- The pieces of a string are written as the characters that they were read from. -/
theorem toList_displayParts (items : List StringItem) :
    (displayParts (partsOf items)).toList = items.flatMap StringItem.text := by
  unfold partsOf
  rw [toList_displayParts_map]
  · induction items with
    | nil => rfl
    | cons item items ih => rw [List.foldr_cons, flatMap_pieceText_consTo, ih, List.flatMap_cons]
  · rintro (text | e) <;> simp [pieceText, StrPart.display]

/-- What follows an escape with too few digits is no digit. -/
theorem escapeAt_short {cs : List Char} {digits : String} {n : Nat} (h : escapeAt cs = .short digits n) :
    ∀ c ∈ (cs.drop n).head?, isOctalDigit c = false := by
  have hoctal {c : Char} (hc : isHexDigit c = false) : isOctalDigit c = false := by
    unfold isHexDigit digitValue? at hc
    unfold isOctalDigit digitValue?
    grind
  have hmark {width : Nat} {build : String → Escape} {m : Char} {cs : List Char}
      (h : fixedEscape width build cs = .short digits n) : ∀ c ∈ ((m :: cs).drop n).head?, isOctalDigit c = false := by
    unfold fixedEscape at h
    dsimp only at h
    split at h
    · simp at h
    · rename_i hl
      obtain ⟨-, rfl⟩ : _ ∧ _ := EscapeRead.short.inj h
      have hle := (List.takeWhile_prefix (p := isHexDigit) (l := cs.take width)).length_le
      have := List.length_take_le width cs
      exact fun c hc => hoctal (head_drop_takeWhile _ (by omega) c hc)
  cases cs with
  | nil => simp [escapeAt] at h
  | cons c cs =>
    by_cases hx : c = 'x'
    · subst hx
      exact hmark h
    by_cases hu : c = 'u'
    · subst hu
      exact hmark h
    rw [escapeAt_unmarked hx hu] at h
    split at h <;> simp at h

/-- The items of a string as they are written. -/
def itemsText (items : List StringItem) : List Char := items.flatMap StringItem.text

@[simp] theorem itemsText_nil : itemsText [] = [] := rfl

@[simp] theorem itemsText_char (c : Char) (items : List StringItem) :
    itemsText (.char c :: items) = c :: itemsText items := rfl

theorem itemsText_escape {e : Escape} {text : List Char} (h : e.display.toList = '\\' :: text)
    (items : List StringItem) : itemsText (.escape e :: items) = '\\' :: (text ++ itemsText items) := by
  simp [itemsText, StringItem.text, h]

section
variable {fuel place : Nat} {c : Char} {cs : List Char}

theorem stringBodyFrom_char (hn : c ≠ '\n') (hq : c ≠ '"') (hb : c ≠ '\\') : stringBodyFrom (fuel + 1) place (c :: cs) =
    (stringBodyFrom fuel (place + 1) cs).push 1 (some (.char c)) [] := by
  rw [stringBodyFrom, if_neg hn, if_neg hq, if_neg hb]

theorem stringBodyFrom_escape {e : Escape} {n : Nat} (h : escapeAt cs = .read e n) :
    stringBodyFrom (fuel + 1) place ('\\' :: cs) =
      (stringBodyFrom fuel (place + 1 + n) (cs.drop n)).push (1 + n) (some (.escape e)) [] := by
  simp [stringBodyFrom, h]

theorem stringBodyFrom_short {digits : String} {n : Nat} (h : escapeAt cs = .short digits n) :
    stringBodyFrom (fuel + 1) place ('\\' :: cs) =
      (stringBodyFrom fuel (place + 1 + n) (cs.drop n)).push (1 + n) none
        [⟨.shortEscape digits, place, place + 1 + n⟩] := by
  simp [stringBodyFrom, h]

end

/-- Items that are read as a string from what is written for them.  An escape that was read before `cs` also ends
before them. -/
structure RereadsBody (items : List StringItem) (cs : List Char) : Prop where
  ends : ∀ rest, EndsEscape cs (itemsText items ++ '"' :: rest)
  reads : ∀ fuel place rest, (itemsText items).length < fuel →
    stringBodyFrom fuel place (itemsText items ++ '"' :: rest) = ⟨(itemsText items).length + 1, items, [], true⟩

namespace RereadsBody

variable {items : List StringItem} {cs : List Char}

theorem nil (cs : List Char) : RereadsBody [] cs := by
  refine ⟨fun rest => ?_, fun fuel place rest hle => ?_⟩
  · rintro _ ⟨⟩
    exact .inr (by decide)
  · cases fuel with
    | zero => simp at hle
    | succ fuel => simp [stringBodyFrom]

/-- An escape that was left out does not matter: no digit follows it. -/
theorem skip (h : RereadsBody items cs) (hcs : ∀ c ∈ cs.head?, isOctalDigit c = false) (cs' : List Char) :
    RereadsBody items cs' :=
  ⟨fun rest c hc => .inr ((h.ends rest c hc).elim (hcs c) id), h.reads⟩

theorem char (h : RereadsBody items cs) {c : Char} (hn : c ≠ '\n') (hq : c ≠ '"') (hb : c ≠ '\\') :
    RereadsBody (.char c :: items) (c :: cs) := by
  refine ⟨fun rest => ?_, fun fuel place rest hle => ?_⟩
  · rintro _ ⟨⟩
    exact .inl rfl
  · obtain ⟨fuel, rfl⟩ : ∃ n, fuel = n + 1 := ⟨fuel - 1, by omega⟩
    rw [itemsText_char, List.cons_append, stringBodyFrom_char hn hq hb, h.reads _ _ _ (by simpa using hle)]
    rfl

theorem escape (h : RereadsBody items cs) {text : List Char} {e : Escape} (hdisplay : e.display.toList = '\\' :: text)
    (hread : ∀ rest, EndsEscape cs rest → escapeAt (text ++ rest) = .read e text.length) (cs' : List Char) :
    RereadsBody (.escape e :: items) cs' := by
  refine ⟨fun rest => ?_, fun fuel place rest hle => ?_⟩ <;> rw [itemsText_escape hdisplay] at *
  · rintro _ ⟨⟩
    exact .inr (by decide)
  · simp only [List.length_cons, List.length_append] at hle
    obtain ⟨fuel, rfl⟩ : ∃ n, fuel = n + 1 := ⟨fuel - 1, by omega⟩
    rw [List.cons_append, List.append_assoc, stringBodyFrom_escape (hread _ (h.ends rest)), List.drop_left,
      h.reads _ _ _ (by omega)]
    simp [StringBody.push]
    omega

end RereadsBody

/-- The items of a closed string are read again from what is written for them, whatever was wrong among its escapes.
Where nothing was, they are all of its text. -/
theorem stringBodyFrom_closed {fuel place : Nat} {cs : List Char} (hc : (stringBodyFrom fuel place cs).closed = true) :
    RereadsBody (stringBodyFrom fuel place cs).items cs ∧ ((stringBodyFrom fuel place cs).faults = [] →
      ∃ rest, cs = itemsText (stringBodyFrom fuel place cs).items ++ '"' :: rest) := by
  induction fuel generalizing place cs with
  | zero => simp [stringBodyFrom] at hc
  | succ fuel ih =>
    cases cs with
    | nil => simp [stringBodyFrom] at hc
    | cons c cs =>
      by_cases hn : c = '\n'
      · simp [stringBodyFrom, hn] at hc
      by_cases hq : c = '"'
      · subst hq
        exact ⟨by simpa [stringBodyFrom] using .nil _, fun _ => ⟨cs, by simp [stringBodyFrom]⟩⟩
      by_cases hb : c = '\\'
      · subst hb
        cases hescape : escapeAt cs with
        | atEnd => simp [stringBodyFrom, hescape] at hc
        | read e n =>
          obtain ⟨text, rest, rfl, rfl, hdisplay, hagain⟩ := escapeAt_reads hescape
          rw [stringBodyFrom_escape hescape, List.drop_left] at hc ⊢
          obtain ⟨hitems, htext⟩ := ih hc
          refine ⟨hitems.escape hdisplay hagain _, fun hf => ?_⟩
          obtain ⟨rest', hrest⟩ := htext hf
          refine ⟨rest', ?_⟩
          change _ = itemsText (.escape e :: (stringBodyFrom fuel (place + 1 + text.length) rest).items) ++ _
          rw [itemsText_escape hdisplay, List.cons_append, List.append_assoc, ← hrest]
        | short digits n =>
          rw [stringBodyFrom_short hescape] at hc ⊢
          exact ⟨(ih hc).1.skip (escapeAt_short hescape) _, fun hf => by simp [StringBody.push] at hf⟩
      · rw [stringBodyFrom_char hn hq hb] at hc ⊢
        obtain ⟨hitems, htext⟩ := ih hc
        refine ⟨hitems.char hn hq hb, fun hf => ?_⟩
        obtain ⟨rest, hrest⟩ := htext hf
        exact ⟨rest, congrArg (c :: ·) hrest⟩

theorem stringAt_of_closed {cs : List Char} (hc : (stringBodyFrom (cs.length + 1) 1 cs).closed = true) :
    stringAt cs =
      { more := (stringBodyFrom (cs.length + 1) 1 cs).length
        token := some (.str (partsOf (stringBodyFrom (cs.length + 1) 1 cs).items))
        faults := (stringBodyFrom (cs.length + 1) 1 cs).faults } := by
  simp [stringAt, hc]

theorem closed_of_token {cs : List Char} {k : TokenKind} (h : (stringAt cs).token = some k) :
    (stringBodyFrom (cs.length + 1) 1 cs).closed = true := by
  by_contra hc
  simp [stringAt, hc] at h

/-- A string is read again from its items, also where some of its escapes were left out. -/
theorem spells_string {cs : List Char} {k : TokenKind} (h : (stringAt cs).token = some k) :
    ∃ text, k.Spells stringAt '"' text ∧ ((stringAt cs).faults = [] → ∃ rest, cs = text ++ rest) := by
  have hc := closed_of_token h
  obtain ⟨hitems, htext⟩ := stringBodyFrom_closed hc
  rw [stringAt_of_closed hc] at h ⊢
  obtain rfl : _ = k := Option.some.inj h
  generalize (stringBodyFrom (cs.length + 1) 1 cs).items = items at hitems htext
  refine ⟨itemsText items ++ ['"'], ⟨?_, fun rest _ => ?_⟩, fun hf => ?_⟩
  · simp [TokenKind.display, toList_displayParts, itemsText]
  · rw [List.append_assoc, List.singleton_append]
    have hread := hitems.reads ((itemsText items ++ '"' :: rest).length + 1) 1 rest (by rw [List.length_append]; omega)
    rw [stringAt_of_closed (by rw [hread]), hread]
    simp [Lexeme.ofToken]
  · obtain ⟨rest, hrest⟩ := htext hf
    exact ⟨rest, by simpa using hrest⟩

theorem str_of_stringAt {cs : List Char} {k : TokenKind} (h : (stringAt cs).token = some k) : ∃ parts,
    k = .str parts := by
  rw [stringAt_of_closed (closed_of_token h)] at h
  exact ⟨_, (Option.some.inj h).symm⟩

theorem cuts_string {cs : List Char} {k : TokenKind} (h : (stringAt cs).token = some k)
    (hf : (stringAt cs).faults = []) :
    k.Cuts stringAt '"' cs := by
  obtain ⟨text, hspells, htext⟩ := spells_string h
  obtain ⟨rest, rfl⟩ := htext hf
  obtain ⟨parts, rfl⟩ := str_of_stringAt h
  exact ⟨text, rest, rfl, hspells, hspells.reads rest trivial⟩

/-! ### Numbers -/

/-- Whether a run of digits and `_` ends before a text. -/
def EndsRun (isDigit : Char → Bool) (rest : List Char) : Prop := ∀ c ∈ rest.head?, (isDigit c || c = '_') = false

theorem isWordPart_of_digit {c : Char} (h : c.isDigit = true) : isWordPart c = true := by
  simp [isWordPart, Char.isAlphanum, h]

theorem isWordPart_of_digitValue? {radix : Nat} {c : Char} (h : (digitValue? radix c).isSome = true) :
    isWordPart c = true := by
  have hhex : c.isDigit = true ∨ ('a' ≤ c ∧ c ≤ 'f') ∨ ('A' ≤ c ∧ c ≤ 'F') := by
    unfold digitValue? at h
    by_contra hno
    simp only [not_or] at hno
    simp [hno.1, hno.2] at h
  have hletter (h : c.isUpper = true ∨ c.isLower = true) : isWordPart c = true := by
    have halpha : c.isAlpha = true := Bool.or_eq_true_iff.2 h
    simp [isWordPart, Char.isAlphanum, halpha]
  rcases hhex with hd | ⟨hl, hu⟩ | ⟨hl, hu⟩
  · exact isWordPart_of_digit hd
  · have hz : c ≤ 'z' := Nat.le_trans hu (by decide)
    exact hletter (.inr (Bool.and_eq_true_iff.2 ⟨decide_eq_true hl, decide_eq_true hz⟩))
  · have hz : c ≤ 'Z' := Nat.le_trans hu (by decide)
    exact hletter (.inl (decide_eq_true ⟨hl, hz⟩))

theorem endsRun_of_wordPart {isDigit : Char → Bool} (hd : ∀ c, isDigit c = true → isWordPart c = true)
    {rest : List Char} (h : ∀ c ∈ rest.head?, isWordPart c = false) : EndsRun isDigit rest := by
  intro c hc
  have hw := h c hc
  by_contra hno
  rw [Bool.not_eq_false, Bool.or_eq_true, decide_eq_true_eq] at hno
  rcases hno with hno | rfl
  · simp [hd c hno] at hw
  · exact absurd hw (by decide)

/-- A run of digits is cut off a text, and off any other in which it ends at the same place. -/
theorem digitRun_reads (isDigit : Char → Bool) (cs : List Char) : ∃ rest, cs = digitRun isDigit cs ++ rest ∧
    ∀ rest', EndsRun isDigit rest' → digitRun isDigit (digitRun isDigit cs ++ rest') = digitRun isDigit cs :=
  ⟨_, (takeWhile_append_drop _ cs).symm, fun _ h => takeWhile_append_halt of_mem_takeWhile h⟩

theorem fractionPart?_reads {cs : List Char} {part : NumberPart} (h : fractionPart? cs = some part) :
    ∃ text rest, cs = text ++ rest ∧ part.length = text.length ∧ text.head? = some '.' ∧
      ∀ rest', EndsRun Char.isDigit rest' → fractionPart? (text ++ rest') = some part := by
  unfold fractionPart? at h
  split at h
  · rename_i c cs
    split at h
    · rename_i hc
      obtain rfl := Option.some.inj h
      obtain ⟨rest, hcs, hread⟩ := digitRun_reads Char.isDigit (c :: cs)
      obtain ⟨run, hrun⟩ : ∃ run, digitRun Char.isDigit (c :: cs) = c :: run := ⟨_, by simp [digitRun, hc]; rfl⟩
      rw [hrun] at hcs hread ⊢
      refine ⟨'.' :: c :: run, rest, by simpa using hcs, rfl, rfl, fun rest' hr => ?_⟩
      have hagain := hread rest' hr
      simp only [List.cons_append] at hagain ⊢
      simp only [fractionPart?, hc, if_true, hagain]
    · simp at h
  · simp at h

/-- The number of characters of the sign at the head of an exponent. -/
def signLength : List Char → Nat
  | '+' :: _ | '-' :: _ => 1
  | _ => 0

theorem exponentPart?_cons (e : Char) (cs : List Char) : exponentPart? (e :: cs) = if e = 'e' || e = 'E' then
    some ⟨(digitRun Char.isDigit (cs.drop (signLength cs))).length + signLength cs + 1,
      isDigitGroup Char.isDigit (digitRun Char.isDigit (cs.drop (signLength cs)))⟩ else none :=
  rfl

/-- Whether there is a sign shows from the first character. -/
theorem signLength_reads (cs : List Char) : ∃ sign rest, cs = sign ++ rest ∧ signLength cs = sign.length ∧
    ∀ rest', rest'.head? = rest.head? → signLength (sign ++ rest') = sign.length := by
  unfold signLength
  split
  · rename_i cs
    exact ⟨['+'], cs, rfl, rfl, fun rest' _ => rfl⟩
  · rename_i cs
    exact ⟨['-'], cs, rfl, rfl, fun rest' _ => rfl⟩
  · rename_i hplus hminus
    refine ⟨[], cs, rfl, rfl, fun rest' hr => ?_⟩
    rw [List.nil_append]
    split
    · cases cs with
      | nil => simp at hr
      | cons c cs => exact absurd (by simpa using hr.symm) fun h : c = '+' => hplus cs (by rw [h])
    · cases cs with
      | nil => simp at hr
      | cons c cs => exact absurd (by simpa using hr.symm) fun h : c = '-' => hminus cs (by rw [h])
    · rfl

theorem exponentPart?_reads {cs : List Char} {part : NumberPart} (h : exponentPart? cs = some part)
    (hv : part.valid = true) :
    ∃ text rest, cs = text ++ rest ∧ part.length = text.length ∧ (text.head? = some 'e' ∨ text.head? = some 'E') ∧
      ∀ rest', EndsRun Char.isDigit rest' → exponentPart? (text ++ rest') = some part := by
  cases cs with
  | nil => simp [exponentPart?] at h
  | cons e cs =>
    rw [exponentPart?_cons] at h
    by_cases he : (e = 'e' || e = 'E') = true
    · rw [if_pos he] at h
      obtain rfl := Option.some.inj h
      obtain ⟨sign, digits, rfl, hsign, hagain⟩ := signLength_reads cs
      rw [hsign, List.drop_left] at hv ⊢
      obtain ⟨rest, hdigits, hread⟩ := digitRun_reads Char.isDigit digits
      generalize digitRun Char.isDigit digits = run at hdigits hread hv
      subst hdigits
      cases run with
      | nil => simp [isDigitGroup] at hv
      | cons d run =>
        refine ⟨e :: sign ++ d :: run, rest, by simp, ?_, by simpa using he, fun rest' hr => ?_⟩
        · simp only [List.length_cons, List.length_append]
          omega
        · have hsign' := hagain (d :: run ++ rest') (by simp)
          simp only [List.cons_append, List.append_assoc] at hsign' hread ⊢
          rw [exponentPart?_cons, if_pos he, hsign', List.drop_left, hread rest' hr]
    · rw [if_neg he] at h
      simp at h

/-- The mark of a number in another radix than ten, with the form and the digits that belong to it. -/
def radixOf? : Char → Option (NumberKind × (Char → Bool))
  | 'x' | 'X' => some (.hex, isHexDigit)
  | 'o' | 'O' => some (.octal, isOctalDigit)
  | 'b' | 'B' => some (.binary, isBinaryDigit)
  | _ => none

/-- The form of a number with the given digits behind the first, and with a fraction and an exponent or without. -/
def partsShape (c : Char) (whole : List Char) (fraction exponent : Option NumberPart) : NumberKind × NumberPart :=
  (if exponent.isSome then .scientific else if fraction.isSome then .float else .decimal,
    ⟨whole.length + (fraction.map NumberPart.length).getD 0 + (exponent.map NumberPart.length).getD 0 + 1,
      isDigitGroup Char.isDigit (c :: whole) && (fraction.map NumberPart.valid).getD true &&
        (exponent.map NumberPart.valid).getD true⟩)

/-- The form of a number that begins with no radix mark. -/
def decimalShape (c : Char) (cs : List Char) : NumberKind × NumberPart :=
  let whole := digitRun Char.isDigit cs
  let fraction := fractionPart? (cs.drop whole.length)
  partsShape c whole fraction (exponentPart? (cs.drop (whole.length + (fraction.map NumberPart.length).getD 0)))

/-- The parts of a number stand one behind the other. -/
theorem decimalShape_eq {c : Char} {whole fraction rest : List Char}
    (hw : digitRun Char.isDigit (whole ++ (fraction ++ rest)) = whole)
    (hf : ((fractionPart? (fraction ++ rest)).map NumberPart.length).getD 0 = fraction.length) :
    decimalShape c (whole ++ (fraction ++ rest)) =
      partsShape c whole (fractionPart? (fraction ++ rest)) (exponentPart? rest) := by
  have hdrop : (whole ++ (fraction ++ rest)).drop (whole.length + fraction.length) = rest := by
    rw [← List.append_assoc, ← List.length_append, List.drop_left]
  simp only [decimalShape, hw, List.drop_left, hf, hdrop]

theorem numberShape_radix {mark : Char} {kind : NumberKind} {isDigit : Char → Bool} (digits : List Char)
    (h : radixOf? mark = some (kind, isDigit)) : numberShape '0' (mark :: digits) =
      (kind, ⟨(digitRun isDigit digits).length + 2, isDigitGroup isDigit (digitRun isDigit digits)⟩) := by
  unfold radixOf? at h
  split at h <;> simp only [Option.some.injEq, Prod.mk.injEq, reduceCtorEq] at h
  all_goals
    obtain ⟨rfl, rfl⟩ := h
    rfl

theorem numberShape_decimal {c : Char} {cs : List Char} (h : c = '0' → ∀ m ∈ cs.head?, radixOf? m = none) :
    numberShape c cs = decimalShape c cs := by
  unfold numberShape
  dsimp only
  split
  all_goals first
    | (exact absurd (h rfl _ rfl) (by decide))
    | skip
  simp only [decimalShape, partsShape, List.length_cons, Nat.add_sub_cancel, Nat.add_right_comm _ 1]

/-- An optional part of a number, with the text it was read from. -/
theorem optionalPart_reads {read : List Char → Option NumberPart} (heads : List Char) {cs : List Char}
    {ends : List Char → Prop}
    (hread : ∀ part, read cs = some part → part.valid = true → ∃ text rest, cs = text ++ rest ∧
      part.length = text.length ∧ (∃ c ∈ heads, text.head? = some c) ∧ ∀ rest', ends rest' →
        read (text ++ rest') = some part)
    (hv : ((read cs).map NumberPart.valid).getD true = true) :
    ∃ text rest, cs = text ++ rest ∧ ((read cs).map NumberPart.length).getD 0 = text.length ∧
      (∀ c ∈ text.head?, c ∈ heads) ∧ ∀ rest', ends rest' → (read rest = none → read rest' = none) →
        read (text ++ rest') = read cs := by
  cases h : read cs with
  | none => exact ⟨[], cs, rfl, rfl, by simp, fun rest' _ hr => hr h⟩
  | some part =>
    rw [h] at hv
    obtain ⟨text, rest, rfl, hlength, ⟨c, hc, hhead⟩, hagain⟩ := hread part h hv
    refine ⟨text, rest, rfl, hlength, ?_, fun rest' he _ => hagain rest' he⟩
    rw [hhead]
    rintro _ ⟨⟩
    exact hc

/-- A number without a radix mark is cut off a text, and off any other where no letter follows, and no fraction unless
one follows there. -/
theorem decimalShape_reads {c : Char} {cs : List Char} (hv : (decimalShape c cs).2.valid = true) :
    ∃ text rest, cs = text ++ rest ∧ (decimalShape c cs).2.length = text.length + 1 ∧
      ∀ rest', (∀ c ∈ rest'.head?, isWordPart c = false) → (fractionPart? rest = none → fractionPart? rest' = none) →
        decimalShape c (text ++ rest') = decimalShape c cs := by
  obtain ⟨rest₁, hcs, hwhole⟩ := digitRun_reads Char.isDigit cs
  have hvalid := hv
  simp only [decimalShape, partsShape, Bool.and_eq_true] at hvalid
  generalize hw : digitRun Char.isDigit cs = whole at hcs hwhole hvalid
  subst hcs
  rw [List.drop_left] at hvalid
  obtain ⟨fraction, rest₂, rfl, hfl, hfhead, hfread⟩ := optionalPart_reads ['.']
    (fun part h _ => by
      obtain ⟨text, rest, ht, hl, hh, hr⟩ := fractionPart?_reads h
      exact ⟨text, rest, ht, hl, ⟨'.', by simp, hh⟩, hr⟩) hvalid.1.2
  rw [decimalShape_eq hw hfl] at hv ⊢
  simp only [partsShape, Bool.and_eq_true] at hv
  obtain ⟨exponent, rest₃, rfl, hel, hehead, heread⟩ := optionalPart_reads ['e', 'E']
    (fun part h hv => by
      obtain ⟨text, rest, ht, hl, hh, hr⟩ := exponentPart?_reads h hv
      refine ⟨text, rest, ht, hl, ?_, hr⟩
      rcases hh with hh | hh
      · exact ⟨'e', by simp, hh⟩
      · exact ⟨'E', by simp, hh⟩) hv.2
  refine ⟨whole ++ (fraction ++ exponent), rest₃, by simp, ?_, fun rest' hr hf => ?_⟩
  · simp only [partsShape, hfl, hel, List.length_append]
    omega
  -- what stands behind each part ends it
  have hend := endsRun_of_wordPart (fun _ => isWordPart_of_digit) hr
  have hend₃ : EndsRun Char.isDigit (exponent ++ rest') := by
    cases exponent with
    | nil => exact hend
    | cons e es =>
      have := hehead e rfl
      rintro _ ⟨⟩
      simp only [List.mem_cons, List.not_mem_nil, or_false] at this
      rcases this with rfl | rfl <;> decide
  have hend₂ : EndsRun Char.isDigit (fraction ++ (exponent ++ rest')) := by
    cases fraction with
    | nil => exact hend₃
    | cons d ds =>
      obtain rfl : d = '.' := by simpa using hfhead d rfl
      rintro _ ⟨⟩
      decide
  have hnone : fractionPart? (exponent ++ rest₃) = none → fractionPart? (exponent ++ rest') = none := by
    cases exponent with
    | nil => exact hf
    | cons e es =>
      have := hehead e rfl
      simp only [List.mem_cons, List.not_mem_nil, or_false] at this
      rcases this with rfl | rfl <;> exact fun _ => rfl
  have hnone' : exponentPart? rest' = none := by
    cases rest' with
    | nil => rfl
    | cons d ds =>
      have hd := hr d rfl
      rw [exponentPart?_cons, if_neg]
      intro he
      have : d = 'e' ∨ d = 'E' := by simpa using he
      rcases this with rfl | rfl <;> exact absurd hd (by decide)
  have hf' := hfread _ hend₃ hnone
  rw [List.append_assoc, List.append_assoc, decimalShape_eq (hwhole _ hend₂) (by rw [hf', hfl]), hf',
    heread _ hend fun _ => hnone']

theorem isWordPart_of_radixOf? {mark : Char} {kind : NumberKind} {isDigit : Char → Bool}
    (h : radixOf? mark = some (kind, isDigit)) :
    isWordPart mark = true ∧ ∀ c, isDigit c = true → isWordPart c = true := by
  unfold radixOf? at h
  split at h <;> simp only [Option.some.injEq, Prod.mk.injEq, reduceCtorEq] at h
  all_goals
    obtain ⟨-, rfl⟩ := h
    exact ⟨by decide, fun _ => isWordPart_of_digitValue?⟩

/-- A number in another radix, or without a mark, is cut off a text, and off any other where no letter follows, and no
fraction unless one follows there. -/
theorem numberShape_reads {c : Char} {cs : List Char} (hv : (numberShape c cs).2.valid = true) :
    ∃ text rest, cs = text ++ rest ∧ (numberShape c cs).2.length = text.length + 1 ∧
      ∀ rest', (∀ c ∈ rest'.head?, isWordPart c = false) → (fractionPart? rest = none → fractionPart? rest' = none) →
        numberShape c (text ++ rest') = numberShape c cs := by
  by_cases hradix : c = '0' ∧ ∃ mark digits form, cs = mark :: digits ∧ radixOf? mark = some form
  · obtain ⟨rfl, mark, digits, ⟨kind, isDigit⟩, rfl, hmark⟩ := hradix
    obtain ⟨rest, hdigits, hread⟩ := digitRun_reads isDigit digits
    rw [numberShape_radix digits hmark]
    generalize hrun : digitRun isDigit digits = run at hdigits hread
    subst hdigits
    refine ⟨mark :: run, rest, rfl, rfl, fun rest' hr _ => ?_⟩
    rw [List.cons_append, numberShape_radix _ hmark,
      hread rest' (endsRun_of_wordPart (isWordPart_of_radixOf? hmark).2 hr)]
  · have hdecimal : c = '0' → ∀ m ∈ cs.head?, radixOf? m = none := by
      intro hc m hm
      rw [Option.eq_none_iff_forall_ne_some]
      intro form hform
      cases cs with
      | nil => simp at hm
      | cons d ds =>
        obtain rfl : d = m := by simpa using hm
        exact hradix ⟨hc, d, ds, form, rfl, hform⟩
    rw [numberShape_decimal hdecimal] at hv ⊢
    obtain ⟨text, rest, rfl, hlength, hread⟩ := decimalShape_reads hv
    refine ⟨text, rest, rfl, hlength, fun rest' hr hf => ?_⟩
    rw [numberShape_decimal fun hc m hm => ?_, hread rest' hr hf]
    cases text with
    | cons d ds => exact hdecimal hc m (by simpa using hm)
    | nil =>
      rw [Option.eq_none_iff_forall_ne_some]
      rintro ⟨kind, isDigit⟩ hform
      have := hr m hm
      rw [(isWordPart_of_radixOf? hform).1] at this
      simp at this

/-- A number is read as one. -/
theorem number_of_numberAt {c : Char} {cs : List Char} {k : TokenKind} (h : (numberAt c cs).token = some k) :
    ∃ n, k = .number n := by
  unfold numberAt at h
  dsimp only at h
  split at h
  · exact ⟨_, (Option.some.inj h).symm⟩
  · simp [Lexeme.refused] at h

/-- A number is cut off a text, and off any other where no letter follows, and no fraction unless one follows there. -/
theorem numberAt_reads {c : Char} {cs : List Char} {k : TokenKind} (h : (numberAt c cs).token = some k) :
    ∃ text rest, cs = text ++ rest ∧ k.display.toList = c :: text ∧ numberAt c cs = .ofToken text.length k ∧
      (∀ c ∈ rest.head?, isWordPart c = false) ∧ ∀ rest', (∀ c ∈ rest'.head?, isWordPart c = false) →
        (fractionPart? rest = none → fractionPart? rest' = none) →
          numberAt c (text ++ rest') = .ofToken text.length k := by
  have hread {text rest : List Char} (hv : (numberShape c (text ++ rest)).2.valid = true)
      (hl : (numberShape c (text ++ rest)).2.length = text.length + 1) (hr : rest.takeWhile isWordPart = []) :
      numberAt c (text ++ rest) =
        .ofToken text.length (.number ⟨(numberShape c (text ++ rest)).1, String.ofList (c :: text)⟩) := by
    simp [numberAt, hv, hl, hr]
  have hhead {rest : List Char} (h : ∀ c ∈ rest.head?, isWordPart c = false) : rest.takeWhile isWordPart = [] :=
    takeWhile_append_halt (List.forall_mem_nil _) h
  by_cases hv : (numberShape c cs).2.valid = true
  · obtain ⟨text, rest, rfl, hl, hagain⟩ := numberShape_reads hv
    by_cases hr : rest.takeWhile isWordPart = []
    · rw [hread hv hl hr] at h
      obtain rfl : _ = k := Option.some.inj h
      refine ⟨text, rest, rfl, by simp [TokenKind.display], hread hv hl hr, fun d hd => ?_, fun rest' hw hf => ?_⟩
      · rw [← Bool.not_eq_true]
        intro hd'
        obtain ⟨ds, rfl⟩ : ∃ ds, rest = d :: ds := List.head?_eq_some_iff.1 hd
        simp [hd'] at hr
      have hshape := hagain rest' hw hf
      rw [hread (by rw [hshape, hv]) (by rw [hshape, hl]) (hhead hw), hshape]
    · simp [numberAt, hv, hl, hr, Lexeme.refused] at h
  · simp [numberAt, hv, Lexeme.refused] at h

theorem cuts_number {c : Char} {cs : List Char} {k : TokenKind} (h : (numberAt c cs).token = some k) :
    k.Cuts (numberAt c) c cs := by
  obtain ⟨n, rfl⟩ := number_of_numberAt h
  obtain ⟨text, rest, rfl, hdisplay, hself, -, hread⟩ := numberAt_reads h
  exact ⟨text, rest, rfl, ⟨hdisplay, fun rest' hr => hread rest' hr.1 fun _ => hr.2⟩, hself⟩

/-! ### Any token -/

theorem cuts_word {c : Char} {cs : List Char} {k : TokenKind} (h : (wordAt c cs).token = some k) :
    k.Cuts (wordAt c) c cs := by
  obtain rfl : _ = k := Option.some.inj h
  exact ⟨_, _, (takeWhile_append_drop isWordPart cs).symm, spells_word of_mem_takeWhile, rfl⟩

/-- The reader of what begins with a character, unless that is blank or a backslash. -/
def readerFrom (c : Char) : List Char → Lexeme :=
  if c = '/' then slashAt
  else if c = '"' then stringAt
  else if c = '\'' then charAt
  else if c = '`' then rawNameAt
  else if c.isDigit then numberAt c
  else if isWordStart c then wordAt c
  else symbolAt c

theorem lexemeAt_eq {c : Char} (hb : isBlank c = false) (hc : c ≠ '\\') : lexemeAt c = readerFrom c := by
  funext cs
  unfold lexemeAt readerFrom
  rw [hb, if_neg Bool.false_ne_true, if_neg hc]
  repeat' split
  all_goals rfl

theorem token_of_blank {c : Char} {cs : List Char} (h : isBlank c = true ∨ c = '\\') :
    (lexemeAt c cs).token = none := by
  unfold lexemeAt
  split
  · rfl
  · rename_i hb
    rw [if_pos (h.resolve_left hb)]
    split <;> rfl

theorem lexemeAt_of_token {c : Char} {cs : List Char} {k : TokenKind} (h : (lexemeAt c cs).token = some k) :
    lexemeAt c = readerFrom c := by
  refine lexemeAt_eq ?_ fun hc => ?_
  · rw [← Bool.not_eq_true]
    intro hb
    simp [token_of_blank (.inl hb)] at h
  · simp [token_of_blank (.inr hc)] at h

/-- A token that was cut off a text without a fault would be cut off any other text that begins alike.  Only a string
is cut off in spite of faults. -/
theorem cuts_lexemeAt {c : Char} {cs : List Char} {k : TokenKind} (h : (lexemeAt c cs).token = some k)
    (hf : (lexemeAt c cs).faults = [] ∨ ∀ parts, k ≠ .str parts) : k.Cuts (lexemeAt c) c cs := by
  have hreader := lexemeAt_of_token h
  rw [hreader] at h hf ⊢
  unfold readerFrom at h hf ⊢
  split_ifs at h hf ⊢ with h₁ h₂ h₃ h₄
  · exact h₁ ▸ cuts_slash h
  · refine h₂ ▸ cuts_string h (hf.resolve_right fun hs => ?_)
    obtain ⟨parts, rfl⟩ := str_of_stringAt h
    exact hs parts rfl
  · exact h₃ ▸ cuts_char h
  · exact h₄ ▸ cuts_rawName h
  · exact cuts_number h
  · exact cuts_word h
  · exact cuts_symbol h

/-! ### Tokens that can be read -/

/-- A token can be read from its text, also where faults were found in what it was cut from. -/
theorem legible_of_lexemeAt {c : Char} {cs : List Char} {k : TokenKind} (h : (lexemeAt c cs).token = some k) :
    k.Legible := by
  have hspells {read : List Char → Lexeme} (hread : lexemeAt c = read) (h : k.Cuts read c cs) : k.Legible := by
    obtain ⟨text, _, -, hspells, -⟩ := h
    exact ⟨c, text, hread ▸ hspells⟩
  have hreader := lexemeAt_of_token h
  rw [hreader] at h
  unfold readerFrom at h hreader
  split_ifs at h hreader with h₁ h₂ h₃ h₄
  · exact hspells hreader (h₁ ▸ cuts_slash h)
  · obtain ⟨text, hstring, -⟩ := spells_string h
    exact ⟨c, text, hreader ▸ h₂ ▸ hstring⟩
  · exact hspells hreader (h₃ ▸ cuts_char h)
  · exact hspells hreader (h₄ ▸ cuts_rawName h)
  · exact hspells hreader (cuts_number h)
  · exact hspells hreader (cuts_word h)
  · exact hspells hreader (cuts_symbol h)

theorem legible_operator (o : Operator) : (TokenKind.operator o).Legible := by
  have h : (lexemeAt (o.spelling.toList.headD ' ') o.spelling.toList.tail).token = some (.operator o) := by
    cases o <;> decide
  exact legible_of_lexemeAt h

theorem legible_punctuation (p : Punctuation) : (TokenKind.punctuation p).Legible := by
  have h : (lexemeAt (p.spelling.toList.headD ' ') p.spelling.toList.tail).token = some (.punctuation p) := by
    cases p <;> decide
  exact legible_of_lexemeAt h

theorem legible_keyword (k : Keyword) : (TokenKind.keyword k).Legible := by
  have h : (lexemeAt (k.spelling.toList.headD ' ') k.spelling.toList.tail).token = some (.keyword k) := by
    rcases k with type | _ | _ | _ | _ | _ | _ | kind | _ | _ | _ | _ | _ | _ | _ | _ | _ | value
    case primitive => cases type <;> decide
    case visibility => cases kind <;> decide
    case boolean => cases value <;> decide
    all_goals decide
  exact legible_of_lexemeAt h

theorem legible_directive (d : DirectiveName) : (TokenKind.ident d.spelling).Legible := by
  have h : (lexemeAt (d.spelling.toList.headD ' ') d.spelling.toList.tail).token = some (.ident d.spelling) := by
    cases d <;> decide
  exact legible_of_lexemeAt h

theorem legible_nofmt : (TokenKind.ident "nofmt").Legible :=
  legible_of_lexemeAt (show (lexemeAt 'n' "ofmt".toList).token = _ by decide)

theorem legible_meta : (TokenKind.ident "ElleMeta").Legible :=
  legible_of_lexemeAt (show (lexemeAt 'E' "lleMeta".toList).token = _ by decide)

theorem exists_lexemeAt {fuel : Nat} {text : List Char} {cut : Cut} (h : cut ∈ lexemesFrom fuel text) :
    ∃ c cs, cut = ⟨c :: cs.take (lexemeAt c cs).more, lexemeAt c cs⟩ := by
  induction fuel generalizing text with
  | zero => simp [lexemesFrom] at h
  | succ fuel ih =>
    cases text with
    | nil => simp [lexemesFrom] at h
    | cons c cs =>
      rcases List.mem_cons.1 h with rfl | h
      · exact ⟨c, cs, rfl⟩
      · exact ih h

/-! ### First characters -/

/-- Whether a token is a symbol. -/
def TokenKind.isSymbol : TokenKind → Bool
  | .operator _ | .punctuation _ => true
  | _ => false

/-- The characters that can prolong a symbol. -/
def extensionChars : List Char := ['=', '>', '/', '*', '&', '|', '<', '.', ':']

theorem isSymbol_of_symbolAt {c : Char} {cs : List Char} {k : TokenKind} (h : (symbolAt c cs).token = some k) :
    k.isSymbol = true := by
  have hentries (c : Char) : ∀ entry ∈ symbolsFrom c, entry.2.isSymbol = true := by
    unfold symbolsFrom
    split <;> decide
  unfold symbolAt at h
  split at h
  · rename_i tail kind hfind
    obtain rfl : kind = k := Option.some.inj h
    exact hentries c _ (List.mem_of_find?_eq_some hfind)
  · simp [Lexeme.refused] at h

theorem isSymbol_of_slashAt {cs : List Char} {k : TokenKind} (h : (slashAt cs).token = some k) : k.isSymbol = true := by
  unfold slashAt at h
  split at h
  · simp [Lexeme.comment] at h
  · split at h <;> simp [Lexeme.comment, Lexeme.refused] at h
  · exact isSymbol_of_symbolAt h

/-- A character literal is read as one. -/
theorem char_of_charAt {cs : List Char} {k : TokenKind} (h : (charAt cs).token = some k) : ∃ part, k = .char part := by
  have hclose {part : StrPart} {taken : Nat} {cs : List Char} (h : (closeChar part taken cs).token = some k) :
      k = .char part := by
    unfold closeChar at h
    split at h
    · exact (Option.some.inj h).symm
    · simp [Lexeme.refused] at h
  unfold charAt at h
  split at h
  · simp [Lexeme.refused] at h
  · simp [Lexeme.refused] at h
  · simp [Lexeme.refused] at h
  · split at h
    · simp [Lexeme.refused] at h
    · exact ⟨_, hclose h⟩
    · simp at h
  · exact ⟨_, hclose h⟩

/-- A raw name is read as one. -/
theorem rawName_of_rawNameAt {cs : List Char} {k : TokenKind} (h : (rawNameAt cs).token = some k) :
    ∃ raw, k = .rawName raw := by
  unfold rawNameAt at h
  dsimp only at h
  split at h
  · split at h
    · simp [Lexeme.refused] at h
    · exact ⟨_, (Option.some.inj h).symm⟩
  · simp [Lexeme.refused] at h

theorem TokenKind.Spells.token {k : TokenKind} {c : Char} {cs : List Char} (h : k.Spells (lexemeAt c) c cs) :
    (lexemeAt c cs).token = some k := by
  have := h.reads [] k.halts_nil
  rw [List.append_nil] at this
  rw [this]
  rfl

/-- A token that begins with a character that could prolong a symbol is a symbol itself. -/
theorem TokenKind.Spells.isSymbol {k : TokenKind} {c : Char} {cs : List Char} (h : k.Spells (lexemeAt c) c cs)
    (hc : c ∈ extensionChars) : k.isSymbol = true := by
  have hread := h.token
  have hplain : ∀ c ∈ extensionChars, isBlank c = false ∧ c ≠ '\\' ∧ c ≠ '"' ∧ c ≠ '\'' ∧ c ≠ '`' ∧
      c.isDigit = false ∧ isWordStart c = false := by
    intro c hc
    simp only [extensionChars, List.mem_cons, List.not_mem_nil, or_false] at hc
    rcases hc with rfl | rfl | rfl | rfl | rfl | rfl | rfl | rfl | rfl <;> decide
  obtain ⟨hb, h₁, h₂, h₃, h₄, hd, hw⟩ := hplain c hc
  rw [lexemeAt_eq hb h₁, readerFrom] at hread
  simp only [h₂, h₃, h₄, hd, hw, if_false, Bool.false_eq_true] at hread
  split at hread
  · exact isSymbol_of_slashAt hread
  · exact isSymbol_of_symbolAt hread

/-- A token that begins with a digit is a number. -/
theorem TokenKind.Spells.number {k : TokenKind} {c : Char} {cs : List Char} (h : k.Spells (lexemeAt c) c cs)
    (hc : c.isDigit = true) : ∃ n, k = .number n := by
  have hread := h.token
  rw [lexemeAt_of_token hread, readerFrom] at hread
  split_ifs at hread with h₁ h₂ h₃ h₄
  · subst h₁
    simp at hc
  · subst h₂
    simp at hc
  · subst h₃
    simp at hc
  · subst h₄
    simp at hc
  · exact number_of_numberAt hread

/-- Whether a token is a word or a number. -/
def TokenKind.isWord : TokenKind → Bool
  | .keyword _ | .ident _ | .number _ => true
  | _ => false

/-- A token that begins with a letter, a digit or `_` is a word or a number. -/
theorem TokenKind.Spells.isWord {k : TokenKind} {c : Char} {cs : List Char} (h : k.Spells (lexemeAt c) c cs)
    (hc : isWordPart c = true) : k.isWord = true := by
  have hread := h.token
  rw [lexemeAt_of_token hread, readerFrom] at hread
  have hne {d : Char} (hd : isWordPart d = false) : c ≠ d := by
    rintro rfl
    simp [hd] at hc
  rw [if_neg (hne (by decide)), if_neg (hne (by decide)), if_neg (hne (by decide)), if_neg (hne (by decide))] at hread
  split_ifs at hread with hd hw
  · obtain ⟨n, rfl⟩ := h.number hd
    rfl
  · obtain rfl : wordKind _ = k := Option.some.inj hread
    unfold wordKind
    split <;> rfl
  · simp only [isWordPart, isWordStart, Char.isAlphanum, Bool.or_eq_true, hd, Bool.false_eq_true, or_false] at hc hw
    exact absurd hc hw

/-- A text that can be read as a word is made of letters, digits and `_`. -/
theorem word_of_legible {word : String} (h : (wordKind word).Legible) :
    word.toList ≠ [] ∧ ∀ c ∈ word.toList, isWordPart c = true := by
  obtain ⟨c, cs, hs⟩ := h
  have hdisplay : word.toList = c :: cs := by rw [← hs.display, display_wordKind]
  have hread := hs.reads [] (TokenKind.halts_nil _)
  have htoken := hs.token
  rw [List.append_nil, lexemeAt_of_token htoken] at hread
  have hkind : (wordKind word).isWord = true ∧ ∀ n, wordKind word ≠ .number n := by
    unfold wordKind
    split <;> exact ⟨rfl, by simp⟩
  have hnot {k : TokenKind} (hk : wordKind word = k) (hw : k.isWord = false) : False := by
    rw [hk, hw] at hkind
    exact Bool.false_ne_true hkind.1
  have hsome : (readerFrom c cs).token = some (wordKind word) := by
    rw [hread]
    rfl
  unfold readerFrom at hread hsome
  split_ifs at hread hsome with h₁ h₂ h₃ h₄ hd hw
  · have := isSymbol_of_slashAt hsome
    cases hk : wordKind word <;> simp_all [TokenKind.isSymbol, TokenKind.isWord]
  · obtain ⟨parts, hk⟩ := str_of_stringAt hsome
    exact (hnot hk rfl).elim
  · obtain ⟨part, hk⟩ := char_of_charAt hsome
    exact (hnot hk rfl).elim
  · obtain ⟨raw, hk⟩ := rawName_of_rawNameAt hsome
    exact (hnot hk rfl).elim
  · obtain ⟨n, hk⟩ := number_of_numberAt hsome
    exact absurd hk (hkind.2 n)
  · -- the word takes all characters
    have hlength : (cs.takeWhile isWordPart).length = cs.length := congrArg Lexeme.more hread
    have hall : cs.takeWhile isWordPart = cs := (List.takeWhile_prefix _).eq_of_length hlength
    have hstart : isWordPart c = true := by
      simp only [isWordStart, Bool.or_eq_true] at hw
      simp only [isWordPart, Char.isAlphanum, Bool.or_eq_true]
      rcases hw with hw | hw
      · exact .inl (.inl hw)
      · exact .inr hw
    refine ⟨by simp [hdisplay], ?_⟩
    rw [hdisplay, List.forall_mem_cons]
    exact ⟨hstart, by simpa using hall⟩
  · have := isSymbol_of_symbolAt hsome
    cases hk : wordKind word <;> simp_all [TokenKind.isSymbol, TokenKind.isWord]

end ElleFrontEnd
