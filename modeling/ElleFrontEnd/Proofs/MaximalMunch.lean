import ElleFrontEnd.Proofs.Arrival

/-!
# Maximal munch

The vocabulary holds the operators and the punctuation marks.  Of those that the text ahead begins with, lexing takes the
longest, and of the words that it begins with it takes the longest as well, which is a keyword if it is reserved
(`lex_munches`).  The reader goes by the first character and a short list of what may follow; that it agrees with the
tables is what the lists say of each other (`mem_symbolsFrom`, `longer_first`).
-/

namespace ElleFrontEnd

/-- The operators and the punctuation marks. -/
def symbolVocabulary : List TokenKind :=
  Operator.all.map TokenKind.operator ++ Punctuation.all.map TokenKind.punctuation

/-- A symbol that a text begins with, where the text begins with no longer one. -/
structure LongestSymbol (rest : List Char) (k : TokenKind) : Prop where
  mem : k ∈ symbolVocabulary
  isPrefix : k.display.toList <+: rest
  longest : ∀ other ∈ symbolVocabulary, other.display.toList <+: rest →
    other.display.toList.length ≤ k.display.toList.length

/-- Letters, digits and `_`, not beginning with a digit. -/
def IsWord (word : List Char) : Prop :=
  word ≠ [] ∧ (∀ c ∈ word, isWordPart c = true) ∧ ∀ c ∈ word.head?, c.isDigit = false

/-- A word that a text begins with, where the text begins with no longer one. -/
structure LongestWord (rest word : List Char) : Prop where
  isWord : IsWord word
  isPrefix : word <+: rest
  longest : ∀ other, IsWord other → other <+: rest → other.length ≤ word.length

/-- The symbol or word that a text begins with is the given token. -/
inductive Munches (rest : List Char) : TokenKind → Prop
  | symbol {k : TokenKind} (h : LongestSymbol rest k) : Munches rest k
  | keyword {k : Keyword} (h : LongestWord rest k.spelling.toList) : Munches rest (.keyword k)
  | ident {name : String} (h : LongestWord rest name.toList) (hk : ∀ k : Keyword, k.spelling ≠ name) :
    Munches rest (.ident name)

/-- Whether a token is a symbol or a word. -/
def TokenKind.isMunched : TokenKind → Bool
  | .keyword _ | .operator _ | .punctuation _ | .ident _ => true
  | _ => false

/-! ### The tables and the reader's lists -/

theorem mem_symbolVocabulary {k : TokenKind} : k ∈ symbolVocabulary ↔ k.isSymbol = true := by
  constructor
  · intro h
    rcases List.mem_append.1 h with h | h
    · obtain ⟨o, -, rfl⟩ := List.mem_map.1 h
      rfl
    · obtain ⟨p, -, rfl⟩ := List.mem_map.1 h
      rfl
  · intro h
    cases k with
    | operator o =>
      refine List.mem_append_left _ (List.mem_map_of_mem ?_)
      cases o <;> decide
    | punctuation p =>
      refine List.mem_append_right _ (List.mem_map_of_mem ?_)
      cases p <;> decide
    | _ => cases h

/-- Every symbol is listed under its first character. -/
theorem mem_symbolsFrom {k : TokenKind} (h : k.isSymbol = true) : ∃ c tail,
    k.display.toList = c :: tail ∧ (tail, k) ∈ symbolsFrom c := by
  cases k with
  | operator o => cases o <;> exact ⟨_, _, rfl, by decide⟩
  | punctuation p => cases p <;> exact ⟨_, _, rfl, by decide⟩
  | _ => cases h

/-- What is listed under a character is written with it. -/
theorem display_of_mem {c : Char} {tail : List Char} {k : TokenKind} (h : (tail, k) ∈ symbolsFrom c) :
    k.display.toList = c :: tail := (spells_symbol c _ h).display

/-- Longer symbols are listed first. -/
theorem longer_first (c : Char) : (symbolsFrom c).Pairwise fun a b => b.1.length ≤ a.1.length := by
  unfold symbolsFrom
  split <;> decide

/-- No spelling is listed for two symbols. -/
theorem listed_once (c : Char) : ∀ a ∈ symbolsFrom c, ∀ b ∈ symbolsFrom c, a.1 = b.1 → a = b := by
  unfold symbolsFrom
  split <;> decide

/-- A character that symbols are listed under opens nothing but a symbol or a comment. -/
theorem lexemeAt_symbol {c : Char} (hc : symbolsFrom c ≠ []) :
    lexemeAt c = if c = '/' then slashAt else symbolAt c := by
  have hplain : isBlank c = false ∧ c ≠ '\\' ∧ c ≠ '"' ∧ c ≠ '\'' ∧ c ≠ '`' ∧ c.isDigit = false ∧
      isWordStart c = false := by
    unfold symbolsFrom at hc
    split at hc <;> first | exact absurd rfl hc | decide
  obtain ⟨hb, h₁, h₂, h₃, h₄, hd, hw⟩ := hplain
  rw [lexemeAt_eq hb h₁, readerFrom]
  simp only [h₂, h₃, h₄, hd, hw, if_false, Bool.false_eq_true]

/-! ### Symbols -/

section
variable {c : Char} {cs : List Char} {k : TokenKind}

/-- The symbol that is read is the longest. -/
theorem longestSymbol_of_symbolAt (h : (symbolAt c cs).token = some k) : LongestSymbol (c :: cs) k := by
  have hvocabulary := mem_symbolVocabulary.2 (isSymbol_of_symbolAt h)
  unfold symbolAt at h
  split at h
  · rename_i tail kind hfind
    obtain rfl : kind = k := Option.some.inj h
    have hmem := List.mem_of_find?_eq_some hfind
    have hdisplay := display_of_mem hmem
    have hprefix : tail <+: cs := by simpa using List.find?_some hfind
    refine ⟨hvocabulary, ?_, fun other ho hother => ?_⟩
    · rw [hdisplay]
      exact List.cons_prefix_cons.2 ⟨rfl, hprefix⟩
    · -- the other one is listed under the same character, and not before the one that is found
      obtain ⟨d, tail', hd, hlisted⟩ := mem_symbolsFrom (mem_symbolVocabulary.1 ho)
      rw [hd] at hother ⊢
      obtain ⟨rfl, hprefix'⟩ := List.cons_prefix_cons.1 hother
      rw [hdisplay]
      obtain ⟨-, before, after, hsplit, hbefore⟩ := List.find?_eq_some_iff_append.1 hfind
      rw [hsplit] at hlisted
      rcases List.mem_append.1 hlisted with hin | hin
      · have hno := hbefore _ hin
        rw [List.isPrefixOf_iff_prefix.2 hprefix'] at hno
        cases hno
      rcases List.mem_cons.1 hin with heq | hin
      · obtain ⟨rfl, -⟩ := Prod.mk.inj heq
        exact Nat.le_refl _
      · have hpair := longer_first d
        rw [hsplit] at hpair
        exact Nat.succ_le_succ (List.rel_of_pairwise_cons (List.pairwise_append.1 hpair).2.1 hin)
  · cases h

/-- The longest symbol is read. -/
theorem symbolAt_of_longestSymbol (h : LongestSymbol (c :: cs) k) : (symbolAt c cs).token = some k := by
  obtain ⟨d, tail, hd, hlisted⟩ := mem_symbolsFrom (mem_symbolVocabulary.1 h.mem)
  have hprefix := h.isPrefix
  rw [hd] at hprefix
  obtain ⟨rfl, hprefix⟩ := List.cons_prefix_cons.1 hprefix
  cases hfind : (symbolsFrom d).find? fun entry => entry.1.isPrefixOf cs with
  | none =>
    have hno := List.find?_eq_none.1 hfind _ hlisted
    rw [List.isPrefixOf_iff_prefix] at hno
    exact absurd ‹tail <+: cs› hno
  | some entry =>
    obtain ⟨tail', found⟩ := entry
    have htoken : (symbolAt d cs).token = some found := by
      rw [symbolAt, hfind]
      rfl
    -- each of the two is no longer than the other, so both are the same beginning of the text
    have hfound := longestSymbol_of_symbolAt htoken
    have hmem := List.mem_of_find?_eq_some hfind
    have hle := hfound.longest k h.mem h.isPrefix
    have hge := h.longest found hfound.mem hfound.isPrefix
    have heq : found.display.toList = k.display.toList :=
      (List.prefix_of_prefix_length_le hfound.isPrefix h.isPrefix hge).eq_of_length (Nat.le_antisymm hge hle)
    rw [display_of_mem hmem, hd] at heq
    obtain ⟨-, rfl⟩ := List.cons.inj heq
    obtain ⟨-, rfl⟩ := Prod.mk.inj (listed_once d _ hmem _ hlisted rfl)
    exact htoken

/-! ### Words -/

/-- What opens a word is what can continue one, but for the digits. -/
theorem isWordStart_iff : isWordStart c = true ↔ isWordPart c = true ∧ c.isDigit = false := by
  have halpha (h : c.isAlpha = true) : c.isDigit = false := by
    rw [← Bool.not_eq_true]
    intro hd
    have := toNat_of_isAlpha h
    have := toNat_of_isDigit hd
    omega
  simp only [isWordStart, isWordPart, Char.isAlphanum, Bool.or_eq_true, decide_eq_true_eq]
  constructor
  · rintro (h | rfl)
    · exact ⟨.inl (.inl h), halpha h⟩
    · exact ⟨.inr rfl, rfl⟩
  · rintro ⟨(h | h) | h, hd⟩
    · exact .inl h
    · rw [h] at hd
      cases hd
    · exact .inr h

theorem isWord_cons : IsWord (c :: cs) ↔ isWordStart c = true ∧ ∀ d ∈ cs, isWordPart d = true := by
  simp only [IsWord, isWordStart_iff, ne_eq, reduceCtorEq, not_false_eq_true, true_and, List.forall_mem_cons,
    List.head?_cons, Option.mem_some_iff, forall_eq', and_right_comm]

/-- The longest word that a text begins with is what the reader of words takes. -/
theorem longestWord_iff {word : List Char} : LongestWord (c :: cs) word ↔
    isWordStart c = true ∧ word = c :: cs.takeWhile isWordPart := by
  have htaken (hc : isWordStart c = true) : LongestWord (c :: cs) (c :: cs.takeWhile isWordPart) := by
    refine ⟨isWord_cons.2 ⟨hc, of_mem_takeWhile⟩, List.cons_prefix_cons.2 ⟨rfl, List.takeWhile_prefix _⟩,
      fun other ho hother => ?_⟩
    cases other with
    | nil => exact Nat.zero_le _
    | cons d tail =>
      obtain ⟨rfl, rest, rfl⟩ := List.cons_prefix_cons.1 hother
      rw [List.takeWhile_append_of_pos (isWord_cons.1 ho).2]
      simp
  constructor
  · intro h
    obtain ⟨d, tail, rfl⟩ := List.exists_cons_of_ne_nil h.isWord.1
    obtain ⟨rfl, -⟩ := List.cons_prefix_cons.1 h.isPrefix
    have hd := (isWord_cons.1 h.isWord).1
    have hle := (htaken hd).longest _ h.isWord h.isPrefix
    have hge := h.longest _ (htaken hd).isWord (htaken hd).isPrefix
    exact ⟨hd, (List.prefix_of_prefix_length_le h.isPrefix (htaken hd).isPrefix hle).eq_of_length
      (Nat.le_antisymm hle hge)⟩
  · rintro ⟨hc, rfl⟩
    exact htaken hc

theorem lexemeAt_word (hc : isWordStart c = true) : lexemeAt c = wordAt c := by
  have hne {d : Char} (hd : isWordStart d = false) : c ≠ d := by
    rintro rfl
    rw [hd] at hc
    cases hc
  obtain ⟨hpart, hdigit⟩ := isWordStart_iff.1 hc
  rw [lexemeAt_eq (isBlank_of_isWordPart hpart) (hne (by decide)), readerFrom, if_neg (hne (by decide)),
    if_neg (hne (by decide)), if_neg (hne (by decide)), if_neg (hne (by decide)), if_neg (by simp [hdigit]), if_pos hc]

/-! ### Any symbol or word -/

theorem Keyword.ofSpelling?_spelling (k : Keyword) : Keyword.ofSpelling? k.spelling = some k := by
  rcases k with type | _ | _ | _ | _ | _ | _ | kind | _ | _ | _ | _ | _ | _ | _ | _ | _ | value
  case primitive => cases type <;> decide
  case visibility => cases kind <;> decide
  case boolean => cases value <;> decide
  all_goals decide

/-- The keyword or name that is read is the longest word. -/
theorem munches_wordKind {word : String} {rest : List Char} (h : LongestWord rest word.toList) :
    Munches rest (wordKind word) := by
  unfold wordKind
  split
  · rename_i k hk
    obtain rfl : k.spelling = word := by simpa using List.find?_some hk
    exact .keyword h
  · rename_i hnone
    refine .ident h fun k hk => ?_
    rw [← hk, Keyword.ofSpelling?_spelling] at hnone
    cases hnone

/-- A symbol or word that is read is the longest that the text begins with. -/
theorem munches_of_token (h : (lexemeAt c cs).token = some k) (hk : k.isMunched = true) : Munches (c :: cs) k := by
  rw [lexemeAt_of_token h] at h
  unfold readerFrom at h
  split_ifs at h with h₁ h₂ h₃ h₄ hd hw
  · subst h₁
    have hc := slashAt_of_token h
    rw [slashAt_symbol hc] at h
    exact .symbol (longestSymbol_of_symbolAt h)
  · obtain ⟨parts, rfl⟩ := str_of_stringAt h
    cases hk
  · obtain ⟨part, rfl⟩ := char_of_charAt h
    cases hk
  · obtain ⟨raw, rfl⟩ := rawName_of_rawNameAt h
    cases hk
  · obtain ⟨n, rfl⟩ := number_of_numberAt h
    cases hk
  · obtain rfl : wordKind _ = k := Option.some.inj h
    refine munches_wordKind (longestWord_iff.2 ⟨hw, ?_⟩)
    rw [String.toList_ofList]
  · exact .symbol (longestSymbol_of_symbolAt h)

/-- The longest symbol or word that a text begins with is read, unless the text begins with a comment. -/
theorem token_of_munches (h : Munches (c :: cs) k) (hline : ¬ ['/', '/'] <+: c :: cs)
    (hblock : ¬ ['/', '*'] <+: c :: cs) : (lexemeAt c cs).token = some k := by
  have hword {word : String} (h : LongestWord (c :: cs) word.toList) :
      (lexemeAt c cs).token = some (wordKind word) := by
    obtain ⟨hc, hw⟩ := longestWord_iff.1 h
    rw [lexemeAt_word hc, wordAt, ← hw, String.ofList_toList]
    rfl
  cases h with
  | symbol h =>
    have hread := symbolAt_of_longestSymbol h
    have hlisted : symbolsFrom c ≠ [] := by
      intro hnil
      rw [symbolAt, hnil] at hread
      cases hread
    rw [lexemeAt_symbol hlisted]
    split
    · rename_i hc
      subst hc
      rw [slashAt_symbol]
      · exact hread
      · intro d hd
        obtain ⟨ds, rfl⟩ := List.head?_eq_some_iff.1 hd
        refine ⟨?_, ?_⟩
        · rintro rfl
          exact hline (List.prefix_append ['/', '/'] ds)
        · rintro rfl
          exact hblock (List.prefix_append ['/', '*'] ds)
    · exact hread
  | keyword h =>
    rw [hword h, wordKind, Keyword.ofSpelling?_spelling]
  | ident h hk =>
    have hnone : Keyword.ofSpelling? _ = none := Option.eq_none_iff_forall_ne_some.2 fun k hk' =>
      hk k (by simpa using List.find?_some hk')
    rw [hword h, wordKind, hnone]

theorem Munches.isMunched {rest : List Char} (h : Munches rest k) : k.isMunched = true := by
  cases h with
  | symbol h =>
    have := mem_symbolVocabulary.1 h.mem
    cases k <;> first | rfl | cases this
  | keyword _ => rfl
  | ident _ _ => rfl

theorem Munches.ne_nil {rest : List Char} (h : Munches rest k) : rest ≠ [] := by
  rintro rfl
  cases h with
  | symbol h =>
    obtain ⟨c, tail, hd, -⟩ := mem_symbolsFrom (mem_symbolVocabulary.1 h.mem)
    have := List.prefix_nil.1 h.isPrefix
    rw [hd] at this
    cases this
  | keyword h => exact h.isWord.1 (List.prefix_nil.1 h.isPrefix)
  | ident h _ => exact h.isWord.1 (List.prefix_nil.1 h.isPrefix)

/-- A text that begins with a symbol or a word begins with a longest one. -/
theorem exists_munches {rest : List Char}
    (h : (∃ k ∈ symbolVocabulary, k.display.toList <+: rest) ∨ ∃ word, IsWord word ∧ word <+: rest) :
    ∃ k, Munches rest k := by
  rcases h with ⟨k, hk, hprefix⟩ | ⟨word, hword, hprefix⟩
  · obtain ⟨c, tail, hd, hlisted⟩ := mem_symbolsFrom (mem_symbolVocabulary.1 hk)
    rw [hd] at hprefix
    obtain ⟨text, rfl⟩ := hprefix
    have hsome : ((symbolsFrom c).find? fun entry => entry.1.isPrefixOf (tail ++ text)).isSome = true := by
      rw [List.find?_isSome]
      exact ⟨_, hlisted, List.isPrefixOf_iff_prefix.2 (List.prefix_append tail text)⟩
    obtain ⟨⟨_, found⟩, hfind⟩ := Option.isSome_iff_exists.1 hsome
    have htoken : (symbolAt c (tail ++ text)).token = some found := by
      rw [symbolAt, hfind]
      rfl
    exact ⟨found, .symbol (longestSymbol_of_symbolAt htoken)⟩
  · obtain ⟨c, tail, rfl⟩ := List.exists_cons_of_ne_nil hword.1
    obtain ⟨text, rfl⟩ := hprefix
    refine ⟨wordKind (String.ofList (c :: (tail ++ text).takeWhile isWordPart)), munches_wordKind ?_⟩
    rw [String.toList_ofList]
    exact longestWord_iff.2 ⟨(isWord_cons.1 hword).1, rfl⟩

end

/-! ### In a source -/

/-- The symbols and words among the tokens of a source are the longest that the text from there on begins with.  Where
lexing comes to a text that begins with a symbol or a word, and with no comment, the longest is its one token. -/
theorem lex_munches (source : String) :
    (∀ t ∈ (lex source).tokens, t.kind.isMunched = true → ∃ before rest, source.toList = before ++ rest ∧
      t.span.start = byteLength before ∧ Munches rest t.kind) ∧
    ∀ p rest, Arrives source.toList p rest → ¬ ['/', '/'] <+: rest → ¬ ['/', '*'] <+: rest →
      ((∃ k ∈ symbolVocabulary, k.display.toList <+: rest) ∨ ∃ word, IsWord word ∧ word <+: rest) →
        ∃ t, (lex source).tokens.filter (fun t => t.span.start = p) = [t] ∧ (∀ k, Munches rest k ↔ t.kind = k) ∧
          t.span.stop = p + byteLength t.kind.display.toList := by
  refine ⟨fun t ht hk => ?_, fun p rest ha hline hblock hsome => ?_⟩
  · have heof : t.kind ≠ .eof := by
      intro h
      rw [h] at hk
      cases hk
    obtain ⟨c, cs, ha, htoken⟩ := arrives_of_token ht heof
    obtain ⟨before, -, htext, hstart, -⟩ := ha.split
    exact ⟨_, _, htext, hstart, munches_of_token htoken hk⟩
  · obtain ⟨k, hk⟩ := exists_munches hsome
    obtain ⟨c, cs, rfl⟩ := List.exists_cons_of_ne_nil hk.ne_nil
    have htoken := token_of_munches hk hline hblock
    have hstr : ∀ parts, k ≠ .str parts := by
      rintro parts rfl
      cases hk.isMunched
    obtain ⟨text, rest, rfl, hspells, hread⟩ := cuts_lexemeAt htoken (.inr hstr)
    obtain ⟨place, cut, rfl, rfl, htokens, -⟩ := lex_of_arrives ha
    rw [Cut.tokenAt, htoken] at htokens
    refine ⟨_, htokens, fun k' => ⟨fun hk' => ?_, ?_⟩, ?_⟩
    · have := token_of_munches hk' hline hblock
      rw [htoken] at this
      exact Option.some.inj this
    · rintro rfl
      exact hk
    · rw [Cut.span, hspells.display, Place.offset_after, hread]
      simp [Lexeme.ofToken]

end ElleFrontEnd
