import ElleFrontEnd.Proofs.Spelled

/-!
# Rendered tokens

The lexemes of a text are found one by one: blank characters yield nothing, and the text of a token yields the token
where what follows leaves it as it is.  A space always does, so tokens written with one space between two of them are
lexed as the same tokens (`tokenize_renderTokens`).  That holds of the tokens of any source, also of one with malformed
places: a string from which a bad escape was left out is written without it.
-/

namespace ElleFrontEnd

/-! ### Lexemes one by one -/

theorem lexemesFrom_eq {fuel : Nat} {text : List Char} (h : text.length ≤ fuel) :
    lexemesFrom fuel text = lexemes text := by
  induction fuel using Nat.strongRecOn generalizing text with
  | ind fuel ih =>
    cases text with
    | nil => cases fuel <;> rfl
    | cons c cs =>
      obtain ⟨fuel, rfl⟩ : ∃ n, fuel = n + 1 := ⟨fuel - 1, by simp at h; omega⟩
      have hd : (cs.drop (lexemeAt c cs).more).length ≤ cs.length := by
        rw [List.length_drop]
        omega
      have hle : cs.length ≤ fuel := by simpa using h
      rw [lexemes, List.length_cons, lexemesFrom, lexemesFrom, ih fuel (by omega) (by omega),
        ← ih cs.length (by omega) hd]

@[simp] theorem lexemes_nil : lexemes [] = [] := rfl

theorem lexemes_cons (c : Char) (cs : List Char) : lexemes (c :: cs) =
    ⟨c :: cs.take (lexemeAt c cs).more, lexemeAt c cs⟩ :: lexemes (cs.drop (lexemeAt c cs).more) := by
  rw [lexemes, List.length_cons, lexemesFrom, lexemesFrom_eq (by simp)]

theorem lexemeAt_of_isBlank {c : Char} (hc : isBlank c = true) (cs : List Char) : lexemeAt c cs = .blank 0 := by
  unfold lexemeAt
  rw [hc]
  rfl

/-- A blank character yields nothing. -/
theorem placed_blank {c : Char} (hc : isBlank c = true) (place : Place) (rest : List Char) :
    placed place (lexemes (c :: rest)) = placed (place.step c) (lexemes rest) := by
  rw [lexemes_cons, lexemeAt_of_isBlank hc]
  simp [placed, Cut.tokenAt, Cut.commentAt, Cut.errorsAt, Lexeme.blank, Place.after]

/-- Blank characters yield nothing. -/
theorem placed_blanks {blanks : List Char} (hb : ∀ c ∈ blanks, isBlank c = true) (place : Place) (rest : List Char) :
    placed place (lexemes (blanks ++ rest)) = placed (place.after blanks) (lexemes rest) := by
  induction blanks generalizing place with
  | nil => rfl
  | cons c blanks ih =>
    exact (placed_blank (hb c List.mem_cons_self) place (blanks ++ rest)).trans
      (ih (fun d hd => hb d (List.mem_cons_of_mem _ hd)) (place.step c))

/-- A token before others that were lexed. -/
def Lexed.behind (t : Token) (lexed : Lexed) : Lexed := { lexed with tokens := t :: lexed.tokens }

/-- A token is read from its text where that halts. -/
theorem placed_token {k : TokenKind} (hk : k.Legible) (place : Place) {rest : List Char} (hr : k.Halts rest) :
    placed place (lexemes (k.display.toList ++ rest)) =
      (placed (place.after k.display.toList) (lexemes rest)).behind
        ⟨k, ⟨place.offset, (place.after k.display.toList).offset⟩, place.position⟩ := by
  obtain ⟨c, cs, hs⟩ := hk
  rw [hs.display, List.cons_append, lexemes_cons, hs.reads rest hr]
  simp [placed, Cut.tokenAt, Cut.commentAt, Cut.errorsAt, Cut.span, Lexeme.ofToken, Lexed.behind]

/-- The tokens of a source are those that its lexemes yield, and the end of the source behind them. -/
theorem kinds_placed (place : Place) (cuts : List Cut) :
    (placed place cuts).tokens.map Token.kind = cuts.filterMap (·.lexeme.token) ++ [.eof] := by
  induction cuts generalizing place with
  | nil => rfl
  | cons cut cuts ih =>
    rw [placed, List.map_append, ih, List.filterMap_cons]
    cases h : cut.lexeme.token <;> simp [Cut.tokenAt, h]

/-! ### Tokens with a space between two of them -/

/-- A blank leaves any token before it as it is. -/
theorem halts_blank {k : TokenKind} {c : Char} (hc : c = ' ' ∨ c = '\n') (rest : List Char) : k.Halts (c :: rest) := by
  have hw : isWordPart c = false := by rcases hc with rfl | rfl <;> decide
  have hf : fractionPart? (c :: rest) = none := by rcases hc with rfl | rfl <;> rfl
  cases k with
  | operator o => rcases hc with rfl | rfl <;> cases o <;> simp [TokenKind.Halts, Operator.extensions]
  | punctuation p => rcases hc with rfl | rfl <;> cases p <;> simp [TokenKind.Halts, Punctuation.extensions]
  | keyword | ident => simpa [TokenKind.Halts] using hw
  | number => exact ⟨by simpa using hw, hf⟩
  | str | char | rawName | eof => trivial

/-- The texts of tokens, with one space between two of them. -/
def spacedText : List TokenKind → List Char
  | [] => []
  | [k] => k.display.toList
  | k :: k' :: ks => k.display.toList ++ ' ' :: spacedText (k' :: ks)

theorem toList_intercalate_display (kinds : List TokenKind) :
    (" ".intercalate (kinds.map TokenKind.display)).toList = spacedText kinds := by
  induction kinds with
  | nil => rfl
  | cons k kinds ih =>
    cases kinds with
    | nil => simp [spacedText]
    | cons k' kinds =>
      rw [List.map_cons, List.map_cons, String.intercalate_cons_cons, ← List.map_cons]
      simpa [spacedText] using ih

/-- Tokens that can be read from their texts are read from these texts with one space between two of them. -/
theorem placed_spacedText {kinds : List TokenKind} (h : ∀ k ∈ kinds, k.Legible) (place : Place) :
    (placed place (lexemes (spacedText kinds))).tokens.map Token.kind = kinds ++ [.eof] ∧
      (placed place (lexemes (spacedText kinds))).errors = [] := by
  induction kinds generalizing place with
  | nil => exact ⟨rfl, rfl⟩
  | cons k kinds ih =>
    have hk := h k List.mem_cons_self
    have hrest (place : Place) := ih (fun k' hk' => h k' (List.mem_cons_of_mem _ hk')) place
    cases kinds with
    | nil =>
      have htoken := placed_token hk place k.halts_nil
      rw [List.append_nil] at htoken
      rw [spacedText, htoken]
      exact ⟨rfl, rfl⟩
    | cons k' kinds =>
      obtain ⟨htokens, herrors⟩ := hrest ((place.after k.display.toList).step ' ')
      rw [spacedText, placed_token hk place (halts_blank (.inl rfl) _), placed_blank rfl]
      exact ⟨congrArg (k :: ·) htokens, herrors⟩

theorem TokenKind.Legible.isEof {k : TokenKind} (h : k.Legible) : k.isEof = false := by
  obtain ⟨c, cs, hs⟩ := h
  have := hs.display
  cases k <;> simp_all [TokenKind.isEof, TokenKind.display]

/-- The tokens that lexemes yield can be read from their texts. -/
theorem legible_of_mem_lexemes {text : List Char} {k : TokenKind}
    (h : k ∈ (lexemes text).filterMap (·.lexeme.token)) : k.Legible := by
  obtain ⟨cut, hm, htoken⟩ := List.mem_filterMap.1 h
  obtain ⟨c, cs, rfl⟩ := exists_lexemeAt hm
  exact legible_of_lexemeAt htoken

theorem toList_renderTokens (source : String) : (renderTokens (lex source).tokens).toList =
    spacedText ((lexemes source.toList).filterMap (·.lexeme.token)) := by
  have hkinds : ((lex source).tokens.map Token.kind).filter (fun k => !k.isEof) =
      (lexemes source.toList).filterMap (·.lexeme.token) := by
    rw [lex, kinds_placed, List.filter_append, List.filter_eq_self.2 fun k hk => by
      rw [(legible_of_mem_lexemes hk).isEof, Bool.not_false]]
    simp [TokenKind.isEof]
  rw [← hkinds, ← toList_intercalate_display, renderTokens, List.filter_map, List.map_map]
  rfl

/-- The tokens of a source, with one space between two of them, are lexed without a fault, and as tokens of the same
kinds. -/
theorem tokenize_renderTokens (source : String) : ∃ tokens, tokenize (renderTokens (lex source).tokens) = .ok tokens ∧
    tokens.map Token.kind = (lex source).tokens.map Token.kind := by
  have hrendered := toList_renderTokens source
  obtain ⟨htokens, herrors⟩ :=
    placed_spacedText (fun k (hk : k ∈ (lexemes source.toList).filterMap _) => legible_of_mem_lexemes hk) .start
  refine ⟨(lex (renderTokens (lex source).tokens)).tokens, ?_, ?_⟩
  · rw [tokenize, lex, hrendered, herrors]
    rfl
  · rw [lex, hrendered, htokens, lex, kinds_placed]

end ElleFrontEnd
