import ElleFrontEnd.Proofs.ConveyProgram
import ElleFrontEnd.Proofs.Formatted
import ElleFrontEnd.Proofs.Listing
import ElleFrontEnd.Proofs.Numerals

/-!
# Differences from the canonical form

A formatted text is tidy: no token of it holds a carriage return before a line feed, or ends in one, and each declaration
ends in a mark with a line feed behind it (`tidy_of_formatSource`).  So its lines make it out, and the listing of the
differences from a source tells it from every other form of the source (`formatDiff_listing`).  But the listing treats a
line that is not there like an empty one, and may be empty (`formatDiff_silent`).
-/

namespace ElleFrontEnd

open Fragment

/-! ### Carriage returns in tokens -/

section
variable {a b : List Char}

/-- Text that can stand behind any other: no carriage return stands before a line feed, and no line feed at its head. -/
structure Abuts (text : List Char) : Prop where
  returns : LoneReturns text
  head : ∀ c ∈ text.head?, c ≠ '\n'

theorem LoneReturns.append (ha : LoneReturns a) (hb : LoneReturns b) (h : ∀ c ∈ a.getLast?, c ≠ '\r') :
    LoneReturns (a ++ b) :=
  List.isChain_append.2 ⟨ha, hb, fun c hc _ _ hr => absurd hr (h c hc)⟩

namespace Abuts

theorem append (ha : Abuts a) (hb : Abuts b) : Abuts (a ++ b) := by
  refine ⟨List.isChain_append.2 ⟨ha.returns, hb.returns, fun _ _ c hc _ => hb.head c hc⟩, ?_⟩
  cases a with
  | nil => exact hb.head
  | cons c a => exact ha.head

theorem flatMap {α : Type} {f : α → List Char} {items : List α} (h : ∀ item ∈ items, Abuts (f item)) :
    Abuts (items.flatMap f) := by
  induction items with
  | nil => exact ⟨List.isChain_nil, by simp⟩
  | cons item items ih =>
    rw [List.forall_mem_cons] at h
    rw [List.flatMap_cons]
    exact h.1.append (ih h.2)

/-- Text without a line feed. -/
theorem of_line (h : '\n' ∉ a) : Abuts a := by
  refine ⟨List.Pairwise.isChain (List.pairwise_of_forall_mem_list fun _ _ c hc _ hn => h (hn ▸ hc)), ?_⟩
  rintro _ hc rfl
  exact h (List.mem_of_mem_head? hc)

end Abuts

theorem not_mem_of_word {c : Char} (h : ∀ c ∈ a, isWordPart c = true) (hc : isWordPart c = false) : c ∉ a := by
  intro hmem
  rw [h c hmem] at hc
  cases hc

end

/-- An escape is a backslash, a character and digits. -/
theorem abuts_escape {cs : List Char} {e : Escape} {n : Nat} (h : escapeAt cs = .read e n) : Abuts e.display.toList := by
  have habuts {c : Char} {digits : List Char} (hd : ∀ c ∈ digits, isWordPart c = true) :
      Abuts ('\\' :: c :: digits) := by
    have hdigits := Abuts.of_line (not_mem_of_word hd (by decide))
    refine ⟨List.isChain_cons.2 ⟨by simp, List.isChain_cons.2 ⟨fun d hd _ => hdigits.head d hd, hdigits.returns⟩⟩, ?_⟩
    rintro _ ⟨⟩
    decide
  have hfixed {width : Nat} {build : String → Escape} (mark : Char) {cs : List Char} {e : Escape}
      (hb : ∀ digits, (build digits).display = "\\" ++ mark.toString ++ digits)
      (h : fixedEscape width build cs = .read e n) : Abuts e.display.toList := by
    unfold fixedEscape at h
    dsimp only at h
    split at h
    · obtain ⟨rfl, -⟩ := EscapeRead.read.inj h
      have hdigits : ∀ c ∈ (cs.take width).takeWhile isHexDigit, isWordPart c = true :=
        fun c hc => isWordPart_of_digitValue? (of_mem_takeWhile c hc)
      rw [hb]
      simpa using habuts hdigits
    · cases h
  cases cs with
  | nil => cases h
  | cons c cs =>
    by_cases hx : c = 'x'
    · subst hx
      exact hfixed 'x' (fun _ => rfl) h
    by_cases hu : c = 'u'
    · subst hu
      exact hfixed 'u' (fun _ => rfl) h
    rw [escapeAt_unmarked hx hu] at h
    split at h
    · obtain ⟨rfl, -⟩ := EscapeRead.read.inj h
      have hdigits : ∀ c ∈ (cs.take 2).takeWhile isOctalDigit, isWordPart c = true :=
        fun c hc => isWordPart_of_digitValue? (of_mem_takeWhile c hc)
      simpa [Escape.display] using habuts hdigits
    · obtain ⟨rfl, -⟩ := EscapeRead.read.inj h
      simpa [Escape.display] using habuts (List.forall_mem_nil _)

theorem abuts_items {fuel place : Nat} {cs : List Char} : ∀ item ∈ (stringBodyFrom fuel place cs).items,
    Abuts item.text := by
  induction fuel generalizing place cs with
  | zero => simp [stringBodyFrom]
  | succ fuel ih =>
    cases cs with
    | nil => simp [stringBodyFrom]
    | cons c cs =>
      unfold stringBodyFrom
      split_ifs with hn
      · simp
      · simp
      · split
        · simp
        · rename_i hread
          exact List.forall_mem_cons.2 ⟨abuts_escape hread, ih⟩
        · exact ih
      · exact List.forall_mem_cons.2 ⟨.of_line (by simpa [StringItem.text] using Ne.symm hn), ih⟩

/-- A numeral is made of letters, digits, `_`, points and signs. -/
theorem Numeral.mem {kind : NumberKind} {text : List Char} (h : Numeral kind text) :
    ∀ c ∈ text, isWordPart c = true ∨ c ∈ ['.', '+', '-'] := by
  have hgroup {isDigit : Char → Bool} {cs : List Char} (hd : ∀ c, isDigit c = true → isWordPart c = true)
      (h : DigitGroup isDigit cs) : ∀ c ∈ cs, isWordPart c = true ∨ c ∈ ['.', '+', '-'] := by
    intro c hc
    rcases Bool.or_eq_true_iff.1 (h.mem c hc) with hdigit | hsep
    · exact .inl (hd c hdigit)
    · rw [of_decide_eq_true hsep]
      exact .inl (by decide)
  have hradix {radix : Nat} (c : Char) (h : (digitValue? radix c).isSome = true) : isWordPart c = true :=
    isWordPart_of_digitValue? h
  have hdecimal (c : Char) (h : c.isDigit = true) : isWordPart c = true := isWordPart_of_digit h
  induction h with
  | hex hm h =>
    refine List.forall_mem_cons.2 ⟨.inl (by decide), List.forall_mem_cons.2 ⟨?_, hgroup hradix h⟩⟩
    rcases hm with rfl | rfl <;> exact .inl (by decide)
  | octal hm h =>
    refine List.forall_mem_cons.2 ⟨.inl (by decide), List.forall_mem_cons.2 ⟨?_, hgroup hradix h⟩⟩
    rcases hm with rfl | rfl <;> exact .inl (by decide)
  | binary hm h =>
    refine List.forall_mem_cons.2 ⟨.inl (by decide), List.forall_mem_cons.2 ⟨?_, hgroup hradix h⟩⟩
    rcases hm with rfl | rfl <;> exact .inl (by decide)
  | decimal h => exact hgroup hdecimal h
  | float hw hf =>
    exact List.forall_mem_append.2 ⟨hgroup hdecimal hw, List.forall_mem_cons.2 ⟨.inr (by decide), hgroup hdecimal hf⟩⟩
  | scientific _ _ hm hs he ih =>
    refine List.forall_mem_append.2 ⟨ih, List.forall_mem_cons.2 ⟨?_, List.forall_mem_append.2 ⟨?_, hgroup hdecimal he⟩⟩⟩
    · rcases hm with rfl | rfl <;> exact .inl (by decide)
    · rcases hs with rfl | rfl | rfl <;> simp

theorem abuts_rawName {cs : List Char} {raw : String} (h : (rawNameAt cs).token = some (.rawName raw)) :
    Abuts raw.toList := by
  unfold rawNameAt at h
  dsimp only at h
  split at h
  · split at h
    · cases h
    · obtain rfl := TokenKind.rawName.inj (Option.some.inj h)
      rw [String.toList_ofList]
      exact .of_line fun hn => absurd (of_mem_takeWhile _ hn) (by decide)
  · cases h

theorem abuts_char {cs : List Char} {part : StrPart} (h : (charAt cs).token = some (.char part)) :
    Abuts part.display.toList := by
  unfold charAt at h
  split at h
  · cases h
  · cases h
  · cases h
  · split at h
    · cases h
    · rename_i hread
      obtain ⟨hk, -⟩ := closeChar_token h
      obtain rfl := TokenKind.char.inj hk
      exact abuts_escape hread
    · cases h
  · rename_i c cs hn _ _
    obtain ⟨hk, -⟩ := closeChar_token h
    obtain rfl := TokenKind.char.inj hk
    exact .of_line (by simpa [StrPart.display] using Ne.symm hn)

/-- The text of a token has no carriage return before a line feed or at its end. -/
theorem TokenKind.Legible.loneReturns {k : TokenKind} (h : k.Legible) :
    LoneReturns k.display.toList ∧ ∀ c ∈ k.display.toList.getLast?, c ≠ '\r' := by
  have hline {text : List Char} (hn : '\n' ∉ text) (hr : '\r' ∉ text) :
      LoneReturns text ∧ ∀ c ∈ text.getLast?, c ≠ '\r' :=
    ⟨(Abuts.of_line hn).returns, fun _ hc hcr => hr (hcr ▸ List.mem_of_getLast? hc)⟩
  have hquoted {quote : Char} {text : List Char} (hn : quote ≠ '\n') (hr : quote ≠ '\r') (ht : Abuts text) :
      LoneReturns (quote :: (text ++ [quote])) ∧ ∀ c ∈ (quote :: (text ++ [quote])).getLast?, c ≠ '\r' := by
    have hmark : Abuts [quote] := .of_line (by simpa using Ne.symm hn)
    refine ⟨(hmark.append (ht.append hmark)).returns, ?_⟩
    rw [← List.cons_append, List.getLast?_concat]
    rintro _ ⟨⟩
    exact hr
  have hsymbol (hs : k.isSymbol = true) : '\n' ∉ k.display.toList ∧ '\r' ∉ k.display.toList := by
    cases k with
    | operator o => cases o <;> decide
    | punctuation p => cases p <;> decide
    | _ => cases hs
  obtain ⟨c, cs, hs⟩ := h
  have htoken := hs.token
  rw [lexemeAt_of_token htoken] at htoken
  unfold readerFrom at htoken
  split_ifs at htoken with h₁ h₂ h₃ h₄ hd hw
  · exact hline (hsymbol (isSymbol_of_slashAt htoken)).1 (hsymbol (isSymbol_of_slashAt htoken)).2
  · rw [stringAt_of_closed (closed_of_token htoken)] at htoken
    obtain rfl := Option.some.inj htoken
    have hbody := Abuts.flatMap (@abuts_items (cs.length + 1) 1 cs)
    simpa [TokenKind.display, toList_displayParts] using hquoted (by decide) (by decide) hbody
  · obtain ⟨part, rfl⟩ := char_of_charAt htoken
    simpa [TokenKind.display] using hquoted (by decide) (by decide) (abuts_char htoken)
  · obtain ⟨raw, rfl⟩ := rawName_of_rawNameAt htoken
    simpa [TokenKind.display] using hquoted (by decide) (by decide) (abuts_rawName htoken)
  · obtain ⟨n, rfl⟩ := number_of_numberAt htoken
    obtain ⟨-, -, hnumeral, -⟩ := numberAt_eq_some.1 htoken
    exact hline (fun hc => absurd (hnumeral.mem _ hc) (by decide)) fun hc => absurd (hnumeral.mem _ hc) (by decide)
  · obtain rfl : wordKind _ = k := Option.some.inj htoken
    have hparts := (word_of_legible ⟨c, cs, hs⟩).2
    rw [display_wordKind]
    exact hline (not_mem_of_word hparts (by decide)) (not_mem_of_word hparts (by decide))
  · exact hline (hsymbol (isSymbol_of_symbolAt htoken)).1 (hsymbol (isSymbol_of_symbolAt htoken)).2

/-! ### Formatted texts -/

/-- The text of fragments whose tokens are legible has no carriage return before a line feed. -/
theorem loneReturns_render (indent : Nat) {f : List Fragment} (h : Fragment.Legible f) :
    LoneReturns (render indent f).toList := by
  induction f with
  | nil => exact List.isChain_nil
  | cons a f ih =>
    rw [render_cons]
    cases a with
    | token k => exact h.1.loneReturns.1.append (ih h.2.2) h.1.loneReturns.2
    | space =>
      rw [text_space]
      exact LoneReturns.append (.singleton _) (ih h) (by simp)
    | line depth =>
      rw [text_line]
      have hn : '\r' ∉ '\n' :: List.replicate (depth * indent) ' ' := by simp
      refine LoneReturns.append ?_ (ih h) fun c hc hr => hn (hr ▸ List.mem_of_getLast? hc)
      exact List.Pairwise.isChain (List.pairwise_of_forall_mem_list fun c hc _ _ hr => absurd (hr ▸ hc) hn)

/-- A declaration ends in a mark. -/
theorem Declaration.layout_eq (d : Declaration) : ∃ f m, d.layout = f ++ [mark m] := by
  have hbraces (depth : Nat) (statements : List (List Fragment)) :
      ∃ f m, braces depth statements = f ++ [mark m] := by
    unfold braces
    split
    · exact ⟨[mark .lBrace], _, rfl⟩
    · refine ⟨mark .lBrace :: (statements.map fun s => Fragment.line (depth + 1) :: s).flatten ++ [.line depth],
        .rBrace, ?_⟩
      simp
  have hfunction (decl : FunctionDecl) : ∃ f m, decl.layout 0 = f ++ [mark m] := by
    unfold FunctionDecl.layout
    cases decl.body with
    | none => exact ⟨_, _, rfl⟩
    | some body =>
      have hbody (front : List Fragment) : ∃ f m, front ++ space :: body.layout 0 = f ++ [mark m] := by
        obtain ⟨_, statements⟩ := body
        obtain ⟨f, m, hf⟩ := hbraces 0 (stmtListLayout 1 statements)
        refine ⟨front ++ space :: f, m, ?_⟩
        rw [Block.layout, hf, List.append_assoc, List.cons_append]
      exact hbody _
  cases d with
  | importModule _ path => exact ⟨_, _, rfl⟩
  | globalOptions _ options => exact ⟨_, _, rfl⟩
  | moduleName _ n => exact ⟨[word .namespaceKw, space, ofName n], _, rfl⟩
  | function _ decl => exact hfunction decl
  | externalFunction _ decl => exact hfunction decl
  | constant _ decl => exact ⟨_, _, rfl⟩
  | struct _ decl => exact ⟨_, _, rfl⟩

/-- A program without declarations is printed as nothing, and the text of another ends in a mark and a line feed. -/
theorem Program.layout_eq (blankLines : Nat) (p : Program) :
    p.layout blankLines = [] ∨ ∃ f m, p.layout blankLines = f ++ [mark m, .line 0] := by
  have hends (d : Declaration) (ds : List Declaration) :
      ∃ f m, d.layout ++ [.line 0] ++ laterDeclarations blankLines d ds = f ++ [mark m, .line 0] := by
    induction ds generalizing d with
    | nil =>
      obtain ⟨f, m, hf⟩ := d.layout_eq
      exact ⟨f, m, by simp [laterDeclarations, hf]⟩
    | cons d' ds ih =>
      obtain ⟨f, m, hf⟩ := ih d'
      refine ⟨d.layout ++ [.line 0] ++ blankLinesBetween blankLines d d' ++ f, m, ?_⟩
      simp only [laterDeclarations, List.append_assoc] at hf ⊢
      rw [hf]
  obtain ⟨_ | ⟨d, ds⟩⟩ := p
  · exact .inl rfl
  · exact .inr (hends d ds)

/-- A formatted text is tidy. -/
theorem tidy_of_formatSource {source t : String} {config : LayoutConfig} (h : formatSource source config = .ok t) :
    Tidy t.toList := by
  obtain ⟨herrors, -, p, hp, rfl⟩ := formatSource_ok.1 h
  have hlex : tokenize source = .ok (lex source).tokens := by
    rw [tokenize, herrors]
    rfl
  refine ⟨loneReturns_render config.indent (legible_of_parseTokens hlex hp config.blankLines), ?_⟩
  unfold Program.print
  rcases p.layout_eq config.blankLines with hnil | ⟨f, m, hf⟩
  · rw [hnil]
    exact .inl rfl
  · -- the spelling of the mark stands before the last line feed
    have hspelling : ∀ m : Punctuation, ∃ front c, m.spelling.toList = front ++ [c] ∧ c ≠ '\n' := by
      intro m
      cases m <;> first
        | exact ⟨[], _, rfl, by decide⟩
        | exact ⟨[_], _, rfl, by decide⟩
        | exact ⟨[_, _], _, rfl, by decide⟩
    obtain ⟨front, c, hm, hc⟩ := hspelling m
    refine .inr ⟨(render config.indent f).toList ++ front, c, ?_, hc⟩
    rw [hf]
    simp [render, Fragment.text, TokenKind.display, hm]

/-! ### The listing of differences -/

/-- What formatting would change: nothing, or what the differing lines tell, where lines that are not there count as
empty, and empty lines are left out.  The entries may come to nothing, if only line ends or empty lines at the end change;
even so, the source and they make out the formatted text. -/
theorem formatDiff_listing {source t : String} {config : LayoutConfig} (h : formatSource source config = .ok t) :
    (formatDiff source config = .ok none ↔ t = source) ∧
    ∀ d, formatDiff source config = .ok (some d) →
      (∃ entries, d = String.join (entries.map DiffLine.render) ∧
        IsListing (textLines source) (textLines t) entries) ∧
      (d = "" ↔ ∀ i, lineAt (textLines source) i = lineAt (textLines t) i) ∧
      ∀ config', formatDiff source config' = .ok (some d) → formatSource source config' = .ok t := by
  have hdiff {config : LayoutConfig} {t : String} (h : formatSource source config = .ok t) :
      formatDiff source config = .ok (if t = source then none else
        some (diffFrom 1 (textLines source) (textLines t))) := by
    rw [formatDiff, h]
    rfl
  have hsome {config : LayoutConfig} {t d : String} (h : formatSource source config = .ok t)
      (hd : formatDiff source config = .ok (some d)) : d = diffFrom 1 (textLines source) (textLines t) := by
    rw [hdiff h] at hd
    split at hd
    · cases hd
    · exact (Option.some.inj (Except.ok.inj hd)).symm
  constructor
  · rw [hdiff h]
    split <;> simp_all
  · intro d hd
    obtain rfl := hsome h hd
    refine ⟨⟨_, diffFrom_eq _ _ _, isListing_listing⟩, diffFrom_eq_empty, fun config' hd' => ?_⟩
    cases h' : formatSource source config' with
    | error errors =>
      rw [formatDiff, h'] at hd'
      cases hd'
    | ok t' => rw [eq_of_diffFrom (tidy_of_formatSource h) (tidy_of_formatSource h') (hsome h' hd')]

/-- A source in which formatting moves a brace and indents a line. -/
def crampedSource : String := "fn main()\x7b\nreturn;\n\x7d\n"

theorem formatDiff_listing_cramped : ∃ t d, formatSource crampedSource {} = .ok t ∧
    formatDiff crampedSource {} = .ok (some d) ∧ d ≠ "" ∧
      ∀ config', formatDiff crampedSource config' = .ok (some d) → formatSource crampedSource config' = .ok t := by
  have hformat : (formatSource crampedSource {}).toOption = some "fn main() \x7b\n    return;\n\x7d\n" := by
    decide +kernel
  have hfirst : lineAt (textLines crampedSource) 0 ≠ lineAt (textLines "fn main() \x7b\n    return;\n\x7d\n") 0 := by
    decide +kernel
  cases ht : formatSource crampedSource {} with
  | error errors => simp [ht, Except.toOption] at hformat
  | ok t =>
    obtain rfl : t = _ := by simpa [ht, Except.toOption] using hformat
    obtain ⟨hnone, hsome⟩ := formatDiff_listing ht
    cases hd : formatDiff crampedSource {} with
    | error errors =>
      rw [formatDiff, ht] at hd
      cases hd
    | ok d =>
      cases d with
      | none => exact absurd (congrArg String.toList (hnone.1 hd)) (by decide +kernel)
      | some d =>
        obtain ⟨-, hempty, hmade⟩ := hsome d hd
        exact ⟨_, d, rfl, rfl, fun h => hfirst (hempty.1 h 0), hmade⟩

/-- An empty line at the end goes away, and no line is listed. -/
theorem formatDiff_silent : formatSource "fn main() \x7b\x7d\n\n" {} = .ok "fn main() \x7b\x7d\n" ∧
    formatDiff "fn main() \x7b\x7d\n\n" {} = .ok (some "") := by
  have hformat : (formatSource "fn main() \x7b\x7d\n\n" {}).toOption = some "fn main() \x7b\x7d\n" := by decide +kernel
  have hlines : textLines "fn main() \x7b\x7d\n\n" = ["fn main() \x7b\x7d", ""] ∧
      textLines "fn main() \x7b\x7d\n" = ["fn main() \x7b\x7d"] := by decide +kernel
  cases ht : formatSource "fn main() \x7b\x7d\n\n" {} with
  | error errors => simp [ht, Except.toOption] at hformat
  | ok t =>
    obtain rfl : t = _ := by simpa [ht, Except.toOption] using hformat
    refine ⟨rfl, ?_⟩
    rw [formatDiff, ht]
    simp [Except.map, hlines, diffFrom, diffEntry]

end ElleFrontEnd
