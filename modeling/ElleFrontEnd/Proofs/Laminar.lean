import ElleFrontEnd.Proofs.CitedProgram

/-!
# The stretches of a parsed source

Whatever a source holds and however much of it can be read, the stretches of the nodes that were read are a laminar
family: each is not empty and begins and ends between characters, the parts of a node lie inside of it and stand one
behind another, and so the stretches, a node before its parts, begin in order.  All diagnostics point to stretches of
the source (`parseSource_laminar`).

The diagnostics of the parser do so by `Parser.Cites.program`.  Those of the lexer point to characters of the lexeme
that they refuse.
-/

namespace ElleFrontEnd

/-! ### Malformed lexemes -/

/-- Whether the faults of a lexeme end where they begin, or behind. -/
def Lexeme.Forward (l : Lexeme) : Prop := ∀ f ∈ l.faults, f.start ≤ f.stop

theorem Lexeme.Forward.of_nil {l : Lexeme} (h : l.faults = []) : l.Forward := by simp [Forward, h]

theorem Lexeme.Forward.refused (more : Nat) (cause : Cause) : (Lexeme.refused more cause).Forward := by
  simp [Forward, Lexeme.refused]

theorem le_of_stringBodyFrom {fuel place : Nat} {cs : List Char} :
    ∀ f ∈ (stringBodyFrom fuel place cs).faults, f.start ≤ f.stop := by
  induction fuel generalizing place cs with
  | zero => simp [stringBodyFrom]
  | succ fuel ih =>
    cases cs with
    | nil => simp [stringBodyFrom]
    | cons c cs =>
      unfold stringBodyFrom
      split_ifs
      · simp
      · simp
      · split
        · simp
        · simpa [StringBody.push] using ih
        · refine List.forall_mem_cons.2 ⟨?_, ih⟩
          dsimp only
          omega
      · simpa [StringBody.push] using ih

theorem forward_stringAt (cs : List Char) : (stringAt cs).Forward := by
  unfold stringAt
  dsimp only
  split
  · exact le_of_stringBodyFrom
  · exact List.forall_mem_append.2 ⟨le_of_stringBodyFrom, by simp⟩

theorem forward_closeChar (part : StrPart) (taken : Nat) (cs : List Char) : (closeChar part taken cs).Forward := by
  unfold closeChar
  split
  · exact .of_nil rfl
  · exact .refused _ _

theorem forward_charAt (cs : List Char) : (charAt cs).Forward := by
  unfold charAt
  split
  · exact .refused _ _
  · exact .refused _ _
  · exact .refused _ _
  · split
    · exact .refused _ _
    · exact forward_closeChar _ _ _
    · simp [Lexeme.Forward]
  · exact forward_closeChar _ _ _

theorem forward_rawNameAt (cs : List Char) : (rawNameAt cs).Forward := by
  unfold rawNameAt
  dsimp only
  split
  · split
    · exact .refused _ _
    · exact .of_nil rfl
  · exact .refused _ _

theorem forward_numberAt (c : Char) (cs : List Char) : (numberAt c cs).Forward := by
  unfold numberAt
  dsimp only
  split
  · exact .of_nil rfl
  · exact .refused _ _

theorem forward_symbolAt (c : Char) (cs : List Char) : (symbolAt c cs).Forward := by
  unfold symbolAt
  split
  · exact .of_nil rfl
  · exact .refused _ _

theorem forward_slashAt (cs : List Char) : (slashAt cs).Forward := by
  unfold slashAt
  split
  · exact .of_nil rfl
  · split
    · exact .of_nil rfl
    · exact .refused _ _
  · exact forward_symbolAt _ _

theorem forward_lexemeAt (c : Char) (cs : List Char) : (lexemeAt c cs).Forward := by
  by_cases hb : isBlank c = true
  · rw [lexemeAt_of_isBlank hb]
    exact .of_nil rfl
  by_cases hc : c = '\\'
  · subst hc
    rw [lexemeAt_backslash]
    split
    · exact .of_nil rfl
    · exact .of_nil rfl
    · exact .of_nil rfl
    · exact .refused _ _
  rw [lexemeAt_eq (Bool.not_eq_true _ ▸ hb) hc]
  unfold readerFrom
  split_ifs
  · exact forward_slashAt cs
  · exact forward_stringAt cs
  · exact forward_charAt cs
  · exact forward_rawNameAt cs
  · exact forward_numberAt c cs
  · exact .of_nil rfl
  · exact forward_symbolAt c cs

theorem byteLength_take_le {m n : Nat} (h : m ≤ n) (text : List Char) :
    byteLength (text.take m) ≤ byteLength (text.take n) := by
  obtain ⟨k, rfl⟩ := Nat.exists_eq_add_of_le h
  rw [List.take_add, byteLength_append]
  exact Nat.le_add_right _ _

/-- The characters from one to another of a part of a text make a stretch of the text. -/
theorem within_spanWithin {text before taken rest : List Char} {place : Place}
    (htext : text = before ++ (taken ++ rest))
    (hplace : place.offset = byteLength before) {start stop : Nat} (hle : start ≤ stop) :
    (spanWithin place taken start stop).Within text := by
  have hbound (n : Nat) : OnBoundary text (place.offset + byteLength (taken.take n)) := by
    refine ⟨before ++ taken.take n, taken.drop n ++ rest, ?_, by rw [byteLength_append, hplace]⟩
    rw [htext, List.append_assoc, ← List.append_assoc (taken.take n), List.take_append_drop]
  exact .intro (hbound _) (hbound _) (Nat.add_le_add_left (byteLength_take_le hle taken) _)

theorem within_of_placed {text before : List Char} {place : Place} {cuts : List Cut}
    (hcuts : ∀ cut ∈ cuts, cut.lexeme.Forward) (htext : text = before ++ cuts.flatMap Cut.taken)
    (hplace : place.offset = byteLength before) : ∀ d ∈ (placed place cuts).errors, d.span.Within text := by
  induction cuts generalizing before place with
  | nil => simp [placed]
  | cons cut cuts ih =>
    refine List.forall_mem_append.2 ⟨fun d hd => ?_, ?_⟩
    · obtain ⟨f, hf, rfl⟩ := List.mem_map.1 hd
      exact within_spanWithin (by rw [htext, List.flatMap_cons]) hplace (hcuts cut List.mem_cons_self f hf)
    · obtain ⟨htext', hplace'⟩ := Cut.behind htext hplace
      exact ih (fun c hc => hcuts c (List.mem_cons_of_mem _ hc)) htext' hplace'

/-- The lexical diagnostics of a source point into it. -/
theorem within_of_lex (source : String) : ∀ d ∈ (lex source).errors, d.span.Within source.toList := by
  have htext : source.toList = [] ++ (lexemes source.toList).flatMap Cut.taken := (flatMap_taken_lexemes _).symm
  refine within_of_placed (fun cut hcut => ?_) htext rfl
  obtain ⟨c, cs, rfl⟩ := exists_lexemeAt hcut
  exact forward_lexemeAt c cs

/-! ### Sources -/

/-- Whether the stretches of a program are a laminar family in a text: those of its outlines, which are all that it has.
Each is not empty and lies between characters, the parts of a node stand inside of it and one behind another, and the
stretches begin in order. -/
structure Program.Laid (text : List Char) (p : Program) : Prop where
  all : outlinesSpans p.outlines = p.spans
  laminar : ∀ t ∈ p.outlines, t.Laminar (OnBoundary text)
  apart : p.outlines.Pairwise (·.span.stop ≤ ·.span.start)
  ordered : p.spans.Pairwise (·.start ≤ ·.start)

/-- Whatever a source holds, the stretches of what was read of it are a laminar family, and all diagnostics point to
stretches of it. -/
theorem parseSource_laminar (source : String) (o : ParseOptions) :
    (parseSource source o).program.Laid source.toList ∧
      ∀ d ∈ (parseSource source o).diagnostics, d.span.Within source.toList := by
  have hplaced := placed_of_lex source
  obtain ⟨ds, s', hrun⟩ := Parser.program_total o { rest := (lex source).tokens }
  have hreads := Parser.outlined_program source.toList o _ _ _ hplaced hrun
  have hcited : Cited source.toList s' := by
    have hkept := Parser.Cites.program o _ ⟨hplaced, by simp⟩ (Nat.zero_le _)
    rw [show Parser.program o _ = _ from hrun] at hkept
    exact hkept.cited
  have hparse : parseSource source o = ⟨⟨ds⟩, (lex source).errors ++ s'.errors⟩ := by
    simp only [parseSource, parsePartial, show Parser.program o _ = _ from hrun]
  have hall := Program.spans_outlines ⟨ds⟩
  rw [hparse]
  refine ⟨⟨hall, hreads.laminar, hreads.standing.apart, ?_⟩,
    List.forall_mem_append.2 ⟨within_of_lex source, hcited.recorded⟩⟩
  rw [← hall]
  exact sorted_starts hreads.standing hreads.laminar

end ElleFrontEnd
