import ElleFrontEnd.Format
import ElleFrontEnd.Proofs.RoundTrip
import ElleFrontEnd.Proofs.TrialProgram

/-!
# Formatting what was formatted

A formatted text is read again as the program that it was printed from, where twice the nesting is allowed.  Formatting
itself allows no more than it did the first time, but a `&&` before an operand, which nests once, is printed as two
operators, which nest twice.  So a formatted text is in canonical form, unless levels run out (`formatSource_again`).
-/

namespace ElleFrontEnd

/-- A source without malformed places and comments is read and printed. -/
theorem formatSource_of_clean {source : String} (he : (lex source).errors = []) (hc : (lex source).comments = [])
    (config : LayoutConfig) :
    formatSource source config = (parseTokens (lex source).tokens {}).map (·.print config) := by
  simp [formatSource, he, hc]

theorem formatSource_ok {source t : String} {config : LayoutConfig} :
    formatSource source config = .ok t ↔ (lex source).errors = [] ∧ (lex source).comments = [] ∧
      ∃ p, parseTokens (lex source).tokens {} = .ok p ∧ p.print config = t := by
  by_cases he : (lex source).errors = []
  · by_cases hc : (lex source).comments = []
    · rw [formatSource_of_clean he hc]
      cases parseTokens (lex source).tokens {} <;> simp [he, hc, Except.map]
    · simp [formatSource, he, hc]
  · simp [formatSource, he]

/-- A formatted text is formatted as it is, unless levels run out: it is read again where twice the nesting is allowed,
and as long as the types on trial lie within the limit of formatting, nothing but that limit can be reported. -/
theorem formatSource_again {source t : String} {config : LayoutConfig} (h : formatSource source config = .ok t) :
    ∃ p, parseTokens (lex t).tokens { maxDepth := 512 } = .ok p ∧ p.print config = t ∧
      (p.trialDepth ≤ 256 →
        (formatSource t config = .ok t ∧ isFormatted t config = .ok true) ∨
          ∃ e more, formatSource t config = .error (e :: more) ∧ e.cause = .tooDeep 256) := by
  obtain ⟨herrors, -, p, hp, rfl⟩ := formatSource_ok.1 h
  have hlex : tokenize source = .ok (lex source).tokens := by
    rw [tokenize, herrors]
    rfl
  obtain ⟨hmarks, hcomments', herrors'⟩ := lex_render config.indent (legible_of_parseTokens hlex hp config.blankLines)
  have hwide : 2 * ({} : ParseOptions).maxDepth ≤ ({ maxDepth := 512 } : ParseOptions).maxDepth := Nat.le_refl _
  obtain ⟨p', hp', hsame⟩ := parseTokens_of_marks hp config.blankLines hmarks hwide
  have hprint := Program.print_eq_of_withoutSpans_eq hsame config
  refine ⟨p', hp', hprint, fun hdepth => ?_⟩
  have hformat := formatSource_of_clean herrors' hcomments' config
  rcases parseTokens_narrow true (by decide : 256 ≤ 512) hp' hdepth with hread | ⟨e, more, hread, cause⟩
  · have hfixed : formatSource (p.print config) config = .ok (p.print config) :=
      hformat.trans ((congrArg (Except.map (·.print config)) hread).trans (congrArg Except.ok hprint))
    exact .inl ⟨hfixed, by simp [isFormatted, hfixed, Except.map]⟩
  · exact .inr ⟨e, more, hformat.trans (congrArg (Except.map (·.print config)) hread), cause⟩

/-- The types on trial of a short text lie within the limit, and it is in canonical form once it has been formatted. -/
theorem formatSource_again_crowded : ∃ t, formatSource crowdedSource {} = .ok t ∧ formatSource t {} = .ok t := by
  have hformat : ((formatSource crowdedSource {}).toOption.any fun t => (formatSource t {}).toOption.isSome &&
      (parseTokens (lex t).tokens { maxDepth := 512 }).toOption.any fun p => p.trialDepth ≤ 256) = true := by
    decide +kernel
  cases h : formatSource crowdedSource {} with
  | error errors => simp [h, Except.toOption] at hformat
  | ok t =>
    refine ⟨t, rfl, ?_⟩
    obtain ⟨p, hp, -, hfixed⟩ := formatSource_again h
    simp only [h, Except.toOption, Option.any_some, Bool.and_eq_true, hp, decide_eq_true_eq] at hformat
    rcases hfixed hformat.2 with hfixed | ⟨e, more, herror, -⟩
    · exact hfixed.1
    · simp [herror] at hformat

end ElleFrontEnd
