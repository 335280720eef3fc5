import ElleFrontEnd.Module.Graph
import ElleFrontEnd.Proofs.Laminar
import ElleFrontEnd.Proofs.Lawful

/-!
# The paths that programs import

A module path in a program that was read from a source, whatever is wrong with the source, has a segment, and all its
segments are words (`written_of_imports`).  So a slash stands between segments only, and the text of such a path tells
which path it is (`ModulePath.Written.eq_of_text_eq`).
-/

namespace ElleFrontEnd

/-- Whether a path can be written behind `use`: it has a segment, and each is made of letters, digits and `_`. -/
structure ModulePath.Written (p : ModulePath) : Prop where
  segments_ne : p.segments ≠ []
  segment : ∀ s ∈ p.segments, s.toList ≠ [] ∧ ∀ c ∈ s.toList, isWordPart c = true

namespace ModulePath.Written

variable {p q : ModulePath}

/-- The segments of a path are the parts of its text between slashes. -/
theorem splitOn_text (h : p.Written) : p.text.toList.splitOn '/' = p.segments.map String.toList := by
  have hslash : ∀ l ∈ p.segments.map String.toList, '/' ∉ l := by
    intro l hl hc
    obtain ⟨s, hs, rfl⟩ := List.mem_map.1 hl
    exact absurd ((h.segment s hs).2 '/' hc) (by decide)
  rw [ModulePath.text, String.toList_intercalate]
  exact List.splitOn_intercalate '/' hslash (by simpa using h.segments_ne)

/-- The text of a path tells which path it is. -/
theorem eq_of_text_eq (hp : p.Written) (hq : q.Written) (h : p.text = q.text) : p = q := by
  have hsegments : p.segments.map String.toList = q.segments.map String.toList := by
    rw [← hp.splitOn_text, ← hq.splitOn_text, h]
  obtain ⟨ps⟩ := p
  obtain ⟨qs⟩ := q
  exact congrArg ModulePath.mk (List.map_injective_iff.2 (fun _ _ => String.toList_inj.1) hsegments)

end ModulePath.Written

/-- The imports of a program are those of its outlines and lawful. -/
theorem written_of_imports {source : String} {o : ParseOptions} {p : ModulePath}
    (h : p ∈ (parseSource source o).program.imports) : p.Written := by
  obtain ⟨ds, s', hrun⟩ := Parser.program_total o { rest := (lex source).tokens }
  have hlegible := (Parser.outlined_program source.toList o _ _ _ (placed_of_lex source) hrun).legible
  have hlawful := Parser.program_lawful o _ _ _ hrun
  have hparse : (parseSource source o).program = ⟨ds⟩ := by
    simp only [parseSource, parsePartial, show Parser.program o _ = _ from hrun]
  rw [hparse] at h
  obtain ⟨d, hd, hpath⟩ := List.mem_filterMap.1 h
  cases d with
  | importModule span path =>
    obtain rfl : path = p := Option.some.inj hpath
    refine ⟨hlawful _ hd, fun s hs => word_of_legible (hlegible _ ?_)⟩
    refine mem_outlinesWords (List.mem_map_of_mem hd) ?_
    rw [Declaration.outline, words_node, List.mem_append]
    exact .inl (List.mem_map_of_mem hs)
  | _ => simp [Declaration.importPath?] at hpath

end ElleFrontEnd
