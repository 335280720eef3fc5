import ElleFrontEnd.Proofs.LayoutSpans
import ElleFrontEnd.Proofs.LegibleLayout
import ElleFrontEnd.Proofs.OutlineProgram
import ElleFrontEnd.Proofs.RereadProgram

/-!
# Printing and reading again

A program that was read from a source is lawful and holds only words that can be read from their texts, so that its
printed form is legible and is lexed as the tokens of its fragments.  From these the same program is read again, up to
stretches, wherever twice the nesting is allowed (`print_roundTrip`).
-/

namespace ElleFrontEnd

open Fragment

variable {f : List Fragment}

/-! ### Printed declarations are legible -/

theorem legible_modifiersLayout (modifiers : List Modifier) (hf : Legible f) :
    Legible (modifiersLayout modifiers ++ f) := by
  induction modifiers with
  | nil => exact hf
  | cons m modifiers ih =>
    have hword : Legible (word (.visibility m.kind) :: space :: (modifiersLayout modifiers ++ f)) :=
      legible_word.2 (afterWord_space.2 ih)
    have hcons : modifiersLayout (m :: modifiers) ++ f = (if m.negated then [Fragment.op .bang] else []) ++
        word (.visibility m.kind) :: space :: (modifiersLayout modifiers ++ f) := by
      simp [modifiersLayout]
    rw [hcons]
    split
    · exact legible_op hword fun _ => rfl
    · exact hword

theorem afterWord_typeParamsLayout {names : List String} (hn : ∀ k ∈ nameWords names, k.Legible) (hf : AfterType f) :
    AfterWord (typeParamsLayout names ++ f) := by
  cases names with
  | nil => exact hf.afterWord
  | cons n names =>
    have hitems : Legible (commas ((n :: names).map fun n => [ofName n]) ++ Fragment.op .gt :: f) := by
      refine legible_commas ?_ (afterType_gt hf)
      simp only [List.mem_map, forall_exists_index, and_imp, forall_apply_eq_imp_iff₂]
      exact fun n h f hf => (legible_ofName (hn _ (List.mem_map_of_mem h))).2 hf.afterWord
    have hangles : typeParamsLayout (n :: names) ++ f =
        Fragment.op .lt :: (commas ((n :: names).map fun n => [ofName n]) ++ Fragment.op .gt :: f) := by
      simp [typeParamsLayout, angles]
    rw [hangles]
    refine afterWord_op.2 (legible_op hitems fun _ => ?_)
    cases names <;> simp [commas, separated, TokenKind.symbolStart?]

theorem DeclName.legible_layout {name : DeclName} (hw : name.outline.Legible) (hf : AfterWord f) :
    Legible (name.layout ++ f) := by
  cases name with
  | plain _ n =>
    simp only [outline, legible_node, List.mem_singleton, forall_eq] at hw
    exact (legible_ofName hw.1).2 hf
  | qualified _ path =>
    simp only [outline, legible_node] at hw
    exact legible_path hw.1 hf
  | rawName _ raw =>
    simp only [outline, legible_node, List.mem_singleton, forall_eq] at hw
    exact ⟨hw.1, fun _ => .inl rfl, hf.1⟩

theorem Attribute.afterWord_layout {a : Attribute} (depth : Nat) (hl : a.Lawful) (hw : a.outline.Legible)
    (hf : AfterWord f) : AfterWord (a.layout depth ++ f) := by
  obtain ⟨_, name, args⟩ := a
  simp only [outline, legible_node, List.mem_singleton, forall_eq] at hw
  rw [layout, List.append_assoc]
  refine afterWord_space.2 ((legible_mark rfl).2 ((legible_ofName hw.1).2 ?_))
  cases args with
  | none => exact hf
  | some args =>
    refine afterWord_mark.2 ?_
    exact legible_parens (fun f hf => legible_commas (legible_exprListLayout depth args hl hw.2) hf) hf.1

theorem afterWord_attributesLayout {attributes : List Attribute} (depth : Nat) (hl : ∀ a ∈ attributes, a.Lawful)
    (hw : outlinesLegible (attributes.map Attribute.outline)) (hf : AfterWord f) :
    AfterWord (attributes.flatMap (Attribute.layout depth) ++ f) := by
  induction attributes with
  | nil => exact hf
  | cons a attributes ih =>
    simp only [List.map_cons, outlinesLegible_cons] at hw
    rw [List.flatMap_cons, List.append_assoc]
    exact a.afterWord_layout depth (hl a List.mem_cons_self) hw.1
      (ih (fun a ha => hl a (List.mem_cons_of_mem _ ha)) hw.2)

theorem FunctionDecl.legible_layout {d : FunctionDecl} (depth : Nat) (hl : d.Lawful)
    (hn : ∀ k ∈ nameWords d.generics ++ d.params.words, k.Legible) (hw : outlinesLegible d.outlines)
    (hf : Legible f) : Legible (d.layout depth ++ f) := by
  obtain ⟨hname, hparams, hattributes, hreturn, hbody⟩ := hl
  obtain ⟨modifiers, name, generics, params, attributes, returnType, body⟩ := d
  simp only [outlines, outlinesLegible_cons, outlinesLegible_append] at hw
  simp only [List.mem_append, or_imp, forall_and] at hn
  have hsemicolon : AfterType (mark .semicolon :: f) := (afterType_mark rfl).2 hf
  have hblock : ∀ b ∈ body, AfterType (space :: (b.layout depth ++ f)) := by
    rintro b rfl
    simp only [optBlockOutlines, outlinesLegible_cons] at hw
    exact afterType_space.2 (b.legible_layout depth (hbody b rfl) hw.2.2.2.2.1 f hf)
  have htype : ∀ t ∈ returnType, ∀ g, AfterType g → AfterWord ([space, mark .arrow, space] ++ (t.layout ++ g)) := by
    rintro t rfl g hg
    simp only [optTypeOutlines, outlinesLegible_cons] at hw
    exact afterWord_space.2 (legible_mark_space.2 (t.legible_layout (hreturn t rfl) hw.2.2.2.1.1 hg))
  simp only [layout, List.append_assoc]
  refine legible_modifiersLayout modifiers (legible_word.2 (afterWord_space.2 ?_))
  refine DeclName.legible_layout hw.1 (afterWord_typeParamsLayout hn.1 ((afterType_token rfl).2 ?_))
  refine ParamList.legible_layout hparams hn.2 hw.2.1 (afterWord_attributesLayout depth hattributes hw.2.2.1 ?_).1
  cases returnType with
  | none =>
    cases body with
    | none => exact hsemicolon.afterWord
    | some b => exact (hblock b rfl).afterWord
  | some t =>
    cases body with
    | none => exact htype t rfl _ hsemicolon
    | some b => exact htype t rfl _ (hblock b rfl)

theorem ConstDecl.legible_layout {d : ConstDecl} (depth : Nat) (hl : d.Lawful) (hn : (TokenKind.ident d.name).Legible)
    (hw : outlinesLegible d.outlines) (hf : Legible f) : Legible (d.layout depth ++ f) := by
  obtain ⟨modifiers, type, name, value⟩ := d
  simp only [outlines, outlinesLegible_cons, outlinesLegible_append] at hw
  have hvalue : Legible (ofName name :: space :: Fragment.op .eq :: space ::
      (value.layout depth true ++ mark .semicolon :: f)) := by
    refine (legible_ofName hn).2 (afterWord_space.2 (legible_op_space.2 ?_))
    exact value.legible_layout depth hl.2 hw.2.1 true _ (afterWord_mark.2 ((legible_mark rfl).2 hf))
  simp only [layout, List.append_assoc]
  refine legible_modifiersLayout modifiers (legible_word.2 (afterWord_space.2 ?_))
  cases type with
  | none => exact hvalue
  | some t =>
    simp only [optTypeOutlines, outlinesLegible_cons] at hw
    rw [List.append_assoc]
    exact t.legible_layout (hl.1 t rfl) hw.1.1 (afterType_space.2 hvalue)

theorem Field.legible_layout {field : Field} (hl : field.type.WellFormed) (hw : field.outline.Legible)
    (hf : Legible f) : Legible (field.layout ++ f) := by
  simp only [outline, legible_node, List.mem_singleton, forall_eq, outlinesLegible_cons] at hw
  rw [layout, List.append_assoc]
  refine field.type.legible_layout hl hw.2.1 (afterType_space.2 ((legible_ofName hw.1).2 ?_))
  exact afterWord_mark.2 ((legible_mark rfl).2 hf)

theorem StructDecl.legible_layout {d : StructDecl} (depth : Nat) (hl : d.Lawful)
    (hn : ∀ k ∈ nameWords (d.name :: d.generics), k.Legible) (hw : outlinesLegible d.outlines) (hf : Legible f) :
    Legible (d.layout depth ++ f) := by
  obtain ⟨modifiers, name, generics, attributes, fields⟩ := d
  simp only [outlines, outlinesLegible_append] at hw
  simp only [nameWords, List.map_cons, List.forall_mem_cons] at hn
  have hfields : ∀ s ∈ fields.map Field.layout, ∀ f, Legible f → Legible (s ++ f) := by
    simp only [List.mem_map, forall_exists_index, and_imp, forall_apply_eq_imp_iff₂]
    exact fun field hfield f hf => Field.legible_layout (hl.2 field hfield)
      (fun k hk => hw.2 k (mem_outlinesWords (List.mem_map_of_mem hfield) hk)) hf
  simp only [layout, List.append_assoc]
  refine legible_modifiersLayout modifiers (legible_word.2 (afterWord_space.2 ((legible_ofName hn.1).2 ?_)))
  have hbraces : Legible (braces depth (fields.map Field.layout) ++ mark .semicolon :: f) :=
    legible_braces depth hfields ((legible_mark rfl).2 hf)
  have hattributes := afterWord_attributesLayout depth hl.1 hw.1 (afterWord_space.2 hbraces)
  refine afterWord_typeParamsLayout hn.2 ?_
  cases attributes with
  | nil => exact afterType_space.2 hbraces
  | cons a attributes => exact afterType_space.2 hattributes.1

theorem legible_segments {segments : List String} (hw : ∀ k ∈ segments.map wordKind, k.Legible)
    (hf : Legible f) : Legible (separated [Fragment.op .slash] (segments.map fun s => [segmentFragment s]) ++
      mark .semicolon :: f) := by
  have hsegment (s : String) (hk : (wordKind s).Legible) (f : List Fragment) (hf : AfterWord f) :
      Legible (segmentFragment s :: f) := by
    unfold segmentFragment
    unfold wordKind at hk
    split
    · exact legible_word.2 hf
    · rename_i hnone
      rw [hnone] at hk
      exact (legible_ofName hk).2 hf
  have hslash (s : String) (f : List Fragment) (hf : Legible (segmentFragment s :: f)) :
      Legible (Fragment.op .slash :: segmentFragment s :: f) := by
    refine legible_op hf fun _ => ?_
    unfold segmentFragment
    split <;> rfl
  refine legible_separated (fun f (h : AfterWord f) => h.1) ?_ ?_ (afterWord_mark.2 ((legible_mark rfl).2 hf))
  · simp only [List.mem_map, forall_exists_index, and_imp, forall_apply_eq_imp_iff₂]
    exact fun s h => hsegment s (hw _ (List.mem_map_of_mem h))
  · simp only [List.mem_map, forall_exists_index, and_imp, forall_apply_eq_imp_iff₂]
    exact fun s _ f h => afterWord_op.2 (hslash s f h)

theorem Declaration.legible_layout {d : Declaration} (hl : d.Lawful) (hw : d.outline.Legible) (hf : Legible f) :
    Legible (d.layout ++ f) := by
  cases d with
  | importModule _ path =>
    simp only [outline, legible_node] at hw
    simp only [layout, List.append_assoc]
    exact legible_word.2 (afterWord_space.2 (legible_segments hw.1 hf))
  | globalOptions _ options =>
    simp only [layout, List.append_assoc]
    refine legible_word.2 (afterWord_space.2 (legible_commas ?_ ((afterType_mark rfl).2 hf)))
    simp only [List.mem_map, forall_exists_index, and_imp, forall_apply_eq_imp_iff₂]
    exact fun option _ f hf => legible_word.2 hf.afterWord
  | moduleName _ n =>
    simp only [outline, legible_node, List.mem_singleton, forall_eq] at hw
    exact legible_word.2 (afterWord_space.2 ((legible_ofName hw.1).2 (afterWord_mark.2 ((legible_mark rfl).2 hf))))
  | function _ decl =>
    simp only [outline, legible_node] at hw
    exact decl.legible_layout 0 hl.2 hw.1 hw.2 hf
  | externalFunction _ decl =>
    simp only [outline, legible_node] at hw
    exact decl.legible_layout 0 hl.2.2 hw.1 hw.2 hf
  | constant _ decl =>
    simp only [outline, legible_node, List.mem_singleton, forall_eq] at hw
    exact decl.legible_layout 0 hl hw.1 hw.2 hf
  | struct _ decl =>
    simp only [outline, legible_node] at hw
    exact decl.legible_layout 0 hl hw.1 hw.2 hf

/-- The printed form of a lawful program is legible, if the words that the program holds are. -/
theorem Program.legible_layout {p : Program} (blankLines : Nat) (hl : p.Lawful) (hw : outlinesLegible p.outlines) :
    Legible (p.layout blankLines) := by
  have hblank (d d' : Declaration) {f : List Fragment} (hf : Legible f) :
      Legible (blankLinesBetween blankLines d d' ++ f) := by
    unfold blankLinesBetween
    split
    · exact hf
    · generalize blankLines = n
      induction n with
      | zero => exact hf
      | succ n ih => exact legible_line.2 ih
  have hlater (d : Declaration) (ds : List Declaration) (hl : ∀ d ∈ ds, d.Lawful)
      (hw : outlinesLegible (ds.map Declaration.outline)) : Legible (laterDeclarations blankLines d ds) := by
    induction ds generalizing d with
    | nil => trivial
    | cons d' ds ih =>
      simp only [List.map_cons, outlinesLegible_cons] at hw
      simp only [laterDeclarations, List.append_assoc]
      refine hblank _ _ (Declaration.legible_layout (hl d' List.mem_cons_self) hw.1 (legible_line.2 ?_))
      exact ih d' (fun d hd => hl d (List.mem_cons_of_mem _ hd)) hw.2
  obtain ⟨ds⟩ := p
  cases ds with
  | nil => trivial
  | cons d ds =>
    simp only [outlines, List.map_cons, outlinesLegible_cons] at hw
    simp only [layout, declarationsLayout, List.append_assoc]
    refine Declaration.legible_layout (hl d List.mem_cons_self) hw.1 (legible_line.2 ?_)
    exact hlater d ds (fun d hd => hl d (List.mem_cons_of_mem _ hd)) hw.2

/-! ### The round trip -/

/-- A program that was read from a source is printed legibly. -/
theorem legible_of_parseTokens {source : String} {tokens : List Token} {o : ParseOptions} {p : Program}
    (hlex : tokenize source = .ok tokens) (h : parseTokens tokens o = .ok p) (blankLines : Nat) :
    Legible (p.layout blankLines) := by
  obtain rfl : (lex source).tokens = tokens := by
    unfold tokenize at hlex
    dsimp only at hlex
    split at hlex
    · exact Except.ok.inj hlex
    · cases hlex
  obtain ⟨s', he, hds⟩ := parseTokens_ok.1 h
  have hrun := (Parser.program_ok he).2 hds
  exact p.legible_layout blankLines (Parser.program_lawful o _ _ _ hrun)
    (Parser.outlined_program source.toList o _ _ _ (placed_of_lex source) hrun).legible

/-- What is read from a source is read again from its printed form, up to stretches, wherever nesting is not limited too
much, and is printed in the same way then. -/
theorem print_roundTrip {source : String} {tokens : List Token} {o : ParseOptions} {p : Program}
    (hlex : tokenize source = .ok tokens) (h : parseTokens tokens o = .ok p) :
    ∃ depth, ∀ config : LayoutConfig, ∃ printed, tokenize (p.print config) = .ok printed ∧
      ∀ o' : ParseOptions, depth ≤ o'.maxDepth → ∃ p', parseTokens printed o' = .ok p' ∧
        p'.withoutSpans = p.withoutSpans ∧ p'.print config = p.print config := by
  refine ⟨2 * o.maxDepth, fun config => ?_⟩
  obtain ⟨hmarks, -, herrors⟩ := lex_render config.indent (legible_of_parseTokens hlex h config.blankLines)
  refine ⟨(lex (p.print config)).tokens, ?_, fun o' hdepth => ?_⟩
  · rw [tokenize, Program.print, herrors]
    rfl
  · obtain ⟨p', hp', hsame⟩ := parseTokens_of_marks h config.blankLines hmarks hdepth
    exact ⟨p', hp', hsame, Program.print_eq_of_withoutSpans_eq hsame config⟩

/-- A function whose printed form has tokens that would run into each other without a space, two `>` that touch, and a
condition in two pairs of parentheses. -/
def crowdedSource : String := "fn f(V<V<i32>> x) { if ((x)) { y = & &x - -1; } return (i32)x.z..2; }"

theorem print_roundTrip_crowded : ∃ tokens p, tokenize crowdedSource = .ok tokens ∧ parseTokens tokens {} = .ok p ∧
    ∃ depth, ∀ config : LayoutConfig, ∃ printed, tokenize (p.print config) = .ok printed ∧
      ∀ o' : ParseOptions, depth ≤ o'.maxDepth → ∃ p', parseTokens printed o' = .ok p' ∧
        p'.withoutSpans = p.withoutSpans ∧ p'.print config = p.print config := by
  have hlex : tokenize crowdedSource = .ok (lex crowdedSource).tokens := by
    have herrors : (lex crowdedSource).errors = [] := by decide +kernel
    rw [tokenize, herrors]
    rfl
  have haccepted : (parseTokens (lex crowdedSource).tokens {}).toOption.isSome = true := by decide +kernel
  cases hp : parseTokens (lex crowdedSource).tokens {} with
  | ok p => exact ⟨_, p, hlex, hp, print_roundTrip hlex hp⟩
  | error errors => simp [hp, Except.toOption] at haccepted

end ElleFrontEnd
