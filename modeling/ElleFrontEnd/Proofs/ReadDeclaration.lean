import ElleFrontEnd.Proofs.ReadStmt

/-!
# Successful runs of the declaration grammar

One lemma for each parser of `Grammar.Declaration`.  As with blocks, a program is described where no declaration has
failed.
-/

namespace ElleFrontEnd

namespace Parser

variable {s s' : ParseState} {g : Inner}

/-! ### Heads of declarations -/

theorem pathSegment_ok {segment : String} :
    pathSegment.run s = (.ok segment, s') ↔ s' = s.advance ∧
      ((∃ k, s.peek.kind = .keyword k ∧ segment = k.spelling) ∨ s.peek.kind = .ident segment) := by
  unfold pathSegment nextKind
  rw [look_bind]
  split <;> simp_all <;> grind

theorem globalOption_ok {option : GlobalOption} :
    globalOption.run s = (.ok option, s') ↔ s' = s.advance ∧ s.peek.kind.visibility? = some option.visibility := by
  unfold globalOption nextKind
  rw [look_bind]
  cases option <;> split <;> simp_all [GlobalOption.visibility] <;> grind

theorem advances_pathSegment (s : ParseState) : Advances s (pathSegment s).2 :=
  Alike.advances (fun ts => Alike.pathSegment (.refl ts)) s

theorem advances_globalOption (s : ParseState) : Advances s (globalOption s).2 :=
  Alike.advances (fun ts => Alike.globalOption (.refl ts)) s

/-- The rounds of a list that goes on behind each token of a kind. -/
abbrev SeparatedListed {α : Type} (separator : TokenKind) (item : Parser α) : ParseState → List α → ParseState → Prop :=
  Listed (fun _ => False) (fun s => s.peek.kind = separator) item

theorem importPath_ok {path : ModulePath} :
    importPath.run s = (.ok path, s') ↔ s.peek.kind = .keyword .useKw ∧
      ∃ s₁, SeparatedListed (.operator .slash) pathSegment s.advance path.segments s₁ ∧
        s₁.peek.kind = .punctuation .semicolon ∧ s' = s₁.advance := by
  cases path with
  | mk segments =>
    unfold importPath expectKeyword
    simp [separatedBy_ok _ advances_pathSegment]
    grind

theorem globalLine_ok {options : List GlobalOption} :
    globalLine.run s = (.ok options, s') ↔ s.peek.kind = .keyword .globalKw ∧
      ∃ s₁, SeparatedListed (.punctuation .comma) globalOption s.advance options s₁ ∧
        s₁.peek.kind = .punctuation .semicolon ∧ s' = s₁.advance := by
  unfold globalLine expectKeyword
  simp [separatedBy_ok _ advances_globalOption]
  grind

theorem moduleLine_ok {name : String} :
    moduleLine.run s = (.ok name, s') ↔ s.advance.peek.kind = .ident name ∧
      s.advance.advance.peek.kind = .punctuation .semicolon ∧ s' = s.advance.advance.advance := by
  unfold moduleLine
  simp
  grind

/-- The modifiers before a declaration. -/
inductive Modified : ParseState → List Modifier → ParseState → Prop
  | nil {s : ParseState} : s.peek.kind ≠ .operator .bang → s.peek.kind.visibility? = none → Modified s [] s
  | plain {s s' : ParseState} {kind : Visibility} {ms : List Modifier} : s.peek.kind.visibility? = some kind →
    Modified s.advance ms s' → Modified s ({ kind, negated := false } :: ms) s'
  | negated {s s' : ParseState} {kind : Visibility} {ms : List Modifier} : s.peek.kind = .operator .bang →
    (s.kindAt 1).visibility? = some kind → Modified s.advance.advance ms s' →
    Modified s ({ kind, negated := true } :: ms) s'

theorem modifierRound_stop :
    modifierRound.run s = (.ok .stop, s') ↔ s.peek.kind ≠ .operator .bang ∧ s.peek.kind.visibility? = none ∧
      s' = s := by
  unfold modifierRound
  cases h₁ : (s.kindAt 1).visibility? <;> cases h₂ : s.peek.kind.visibility? <;>
    simp [atOperator, isAt, nextKind, ite_eq_iff, h₁, h₂, @eq_comm _ s s']

theorem modifierRound_more {m : Modifier} :
    modifierRound.run s = (.ok (.more m), s') ↔
      (s.peek.kind = .operator .bang ∧ (s.kindAt 1).visibility? = some m.kind ∧ m.negated = true ∧
          s' = s.advance.advance) ∨
        (s.peek.kind ≠ .operator .bang ∧ s.peek.kind.visibility? = some m.kind ∧ m.negated = false ∧
          s' = s.advance) := by
  cases m with
  | mk kind negated =>
    unfold modifierRound
    cases h₁ : (s.kindAt 1).visibility? <;> cases h₂ : s.peek.kind.visibility? <;>
      simp [atOperator, isAt, nextKind, ite_eq_iff, h₁, h₂] <;> grind

theorem modifierRound_last {m : Modifier} : ¬ modifierRound.run s = (.ok (.last m), s') := by
  unfold modifierRound
  cases h₁ : (s.kindAt 1).visibility? <;> cases h₂ : s.peek.kind.visibility? <;>
    simp [atOperator, isAt, nextKind, ite_eq_iff, h₁, h₂]

theorem modifierRound_none : ¬ modifierRound.run s = (.ok .none, s') := by
  unfold modifierRound
  cases h₁ : (s.kindAt 1).visibility? <;> cases h₂ : s.peek.kind.visibility? <;>
    simp [atOperator, isAt, nextKind, ite_eq_iff, h₁, h₂]

theorem visibility?_ne_bang {k : Visibility} (h : s.peek.kind.visibility? = some k) :
    s.peek.kind ≠ .operator .bang := by
  intro hb
  simp [hb, TokenKind.visibility?] at h

theorem ne_eof_of_visibility? {kind : TokenKind} {k : Visibility} (h : kind.visibility? = some k) : kind ≠ .eof := by
  rintro rfl
  simp [TokenKind.visibility?] at h

theorem modifierRound_shrinks : RoundShrinks modifierRound := by
  refine ⟨fun s m s' h => ?_, fun s s' h => absurd h modifierRound_none⟩
  rcases modifierRound_more.1 h with ⟨hk, -, -, rfl⟩ | ⟨-, hv, -, rfl⟩
  · have := length_advance_lt (s := s) (by simp [hk])
    have := (Advances.advance s.advance).length_le
    omega
  · exact length_advance_lt (ne_eof_of_visibility? hv)

theorem modifierList_ok {ms : List Modifier} : modifierList.run s = (.ok ms, s') ↔ Modified s ms s' := by
  refine (collect_ok modifierRound_shrinks).trans ?_
  constructor
  · intro h
    induction h with
    | stop h =>
      obtain ⟨hb, hv, rfl⟩ := modifierRound_stop.1 h
      exact .nil hb hv
    | last h => exact absurd h modifierRound_last
    | @more m ms s s₁ s' h _ ih =>
      obtain ⟨kind, negated⟩ := m
      rcases modifierRound_more.1 h with ⟨hk, hv, rfl, rfl⟩ | ⟨-, hv, rfl, rfl⟩
      · exact .negated hk hv ih
      · exact .plain hv ih
    | none h _ _ => exact absurd h modifierRound_none
  · intro h
    induction h with
    | nil hb hv => exact .stop (modifierRound_stop.2 ⟨hb, hv, rfl⟩)
    | plain hv _ ih => exact .more (modifierRound_more.2 (.inr ⟨visibility?_ne_bang hv, hv, rfl, rfl⟩)) ih
    | negated hk hv _ ih => exact .more (modifierRound_more.2 (.inl ⟨hk, hv, rfl, rfl⟩)) ih

theorem declName_ok {name : DeclName} :
    declName.run s = (.ok name, s') ↔
      (∃ raw, s.peek.kind = .rawName raw ∧ s' = s.advance ∧ name = .rawName (s'.spanFrom s.peek.span.start) raw) ∨
        ∃ first, s.peek.kind = .ident first ∧
          ((s.advance.peek.kind = .punctuation .colonColon ∧ ∃ tail, PathTail s.advance tail s' ∧
              name = .qualified (s'.spanFrom s.peek.span.start) (first :: tail)) ∨
            (s.advance.peek.kind ≠ .punctuation .colonColon ∧ s' = s.advance ∧
              name = .plain (s'.spanFrom s.peek.span.start) first)) := by
  unfold declName nextKind nextStart
  rw [look_bind, look_bind]
  split
  · simp_all [spanFrom]
    grind
  · simp_all [spanFrom, atMark, isAt, pathTail_ok, ite_eq_iff]
    grind

/-- The attributes of a declaration. -/
inductive Attributed (g : Inner) : ParseState → List Attribute → ParseState → Prop
  | nil {s : ParseState} : s.peek.kind ≠ .punctuation .atSign → Attributed g s [] s
  | bare {s s' : ParseState} {name : String} {as : List Attribute} : s.peek.kind = .punctuation .atSign →
    s.advance.peek.kind = .ident name → s.advance.advance.peek.kind ≠ .punctuation .lParen →
    Attributed g s.advance.advance as s' →
    Attributed g s ({ span := s.advance.advance.spanFrom s.peek.span.start, name, args := none } :: as) s'
  | called {s s₁ s' : ParseState} {name : String} {args : List Expr} {as : List Attribute} :
    s.peek.kind = .punctuation .atSign → s.advance.peek.kind = .ident name →
    s.advance.advance.peek.kind = .punctuation .lParen → (arguments g).run s.advance.advance = (.ok args, s₁) →
    Attributed g s₁ as s' →
    Attributed g s ({ span := s₁.spanFrom s.peek.span.start, name, args := some args } :: as) s'

theorem attributeRound_stop :
    (attributeRound g).run s = (.ok .stop, s') ↔ s.peek.kind ≠ .punctuation .atSign ∧ s' = s := by
  unfold attributeRound
  simp [atMark, isAt, spanFrom, ite_eq_iff, @eq_comm _ s s']

theorem attributeRound_more {a : Attribute} :
    (attributeRound g).run s = (.ok (.more a), s') ↔ s.peek.kind = .punctuation .atSign ∧
      s.advance.peek.kind = .ident a.name ∧ a.span = s'.spanFrom s.peek.span.start ∧
      ((s.advance.advance.peek.kind ≠ .punctuation .lParen ∧ a.args = none ∧ s' = s.advance.advance) ∨
        (s.advance.advance.peek.kind = .punctuation .lParen ∧
          ∃ args, (arguments g).run s.advance.advance = (.ok args, s') ∧ a.args = some args)) := by
  cases a with
  | mk span name args =>
    unfold attributeRound
    simp [atMark, isAt, spanFrom, ite_eq_iff]
    grind

theorem attributeRound_last {a : Attribute} : ¬ (attributeRound g).run s = (.ok (.last a), s') := by
  unfold attributeRound
  simp [atMark, isAt, spanFrom, ite_eq_iff]

theorem attributeRound_none : ¬ (attributeRound g).run s = (.ok .none, s') := by
  unfold attributeRound
  simp [atMark, isAt, spanFrom, ite_eq_iff]

section
variable (hg : g.Settled)
include hg

theorem attributeRound_shrinks : RoundShrinks (attributeRound g) := by
  refine ⟨fun s a s' h => ?_, fun s s' h => absurd h attributeRound_none⟩
  obtain ⟨hk, hn, -, ⟨-, -, rfl⟩ | ⟨-, args, hargs, -⟩⟩ := attributeRound_more.1 h
  all_goals
    have := length_advance_lt (s := s) (by simp [hk])
    have := (Advances.advance s.advance).length_le
  · omega
  · have := length_of_arguments hg hargs
    omega

theorem attributeList_ok {as : List Attribute} :
    (attributeList g).run s = (.ok as, s') ↔ Attributed g s as s' := by
  refine (collect_ok (attributeRound_shrinks hg)).trans ?_
  constructor
  · intro h
    induction h with
    | stop h =>
      obtain ⟨hk, rfl⟩ := attributeRound_stop.1 h
      exact .nil hk
    | last h => exact absurd h attributeRound_last
    | @more a as s s₁ s' h _ ih =>
      obtain ⟨span, name, args⟩ := a
      obtain ⟨hk, hn, rfl, ⟨hl, rfl, rfl⟩ | ⟨hl, args, hargs, rfl⟩⟩ := attributeRound_more.1 h
      · exact .bare hk hn hl ih
      · exact .called hk hn hl hargs ih
    | none h _ _ => exact absurd h attributeRound_none
  · intro h
    induction h with
    | nil hk => exact .stop (attributeRound_stop.2 ⟨hk, rfl⟩)
    | bare hk hn hl _ ih => exact .more (attributeRound_more.2 ⟨hk, hn, rfl, .inl ⟨hl, rfl, rfl⟩⟩) ih
    | called hk hn hl hargs _ ih => exact .more (attributeRound_more.2 ⟨hk, hn, rfl, .inr ⟨hl, _, hargs, rfl⟩⟩) ih

end

/-! ### Functions, constants and structs -/

theorem returnType_ok {o : Option TypeExpr} :
    (returnType g).run s = (.ok o, s') ↔
      (s.peek.kind = .punctuation .arrow ∧ ∃ t, o = some t ∧ (g.type 0).run s.advance = (.ok t, s')) ∨
        (s.peek.kind ≠ .punctuation .arrow ∧ o = none ∧ s' = s) := by
  unfold returnType
  simp [acceptMark, ite_eq_iff]
  grind

theorem functionBody_ok {modifiers : List Modifier} {name : DeclName} {o : Option Block} :
    (functionBody g modifiers name).run s = (.ok o, s') ↔
      (s.peek.kind = .punctuation .lBrace ∧ Modifier.holds modifiers .external = false ∧
          ∃ body, o = some body ∧ g.block.run s = (.ok body, s')) ∨
        (s.peek.kind = .punctuation .semicolon ∧ o = none ∧ s' = s.advance) := by
  unfold functionBody
  simp [atMark, isAt, ite_eq_iff]
  grind

section
variable (hg : g.Settled)
include hg

theorem functionDecl_ok {modifiers : List Modifier} {f : FunctionDecl} :
    (functionDecl g modifiers).run s = (.ok f, s') ↔ s.peek.kind = .keyword .fn ∧ f.modifiers = modifiers ∧
      ∃ s₁ s₂ s₃ s₄ s₅, declName.run s.advance = (.ok f.name, s₁) ∧ typeParams.run s₁ = (.ok f.generics, s₂) ∧
        (paramList g).run s₂ = (.ok f.params, s₃) ∧ Attributed g s₃ f.attributes s₄ ∧
        (returnType g).run s₄ = (.ok f.returnType, s₅) ∧
        (functionBody g modifiers f.name).run s₅ = (.ok f.body, s') := by
  cases f with
  | mk ms name generics params attributes returnType body =>
    unfold functionDecl expectKeyword
    simp [attributeList_ok hg]
    grind

omit hg in
theorem constType_ok {o : Option TypeExpr} :
    (constType g).run s = (.ok o, s') ↔
      (s.peek.kind.ident?.isSome = true ∧ s.kindAt 1 = .operator .eq ∧ o = none ∧ s' = s) ∨
        (¬ (s.peek.kind.ident?.isSome = true ∧ s.kindAt 1 = .operator .eq) ∧
          ∃ t, o = some t ∧ (g.type 0).run s = (.ok t, s')) := by
  unfold constType
  simp [atIdent, isAhead, ite_eq_iff]
  grind

omit hg in
theorem constDecl_ok {modifiers : List Modifier} {c : ConstDecl} :
    (constDecl g modifiers).run s = (.ok c, s') ↔ s.peek.kind = .keyword .constKw ∧ c.modifiers = modifiers ∧
      ∃ s₁ s₂, (constType g).run s.advance = (.ok c.type, s₁) ∧ s₁.peek.kind = .ident c.name ∧
        s₁.advance.peek.kind = .operator .eq ∧ (g.expression false).run s₁.advance.advance = (.ok c.value, s₂) ∧
        s₂.peek.kind = .punctuation .semicolon ∧ s' = s₂.advance := by
  cases c with
  | mk ms type name value =>
    unfold constDecl expectKeyword expectOperator
    simp
    grind

omit hg in
theorem structField_ok {f : Field} :
    (structField g).run s = (.ok f, s') ↔ f.span = s'.spanFrom s.peek.span.start ∧
      ((s.kindAt 1 = .punctuation .colon ∧ s.peek.kind = .ident f.name ∧
          (g.type 0).run s.advance.advance = (.ok f.type, s')) ∨
        (¬ (s.peek.kind.ident?.isSome = true ∧ s.kindAt 1 = .punctuation .colon) ∧
          ∃ s₁, (g.type 0).run s = (.ok f.type, s₁) ∧ s₁.peek.kind = .ident f.name ∧ s' = s₁.advance)) := by
  cases f with
  | mk span type name =>
    unfold structField nextStart
    simp [atIdent, isAhead, spanFrom, ite_eq_iff]
    grind [TokenKind.ident?]

/-- Whether a field of a struct may come next: neither a closer nor the end of the source does. -/
def atField (s : ParseState) : Prop :=
  s.peek.kind ≠ .punctuation .rBrace ∧ s.atEnd = false ∧ s.peek.kind ≠ .punctuation .rParen ∧
    s.peek.kind ≠ .punctuation .rBracket

/-- The fields of a struct up to its closing brace. -/
inductive Fields (g : Inner) : ParseState → List Field → ParseState → Prop
  | nil {s : ParseState} : s.peek.kind = .punctuation .rBrace → Fields g s [] s.advance
  | ended {s s₁ s' : ParseState} {f : Field} {fs : List Field} : atField s → (structField g).run s = (.ok f, s₁) →
    s₁.peek.kind = .punctuation .semicolon ∨ s₁.peek.kind = .punctuation .comma → Fields g s₁.advance fs s' →
    Fields g s (f :: fs) s'
  | last {s s₁ s' : ParseState} {f : Field} : atField s → (structField g).run s = (.ok f, s₁) →
    s₁.peek.kind = .punctuation .rBrace → s₁.advance = s' → Fields g s [f] s'

omit hg in
theorem fieldRound_stop {opened : Span} :
    (fieldRound g opened).run s = (.ok .stop, s') ↔ s.peek.kind = .punctuation .rBrace ∧ s' = s.advance := by
  unfold fieldRound
  simp [acceptMark, atMark, isAt, atEnd, nextKind, nextSpan, ite_eq_iff, @eq_comm _ s' s.advance]

omit hg in
theorem fieldRound_more {opened : Span} {f : Field} :
    (fieldRound g opened).run s = (.ok (.more f), s') ↔ atField s ∧ ∃ s₁, (structField g).run s = (.ok f, s₁) ∧
      (((s₁.peek.kind = .punctuation .semicolon ∨ s₁.peek.kind = .punctuation .comma) ∧ s' = s₁.advance) ∨
        (s₁.peek.kind = .punctuation .rBrace ∧ s' = s₁)) := by
  unfold fieldRound atField
  simp [acceptMark, atMark, isAt, atEnd, nextKind, nextSpan, ite_eq_iff]
  grind

omit hg in
theorem fieldRound_last {opened : Span} {f : Field} : ¬ (fieldRound g opened).run s = (.ok (.last f), s') := by
  unfold fieldRound
  simp [acceptMark, atMark, isAt, atEnd, nextKind, nextSpan, ite_eq_iff]

omit hg in
theorem fieldRound_none {opened : Span} : ¬ (fieldRound g opened).run s = (.ok .none, s') := by
  unfold fieldRound
  simp [acceptMark, atMark, isAt, atEnd, nextKind, nextSpan, ite_eq_iff]

/-- A field has at least its name. -/
theorem length_of_structField {f : Field} (h : (structField g).run s = (.ok f, s')) :
    s'.rest.length < s.rest.length := by
  obtain ⟨-, ⟨-, hk, ht⟩ | ⟨-, s₁, ht, hk, rfl⟩⟩ := structField_ok.1 h
  · have := length_advance_lt (s := s) (by simp [hk])
    have := (Advances.advance s.advance).length_le
    have := (advances_run (hg.type 0) ht).length_le
    omega
  · have := length_advance_lt (s := s₁) (by simp [hk])
    have := (advances_run (hg.type 0) ht).length_le
    omega

theorem fieldRound_shrinks (opened : Span) : RoundShrinks (fieldRound g opened) := by
  refine ⟨fun s f s' h => ?_, fun s s' h => absurd h fieldRound_none⟩
  obtain ⟨-, s₁, hf, ⟨-, rfl⟩ | ⟨-, rfl⟩⟩ := fieldRound_more.1 h
  all_goals
    have := length_of_structField hg hf
  · have := (Advances.advance s₁).length_le
    omega
  · exact this

theorem fields_ok {opened : Span} {fs : List Field} :
    (collect (fieldRound g opened)).run s = (.ok fs, s') ↔ Fields g s fs s' := by
  refine (collect_ok (fieldRound_shrinks hg opened)).trans ?_
  constructor
  · intro h
    induction h with
    | stop h =>
      obtain ⟨hk, rfl⟩ := fieldRound_stop.1 h
      exact .nil hk
    | last h => exact absurd h fieldRound_last
    | more h hrest ih =>
      obtain ⟨ha, s₁, hf, ⟨hk, rfl⟩ | ⟨hk, rfl⟩⟩ := fieldRound_more.1 h
      · exact .ended ha hf hk ih
      · cases hrest with
        | stop h =>
          obtain ⟨-, rfl⟩ := fieldRound_stop.1 h
          exact .last ha hf hk rfl
        | last h => exact absurd h fieldRound_last
        | more h _ => exact absurd hk (fieldRound_more.1 h).1.1
        | none h _ => exact absurd h fieldRound_none
    | none h _ _ => exact absurd h fieldRound_none
  · intro h
    induction h with
    | nil hk => exact .stop (fieldRound_stop.2 ⟨hk, rfl⟩)
    | ended ha hf hk _ ih => exact .more (fieldRound_more.2 ⟨ha, _, hf, .inl ⟨hk, rfl⟩⟩) ih
    | last ha hf hk he =>
      exact .more (fieldRound_more.2 ⟨ha, _, hf, .inr ⟨hk, rfl⟩⟩) (.stop (fieldRound_stop.2 ⟨hk, he.symm⟩))

theorem structDecl_ok {modifiers : List Modifier} {d : StructDecl} :
    (structDecl g modifiers).run s = (.ok d, s') ↔ s.peek.kind = .keyword .structKw ∧ d.modifiers = modifiers ∧
      s.advance.peek.kind = .ident d.name ∧
      ∃ s₁ s₂ s₃, typeParams.run s.advance.advance = (.ok d.generics, s₁) ∧ Attributed g s₁ d.attributes s₂ ∧
        s₂.peek.kind = .punctuation .lBrace ∧ Fields g s₂.advance d.fields s₃ ∧
        s' = if s₃.peek.kind = .punctuation .semicolon then s₃.advance else s₃ := by
  cases d with
  | mk ms name generics attributes fields =>
    unfold structDecl expectKeyword expectMark
    simp [attributeList_ok hg, fields_ok hg, acceptMark, ite_eq_iff]
    grind

end

/-! ### Declarations -/

@[simp] theorem noDeclaration_ok {α : Type} {a : α} : noDeclaration.run s = (.ok a, s') ↔ False := by
  simp [noDeclaration, run]

/-- The form of a function: one that is defined elsewhere is external. -/
def functionForm (f : FunctionDecl) (span : Span) : Declaration :=
  if Modifier.holds f.modifiers .external then .externalFunction span f else .function span f

theorem modifiedForm_ok {form : Span → Declaration} :
    (modifiedForm g).run s = (.ok form, s') ↔ ∃ ms s₁, Modified s ms s₁ ∧
      ((s₁.peek.kind = .keyword .fn ∧ ∃ decl, (functionDecl g ms).run s₁ = (.ok decl, s') ∧
          form = functionForm decl) ∨
        (s₁.peek.kind = .keyword .constKw ∧ ∃ decl, (constDecl g ms).run s₁ = (.ok decl, s') ∧
          form = fun span => .constant span decl) ∨
        (s₁.peek.kind = .keyword .structKw ∧ ∃ decl, (structDecl g ms).run s₁ = (.ok decl, s') ∧
          form = fun span => .struct span decl)) := by
  unfold modifiedForm nextKind
  rw [bind_ok]
  refine exists_congr fun ms => exists_congr fun s₁ => ?_
  rw [modifierList_ok]
  refine and_congr_right fun _ => ?_
  have hform (f : FunctionDecl) : functionForm f = if Modifier.holds f.modifiers .external = true then
      (fun span => Declaration.externalFunction span f) else fun span => .function span f := by
    funext span
    unfold functionForm
    split <;> simp_all
  rw [look_bind]
  split <;> simp_all [ite_eq_iff] <;> grind

theorem declarationForm_ok {form : Span → Declaration} :
    (declarationForm g).run s = (.ok form, s') ↔
      (s.peek.kind = .keyword .useKw ∧ ∃ path, importPath.run s = (.ok path, s') ∧
          form = fun span => .importModule span path) ∨
        (s.peek.kind = .keyword .globalKw ∧ ∃ options, globalLine.run s = (.ok options, s') ∧
          form = fun span => .globalOptions span options) ∨
        (s.peek.kind = .keyword .namespaceKw ∧ ∃ name, moduleLine.run s = (.ok name, s') ∧
          form = fun span => .moduleName span name) ∨
        (s.peek.kind ≠ .keyword .useKw ∧ s.peek.kind ≠ .keyword .globalKw ∧ s.peek.kind ≠ .keyword .namespaceKw ∧
          (modifiedForm g).run s = (.ok form, s')) := by
  unfold declarationForm nextKind
  rw [look_bind]
  split <;> simp_all <;> grind

theorem declaration_ok {d : Declaration} :
    (declaration g).run s = (.ok d, s') ↔
      ∃ form, (declarationForm g).run s = (.ok form, s') ∧ d = form (s'.spanFrom s.peek.span.start) := by
  unfold declaration nextStart
  simp [spanFrom]
  grind

/-! ### Programs -/

/-- The declarations of a program up to the end of the source, where none has failed. -/
inductive Declared (g : Inner) : ParseState → List Declaration → ParseState → Prop
  | nil {s : ParseState} : s.atEnd = true → Declared g s [] s
  | stray {s s' : ParseState} {ds : List Declaration} : s.peek.kind = .punctuation .semicolon →
    Declared g s.advance ds s' → Declared g s ds s'
  | cons {s s₁ s' : ParseState} {d : Declaration} {ds : List Declaration} : s.atEnd = false →
    s.peek.kind ≠ .punctuation .semicolon → (declaration g).run s = (.ok d, s₁) → Declared g s₁ ds s' →
    Declared g s (d :: ds) s'

theorem atEnd_of_declared {ds : List Declaration} (h : Declared g s ds s') : s'.atEnd = true := by
  induction h with
  | nil he => exact he
  | stray _ _ ih => exact ih
  | cons _ _ _ _ ih => exact ih

section
variable (hg : g.Settled)
include hg

omit hg in
theorem length_of_modified {ms : List Modifier} (h : Modified s ms s') : s'.rest.length ≤ s.rest.length := by
  induction h with
  | nil _ _ => exact Nat.le_refl _
  | @plain s _ _ _ _ _ ih =>
    have := (Advances.advance s).length_le
    omega
  | @negated s _ _ _ _ _ _ ih =>
    have := (Advances.advance s).length_le
    have := (Advances.advance s.advance).length_le
    omega

omit hg in
theorem length_of_semicolon {s₁ : ParseState} (h : s₁.rest.length ≤ s.rest.length)
    (hk : s₁.peek.kind = .punctuation .semicolon) : s₁.advance.rest.length < s.rest.length := by
  have := length_advance_lt (s := s₁) (by simp [hk])
  omega

theorem length_of_attributed {as : List Attribute} (h : Attributed g s as s') : s'.rest.length ≤ s.rest.length :=
  length_le_of_alike hg (fun _ hl hs => Alike.attributeList hl hs) ((attributeList_ok hg).2 h)

theorem length_of_functionDecl {ms : List Modifier} {f : FunctionDecl}
    (h : (functionDecl g ms).run s = (.ok f, s')) : s'.rest.length < s.rest.length := by
  obtain ⟨hk, -, s₁, s₂, s₃, s₄, s₅, hn, ht, hp, ha, hr, hb⟩ := (functionDecl_ok hg).1 h
  have := length_advance_lt (s := s) (by simp [hk])
  have := length_le_of_alike hg (fun _ hl _ => Alike.declName hl) hn
  have := length_le_of_alike hg (fun _ hl _ => Alike.typeParams hl) ht
  have := length_le_of_alike hg (fun _ hl hs => Alike.paramList hl hs) hp
  have := length_of_attributed hg ha
  have := length_le_of_alike hg (fun _ hl hs => Alike.returnType hl hs) hr
  rcases functionBody_ok.1 hb with ⟨-, -, body, -, hb⟩ | ⟨-, -, rfl⟩
  · have := hg.shrinks _ _ _ hb
    omega
  · have := (Advances.advance s₅).length_le
    omega

theorem length_of_constDecl {ms : List Modifier} {c : ConstDecl}
    (h : (constDecl g ms).run s = (.ok c, s')) : s'.rest.length < s.rest.length := by
  obtain ⟨hk, -, s₁, s₂, ht, hn, he, hv, hs, rfl⟩ := constDecl_ok.1 h
  have := (Advances.advance s).length_le
  have : s₁.rest.length ≤ s.advance.rest.length := by
    rcases constType_ok.1 ht with ⟨-, -, -, rfl⟩ | ⟨-, t, -, ht⟩
    · exact Nat.le_refl _
    · exact (advances_run (hg.type 0) ht).length_le
  have := (Advances.advance s₁).length_le
  have := (Advances.advance s₁.advance).length_le
  have := (advances_run (hg.expression false) hv).length_le
  exact length_of_semicolon (by omega) hs

theorem length_of_structDecl {ms : List Modifier} {d : StructDecl}
    (h : (structDecl g ms).run s = (.ok d, s')) : s'.rest.length < s.rest.length := by
  obtain ⟨hk, -, hn, s₁, s₂, s₃, ht, ha, hb, hf, rfl⟩ := (structDecl_ok hg).1 h
  have := length_advance_lt (s := s) (by simp [hk])
  have := (Advances.advance s.advance).length_le
  have := length_le_of_alike hg (fun _ hl _ => Alike.typeParams hl) ht
  have := length_of_attributed hg ha
  have := (Advances.advance s₂).length_le
  have : s₃.rest.length ≤ s₂.advance.rest.length :=
    length_le_of_alike hg (fun _ hl hs => Alike.collect hl (Alike.fieldRound hl hs .zero .zero)) ((fields_ok hg).2 hf)
  have := (Advances.advance s₃).length_le
  split <;> omega

theorem length_of_declaration {d : Declaration} (h : (declaration g).run s = (.ok d, s')) :
    s'.rest.length < s.rest.length := by
  obtain ⟨form, h, -⟩ := declaration_ok.1 h
  have hskip := (Advances.advance s).length_le
  rcases declarationForm_ok.1 h with ⟨-, path, h, -⟩ | ⟨-, options, h, -⟩ | ⟨-, name, h, -⟩ | ⟨-, -, -, h⟩
  · obtain ⟨-, s₁, hl, hs, rfl⟩ := importPath_ok.1 h
    have := (advances_of_listed advances_pathSegment hl).length_le
    exact length_of_semicolon (by omega) hs
  · obtain ⟨-, s₁, hl, hs, rfl⟩ := globalLine_ok.1 h
    have := (advances_of_listed advances_globalOption hl).length_le
    exact length_of_semicolon (by omega) hs
  · obtain ⟨-, hs, rfl⟩ := moduleLine_ok.1 h
    have := (Advances.advance s.advance).length_le
    exact length_of_semicolon (by omega) hs
  · obtain ⟨ms, s₁, hm, h⟩ := modifiedForm_ok.1 h
    have := length_of_modified hm
    rcases h with ⟨-, decl, h, -⟩ | ⟨-, decl, h, -⟩ | ⟨-, decl, h, -⟩
    · have := length_of_functionDecl hg h
      omega
    · have := length_of_constDecl hg h
      omega
    · have := length_of_structDecl hg h
      omega

end

variable {o : ParseOptions}

theorem programRound_stop (h : s'.errors = []) :
    (programRound o).run s = (.ok .stop, s') ↔ s.atEnd = true ∧ s' = s := by
  have hfail {e : Diagnostic} {s₁ : ParseState} : { s₁ with errors := s₁.errors ++ [e] } ≠ s' := by
    rintro rfl
    simp at h
  unfold programRound record
  simp [atEnd, acceptMark, ite_eq_iff, hfail, @eq_comm _ s s']

theorem programRound_more {d : Declaration} :
    (programRound o).run s = (.ok (.more d), s') ↔ s.atEnd = false ∧ s.peek.kind ≠ .punctuation .semicolon ∧
      (declaration (Inner.ofRoom o o.maxDepth)).run s = (.ok d, s') := by
  unfold programRound
  simp [atEnd, acceptMark, ite_eq_iff]

theorem programRound_last {d : Declaration} : ¬ (programRound o).run s = (.ok (.last d), s') := by
  unfold programRound
  simp [atEnd, acceptMark, ite_eq_iff]

theorem programRound_stray (hk : s.peek.kind = .punctuation .semicolon) :
    (programRound o).run s = (.ok .none, s.advance) := by
  unfold programRound
  simp [atEnd, acceptMark, ParseState.atEnd, TokenKind.isEof, hk]

theorem programRound_none (h : s'.errors = []) (hr : (programRound o).run s = (.ok .none, s')) :
    s.peek.kind = .punctuation .semicolon ∧ s' = s.advance := by
  have hfail {e : Diagnostic} {s₁ : ParseState} :
      toNextDeclaration { s₁ with errors := s₁.errors ++ [e] } ≠ s' := by
    rintro rfl
    simp [toNextDeclaration] at h
  unfold programRound record at hr
  simp [atEnd, acceptMark, ite_eq_iff, hfail] at hr
  exact ⟨hr.2.1, hr.2.2.symm⟩

theorem length_skipDeclaration_le (moved : Bool) (depth : Nat) (last : Option Token) (ts : List Token) :
    (skipDeclaration moved depth last ts).2.length ≤ ts.length := by
  induction ts generalizing moved depth last with
  | nil => exact Nat.le_refl _
  | cons t ts ih =>
    have hskip (moved : Bool) (depth : Nat) : (skipDeclaration moved depth (some t) ts).2.length ≤ (t :: ts).length :=
      Nat.le_succ_of_le (ih moved depth (some t))
    unfold skipDeclaration
    split
    · exact Nat.le_refl _
    · split <;> first | exact Nat.le_refl _ | exact hskip _ _ | (split <;> first | exact hskip _ _ | simp)

/-- Whatever a declaration failed at, a token is skipped. -/
theorem length_skipDeclaration_lt {t : Token} (ts : List Token) (last : Option Token) (he : t.kind ≠ .eof) :
    (skipDeclaration false 0 last (t :: ts)).2.length < (t :: ts).length := by
  have hskip (moved : Bool) (depth : Nat) : (skipDeclaration moved depth (some t) ts).2.length < (t :: ts).length :=
    Nat.lt_succ_of_le (length_skipDeclaration_le moved depth (some t) ts)
  unfold skipDeclaration
  rw [if_neg (by simp)]
  split <;> first | contradiction | exact hskip _ _ | simp

/-- Where a program goes on, it has passed a token, if only by skipping what a declaration failed at. -/
theorem programRound_shrinks (o : ParseOptions) : RoundShrinks (programRound o) := by
  have hg := settled_ofRoom o o.maxDepth
  refine ⟨fun s d s' h => length_of_declaration hg (programRound_more.1 h).2.2, fun s s' h => ?_⟩
  unfold programRound record at h
  simp [acceptMark, atEnd, ite_eq_iff] at h
  obtain ⟨he, ⟨hk, rfl⟩ | ⟨-, e, s₁, hd, -, rfl⟩⟩ := h
  · exact length_advance_lt (by simp [hk])
  obtain ⟨⟨used, hp⟩, -⟩ := advances_run (Alike.advances fun ts => Alike.declaration (.refl ts) (hg.steady ts)) hd
  cases used with
  | cons t used =>
    have := length_skipDeclaration_le false 0 s₁.last s₁.rest
    have hrest : s.rest.length = (t :: used).length + s₁.rest.length := by rw [hp.rest, List.length_append]
    rw [List.length_cons] at hrest
    simp only [toNextDeclaration]
    omega
  | nil =>
    -- the declaration has failed where it began
    have hne : s.peek.kind ≠ .eof := by
      intro hk
      simp [ParseState.atEnd, hk, TokenKind.isEof] at he
    obtain ⟨ts, hr⟩ := ParseState.rest_of_peek hne
    have hr₁ : s₁.rest = s.peek :: ts := by rw [← hr, hp.rest, List.nil_append]
    simp only [toNextDeclaration, hr₁, hr]
    exact length_skipDeclaration_lt ts s₁.last hne

theorem programRound_error {e : Diagnostic} {s₁ : ParseState} (he : s.atEnd = false)
    (hk : s.peek.kind ≠ .punctuation .semicolon)
    (h : (declaration (Inner.ofRoom o o.maxDepth)).run s = (.error e, s₁)) :
    (programRound o).run s = if o.recover then (.ok .none, toNextDeclaration { s₁ with errors := s₁.errors ++ [e] })
      else (.ok .stop, { s₁ with errors := s₁.errors ++ [e] }) := by
  unfold programRound record atEnd acceptMark
  rw [look_bind, he, if_neg (by simp), accept_bind, if_neg hk, if_neg (by simp), run_bind_of_ok (outcome_error.2 h)]
  simp only [change_bind, ite_run]
  rfl

/-- A program is read whatever the tokens are: its rounds record what they fail with. -/
theorem program_total (o : ParseOptions) (s : ParseState) : ∃ ds s', (program o).run s = (.ok ds, s') := by
  have hround (s : ParseState) : ∃ r s', (programRound o).run s = (.ok r, s') := by
    cases he : s.atEnd with
    | true =>
      refine ⟨.stop, s, ?_⟩
      unfold programRound atEnd
      rw [look_bind, he]
      rfl
    | false =>
      by_cases hk : s.peek.kind = .punctuation .semicolon
      · exact ⟨_, _, programRound_stray hk⟩
      rcases hd : (declaration (Inner.ofRoom o o.maxDepth)).run s with ⟨e | d, s₁⟩
      · rw [programRound_error he hk hd]
        split <;> exact ⟨_, _, rfl⟩
      · exact ⟨_, _, programRound_more.2 ⟨he, hk, hd⟩⟩
  have hfor (budget : List Token) (s : ParseState) :
      ∃ ds s', (collectFor (programRound o) budget).run s = (.ok ds, s') := by
    induction budget generalizing s with
    | nil => exact ⟨[], s, rfl⟩
    | cons t budget ih =>
      obtain ⟨r, s₁, hr⟩ := hround s
      obtain ⟨ds, s₂, hds⟩ := ih s₁
      cases r with
      | stop => exact ⟨_, _, run_bind_of_ok hr⟩
      | last d => exact ⟨_, _, run_bind_of_ok hr⟩
      | more d => exact ⟨_, _, (run_bind_of_ok hr).trans (run_bind_of_ok hds)⟩
      | none => exact ⟨_, _, (run_bind_of_ok hr).trans hds⟩
  exact hfor _ s

/-- A program in which nothing has failed. -/
theorem program_ok {ds : List Declaration} (hs : s'.errors = []) :
    (program o).run s = (.ok ds, s') ↔ Declared (Inner.ofRoom o o.maxDepth) s ds s' := by
  have hg := settled_ofRoom o o.maxDepth
  have hadv (s : ParseState) : Advances s (programRound o s).2 :=
    Alike.advances (fun ts => Alike.programRound (.refl ts) o) s
  unfold program
  rw [collect_clean hadv ?_ ?_ hs]
  · constructor
    · intro h
      induction h with
      | stop h =>
        obtain ⟨he, rfl⟩ := (programRound_stop hs).1 h
        exact .nil he
      | last h => exact absurd h programRound_last
      | more h _ ih =>
        obtain ⟨he, hk, hd⟩ := programRound_more.1 h
        exact .cons he hk hd (ih hs)
      | none h hrest ih =>
        obtain ⟨hk, rfl⟩ := programRound_none ((advances_of_collects hadv hrest).errors_nil hs) h
        exact .stray hk (ih hs)
    · intro h
      induction h with
      | nil he => exact .stop ((programRound_stop hs).2 ⟨he, rfl⟩)
      | stray hk _ ih => exact .none (programRound_stray hk) (ih hs)
      | cons he hk hd _ ih => exact .more (programRound_more.2 ⟨he, hk, hd⟩) (ih hs)
  · intro s d s' h
    exact length_of_declaration hg (programRound_more.1 h).2.2
  · intro s s' hs h
    obtain ⟨hk, rfl⟩ := programRound_none hs h
    exact length_advance_lt (by simp [hk])

end Parser

/-- A program is returned where nothing has failed up to the end of the tokens. -/
theorem parseTokens_ok {ts : List Token} {o : ParseOptions} {p : Program} :
    parseTokens ts o = .ok p ↔ ∃ s', s'.errors = [] ∧
      Parser.Declared (Inner.ofRoom o o.maxDepth) { rest := ts } p.declarations s' := by
  unfold parseTokens parsePartial
  rcases hr : Parser.program o { rest := ts } with ⟨e | ds, s'⟩
  · simp
    intro s₁ hs h
    have := (Parser.program_ok hs).2 h
    simp [Parser.run, hr] at this
  · by_cases hs : s'.errors = []
    · simp [hs]
      constructor
      · rintro rfl
        exact ⟨s', hs, (Parser.program_ok hs).1 hr⟩
      · rintro ⟨s₁, hs₁, h⟩
        have := (Parser.program_ok hs₁).2 h
        simp [Parser.run, hr] at this
        simp [this.1]
    · simp [hs]
      intro s₁ hs₁ h
      have := (Parser.program_ok hs₁).2 h
      simp [Parser.run, hr] at this
      exact hs (this.2 ▸ hs₁)

end ElleFrontEnd
