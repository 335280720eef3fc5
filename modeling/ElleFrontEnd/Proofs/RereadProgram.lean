import ElleFrontEnd.Layout.Program
import ElleFrontEnd.Proofs.RereadStmt

/-!
# Programs that are read again

The declarations of a program are printed one below the other, each with its modifiers and attributes in the order of
the source.  A field of a struct is printed with its type first, however it was written, and behind each function,
constant and struct there is a token that no other part of a declaration begins with.
-/

namespace ElleFrontEnd

open Fragment

/-- Behind line breaks, fragments are faced as behind a space. -/
theorem Clear.lines {u : ParseState} {f : List Fragment} {n : Nat}
    (h : Clear u (.line 0 :: (List.replicate n (.line 0) ++ f))) : Faces u f := by
  induction n with
  | zero => exact (Clear.line h).space
  | succ n ih =>
    refine ih ⟨.of_marksOf h.fragments.clean h.owed ?_, h.owed⟩
    have hm := h.marksOf_eq
    rw [List.replicate_succ, List.cons_append, marks, marks] at hm
    rw [hm, marks]
    cases marks (List.replicate n (.line 0) ++ f) <;> rfl

namespace Parser

variable {s s' u : ParseState} {g G : Inner} {limit room limit' room' : Nat} {f : List Fragment} {α : Type}

/-! ### Heads of declarations -/

/-- Printed items with a separator between them are read again. -/
theorem separated_rereads {item : Parser α} (separator : TokenKind) (sep : List Fragment) {layout : α → List Fragment}
    (hsep : ∀ {u f}, Clear u (sep ++ f) → u.peek.kind = separator ∧ Faces u.advance f)
    (hitem : ∀ {a u f}, Faces u (layout a ++ f) → ∃ u', item.run u = (.ok a, u') ∧ Clear u' f)
    (hs : separator ≠ .operator .shr) (hf : next f ≠ separator) {a : α} {as : List α}
    (hu : Faces u (separated sep ((a :: as).map layout) ++ f)) :
    ∃ u', SeparatedListed separator item u (a :: as) u' ∧ Clear u' f := by
  induction as generalizing a u with
  | nil =>
    simp only [separated, List.map_cons, List.map_nil, List.intersperse_singleton, List.flatten_cons, List.flatten_nil,
      List.append_nil] at hu
    obtain ⟨u', hrun, hc⟩ := hitem hu
    exact ⟨u', .last id hrun fun hk => hf (hc.next_of_peek hk hs), hc⟩
  | cons b bs ih =>
    have hcons : separated sep ((a :: b :: bs).map layout) ++ f =
        layout a ++ (sep ++ (separated sep ((b :: bs).map layout) ++ f)) := by
      simp [separated]
    rw [hcons] at hu
    obtain ⟨u₁, hrun, hc⟩ := hitem hu
    obtain ⟨hk, hc⟩ := hsep hc
    obtain ⟨u', hlist, hc'⟩ := ih hc
    exact ⟨u', .more id hrun hk hlist, hc'⟩

theorem rereads_identifier {n : String} (hu : Faces u (ofName n :: f)) :
    ∃ u', identifier.run u = (.ok n, u') ∧ Clear u' f := by
  obtain ⟨hk, hc⟩ := hu.name
  exact ⟨_, identifier_ok.2 ⟨hk, rfl⟩, hc⟩

theorem rereads_pathSegment {segment : String} (hu : Faces u (segmentFragment segment :: f)) :
    ∃ u', pathSegment.run u = (.ok segment, u') ∧ Clear u' f := by
  unfold segmentFragment at hu
  split at hu
  · rename_i k hspell
    obtain ⟨hk, hc⟩ := hu.word
    have : k.spelling = segment := by simpa using List.find?_some hspell
    exact ⟨_, pathSegment_ok.2 ⟨rfl, .inl ⟨k, hk, this.symm⟩⟩, hc⟩
  · obtain ⟨hk, hc⟩ := hu.name
    exact ⟨_, pathSegment_ok.2 ⟨rfl, .inr hk⟩, hc⟩

theorem rereads_globalOption {option : GlobalOption} (hu : Faces u (word (.visibility option.visibility) :: f)) :
    ∃ u', globalOption.run u = (.ok option, u') ∧ Clear u' f := by
  obtain ⟨hk, hc⟩ := hu.word
  exact ⟨_, globalOption_ok.2 ⟨rfl, by rw [hk]; rfl⟩, hc⟩

theorem separatedListed_cons {separator : TokenKind} {item : Parser α} {as : List α}
    (h : SeparatedListed separator item s as s') : ∃ a as', as = a :: as' := by
  cases h with
  | nil h => exact absurd h id
  | last => exact ⟨_, _, rfl⟩
  | more => exact ⟨_, _, rfl⟩

/-- A separator of names in a list. -/
theorem commaSpace_faces (hu : Clear u (commaSpace ++ f)) : u.peek.kind = .punctuation .comma ∧ Faces u.advance f := by
  obtain ⟨hk, hc⟩ := Faces.mark hu.faces
  exact ⟨hk, hc.space⟩

/-- Modifiers are read again before a word that is none. -/
theorem rereads_modifiers (ms : List Modifier) {k : Keyword} (hk : k.visibility? = none)
    (hu : Faces u (modifiersLayout ms ++ word k :: f)) : ∃ u', Modified u ms u' ∧ Faces u' (word k :: f) := by
  induction ms generalizing u with
  | nil =>
    have hp := hu.word.1
    exact ⟨u, .nil (by simp [hp]) (by rw [hp]; exact hk), hu⟩
  | cons m ms ih =>
    obtain ⟨kind, negated⟩ := m
    cases negated with
    | false =>
      have hu : Faces u (word (.visibility kind) :: space :: (modifiersLayout ms ++ word k :: f)) := by
        simpa [modifiersLayout] using hu
      obtain ⟨hp, hc⟩ := hu.word
      obtain ⟨u', hm, hu'⟩ := ih hc.space
      exact ⟨u', .plain (by rw [hp]; rfl) hm, hu'⟩
    | true =>
      have hu : Faces u (Fragment.op .bang :: word (.visibility kind) :: space ::
          (modifiersLayout ms ++ word k :: f)) := by
        simpa [modifiersLayout] using hu
      obtain ⟨hp, hc⟩ := hu.op (by simp)
      obtain ⟨hp₁, hc₁⟩ := hc.faces.word
      obtain ⟨u', hm, hu'⟩ := ih hc₁.space
      exact ⟨u', .negated hp (by rw [ParseState.kindAt_one (by simp [hp]), hp₁]; rfl) hm, hu'⟩

/-- The name of a function is read again. -/
theorem rereads_declName {name : DeclName} (h : declName.run s = (.ok name, s'))
    (hf : next f ≠ .punctuation .colonColon) (hu : Faces u (name.layout ++ f)) :
    ∃ name' u', declName.run u = (.ok name', u') ∧ Same (DeclName.mapSpans noSpan) name name' ∧ Clear u' f := by
  rcases declName_ok.1 h with ⟨raw, -, -, rfl⟩ | ⟨first, -, ⟨hk, tail, htail, rfl⟩ | ⟨-, -, rfl⟩⟩
  · obtain ⟨hk, hc⟩ := Faces.token hu (by simp) (by simp)
    exact ⟨_, _, declName_ok.2 (.inl ⟨raw, hk, rfl, rfl⟩), rfl, hc⟩
  · rw [DeclName.layout, separated_names] at hu
    obtain ⟨hk₁, hc⟩ := Faces.name hu
    obtain ⟨u', htail', hc'⟩ := rereads_pathTail hc hf
    refine ⟨_, u', declName_ok.2 (.inr ⟨first, hk₁, .inl ⟨?_, tail, htail', rfl⟩⟩), rfl, hc'⟩
    cases htail with
    | nil hne => exact absurd hk hne
    | cons _ _ _ =>
      simp only [List.flatMap_cons, List.cons_append, List.nil_append] at hc
      exact hc.faces.mark.1
  · obtain ⟨hk₁, hc⟩ := Faces.name hu
    exact ⟨_, _, declName_ok.2 (.inr ⟨first, hk₁, .inr ⟨fun hk => hf (hc.next_of_peek hk (by simp)), rfl, rfl⟩⟩),
      rfl, hc⟩

/-- Type parameters are read again. -/
theorem rereads_typeParams (names : List String) (hlt : next f ≠ .operator .lt) (hgt : ¬ touchesWith (.operator .gt) f)
    (hu : Clear u (typeParamsLayout names ++ f)) : ∃ u', typeParams.run u = (.ok names, u') ∧ Clear u' f := by
  cases names with
  | nil => exact ⟨u, typeParams_ok.2 (.inr ⟨fun hk => hlt (hu.next_of_peek hk (by simp)), rfl, rfl⟩), hu⟩
  | cons n names =>
    have hu : Clear u (Fragment.op .lt :: (commas ((n :: names).map fun n => [ofName n]) ++ Fragment.op .gt :: f)) := by
      simpa [typeParamsLayout, Fragment.angles] using hu
    obtain ⟨hk, hc⟩ := hu.faces.op (by simp)
    obtain ⟨u', hlist, hc'⟩ := separated_rereads _ _ commaSpace_faces rereads_identifier (by simp) (by simp) hc.faces
    rcases hc'.fragments.peek_gt hc'.owed with ⟨hk', hs⟩ | ⟨ht, -⟩
    · exact ⟨_, typeParams_ok.2 (.inl ⟨hk, u', hlist, hk', rfl⟩), hs, by simp [hc'.owed]⟩
    · exact absurd ht hgt

section
variable (hr : g.Replayed G limit room limit' room')
include hr

/-- Attributes are read again. -/
theorem rereads_attributes {as : List Attribute} {depth : Nat} (hs : Ready s) (h : Attributed g s as s')
    (hat : next f ≠ .punctuation .atSign) (hparen : next f ≠ .punctuation .lParen)
    (hu : Clear u (as.flatMap (Attribute.layout depth) ++ f)) :
    ∃ as' u', Attributed G u as' u' ∧ Same (List.map (Attribute.mapSpans noSpan)) as as' ∧ Clear u' f := by
  have hnext (as : List Attribute) : next (as.flatMap (Attribute.layout depth) ++ f) ≠ .punctuation .lParen := by
    cases as with
    | nil => exact hparen
    | cons a as => simp [Attribute.layout]
  induction h generalizing u with
  | nil _ => exact ⟨[], u, .nil fun hk => hat (hu.next_of_peek hk (by simp)), rfl, hu⟩
  | @bare s s' name as _ _ _ _ ih =>
    simp only [List.flatMap_cons, Attribute.layout, List.cons_append, List.nil_append] at hu
    obtain ⟨hk, hc⟩ := hu.space.mark
    obtain ⟨hn, hc⟩ := hc.faces.name
    obtain ⟨as', u', has, hsame, hc'⟩ := ih hs.advance.advance hc
    refine ⟨_, u', .bare hk hn (fun hk => hnext as (hc.next_of_peek hk (by simp))) has, ?_, hc'⟩
    exact congrArg (List.cons _) hsame
  | @called s s₁ s' name args as _ _ _ hargs _ ih =>
    simp only [List.flatMap_cons, Attribute.layout, List.cons_append, List.nil_append, List.append_assoc] at hu
    obtain ⟨hk, hc⟩ := hu.space.mark
    obtain ⟨hn, hc⟩ := hc.faces.name
    obtain ⟨args', u₁, hrun, hsame, hc₁⟩ := rereads_arguments hr hs.advance.advance hargs hc.faces
    obtain ⟨as', u', has, hsame', hc'⟩ := ih (keeps_arguments hr.settled hr.keeping hs.advance.advance hargs) hc₁
    refine ⟨_, u', .called hk hn ((arguments_ok hr.settled').1 hrun).1 hrun has, ?_, hc'⟩
    change Attribute.mk .zero name (some _) :: as.map _ = Attribute.mk .zero name (some _) :: as'.map _
    rw [hsame, hsame']

/-! ### Functions, constants and structs -/

/-- The printed form of the type behind `->`, with what stands before it. -/
def returnLayout : Option TypeExpr → List Fragment
  | none => []
  | some t => [space, mark .arrow, space] ++ t.layout

/-- The printed form of the body of a function, or of the semicolon in its place. -/
def bodyLayout (depth : Nat) : Option Block → List Fragment
  | none => [mark .semicolon]
  | some body => space :: body.layout depth

theorem rereads_returnType {o : Option TypeExpr} (h : (returnType g).run s = (.ok o, s'))
    (hf : next f = .punctuation .lBrace ∨ next f = .punctuation .semicolon) (hu : Clear u (returnLayout o ++ f)) :
    ∃ o' u', (returnType G).run u = (.ok o', u') ∧ OptionRel SameType o o' ∧ Clear u' f := by
  rcases returnType_ok.1 h with ⟨-, t, rfl, ht⟩ | ⟨-, rfl, -⟩
  · simp only [returnLayout, List.cons_append, List.nil_append] at hu
    obtain ⟨hk, hc⟩ := hu.space.mark
    obtain ⟨t', u', hrun, hsame, hc'⟩ := rereads_type hr ht (by rcases hf with hf | hf <;> rw [hf] <;> rfl) hc.space
    exact ⟨some t', u', returnType_ok.2 (.inl ⟨hk, t', rfl, hrun⟩), hsame, hc'⟩
  · refine ⟨none, u, returnType_ok.2 (.inr ⟨fun hk => ?_, rfl, rfl⟩), trivial, hu⟩
    have := hu.next_of_peek hk (by simp)
    rcases hf with hf | hf <;> simp [returnLayout, hf] at this

theorem rereads_functionBody {ms : List Modifier} {name : DeclName} (name' : DeclName) {o : Option Block} {depth : Nat}
    (hs : Ready s) (h : (functionBody g ms name).run s = (.ok o, s')) (hu : Clear u (bodyLayout depth o ++ f)) :
    ∃ o' u', (functionBody G ms name').run u = (.ok o', u') ∧ OptionRel SameBlock o o' ∧ Clear u' f := by
  rcases functionBody_ok.1 h with ⟨-, hext, body, rfl, hb⟩ | ⟨-, rfl, -⟩
  · have hu : Faces u (body.layout depth ++ f) := Clear.space hu
    have hk : u.peek.kind = .punctuation .lBrace := by rw [hu.peek (by rw [next_block]; simp), next_block]
    obtain ⟨body', u', hrun, hsame, hc⟩ := hr.block hs hb hu
    exact ⟨some body', u', functionBody_ok.2 (.inl ⟨hk, hext, body', rfl, hrun⟩), hsame, hc⟩
  · obtain ⟨hk, hc⟩ := Faces.mark hu.faces
    exact ⟨none, _, functionBody_ok.2 (.inr ⟨hk, rfl, rfl⟩), trivial, hc⟩

omit hr in
theorem next_bodyLayout (o : Option Block) (depth : Nat) : next (bodyLayout depth o ++ f) = .punctuation .lBrace ∨
    next (bodyLayout depth o ++ f) = .punctuation .semicolon := by
  cases o with
  | none => exact .inr rfl
  | some body => exact .inl (next_block body depth f)

/-- A function is read again behind its modifiers. -/
theorem rereads_functionDecl {ms : List Modifier} {decl : FunctionDecl} (depth : Nat) (hs : Ready s)
    (h : (functionDecl g ms).run s = (.ok decl, s')) :
    ∃ f₀, decl.layout depth = modifiersLayout ms ++ word .fn :: f₀ ∧ ∀ {u : ParseState} {f : List Fragment},
      Faces u (word .fn :: (f₀ ++ f)) → ∃ decl' u', (functionDecl G ms).run u = (.ok decl', u') ∧
        decl'.modifiers = ms ∧ Same (FunctionDecl.mapSpans noSpan) decl decl' ∧ Clear u' f := by
  obtain ⟨-, rfl, s₁, s₂, s₃, s₄, s₅, hn, hg, hp, ha, ht, hb⟩ := (functionDecl_ok hr.settled).1 h
  have hs₂ := keeps_typeParams (keeps_declName hs.advance hn) hg
  have hs₃ := keeps_paramList hr.settled hr.keeping hs₂ hp
  have hs₄ := ready_of_attributed hr.settled hr.keeping hs₃ ha
  have hs₅ := keeps_returnType hr.keeping hs₄ ht
  obtain ⟨ms, name, generics, params, attributes, result, body⟩ := decl
  refine ⟨space :: (name.layout ++ (typeParamsLayout generics ++ (params.layout ++
    (attributes.flatMap (Attribute.layout depth) ++ (returnLayout result ++ bodyLayout depth body))))), ?_,
    fun {u f} hu => ?_⟩
  · cases result <;> cases body <;> simp [FunctionDecl.layout, returnLayout, bodyLayout]
  simp only [List.cons_append, List.append_assoc] at hu
  have hparams (f : List Fragment) : ∃ f', params.layout ++ f = mark .lParen :: f' := ⟨_, by
    rw [ParamList.layout, parens]; rfl⟩
  have hresult : next (returnLayout result ++ (bodyLayout depth body ++ f)) ≠ .punctuation .atSign ∧
      next (returnLayout result ++ (bodyLayout depth body ++ f)) ≠ .punctuation .lParen := by
    cases result with
    | none => rcases next_bodyLayout (f := f) body depth with h | h <;> simp [returnLayout, h]
    | some t => simp [returnLayout]
  obtain ⟨hk, hc⟩ := hu.word
  obtain ⟨f₁, hf₁⟩ := hparams (attributes.flatMap (Attribute.layout depth) ++ (returnLayout result ++
    (bodyLayout depth body ++ f)))
  obtain ⟨name', u₁, hn', hsame₁, hc₁⟩ := rereads_declName hn
    (by rw [hf₁]; cases generics <;> simp [typeParamsLayout, Fragment.angles]) hc.space
  obtain ⟨u₂, hg', hc₂⟩ := rereads_typeParams generics (by rw [hf₁]; simp) (by rw [hf₁]; simp [touchesWith]) hc₁
  obtain ⟨params', u₃, hp', hsame₃, hc₃⟩ := rereads_paramList hr hs₂ hp hc₂.faces
  obtain ⟨attributes', u₄, ha', hsame₄, hc₄⟩ := rereads_attributes hr hs₃ ha hresult.1 hresult.2 hc₃
  obtain ⟨result', u₅, ht', hsame₅, hc₅⟩ := rereads_returnType hr ht (next_bodyLayout body depth) hc₄
  obtain ⟨body', u', hb', hsame₆, hc₆⟩ := rereads_functionBody hr name' hs₅ hb hc₅
  refine ⟨⟨ms, name', generics, params', attributes', result', body'⟩, u', (functionDecl_ok hr.settled').2
    ⟨hk, rfl, u₁, u₂, u₃, u₄, u₅, hn', hg', hp', ha', ht', hb'⟩, rfl, ?_, hc₆⟩
  change FunctionDecl.mk ms _ generics _ _ _ _ = FunctionDecl.mk ms _ generics _ _ _ _
  rw [hsame₁, hsame₃, hsame₄, map_of_optionRel hsame₅, map_of_optionRel hsame₆]

/-- A constant is read again behind its modifiers. -/
theorem rereads_constDecl {ms : List Modifier} {decl : ConstDecl} (depth : Nat) (hs : Ready s)
    (h : (constDecl g ms).run s = (.ok decl, s')) :
    ∃ f₀, decl.layout depth = modifiersLayout ms ++ word .constKw :: f₀ ∧ ∀ {u : ParseState} {f : List Fragment},
      Faces u (word .constKw :: (f₀ ++ f)) → ∃ decl' u', (constDecl G ms).run u = (.ok decl', u') ∧
        Same (ConstDecl.mapSpans noSpan) decl decl' ∧ Clear u' f := by
  obtain ⟨-, rfl, s₁, s₂, ht, -, -, hv, -, rfl⟩ := constDecl_ok.1 h
  have hs₁ : Ready s₁ := by
    rcases constType_ok.1 ht with ⟨-, -, -, rfl⟩ | ⟨-, t, -, ht⟩
    · exact hs.advance
    · exact hr.keeping.type hs.advance ht
  obtain ⟨ms, type, name, value⟩ := decl
  refine ⟨space :: ((match type with
    | none => []
    | some t => t.layout ++ [space]) ++ ofName name :: space :: Fragment.op .eq :: space ::
      (value.layout depth true ++ [mark .semicolon])), ?_, fun {u f} hu => ?_⟩
  · cases type <;> simp [ConstDecl.layout]
  simp only [List.cons_append, List.append_assoc, List.nil_append] at hu
  obtain ⟨hk, hc⟩ := hu.word
  have hu := hc.space
  -- behind the type, if there is one, the name and the value are read as they stand
  have hname : ∃ type' u₁, (constType G).run u.advance = (.ok type', u₁) ∧ OptionRel SameType type type' ∧
      u₁.peek.kind = .ident name ∧ Clear u₁.advance (space :: Fragment.op .eq :: space ::
        (value.layout depth true ++ mark .semicolon :: f)) := by
    rcases constType_ok.1 ht with ⟨-, -, htype, -⟩ | ⟨-, t, htype, htrun⟩
    · obtain rfl : type = none := htype
      obtain ⟨hk₁, hc⟩ := Faces.name hu
      refine ⟨none, _, constType_ok.2 (.inl ⟨by simp [hk₁, TokenKind.ident?], ?_, rfl, rfl⟩), trivial, hk₁, hc⟩
      rw [ParseState.kindAt_one (by simp [hk₁]), (Clear.between hc).1]
    · obtain rfl : type = some t := htype
      simp only [List.append_assoc, List.cons_append, List.nil_append] at hu
      obtain ⟨t', u₁, hrun, hk₁, hsame, hc⟩ := rereads_typeAndName hr htrun hu
      obtain ⟨-, hsecond⟩ := TypeExpr.peek_of_faces hu
      refine ⟨some t', u₁, constType_ok.2 (.inr ⟨?_, t', rfl, hrun⟩), hsame, hk₁, hc⟩
      rintro ⟨hid, heq⟩
      rcases hsecond with h | h | h | h | h
      · simp [h, TokenKind.ident?] at hid
      all_goals simp [h] at heq
  obtain ⟨type', u₁, ht', hsame, hk₁, hc⟩ := hname
  obtain ⟨hk₂, hc₂⟩ := Clear.between hc
  obtain ⟨value', u₂, hv', hsame', hc'⟩ :=
    RereadsExpr.inside (hr.expression hs₁.advance.advance hv) rfl (by simp) hc₂.space
  obtain ⟨hk₃, hc₃⟩ := hc'.faces.mark
  refine ⟨⟨ms, type', name, value'⟩, _, constDecl_ok.2 ⟨hk, rfl, u₁, u₂, ht', hk₁, hk₂, hv', hk₃, rfl⟩, ?_, hc₃⟩
  exact congrArg₂ (ConstDecl.mk ms · name ·) (map_of_optionRel hsame) hsame'

omit hr in
/-- The type and the name of a field were read from a source. -/
theorem type_of_structField {field : Field} (h : (structField g).run s = (.ok field, s')) :
    ∃ s₀ s₁, (g.type 0).run s₀ = (.ok field.type, s₁) := by
  rcases (structField_ok.1 h).2 with ⟨-, -, ht⟩ | ⟨-, s₁, ht, -⟩
  · exact ⟨_, _, ht⟩
  · exact ⟨_, _, ht⟩

/-- The lines of a struct up to its brace are read again. -/
theorem rereads_fields {fs : List Field} (h : Fields g s fs s') {d d' : Nat}
    (hu : Clear u (((fs.map Field.layout).map fun x => .line d :: x).flatten ++ .line d' :: mark .rBrace :: f)) :
    ∃ fs' u', Fields G u fs' u' ∧ Same (List.map (Field.mapSpans noSpan)) fs fs' ∧ Clear u' f := by
  have hfield {s s₁ : ParseState} {field : Field} {u : ParseState} {f : List Fragment}
      (h : (structField g).run s = (.ok field, s₁))
      (hu : Clear u (.line d :: (field.layout ++ f))) : ∃ field' u₁, atField u ∧
        (structField G).run u = (.ok field', u₁) ∧ u₁.peek.kind = .punctuation .semicolon ∧
        Same (Field.mapSpans noSpan) field field' ∧ Clear u₁.advance f := by
    obtain ⟨s₀, s₁, ht⟩ := type_of_structField h
    obtain ⟨span, type, name⟩ := field
    have hu : Faces u (type.layout ++ space :: ofName name :: mark .semicolon :: f) := by
      simpa [Field.layout] using (Clear.line hu).space
    obtain ⟨type', u₁, hrun, hk, hsame, hc⟩ := rereads_typeAndName hr ht hu
    obtain ⟨hopen, hsecond⟩ := TypeExpr.peek_of_faces hu
    obtain ⟨hk', hc'⟩ := hc.faces.mark
    refine ⟨⟨_, type', name⟩, _, ?_, structField_ok.2 ⟨rfl, .inr ⟨?_, u₁, hrun, hk, rfl⟩⟩, hk', ?_, hc'⟩
    · unfold atField ParseState.atEnd
      generalize u.peek.kind = k at hopen
      revert hopen
      cases k <;> simp [opensType, TokenKind.isEof]
      rename_i p
      cases p <;> simp
    · rintro ⟨hid, hcolon⟩
      rcases hsecond with h | h | h | h | h
      · simp [h, TokenKind.ident?] at hid
      all_goals simp [h] at hcolon
    · exact congrArg (Field.mk .zero · name) hsame
  induction h generalizing u with
  | nil _ =>
    obtain ⟨hk, hc⟩ := (Clear.line hu).space.mark
    exact ⟨[], _, .nil hk, rfl, hc⟩
  | @ended s s₁ s' field fs _ h _ _ ih =>
    simp only [List.map_cons, List.flatten_cons, List.cons_append, List.append_assoc] at hu
    obtain ⟨field', u₁, hat, hrun, hk, hsame, hc⟩ := hfield h hu
    obtain ⟨fs', u', hfs, hsames, hc'⟩ := ih hc
    exact ⟨field' :: fs', u', .ended hat hrun (.inl hk) hfs, congrArg₂ List.cons hsame hsames, hc'⟩
  | @last s s₁ s' field _ h _ _ =>
    simp only [List.map_cons, List.map_nil, List.flatten_cons, List.flatten_nil, List.append_nil, List.cons_append]
      at hu
    obtain ⟨field', u₁, hat, hrun, hk, hsame, hc⟩ := hfield h hu
    obtain ⟨hk', hc'⟩ := (Clear.line hc).space.mark
    exact ⟨[field'], _, .ended hat hrun (.inl hk) (.nil hk'), congrArg (List.cons · []) hsame, hc'⟩

/-- A struct is read again behind its modifiers. -/
theorem rereads_structDecl {ms : List Modifier} {decl : StructDecl} (depth : Nat) (hs : Ready s)
    (h : (structDecl g ms).run s = (.ok decl, s')) :
    ∃ f₀, decl.layout depth = modifiersLayout ms ++ word .structKw :: f₀ ∧ ∀ {u : ParseState} {f : List Fragment},
      Faces u (word .structKw :: (f₀ ++ f)) → ∃ decl' u', (structDecl G ms).run u = (.ok decl', u') ∧
        Same (StructDecl.mapSpans noSpan) decl decl' ∧ Clear u' f := by
  obtain ⟨-, rfl, -, s₁, s₂, s₃, hg, ha, -, hfs, -⟩ := (structDecl_ok hr.settled).1 h
  have hs₁ := keeps_typeParams hs.advance.advance hg
  obtain ⟨ms, name, generics, attributes, fields⟩ := decl
  refine ⟨space :: ofName name :: (typeParamsLayout generics ++ (attributes.flatMap (Attribute.layout depth) ++
    space :: (braces depth (fields.map Field.layout) ++ [mark .semicolon]))), ?_, fun {u f} hu => ?_⟩
  · simp [StructDecl.layout]
  simp only [List.cons_append, List.append_assoc, List.nil_append] at hu
  have hbraces (f : List Fragment) : next (braces depth (fields.map Field.layout) ++ f) = .punctuation .lBrace := by
    cases fields <;> simp [braces]
  have hattributes : next (attributes.flatMap (Attribute.layout depth) ++ space ::
      (braces depth (fields.map Field.layout) ++ mark .semicolon :: f)) ≠ .operator .lt ∧
      ¬ touchesWith (.operator .gt) (attributes.flatMap (Attribute.layout depth) ++ space ::
        (braces depth (fields.map Field.layout) ++ mark .semicolon :: f)) := by
    cases attributes with
    | nil => simp [hbraces, touchesWith]
    | cons a as => simp [Attribute.layout, touchesWith]
  obtain ⟨hk, hc⟩ := hu.word
  obtain ⟨hk₁, hc₁⟩ := hc.space.name
  obtain ⟨u₁, hg', hc₂⟩ := rereads_typeParams generics hattributes.1 hattributes.2 hc₁
  obtain ⟨attributes', u₂, ha', hsame, hc₃⟩ := rereads_attributes hr hs₁ ha (by simp [hbraces]) (by simp [hbraces]) hc₂
  have hfields : u₂.peek.kind = .punctuation .lBrace ∧ ∃ fs' u₃, Fields G u₂.advance fs' u₃ ∧
      Same (List.map (Field.mapSpans noSpan)) fields fs' ∧ Clear u₃ (mark .semicolon :: f) := by
    have hu := hc₃.space
    rw [braces] at hu
    cases fields with
    | nil =>
      obtain ⟨hk, hc⟩ := Faces.mark hu
      obtain ⟨hk₁, hc₁⟩ := hc.faces.mark
      exact ⟨hk, [], _, .nil hk₁, rfl, hc₁⟩
    | cons field fields =>
      simp only [List.map_cons, List.isEmpty_cons, Bool.false_eq_true, if_false, List.cons_append] at hu
      obtain ⟨hk, hc⟩ := hu.mark
      rw [List.append_assoc] at hc
      exact ⟨hk, rereads_fields hr hfs hc⟩
  obtain ⟨hk₂, fs', u₃, hfs', hsame', hc₄⟩ := hfields
  obtain ⟨hk₃, hc₅⟩ := hc₄.faces.mark
  refine ⟨⟨ms, name, generics, attributes', fs'⟩, u₃.advance, (structDecl_ok hr.settled').2
    ⟨hk, rfl, hk₁, u₁, u₂, u₃, hg', ha', hk₂, hfs', by rw [if_pos hk₃]⟩, ?_, hc₅⟩
  exact congrArg₂ (StructDecl.mk ms name generics) hsame hsame'

/-! ### Declarations -/

omit hr in
theorem peek_of_modified {ms : List Modifier} {word : Keyword} (h : Modified s ms s')
    (hk : s'.peek.kind = .keyword word) :
    s.peek.kind = .operator .bang ∨ ∃ k, s.peek.kind = .keyword k ∧ (k = word ∨ k.visibility?.isSome = true) := by
  cases h with
  | nil _ _ => exact .inr ⟨word, hk, .inl rfl⟩
  | negated hb _ _ => exact .inl hb
  | plain hv _ =>
    right
    revert hv
    cases s.peek.kind <;> simp [TokenKind.visibility?]
    rintro h
    exact .inr (by rw [h]; rfl)

omit hr in
/-- What a declaration with modifiers begins with. -/
theorem peek_of_modifiedForm {form : Span → Declaration} (h : (modifiedForm g).run s = (.ok form, s')) :
    s.peek.kind = .operator .bang ∨ ∃ k, s.peek.kind = .keyword k ∧
      (k = .fn ∨ k = .constKw ∨ k = .structKw ∨ k.visibility?.isSome = true) := by
  obtain ⟨ms, s₁, hm, ⟨hk, -⟩ | ⟨hk, -⟩ | ⟨hk, -⟩⟩ := modifiedForm_ok.1 h
  all_goals
    refine (peek_of_modified hm hk).imp_right fun ⟨k, hk, h⟩ => ⟨k, hk, ?_⟩
  · exact h.imp_right fun h => .inr (.inr h)
  · exact .inr (h.imp_right .inr)
  · exact .inr (.inr h)

omit hr in
/-- The words before a declaration tell it from the lines of a file's head. -/
theorem declarationForm_of_modifiedForm {form : Span → Declaration} (h : (modifiedForm g).run s = (.ok form, s')) :
    (declarationForm g).run s = (.ok form, s') := by
  have hne {k : Keyword} (hk : k ≠ .fn ∧ k ≠ .constKw ∧ k ≠ .structKw ∧ k.visibility? = none) :
      s.peek.kind ≠ .keyword k := by
    intro hp
    rcases peek_of_modifiedForm h with hb | ⟨k', hk', h'⟩
    · simp [hp] at hb
    · obtain rfl : k = k' := by simpa using hp.symm.trans hk'
      simp [hk] at h'
  exact declarationForm_ok.2 (.inr (.inr (.inr ⟨hne (by decide), hne (by decide), hne (by decide), h⟩)))

omit hr in
/-- A declaration begins with a word or with `!`. -/
theorem peek_of_declaration {d : Declaration} (h : (declaration g).run s = (.ok d, s')) :
    s.peek.kind = .operator .bang ∨ ∃ k, s.peek.kind = .keyword k := by
  obtain ⟨form, hform, -⟩ := declaration_ok.1 h
  rcases declarationForm_ok.1 hform with ⟨hk, -⟩ | ⟨hk, -⟩ | ⟨hk, -⟩ | ⟨-, -, -, hm⟩
  · exact .inr ⟨_, hk⟩
  · exact .inr ⟨_, hk⟩
  · exact .inr ⟨_, hk⟩
  · exact (peek_of_modifiedForm hm).imp_right fun ⟨k, hk, _⟩ => ⟨k, hk⟩

/-- A declaration that may have modifiers is read again. -/
theorem rereads_modifiedForm {form : Span → Declaration} (hs : Ready s) (h : (modifiedForm g).run s = (.ok form, s'))
    (span : Span) (hu : Faces u ((form span).layout ++ f)) :
    ∃ form' u', (modifiedForm G).run u = (.ok form', u') ∧ SameHead form form' ∧ Clear u' f := by
  obtain ⟨ms, s₁, hms, hd⟩ := modifiedForm_ok.1 h
  have hs₁ := ready_of_modified hs hms
  rcases hd with ⟨-, decl, hd, rfl⟩ | ⟨-, decl, hd, rfl⟩ | ⟨-, decl, hd, rfl⟩
  · obtain ⟨f₀, hl, hread⟩ := rereads_functionDecl hr 0 hs₁ hd
    have hlayout : (functionForm decl span).layout = decl.layout 0 := by
      unfold functionForm
      split <;> rfl
    have hms' : decl.modifiers = ms := ((functionDecl_ok hr.settled).1 hd).2.1
    rw [hlayout, hl, List.append_assoc, List.cons_append] at hu
    obtain ⟨u₁, hm, hu₁⟩ := rereads_modifiers ms rfl hu
    obtain ⟨decl', u', hrun, hms'', hsame, hc⟩ := hread hu₁
    refine ⟨_, u', modifiedForm_ok.2 ⟨ms, u₁, hm, .inl ⟨hu₁.word.1, decl', hrun, rfl⟩⟩, fun _ _ => ?_, hc⟩
    unfold functionForm
    rw [hms', hms'']
    split
    · exact congrArg (Declaration.externalFunction .zero) hsame
    · exact congrArg (Declaration.function .zero) hsame
  · obtain ⟨f₀, hl, hread⟩ := rereads_constDecl hr 0 hs₁ hd
    rw [Declaration.layout, hl, List.append_assoc, List.cons_append] at hu
    obtain ⟨u₁, hm, hu₁⟩ := rereads_modifiers ms rfl hu
    obtain ⟨decl', u', hrun, hsame, hc⟩ := hread hu₁
    exact ⟨_, u', modifiedForm_ok.2 ⟨ms, u₁, hm, .inr (.inl ⟨hu₁.word.1, decl', hrun, rfl⟩)⟩,
      fun _ _ => congrArg (Declaration.constant .zero) hsame, hc⟩
  · obtain ⟨f₀, hl, hread⟩ := rereads_structDecl hr 0 hs₁ hd
    rw [Declaration.layout, hl, List.append_assoc, List.cons_append] at hu
    obtain ⟨u₁, hm, hu₁⟩ := rereads_modifiers ms rfl hu
    obtain ⟨decl', u', hrun, hsame, hc⟩ := hread hu₁
    exact ⟨_, u', modifiedForm_ok.2 ⟨ms, u₁, hm, .inr (.inr ⟨hu₁.word.1, decl', hrun, rfl⟩)⟩,
      fun _ _ => congrArg (Declaration.struct .zero) hsame, hc⟩

/-- A declaration is read again. -/
theorem rereads_declaration {d : Declaration} (hs : Ready s) (h : (declaration g).run s = (.ok d, s'))
    (hu : Faces u (d.layout ++ f)) :
    ∃ d' u', (declaration G).run u = (.ok d', u') ∧ SameDeclaration d d' ∧ Clear u' f := by
  obtain ⟨form, hform, rfl⟩ := declaration_ok.1 h
  rcases declarationForm_ok.1 hform with ⟨-, path, hp, rfl⟩ | ⟨-, options, ho, rfl⟩ | ⟨-, name, -, rfl⟩ | ⟨-, -, -, hm⟩
  · obtain ⟨-, s₁, hl, -⟩ := importPath_ok.1 hp
    obtain ⟨segment, segments, hsegments⟩ := separatedListed_cons hl
    obtain ⟨_⟩ := path
    obtain rfl : _ = segment :: segments := hsegments
    simp only [Declaration.layout, List.append_assoc, List.cons_append, List.nil_append] at hu
    obtain ⟨hk, hc⟩ := hu.word
    obtain ⟨u₁, hlist, hc₁⟩ := separated_rereads (.operator .slash) [Fragment.op .slash]
      (fun {_ _} hc => (Faces.op (Clear.faces hc) (by simp)).imp_right Clear.faces) rereads_pathSegment (by simp)
        (by simp) hc.space
    obtain ⟨hk₁, hc₂⟩ := hc₁.faces.mark
    exact ⟨_, _, declaration_ok.2 ⟨_, declarationForm_ok.2 (.inl ⟨hk, ⟨segment :: segments⟩, importPath_ok.2
      ⟨hk, u₁, hlist, hk₁, rfl⟩, rfl⟩), rfl⟩, rfl, hc₂⟩
  · obtain ⟨-, s₁, hl, -⟩ := globalLine_ok.1 ho
    obtain ⟨option, options, rfl⟩ := separatedListed_cons hl
    simp only [Declaration.layout, List.append_assoc, List.cons_append, List.nil_append] at hu
    obtain ⟨hk, hc⟩ := hu.word
    obtain ⟨u₁, hlist, hc₁⟩ := separated_rereads _ _ commaSpace_faces rereads_globalOption (by simp) (by simp) hc.space
    obtain ⟨hk₁, hc₂⟩ := hc₁.faces.mark
    exact ⟨_, _, declaration_ok.2 ⟨_, declarationForm_ok.2 (.inr (.inl ⟨hk, _, globalLine_ok.2
      ⟨hk, u₁, hlist, hk₁, rfl⟩, rfl⟩)), rfl⟩, rfl, hc₂⟩
  · simp only [Declaration.layout, List.cons_append, List.nil_append] at hu
    obtain ⟨hk, hc⟩ := hu.word
    obtain ⟨hn, hc₁⟩ := hc.space.name
    obtain ⟨hk₁, hc₂⟩ := hc₁.faces.mark
    exact ⟨_, _, declaration_ok.2 ⟨_, declarationForm_ok.2 (.inr (.inr (.inl ⟨hk, name, moduleLine_ok.2
      ⟨hn, hk₁, rfl⟩, rfl⟩))), rfl⟩, rfl, hc₂⟩
  · obtain ⟨form', u', hrun, hsame, hc⟩ := rereads_modifiedForm hr hs hm _ hu
    exact ⟨_, u', declaration_ok.2 ⟨form', declarationForm_of_modifiedForm hrun, rfl⟩, hsame _ _, hc⟩

end

/-! ### Programs -/

/-- What was read as a program is read again, where twice the nesting is allowed, from its declarations each on lines
of its own. -/
theorem rereads_declared {o o' : ParseOptions} (hle : 2 * o.maxDepth ≤ o'.maxDepth) (blankLines : Nat)
    {ds : List Declaration} (hs : Ready s) (h : Declared (Inner.ofRoom o o.maxDepth) s ds s') (he : s'.errors = []) :
    (∀ {u : ParseState}, Faces u (declarationsLayout blankLines ds) →
      ∃ ds' u', Declared (Inner.ofRoom o' o'.maxDepth) u ds' u' ∧ List.Forall₂ SameDeclaration ds ds' ∧
        u'.errors = []) ∧
    ∀ {u : ParseState} (d : Declaration), Clear u (.line 0 :: laterDeclarations blankLines d ds) →
      ∃ ds' u', Declared (Inner.ofRoom o' o'.maxDepth) u ds' u' ∧ List.Forall₂ SameDeclaration ds ds' ∧
        u'.errors = [] := by
  have hr := replayed_ofRoom o.maxDepth o.maxDepth o' o'.maxDepth hle
  induction h with
  | nil _ =>
    have hnil {u : ParseState} {f : List Fragment} (hu : Faces u f) (hf : next f = .eof) :
        ∃ ds' u', Declared (Inner.ofRoom o' o'.maxDepth) u ds' u' ∧ List.Forall₂ SameDeclaration [] ds' ∧
          u'.errors = [] := by
      refine ⟨[], u, .nil ?_, .nil, hu.clean⟩
      rw [ParseState.atEnd, hu.peek (by simp [hf]), hf]
      rfl
    exact ⟨fun hu => hnil hu rfl, fun _ hu => hnil (Clear.line hu).space rfl⟩
  | stray _ _ ih => exact ih hs.advance he
  | @cons s s₁ s' d ds _ _ hd hrest ih =>
    have hclean := (advances_of_declared (settled_ofRoom o o.maxDepth) hrest).errors_nil he
    have hd := declaration_stopping hclean hd
    obtain ⟨-, hlater⟩ := ih (keeps_declaration (settled_ofRoom _ _) (keeps_ofRoom _ _) hs hd) he
    have hcons {u : ParseState} (hu : Faces u (d.layout ++ (.line 0 :: laterDeclarations blankLines d ds))) :
        ∃ ds' u', Declared (Inner.ofRoom o' o'.maxDepth) u ds' u' ∧ List.Forall₂ SameDeclaration (d :: ds) ds' ∧
          u'.errors = [] := by
      obtain ⟨d', u₁, hrun, hsame, hc⟩ := rereads_declaration hr hs hd hu
      obtain ⟨ds', u', hds', hsames, he'⟩ := hlater d hc
      refine ⟨d' :: ds', u', .cons ?_ ?_ hrun hds', .cons hsame hsames, he'⟩
      · rcases peek_of_declaration hrun with hk | ⟨k, hk⟩ <;> rw [ParseState.atEnd, hk] <;> rfl
      · rcases peek_of_declaration hrun with hk | ⟨k, hk⟩ <;> simp [hk]
    refine ⟨fun hu => hcons (by simpa [declarationsLayout] using hu), fun {u} d₀ hu => hcons ?_⟩
    obtain ⟨n, hn⟩ : ∃ n, blankLinesBetween blankLines d₀ d = List.replicate n (.line 0) := by
      unfold blankLinesBetween
      split
      · exact ⟨0, rfl⟩
      · exact ⟨_, rfl⟩
    rw [laterDeclarations, hn] at hu
    exact Clear.lines (by simpa using hu)

end Parser

/-- A program that was read is read again from tokens that are those of its printed form, wherever twice the nesting is
allowed. -/
theorem parseTokens_of_marks {ts us : List Token} {o o' : ParseOptions} {p : Program} (h : parseTokens ts o = .ok p)
    (blankLines : Nat) (hus : marksOf none us = fuse (marks (.space :: p.layout blankLines)))
    (hle : 2 * o.maxDepth ≤ o'.maxDepth) : ∃ p', parseTokens us o' = .ok p' ∧ p'.withoutSpans = p.withoutSpans := by
  obtain ⟨s', he, hds⟩ := parseTokens_ok.1 h
  obtain ⟨ds', u', hds', hsame, he'⟩ := (Parser.rereads_declared hle blankLines ⟨rfl, rfl⟩ hds he).1
    (u := { rest := us }) (.inr (.of_marksOf rfl rfl hus))
  refine ⟨⟨ds'⟩, parseTokens_ok.2 ⟨u', he', hds'⟩, ?_⟩
  exact congrArg Program.mk (map_eq_of_same hsame).symm

end ElleFrontEnd
