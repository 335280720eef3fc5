import ElleFrontEnd.Proofs.Reread

/-!
# Reading printed constructs

One lemma for each construct of the expression grammar: it is read from its printed form, if its parts are read from
theirs.  Where the parts come from does not matter here: from a source that has been read before, or from a tree that
was built by hand.  The relation `R` tells how an expression that is read goes with the one that was printed.
-/

namespace ElleFrontEnd

open Fragment

/-- A field of a struct literal as fragments. -/
def FieldInit.layout (depth : Nat) : FieldInit → List Fragment
  | .mk _ n value => [ofName n, space, op .eq, space] ++ value.layout depth true

theorem fieldInitListLayout_eq_map (depth : Nat) (fs : List FieldInit) :
    fieldInitListLayout depth fs = fs.map (FieldInit.layout depth) := by
  induction fs with
  | nil => rfl
  | cons f fs ih =>
    cases f
    rw [fieldInitListLayout, ih, List.map_cons, FieldInit.layout]

/-- Fields with one name whose values are related. -/
inductive FieldRel (R : Expr → Expr → Prop) : FieldInit → FieldInit → Prop
  | mk (span span' : Span) (n : String) {value value' : Expr} : R value value' →
    FieldRel R (.mk span n value) (.mk span' n value')

/-- Directives of one name whose operands are related. -/
inductive DirectiveRel (R : Expr → Expr → Prop) : Directive → Directive → Prop
  | len {e e' : Expr} : R e e' → DirectiveRel R (.len e) (.len e')
  | size {t t' : TypeExpr} : SameType t t' → DirectiveRel R (.size t) (.size t')
  | ident (n : String) : DirectiveRel R (.ident n) (.ident n)
  | env : DirectiveRel R .env .env
  | alloc {t t' : TypeExpr} {count count' : Option Expr} : SameType t t' → OptionRel R count count' →
    DirectiveRel R (.alloc t count) (.alloc t' count')
  | realloc {e e' : Expr} {t t' : TypeExpr} {count count' : Option Expr} : R e e' → SameType t t' →
    OptionRel R count count' → DirectiveRel R (.realloc e t count) (.realloc e' t' count')
  | free {e e' : Expr} : R e e' → DirectiveRel R (.free e) (.free e')
  | setAllocator {e e' : Expr} : R e e' → DirectiveRel R (.setAllocator e) (.setAllocator e')
  | resetAllocator : DirectiveRel R .resetAllocator .resetAllocator

theorem DirectiveRel.name_eq {R : Expr → Expr → Prop} {x x' : Directive} (h : DirectiveRel R x x') :
    x'.name = x.name := by
  cases h <;> rfl

namespace Parser

variable {u : ParseState} {G : Inner} {limit room depth : Nat} {f : List Fragment} {R : Expr → Expr → Prop}

/-- An expression between brackets is read from its printed form, up to the token that ends it there. -/
structure ReadsInside (G : Inner) (depth : Nat) (R : Expr → Expr → Prop) (e : Expr) : Prop where
  opens : ∃ k ks, tokens (e.layout depth true) = k :: ks ∧ opensOperand true k = true
  reads : ∀ {u : ParseState} {f : List Fragment}, closes (next f) = true → next f ≠ .punctuation .lBrace →
    Faces u (e.layout depth true ++ f) → ∃ e' u', (G.expression false).run u = (.ok e', u') ∧ R e e' ∧ Clear u' f

namespace ReadsInside

variable {e : Expr} (h : ReadsInside G depth R e)
include h

/-- An expression opens with no closer. -/
theorem peek_ne (hu : Faces u (e.layout depth true ++ f)) {k : TokenKind} (hk : opensOperand true k = false) :
    u.peek.kind ≠ k := by
  obtain ⟨k', ks, htok, hopen⟩ := h.opens
  have hne : k' ≠ .operator .gt := by
    rintro rfl
    simp [opensOperand] at hopen
  rw [hu.peek (by rwa [next_append htok]), next_append htok]
  rintro rfl
  simp [hopen] at hk

theorem item {close : Punctuation} (hclose : closes (.punctuation close) = true) (hb : close ≠ .lBrace) :
    RereadsItem close (G.expression false) (Expr.layout depth true) R e := by
  obtain ⟨k, ks, hk, hopen⟩ := h.opens
  refine ⟨⟨k, ks, hk, ?_, ?_, ?_⟩, fun hf hu => h.reads ?_ ?_ hu⟩
  · rintro rfl
    revert hclose hopen
    cases close <;> decide
  · rintro rfl
    simp [opensOperand] at hopen
  · rintro rfl
    simp [opensOperand] at hopen
  · rcases hf with hf | hf
    · rw [hf]
      rfl
    · rwa [hf]
  · rcases hf with hf | hf <;> simp [hf, hb]

theorem field (span : Span) (n : String) :
    RereadsItem .rBrace (fieldInit G) (FieldInit.layout depth) (FieldRel R) (.mk span n e) := by
  refine ⟨⟨_, _, rfl, by simp, by simp, by simp⟩, fun hf hu => ?_⟩
  simp only [FieldInit.layout, List.cons_append, List.nil_append] at hu
  obtain ⟨hk, hc⟩ := hu.name
  obtain ⟨hk₁, hc⟩ := hc.space.op (by simp)
  obtain ⟨e', u', hrun, hR, hc⟩ := h.reads (by rcases hf with hf | hf <;> rw [hf] <;> rfl)
    (by rcases hf with hf | hf <;> simp [hf]) hc.space
  exact ⟨_, u', fieldInit_ok.2 ⟨n, e', hk, hk₁, hrun, rfl⟩, .mk _ _ n hR, hc⟩

end ReadsInside

/-! ### Lists in brackets -/

/-- Expressions between commas are read up to the closer of their group. -/
theorem shows_exprList {close : Punctuation} {es : List Expr} (hclose : closes (.punctuation close) = true)
    (hb : close ≠ .lBrace) (hc : close ≠ .comma) (h : ∀ e ∈ es, ReadsInside G depth R e)
    (hu : Faces u (commas (exprListLayout depth es) ++ f)) (hf : next f = .punctuation close) :
    ∃ es' u', CommaListed close (G.expression false) u es' u' ∧ List.Forall₂ R es es' ∧ Faces u' f := by
  rw [exprListLayout_eq_map] at hu
  exact commaListed_shows hc (fun e he => (h e he).item hclose hb) hu hf

theorem shows_arguments (hg : G.Settled) {es : List Expr} (h : ∀ e ∈ es, ReadsInside G depth R e)
    (hu : Faces u (parens (commas (exprListLayout depth es)) ++ f)) :
    ∃ es' u', (arguments G).run u = (.ok es', u') ∧ List.Forall₂ R es es' ∧ Clear u' f := by
  rw [parens, List.cons_append, List.cons_append, List.append_assoc, List.cons_append, List.nil_append] at hu
  obtain ⟨hk, hc⟩ := hu.mark
  obtain ⟨es', u', hlist, hR, hu'⟩ := shows_exprList rfl (by simp) (by simp) h hc.faces rfl
  obtain ⟨hclose, hc⟩ := hu'.mark
  exact ⟨es', _, (arguments_ok hg).2 ⟨hk, u', hlist, hclose, rfl⟩, hR, hc⟩

theorem shows_parenthesized {e : Expr} (start : Nat) (h : ReadsInside G depth R e)
    (hu : Faces u (parens (e.layout depth true) ++ f)) :
    u.peek.kind = .punctuation .lParen ∧ ∃ span e' u', (parenthesized G start).run u = (.ok (.paren span e'), u') ∧
      R e e' ∧ Clear u' f := by
  rw [parens, List.cons_append, List.cons_append, List.append_assoc, List.cons_append, List.nil_append] at hu
  obtain ⟨hk, hc⟩ := hu.mark
  obtain ⟨e', u', hrun, hR, hc⟩ := h.reads rfl (by simp) hc.faces
  obtain ⟨hk₁, hc⟩ := hc.faces.mark
  exact ⟨hk, _, e', _, parenthesized_ok.2 ⟨e', u', hrun, hk₁, rfl, rfl⟩, hR, hc⟩

/-! ### Names and struct literals -/

/-- Behind a name, no struct literal is read where neither a brace nor its type arguments follow. -/
theorem shows_noBody (hg : G.Settled) (hG : G.type = typeExpr limit room) (hc : Clear u f) (hl : Loose f)
    (hb : next f ≠ .punctuation .lBrace) (hlt : touchesWith (.operator .lt) f → OpensCall room f) : NoBody G u := by
  have hpeek : u.peek.kind = next f := hc.fragments.peek_of_loose hc.owed hl
  by_cases ht : touchesWith (.operator .lt) f
  · obtain ⟨args, f', rfl, hn, hargs⟩ := hlt ht
    obtain ⟨args', u', hrun, -, hc'⟩ := shows_typeArgs hG hargs (.inl hn) hc.faces
    have hk : u.peek.kind = .operator .lt := by rw [hpeek, ht.2]
    have hadj : u.isAdjacent = true := by
      rw [hc.fragments.isAdjacent_of_loose hc.owed hl (by simp [ht.2]), ht.1]
    refine .inr ⟨some args', u', (structTypeArgs_some hg).2 (.inl ⟨hk, hadj, args', rfl, hrun, hc'.owed⟩), ?_⟩
    rintro ⟨hb, -⟩
    have := hc'.next_of_peek hb (by simp)
    simp [hn] at this
  · refine .inr ⟨none, u, (structTypeArgs_some hg).2 (.inr ⟨hc.fragments.not_lt hc.owed ht, rfl, rfl⟩), ?_⟩
    rintro ⟨hb', -⟩
    exact hb (hpeek.symm.trans hb')

/-- The type arguments behind the name of a struct literal, if there are any. -/
theorem shows_structTypeArgs (hg : G.Settled) (hG : G.type = typeExpr limit room) {generics : Option (List TypeExpr)}
    (hargs : ∀ args ∈ generics, ArgsWithin room args) (hf : next f = .punctuation .lBrace)
    (ht : ¬ touchesWith (.operator .lt) f) (hc : Clear u (optTypeArgsLayout generics ++ f)) :
    ∃ generics' u', (structTypeArgs G).run u = (.ok (some generics'), u') ∧
      Same (Option.map (typeListMapSpans noSpan)) generics generics' ∧ Clear u' f := by
  cases generics with
  | none => exact ⟨none, u, (structTypeArgs_some hg).2 (.inr ⟨hc.fragments.not_lt hc.owed ht, rfl, rfl⟩), rfl, hc⟩
  | some args =>
    have hk : u.peek.kind = .operator .lt := hc.fragments.peek (by simp [optTypeArgsLayout, Fragment.angles])
    have hadj : u.isAdjacent = true :=
      hc.fragments.isAdjacent (by simp [optTypeArgsLayout, Fragment.angles])
        (by simp [optTypeArgsLayout, Fragment.angles])
    obtain ⟨args', u', hrun, hsame, hc'⟩ := shows_typeArgs hG (hargs args rfl) (.inr hf) hc.faces
    exact ⟨some args', u', (structTypeArgs_some hg).2 (.inl ⟨hk, hadj, args', rfl, hrun, hc'.owed⟩),
      congrArg some hsame, hc'⟩

/-- The fields of a struct literal, whose braces are told from those of a block. -/
theorem shows_fields {fields : List FieldInit}
    (hfields : ∀ i ∈ fields, RereadsItem .rBrace (fieldInit G) (FieldInit.layout depth) (FieldRel R) i)
    (hc : Clear u (space :: mark .lBrace :: ((if fields.isEmpty then [] else [space]) ++
      (commas (fieldInitListLayout depth fields) ++
        ((if fields.isEmpty then [] else [space]) ++ mark .rBrace :: f))))) :
    atBody u ∧ ∃ fields' u', CommaListed .rBrace (fieldInit G) u.advance fields' u' ∧
      List.Forall₂ (FieldRel R) fields fields' ∧ Faces u' (mark .rBrace :: f) := by
  obtain ⟨hk, hc⟩ := hc.space.mark
  rw [fieldInitListLayout_eq_map] at hc
  cases fields with
  | nil =>
    simp only [List.isEmpty_nil, if_true, List.nil_append, List.map_nil, commas_nil] at hc
    have hk₁ : u.kindAt 1 = .punctuation .rBrace := by
      rw [ParseState.kindAt_one (by simp [hk]), hc.faces.mark.1]
    exact ⟨⟨hk, .inl hk₁⟩, [], _, .nil (.inl hc.faces.mark.1), .nil, hc.faces⟩
  | cons i fields =>
    simp only [List.isEmpty_cons, Bool.false_eq_true, if_false, List.cons_append, List.nil_append] at hc
    have hbody : atBody u := by
      obtain ⟨span, m, value⟩ := i
      obtain ⟨rest, hrest⟩ := commas_cons (FieldInit.layout depth (.mk span m value))
        (fields.map (FieldInit.layout depth))
      rw [List.map_cons, hrest] at hc
      simp only [FieldInit.layout, List.cons_append, List.nil_append] at hc
      obtain ⟨hk₁, hc₁⟩ := hc.space.name
      obtain ⟨hk₂, -⟩ := hc₁.space.op (by simp)
      have h₁ : u.kindAt 1 = .ident m := by rw [ParseState.kindAt_one (by simp [hk]), hk₁]
      have h₂ : u.kindAt 2 = .operator .eq := by
        rw [ParseState.kindAt_succ (by simp [hk]), ParseState.kindAt_one (by simp [hk₁]), hk₂]
      exact ⟨hk, .inr ⟨by rw [h₁]; rfl, h₂⟩⟩
    obtain ⟨fields', u', hlist, hR, hu'⟩ := commaListed_shows (f := space :: mark .rBrace :: f) (by simp) hfields
      hc.space rfl
    refine ⟨hbody, fields', u', hlist, hR, ?_⟩
    rcases hu' with h | h
    · exact .inr h
    · exact .inr (.of_marksOf h.clean (h.owed (by simp)) (h.marksOf_eq (h.owed (by simp))))

/-- A struct literal is read behind its name. -/
theorem shows_structLit (hg : G.Settled) (hG : G.type = typeExpr limit room) (start : Nat) (span : Span) (n : String)
    {generics : Option (List TypeExpr)} {fields : List FieldInit} (hargs : ∀ args ∈ generics, ArgsWithin room args)
    (hfields : ∀ i ∈ fields, RereadsItem .rBrace (fieldInit G) (FieldInit.layout depth) (FieldRel R) i) :
    ∃ rest, (Expr.structLit span n generics fields).layout depth true = ofName n :: rest ∧
      TokenKind.punctuation .lBrace ∈ tokens rest ∧ (∀ f, next (rest ++ f) ≠ .punctuation .colonColon) ∧
      ∀ {u : ParseState} {f : List Fragment}, Clear u (rest ++ f) → ∃ span' generics' fields' u',
        (structLiteral? G start n).run u = (.ok (some (.structLit span' n generics' fields')), u') ∧
        Same (Option.map (typeListMapSpans noSpan)) generics generics' ∧ List.Forall₂ (FieldRel R) fields fields' ∧
        Clear u' f := by
  have hlayout : (Expr.structLit span n generics fields).layout depth true = ofName n ::
      (optTypeArgsLayout generics ++ space :: mark .lBrace :: ((if fields.isEmpty then [] else [space]) ++
        (commas (fieldInitListLayout depth fields) ++ ((if fields.isEmpty then [] else [space]) ++
          [mark .rBrace])))) := by
    cases fields <;> simp [Expr.layout, fieldInitListLayout]
  refine ⟨_, hlayout, by simp, fun f => ?_, fun {u f} hc => ?_⟩
  · cases generics <;> simp [optTypeArgsLayout, Fragment.angles]
  · rw [List.append_assoc] at hc
    obtain ⟨generics', u₁, hgen, hsame, hc₁⟩ := shows_structTypeArgs hg hG hargs rfl (by simp [touchesWith]) hc
    simp only [List.cons_append, List.append_assoc, List.nil_append] at hc₁
    obtain ⟨hbody, fields', u₂, hlist, hR, hu₂⟩ := shows_fields hfields hc₁
    obtain ⟨hclose, hc'⟩ := hu₂.mark
    exact ⟨_, generics', fields', _, (structLiteral?_some hg).2
      ⟨generics', u₁, fields', u₂, hgen, hbody, hlist, hclose, rfl, rfl⟩, hsame, hR, hc'⟩

/-! ### Arrays -/

/-- An array is read from its bracket on, unless its elements begin like a type with a semicolon behind it. -/
theorem shows_arrayLiteral (hg : G.Settled) (hG : G.type = typeExpr limit room) (start : Nat) (span : Span)
    (isStatic : Bool) {element : Option TypeExpr} {elements : List Expr} (helement : ∀ t ∈ element, TypeWithin room t)
    (helements : ∀ e ∈ elements, ReadsInside G depth R e)
    (hno : element = none → ∀ {u v : ParseState} {t : TypeExpr} {f : List Fragment},
      Faces u (commas (exprListLayout depth elements) ++ mark .rBracket :: f) → (G.type 0).run u = (.ok t, v) →
      v.peek.kind ≠ .punctuation .semicolon) :
    ∃ rest, (Expr.array span element isStatic elements).layout depth true =
        (if isStatic then [mark .hash] else []) ++ mark .lBracket :: rest ∧
      ∀ {u : ParseState} {f : List Fragment}, Faces u (mark .lBracket :: (rest ++ f)) → ∃ span' element' elements' u',
        (arrayLiteral G start isStatic).run u = (.ok (.array span' element' isStatic elements'), u') ∧
        Same (Option.map (TypeExpr.mapSpans noSpan)) element element' ∧ List.Forall₂ R elements elements' ∧
        Clear u' f := by
  refine ⟨_, array_layout _ _ _ _ _ _, fun {u f} hu => ?_⟩
  obtain ⟨hk, hc⟩ := Faces.mark hu
  have htag : ∃ element' v, Same (Option.map (TypeExpr.mapSpans noSpan)) element element' ∧
      Faces v (commas (exprListLayout depth elements) ++ mark .rBracket :: f) ∧
      ((∃ type v₀, element' = some type ∧ (G.type 0).run u.advance = (.ok type, v₀) ∧
          v₀.peek.kind = .punctuation .semicolon ∧ v = v₀.advance) ∨
        (element' = none ∧ v = u.advance ∧ Fails (do
          let type ← G.type 0
          let _ ← expectMark .semicolon
          pure type) u.advance)) := by
    cases element with
    | some type =>
      simp only [List.append_assoc, List.cons_append] at hc
      obtain ⟨t', v₀, hrun, hsame, hc⟩ := shows_type hG (helement type rfl) rfl hc.faces
      obtain ⟨hk, hc⟩ := hc.faces.mark
      refine ⟨some t', _, congrArg some hsame, ?_, .inl ⟨t', v₀, rfl, hrun, hk, rfl⟩⟩
      split at hc
      · exact hc.faces
      · exact hc.space
    | none =>
      simp only [List.nil_append, List.append_assoc] at hc
      refine ⟨none, _, rfl, hc.faces, .inr ⟨rfl, rfl, ?_⟩⟩
      unfold Fails
      rcases hrun : (do
          let type ← G.type 0
          let _ ← expectMark .semicolon
          pure type : Parser TypeExpr).run u.advance with ⟨e | t, v⟩
      · exact ⟨e, v, rfl⟩
      · simp only [bind_ok, expectMark, expect_ok] at hrun
        obtain ⟨t', v₀, hrun, -, -, ⟨hk, -⟩, -⟩ := hrun
        exact absurd hk (hno rfl hc.faces hrun)
  obtain ⟨element', v, hsame, hv, htag⟩ := htag
  obtain ⟨es', u', hlist, hR, hu'⟩ := shows_exprList rfl (by simp) (by simp) helements hv rfl
  obtain ⟨hclose, hc'⟩ := hu'.mark
  exact ⟨_, element', es', _, (arrayLiteral_ok hg).2 ⟨hk, element', v, es', u', hlist, hclose, rfl, rfl, htag⟩, hsame,
    hR, hc'⟩

/-! ### Directives -/

theorem peek_ne_of_type (hG : G.type = typeExpr limit room) {type : TypeExpr} {v : ParseState} {k : TokenKind}
    (h : (G.type 0).run u = (.ok type, v)) (hk : opensType k = false) : u.peek.kind ≠ k := by
  rw [hG] at h
  have := typeExpr_opens h
  rintro rfl
  simp [hk] at this

theorem ofSpelling?_spelling (d : DirectiveName) : DirectiveName.ofSpelling? d.spelling = some d := by
  cases d <;> decide

/-- Whether the operands of a directive are read from their printed form. -/
def OperandsInside (G : Inner) (room depth : Nat) (R : Expr → Expr → Prop) : Directive → Prop
  | .len e | .free e | .setAllocator e => ReadsInside G depth R e
  | .size type => TypeWithin room type
  | .ident _ | .env | .resetAllocator => True
  | .alloc type count => TypeWithin room type ∧ ∀ e ∈ count, ReadsInside G depth R e
  | .realloc e type count => ReadsInside G depth R e ∧ TypeWithin room type ∧ ∀ e ∈ count, ReadsInside G depth R e

theorem shows_optionalOperand {count : Option Expr} (h : ∀ e ∈ count, ReadsInside G depth R e)
    (hf : next f = .punctuation .rParen) (hu : Clear u (countLayout (count.map (Expr.layout depth true)) ++ f)) :
    ∃ count' u', (optionalOperand G).run u = (.ok count', u') ∧ OptionRel R count count' ∧ Clear u' f := by
  cases count with
  | some e =>
    simp only [Option.map_some, countLayout, commaSpace, List.cons_append, List.nil_append] at hu
    obtain ⟨hk, hc⟩ := hu.faces.mark
    obtain ⟨e', u', hrun, hR, hc'⟩ := (h e rfl).reads (by rw [hf]; rfl) (by simp [hf]) hc.space
    exact ⟨some e', u', optionalOperand_ok.2 (.inl ⟨hk, e', rfl, hrun⟩), hR, hc'⟩
  | none =>
    refine ⟨none, u, optionalOperand_ok.2 (.inr ⟨fun hk => ?_, rfl, rfl⟩), trivial, hu⟩
    have := hu.next_of_peek hk (by simp)
    simp [countLayout, hf] at this

/-- The operands of a directive are read behind their parenthesis. -/
theorem shows_operands (hG : G.type = typeExpr limit room) {x : Directive} (hx : OperandsInside G room depth R x)
    (henv : x.name ≠ .env) :
    ∃ inner, x.layout depth = mark .hash :: ofName x.name.spelling :: parens inner ∧
      ∀ {u : ParseState} {f : List Fragment}, next f = .punctuation .rParen → Faces u (inner ++ f) →
        ∃ x' u', Operands G u u' x' ∧ DirectiveRel R x x' ∧ Faces u' f := by
  have hvalue {e : Expr} (he : ReadsInside G depth R e) {u : ParseState} {f : List Fragment}
      (hf : next f = .punctuation .rParen) (hu : Faces u (e.layout depth true ++ f)) :
      ∃ e' u', (u.peek.kind ≠ .punctuation .rParen ∧ (G.expression false).run u = (.ok e', u')) ∧ R e e' ∧
        Faces u' f := by
    obtain ⟨e', u', hrun, hR, hc⟩ := he.reads (by rw [hf]; rfl) (by simp [hf]) hu
    exact ⟨e', u', ⟨he.peek_ne hu rfl, hrun⟩, hR, hc.faces⟩
  cases x with
  | len e =>
    refine ⟨_, by rw [Directive.layout]; rfl, fun hf hu => ?_⟩
    obtain ⟨e', u', hrun, hR, hu'⟩ := hvalue hx hf hu
    exact ⟨.len e', u', hrun, .len hR, hu'⟩
  | free e =>
    refine ⟨_, by rw [Directive.layout]; rfl, fun hf hu => ?_⟩
    obtain ⟨e', u', hrun, hR, hu'⟩ := hvalue hx hf hu
    exact ⟨.free e', u', hrun, .free hR, hu'⟩
  | setAllocator e =>
    refine ⟨_, by rw [Directive.layout]; rfl, fun hf hu => ?_⟩
    obtain ⟨e', u', hrun, hR, hu'⟩ := hvalue hx hf hu
    exact ⟨.setAllocator e', u', hrun, .setAllocator hR, hu'⟩
  | size type =>
    refine ⟨_, by rw [Directive.layout]; rfl, fun hf hu => ?_⟩
    obtain ⟨t', u', hrun, hsame, hc⟩ := shows_type hG hx (by rw [hf]; rfl) hu
    exact ⟨.size t', u', ⟨peek_ne_of_type hG hrun rfl, hrun⟩, .size hsame, hc.faces⟩
  | ident n =>
    refine ⟨_, by rw [Directive.layout]; rfl, fun hf hu => ?_⟩
    obtain ⟨hk, hc⟩ := Faces.name hu
    exact ⟨.ident n, _, ⟨hk, rfl⟩, .ident n, hc.faces⟩
  | alloc type count =>
    refine ⟨type.layout ++ countLayout (count.map (Expr.layout depth true)), ?_, fun hf hu => ?_⟩
    · cases count <;> simp [Directive.layout, Directive.name, countLayout, commas, separated]
    · rw [List.append_assoc] at hu
      obtain ⟨t', u₁, hrun, hsame, hc⟩ := shows_type hG hx.1
        (by cases count <;> simp [countLayout, commaSpace, hf, endsType]) hu
      obtain ⟨count', u', ho, hR, hc'⟩ := shows_optionalOperand hx.2 hf hc
      exact ⟨.alloc t' count', u', ⟨peek_ne_of_type hG hrun rfl, u₁, hrun, ho⟩, .alloc hsame hR, hc'.faces⟩
  | realloc e type count =>
    refine ⟨e.layout depth true ++ mark .comma :: space ::
      (type.layout ++ countLayout (count.map (Expr.layout depth true))),
      ?_, fun hf hu => ?_⟩
    · cases count <;> simp [Directive.layout, Directive.name, countLayout, commas, separated, commaSpace]
    · rw [List.append_assoc] at hu
      simp only [List.cons_append, List.append_assoc] at hu
      obtain ⟨e', u₁, hrun, hR, hc⟩ := hx.1.reads rfl (by simp) hu
      obtain ⟨hk, hc⟩ := hc.faces.mark
      obtain ⟨t', u₂, hrun', hsame, hc⟩ := shows_type hG hx.2.1
        (by cases count <;> simp [countLayout, commaSpace, hf, endsType]) hc.space
      obtain ⟨count', u', ho, hR', hc'⟩ := shows_optionalOperand hx.2.2 hf hc
      exact ⟨.realloc e' t' count', u', ⟨hx.1.peek_ne hu rfl, u₁, u₂, hrun, hk, peek_ne_of_type hG hrun' rfl, hrun',
        ho⟩, .realloc hR hsame hR', hc'.faces⟩
  | env => exact absurd rfl henv
  | resetAllocator =>
    exact ⟨[], by rw [Directive.layout]; rfl, fun _ hu => ⟨.resetAllocator, _, rfl, .resetAllocator, hu⟩⟩

/-- A directive is read, unless it is `#env` with a parenthesis behind it. -/
theorem shows_directive (hG : G.type = typeExpr limit room) {x : Directive} (hx : OperandsInside G room depth R x)
    (henv : x.name = .env → next f ≠ .punctuation .lParen) (hu : Faces u (x.layout depth ++ f)) :
    ∃ span x' u', (hashExpr G).run u = (.ok (.directive span x'), u') ∧ DirectiveRel R x x' ∧ Clear u' f := by
  have hread {u : ParseState} {x' : Directive} {u' : ParseState} (hk : u.peek.kind = .punctuation .hash)
      (hk₁ : u.advance.peek.kind = .ident x.name.spelling) (hn : x'.name = x.name)
      (hrun : (directiveOf G x'.name).run u.advance.advance = (.ok x', u')) :
      (hashExpr G).run u = (.ok (.directive (u'.spanFrom u.peek.span.start) x'), u') :=
    hashExpr_ok.2 ⟨hk, .inr ⟨_, x', hk₁, by rw [hn, ofSpelling?_spelling], hrun, rfl⟩⟩
  by_cases hname : x.name = .env
  · obtain rfl : x = .env := by cases x <;> simp_all [Directive.name]
    rw [Directive.layout, List.cons_append, List.cons_append, List.nil_append] at hu
    obtain ⟨hk, hc⟩ := hu.mark
    obtain ⟨hk₁, hc⟩ := hc.faces.name
    have hrun : (directiveOf G .env).run u.advance.advance = (.ok .env, u.advance.advance) :=
      directiveOf_ok.2 ⟨rfl, .inl ⟨rfl, fun hk => henv rfl (hc.next_of_peek hk (by simp)), rfl⟩⟩
    exact ⟨_, .env, _, hread hk hk₁ rfl hrun, .env, hc⟩
  · obtain ⟨inner, hl, hinner⟩ := shows_operands hG hx hname
    rw [hl, List.cons_append, List.cons_append, parens, List.cons_append, List.cons_append, List.append_assoc,
      List.cons_append, List.nil_append] at hu
    obtain ⟨hk, hc⟩ := hu.mark
    obtain ⟨hk₁, hc⟩ := hc.faces.name
    obtain ⟨hk₂, hc⟩ := hc.faces.mark
    obtain ⟨x', u', ho, hR, hu'⟩ := hinner (f := mark .rParen :: f) rfl hc.faces
    obtain ⟨hclose, hc'⟩ := hu'.mark
    have hrun := directiveOf_ok.2 ⟨rfl, .inr ⟨by rwa [hR.name_eq], hk₂, u', ho, hclose, rfl⟩⟩
    exact ⟨_, x', _, hread hk hk₁ hR.name_eq hrun, hR, hc'⟩

/-! ### Tuples, triples and sigils -/

theorem nextIsAdjacent_eq (hk : u.peek.kind ≠ .eof) (hk' : u.advance.peek.kind ≠ .eof) :
    u.nextIsAdjacent = u.advance.isAdjacent := by
  obtain ⟨ts, ht⟩ := ParseState.rest_of_peek hk
  have ha := ParseState.advance_cons ht hk
  obtain ⟨us, hu⟩ := ParseState.rest_of_peek hk'
  have hts : ts = u.advance.peek :: us := by
    have hrest : u.advance.rest = ts := by rw [ha]
    rw [← hrest, hu]
  have hlast : u.advance.last = some u.peek := by rw [ha]
  unfold ParseState.nextIsAdjacent ParseState.isAdjacent
  rw [ht, hts, hlast]

section
variable (hg : G.Settled)
include hg

theorem shows_triple {a b c : Expr} (h : ∀ e ∈ [a, b, c], ReadsInside G depth R e)
    (hu : Faces u (mark .dollar :: mark .dollar :: (parens (commas (exprListLayout depth [a, b, c])) ++ f))) :
    ∃ span a' b' c' u', (dollarExpr G).run u = (.ok (.triple span a' b' c'), u') ∧ R a a' ∧ R b b' ∧ R c c' ∧
      Clear u' f := by
  obtain ⟨hk, hc⟩ := hu.mark
  have hadj := hc.isAdjacent (by simp) (by simp)
  obtain ⟨hk₁, hc₁⟩ := hc.faces.mark
  obtain ⟨args', u', hrun, hR, hc'⟩ := shows_arguments hg h hc₁.faces
  rw [parens, List.cons_append, List.cons_append] at hc₁
  obtain ⟨hk₂, -⟩ := hc₁.faces.mark
  have hkind : u.advance.kindAt 1 = .punctuation .lParen := by rw [ParseState.kindAt_one (by simp [hk₁]), hk₂]
  have hnext : u.advance.nextIsAdjacent = true := by
    rw [nextIsAdjacent_eq (by simp [hk₁]) (by simp [hk₂])]
    exact hc₁.isAdjacent (by simp) (by simp)
  obtain ⟨a', b', c', rfl, ha, hb, hc⟩ : ∃ a' b' c', args' = [a', b', c'] ∧ R a a' ∧ R b b' ∧ R c c' := by
    rcases hR with _ | ⟨ha, _ | ⟨hb, _ | ⟨hc, _ | _⟩⟩⟩
    exact ⟨_, _, _, rfl, ha, hb, hc⟩
  exact ⟨_, a', b', c', u', dollarExpr_ok.2 ⟨hk, hadj, .inl ⟨hk₁, hkind, hnext, a', b', c', hrun, rfl⟩⟩, ha, hb, hc,
    hc'⟩

theorem shows_tuple {a b : Expr} (h : ∀ e ∈ [a, b], ReadsInside G depth R e)
    (hu : Faces u (mark .dollar :: (parens (commas (exprListLayout depth [a, b])) ++ f))) :
    ∃ span a' b' u', (dollarExpr G).run u = (.ok (.tuple span a' b'), u') ∧ R a a' ∧ R b b' ∧ Clear u' f := by
  obtain ⟨hk, hc⟩ := hu.mark
  have hadj := hc.isAdjacent (by simp) (by simp)
  have hk₁ : u.advance.peek.kind = .punctuation .lParen := hc.faces.mark.1
  obtain ⟨args', u', hrun, hR, hc'⟩ := shows_arguments hg h hc.faces
  obtain ⟨a', b', rfl, ha, hb⟩ : ∃ a' b', args' = [a', b'] ∧ R a a' ∧ R b b' := by
    rcases hR with _ | ⟨ha, _ | ⟨hb, _ | _⟩⟩
    exact ⟨_, _, rfl, ha, hb⟩
  exact ⟨_, a', b', u', dollarExpr_ok.2 ⟨hk, hadj, .inr (.inl ⟨hk₁, a', b', hrun, rfl⟩)⟩, ha, hb, hc'⟩

theorem shows_sigil {n : String} {args : List Expr} (h : ∀ e ∈ args, ReadsInside G depth R e)
    (hu : Faces u (mark .dollar :: ofName n :: (parens (commas (exprListLayout depth args)) ++ f))) :
    ∃ span args' u', (dollarExpr G).run u = (.ok (.sigil span n (some args')), u') ∧ List.Forall₂ R args args' ∧
      Clear u' f := by
  obtain ⟨hk, hc⟩ := Faces.mark hu
  have hadj := hc.isAdjacent (by simp) (by simp)
  obtain ⟨hk₁, hc₁⟩ := hc.faces.name
  have hk₂ : u.advance.advance.peek.kind = .punctuation .lParen := hc₁.faces.mark.1
  have hadj₂ : u.advance.advance.isAdjacent = true := hc₁.isAdjacent (by simp) (by simp)
  obtain ⟨args', u', hrun, hR, hc'⟩ := shows_arguments hg h hc₁.faces
  exact ⟨_, args', u', dollarExpr_ok.2 ⟨hk, hadj, .inr (.inr ⟨n, hk₁, .inl ⟨hk₂, hadj₂, args', hrun, rfl⟩⟩)⟩, hR, hc'⟩

omit hg in
theorem shows_sigilAlone {n : String} (hl : Loose f) (ht : ¬ touchesWith (.punctuation .lParen) f)
    (hu : Faces u (mark .dollar :: ofName n :: f)) :
    ∃ span u', (dollarExpr G).run u = (.ok (.sigil span n none), u') ∧ Clear u' f := by
  obtain ⟨hk, hc⟩ := Faces.mark hu
  have hadj := hc.isAdjacent (by simp) (by simp)
  obtain ⟨hk₁, hc₁⟩ := hc.faces.name
  refine ⟨_, _, dollarExpr_ok.2 ⟨hk, hadj, .inr (.inr ⟨n, hk₁, .inr ⟨?_, rfl, rfl⟩⟩)⟩, hc₁⟩
  rintro ⟨hk₂, hadj₂⟩
  have hn := hc₁.next_of_peek hk₂ (by simp)
  rw [hc₁.fragments.isAdjacent_of_loose hc₁.owed hl (by simp [hn])] at hadj₂
  exact ht ⟨hadj₂, hn⟩

/-! ### Calls, members and subscripts -/

theorem shows_call (start : Nat) (callee : Expr) {args : List Expr} (h : ∀ e ∈ args, ReadsInside G depth R e)
    (hu : Faces u (parens (commas (exprListLayout depth args)) ++ f)) :
    ∃ span args' u', (suffixStep G start callee).run u = (.ok (some (.call span callee none args')), u') ∧
      List.Forall₂ R args args' ∧ Clear u' f := by
  obtain ⟨args', u', hrun, hR, hc⟩ := shows_arguments hg h hu
  have hk : u.peek.kind = .punctuation .lParen := ((arguments_ok hg).1 hrun).1
  exact ⟨_, args', u', (suffixStep_some hg).2 (.inl ⟨hk, args', hrun, rfl⟩), hR, hc⟩

theorem shows_genericCall (hG : G.type = typeExpr limit room) (start : Nat) {callee : Expr}
    (htake : callee.takesGenerics = true) {generics : List TypeExpr} (hgen : ArgsWithin room generics)
    {args : List Expr} (h : ∀ e ∈ args, ReadsInside G depth R e)
    (hu : Clear u (Fragment.angles (commas (typeListLayout generics)) ++
      (parens (commas (exprListLayout depth args)) ++ f))) :
    ∃ span generics' args' u',
      (suffixStep G start callee).run u = (.ok (some (.call span callee (some generics') args')), u') ∧
      Same (typeListMapSpans noSpan) generics generics' ∧ List.Forall₂ R args args' ∧ Clear u' f := by
  have hk : u.peek.kind = .operator .lt := hu.fragments.peek (by simp [Fragment.angles])
  have hadj : u.isAdjacent = true := hu.fragments.isAdjacent (by simp [Fragment.angles]) (by simp [Fragment.angles])
  obtain ⟨generics', u₁, hrun, hsame, hc₁⟩ := shows_typeArgs hG hgen (.inl rfl) hu.faces
  obtain ⟨args', u', hrun', hR, hc⟩ := shows_arguments hg h hc₁.faces
  have hk₁ : u₁.peek.kind = .punctuation .lParen := ((arguments_ok hg).1 hrun').1
  exact ⟨_, generics', args', u', (suffixStep_some hg).2 (.inr (.inl ⟨hk, hadj, htake, generics', u₁, args',
    callTypeArgs_ok.2 ⟨hrun, hc₁.owed, hk₁⟩, hrun', rfl⟩)), hsame, hR, hc⟩

theorem shows_member (start : Nat) (object : Expr) {n : String} (hu : Faces u (mark .dot :: ofName n :: f)) :
    ∃ span u', (suffixStep G start object).run u = (.ok (some (.member span object n)), u') ∧ Clear u' f := by
  obtain ⟨hk, hc⟩ := hu.mark
  obtain ⟨hk₁, hc⟩ := hc.faces.name
  exact ⟨_, _, (suffixStep_some hg).2 (.inr (.inr (.inl ⟨hk, n, hk₁, rfl, rfl⟩))), hc⟩

theorem shows_subscript (start : Nat) (object : Expr) {index : Expr} (h : ReadsInside G depth R index)
    (hu : Faces u (mark .lBracket :: (index.layout depth true ++ mark .rBracket :: f))) :
    ∃ span index' u', (suffixStep G start object).run u = (.ok (some (.subscript span object index')), u') ∧
      R index index' ∧ Clear u' f := by
  obtain ⟨hk, hc⟩ := hu.mark
  obtain ⟨index', u₁, hrun, hR, hc₁⟩ := h.reads rfl (by simp) hc.faces
  obtain ⟨hk₁, hc₂⟩ := hc₁.faces.mark
  exact ⟨_, index', _, (suffixStep_some hg).2 (.inr (.inr (.inr ⟨hk, index', u₁, hrun, hk₁, rfl, rfl⟩))), hR, hc₂⟩

end

/-! ### Operators and casts -/

theorem unarySpace_cases (unary : UnaryOp) (e : Expr) : unarySpace unary e = [] ∨ unarySpace unary e = [space] := by
  unfold unarySpace
  split
  · split
    · exact .inr rfl
    · exact .inl rfl
  · exact .inl rfl

/-- The first token of fragments, where it opens an operand. -/
theorem opens_of_faces {c : List Fragment} {even : Bool}
    (h : ∃ k ks, tokens c = k :: ks ∧ opensOperand even k = true) (hu : Faces u (c ++ f)) :
    opensOperand even u.peek.kind = true := by
  obtain ⟨k, ks, hk, hopen⟩ := h
  have hgt : k ≠ .operator .gt := by
    rintro rfl
    simp [opensOperand] at hopen
  rwa [hu.peek (by rwa [next_append hk]), next_append hk]

section
variable {header : Bool} {c : List Fragment} {P : Expr → Prop} (hg : G.Settled)
include hg

/-- An operator before an operand that is printed as `c`. -/
theorem shows_prefixed (unary : UnaryOp) {sep : List Fragment} (hsep : sep = [] ∨ sep = [space])
    (hopen : ∃ k ks, tokens c = k :: ks ∧ opensOperand true k = true)
    (hread : ∀ {u : ParseState}, Faces u (c ++ f) → ∃ e u', (G.unary header).run u = (.ok e, u') ∧ P e ∧ Clear u' f)
    (hu : Faces u (Fragment.op unary.operator :: (sep ++ (c ++ f)))) :
    ∃ span e u', (unaryBody G header).run u = (.ok (.unary span unary e), u') ∧ P e ∧ Clear u' f := by
  obtain ⟨hk, hc⟩ := hu.op (by cases unary <;> decide)
  have hu₁ : Faces u.advance (c ++ f) := by
    rcases hsep with rfl | rfl
    · exact hc.faces
    · exact hc.space
  obtain ⟨e, u', hrun, hP, hc'⟩ := hread hu₁
  exact ⟨_, e, u', (unaryBody_ok hg).2 (.inl ⟨unary.operator, unary, e, hk, by cases unary <;> decide,
    opens_of_faces hopen hu₁, hrun, rfl⟩), hP, hc'⟩

/-- A cast of an operand that is printed as `c`. -/
theorem shows_cast (hG : G.type = typeExpr limit room) {type : TypeExpr} (ht : TypeWithin room type)
    (hopen : ∃ k ks, tokens c = k :: ks ∧ opensOperand (!type.isNamed) k = true)
    (hread : ∀ {u : ParseState}, Faces u (c ++ f) → ∃ e u', (G.unary header).run u = (.ok e, u') ∧ P e ∧ Clear u' f)
    (hu : Faces u (mark .lParen :: (type.layout ++ mark .rParen :: space :: (c ++ f)))) :
    ∃ span type' e u', (unaryBody G header).run u = (.ok (.cast span type' e), u') ∧ SameType type type' ∧ P e ∧
      Clear u' f := by
  obtain ⟨hk, hc⟩ := hu.mark
  obtain ⟨type', u₁, hrun, hsame, hc₁⟩ := shows_type hG ht rfl hc.faces
  obtain ⟨hk₁, hc₂⟩ := hc₁.faces.mark
  have hnamed : type'.isNamed = type.isNamed := by
    rw [← TypeExpr.isNamed_mapSpans noSpan type', ← hsame, TypeExpr.isNamed_mapSpans]
  have hopen' := opens_of_faces hopen hc₂.space
  rw [← hnamed] at hopen'
  obtain ⟨e, u', hrun', hP, hc'⟩ := hread hc₂.space
  have hcast := (cast?_some hg).2 ⟨type', _, e, castType_ok.2 ⟨u₁, hrun, hk₁, rfl⟩, hopen', hrun', rfl⟩
  exact ⟨_, type', e, u', (unaryBody_ok hg).2 (.inr (.inr (.inl ⟨hk, hcast⟩))), hsame, hP, hc'⟩

omit hg in
/-- An operator and an operand that is printed as `c`, behind an operand that has been read. -/
theorem shows_chainStep (level : Nat) {op : Operator} {sep : List Fragment} (left : Expr) (hfix : op.fixity = .between)
    (hle : level ≤ op.precedence)
    (hsep : sep = [space, Fragment.op op, space] ∨ sep = [Fragment.op op] ∧ ¬ op = .gt)
    (hopen : ∃ k ks, tokens c = k :: ks ∧ opensOperand true k = true)
    (hread : ∀ {u : ParseState}, Faces u (c ++ f) → ∃ e u',
      (G.chain header (rightLevel op.precedence op.associativity)).run u = (.ok e, u') ∧ P e ∧ Clear u' f)
    (hu : Clear u (sep ++ (c ++ f))) :
    ∃ right e u', (chainStep G header level left).run u = (.ok (some e), u') ∧ joined? op left right = some e ∧
      P right ∧ Clear u' f := by
  obtain ⟨hk, hu₁⟩ : u.peek.kind = .operator op ∧ Faces u.advance (c ++ f) := by
    rcases hsep with rfl | ⟨rfl, hgt⟩
    · obtain ⟨hk, hc⟩ := Clear.between hu
      exact ⟨hk, hc.space⟩
    · obtain ⟨hk, hc⟩ := Faces.op hu.faces hgt
      exact ⟨hk, hc.faces⟩
  obtain ⟨right, u', hrun, hP, hc⟩ := hread hu₁
  obtain ⟨e, he⟩ := Option.isSome_iff_exists.1 (joined?_isSome hfix left right)
  exact ⟨right, e, u', chainStep_some.2 ⟨op, right, hk, hfix, hle, opens_of_faces hopen hu₁, hrun, he⟩, he, hP, hc⟩

omit hg in
/-- The parts of a conditional behind its condition, the alternative printed as `c`. -/
theorem shows_conditional {condition : Expr} {u₁ : ParseState} {chosen : Option Expr}
    (hcondition : (chainBody G header 1).run u = (.ok condition, u₁))
    (hc : Clear u₁ (space :: mark .question :: space :: ((match chosen with
      | none => []
      | some e => e.layout depth true ++ [space]) ++ mark .colon :: space :: (c ++ f))))
    (hchosen : ∀ e ∈ chosen, (∃ k ks, tokens (e.layout depth true) = k :: ks ∧ opensOperand true k = true) ∧
      ∀ {u : ParseState} {f : List Fragment}, next f = .punctuation .colon → Faces u (e.layout depth true ++ f) →
        ∃ e' u', (G.expression header).run u = (.ok e', u') ∧ R e e' ∧ Clear u' f)
    (hread : ∀ {u : ParseState}, Faces u (c ++ f) →
      ∃ e u', (G.expression header).run u = (.ok e, u') ∧ P e ∧ Clear u' f) :
    ∃ span chosen' alternative u',
      (expressionBody G header).run u = (.ok (.conditional span condition chosen' alternative), u') ∧
      OptionRel R chosen chosen' ∧ P alternative ∧ Clear u' f := by
  obtain ⟨hk, hc⟩ := hc.space.mark
  have hconsequence : ∃ chosen' u₂, (consequence G header).run u₁.advance = (.ok chosen', u₂) ∧
      OptionRel R chosen chosen' ∧ Faces u₂ (mark .colon :: space :: (c ++ f)) := by
    cases chosen with
    | none =>
      simp only [List.nil_append] at hc
      exact ⟨none, _, consequence_ok.2 (.inl ⟨hc.space.mark.1, rfl, rfl⟩), trivial, hc.space⟩
    | some e =>
      simp only [List.append_assoc, List.cons_append, List.nil_append] at hc
      obtain ⟨hopen, hread⟩ := hchosen e rfl
      obtain ⟨e', u₂, hrun, hR, hc₁⟩ := hread (f := space :: mark .colon :: space :: (c ++ f)) rfl hc.space
      have hcolon : u₁.advance.peek.kind ≠ .punctuation .colon := by
        intro hk
        have := opens_of_faces hopen hc.space
        simp [hk, opensOperand] at this
      exact ⟨some e', u₂, consequence_ok.2 (.inr ⟨hcolon, e', rfl, hrun⟩), hR, hc₁.space⟩
  obtain ⟨chosen', u₂, hrun, hR, hu₂⟩ := hconsequence
  obtain ⟨hk₁, hc₁⟩ := hu₂.mark
  obtain ⟨alternative, u', hrun', hP, hc'⟩ := hread hc₁.space
  exact ⟨_, chosen', alternative, u', expressionBody_ok.2 ⟨condition, u₁, hcondition, .inr ⟨hk, chosen', u₂,
    alternative, hrun, hk₁, hrun', rfl⟩⟩, hR, hP, hc'⟩

end

end Parser

end ElleFrontEnd
