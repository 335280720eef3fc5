import ElleFrontEnd.Proofs.ReadBack

/-!
# Primary expressions are read back

One lemma for each construct that needs no parentheses anywhere: literals, names, struct literals, arrays, and the forms
of `#` and `$`.  Such a tree, built by hand, is read back if its parts are.
-/

namespace ElleFrontEnd

open Fragment ElleFrontEnd.Parser

/-! ### Trees but for their nodes for parentheses -/

theorem Expr.Regrouped.list {es es' : List Expr} (h : List.Forall₂ Expr.Regrouped es es') :
    exprListMapSpans noSpan es = exprListMapSpans noSpan (exprListUngrouped es') := by
  refine exprListMapSpans_eq ?_
  induction h with
  | nil => exact .nil
  | cons h _ ih => exact .cons h ih

theorem Expr.Regrouped.fields {fs fs' : List FieldInit} (h : List.Forall₂ (FieldRel Expr.Regrouped) fs fs') :
    fieldInitListMapSpans noSpan fs = fieldInitListMapSpans noSpan (fieldInitListUngrouped fs') := by
  refine fieldInitListMapSpans_eq ?_
  induction h with
  | nil => exact .nil
  | cons h _ ih =>
    obtain ⟨span, span', n, h⟩ := h
    exact .cons (FieldRel.mk span span' n (R := SameExpr) h).same ih

theorem Expr.Regrouped.option {c c' : Option Expr} (h : OptionRel Expr.Regrouped c c') :
    OptionRel SameExpr c (optExprUngrouped c') := by
  rcases optionRel_iff.1 h with ⟨rfl, rfl⟩ | ⟨e, e', rfl, rfl, he⟩
  · trivial
  · exact he

theorem Expr.Regrouped.directive {d d' : Directive} (h : DirectiveRel Expr.Regrouped d d') :
    Same (Directive.mapSpans noSpan) d d'.ungrouped := by
  refine DirectiveRel.same ?_
  cases h with
  | len h => exact .len h
  | size h => exact .size h
  | ident n => exact .ident n
  | env => exact .env
  | alloc h hc => exact .alloc h (Expr.Regrouped.option hc)
  | realloc h ht hc => exact .realloc h ht (Expr.Regrouped.option hc)
  | free h => exact .free h
  | setAllocator h => exact .setAllocator h
  | resetAllocator => exact .resetAllocator

/-! ### Parts of constructs -/

theorem trailingLevel_le : trailingLevel ≤ primaryLevel := by decide

/-- Whether the value of a field is read back. -/
def FieldInit.ReadBack (o : ParseOptions) : FieldInit → Prop
  | .mk _ _ value => value.ReadBack o

/-- Whether the operands of a directive are read back. -/
def Directive.ReadBack (o : ParseOptions) : Directive → Prop
  | .len e | .free e | .setAllocator e => e.ReadBack o
  | .size _ | .ident _ | .env | .resetAllocator => True
  | .alloc _ count => ∀ e ∈ count, e.ReadBack o
  | .realloc pointer _ count => pointer.ReadBack o ∧ ∀ e ∈ count, e.ReadBack o

section
variable {o : ParseOptions} {room : Nat}

theorem inside_list {es : List Expr} (h : ∀ e ∈ es, e.ReadBack o) (hc : exprListCastless es)
    (hroom : 2 * exprListHeight 1 es ≤ room) : ∀ e ∈ es, ReadsInside (.ofRoom o (room + 1)) 0 Expr.Regrouped e := by
  induction es with
  | nil => simp
  | cons e es ih =>
    simp only [exprListHeight] at hroom
    obtain ⟨h, hes⟩ := List.forall_mem_cons.1 h
    exact List.forall_mem_cons.2 ⟨h.inside (by omega) hc.1, ih hes hc.2 (by omega)⟩

theorem inside_option {count : Option Expr} (h : ∀ e ∈ count, e.ReadBack o) (hc : optExprCastless count)
    (hroom : 2 * optExprHeight 1 count ≤ room) :
    ∀ e ∈ count, ReadsInside (.ofRoom o (room + 1)) 0 Expr.Regrouped e := by
  rintro e rfl
  exact (h e rfl).inside hroom hc

theorem items_fields {fs : List FieldInit} (h : ∀ i ∈ fs, i.ReadBack o) (hc : fieldInitListCastless fs)
    (hroom : 2 * fieldInitListHeight 1 fs ≤ room) :
    ∀ i ∈ fs, RereadsItem .rBrace (fieldInit (.ofRoom o (room + 1))) (FieldInit.layout 0) (FieldRel Expr.Regrouped)
      i := by
  induction fs with
  | nil => simp
  | cons i fs ih =>
    obtain ⟨span, n, value⟩ := i
    simp only [fieldInitListHeight, FieldInit.height] at hroom
    obtain ⟨h, hfs⟩ := List.forall_mem_cons.1 h
    have hvalue : value.ReadBack o := h
    exact List.forall_mem_cons.2 ⟨(hvalue.inside (by omega) hc.1).field span n, ih hfs hc.2 (by omega)⟩

theorem typeWithin {t : TypeExpr} (hw : t.WellFormed) (h : t.height 1 ≤ room) : TypeWithin room t :=
  ⟨hw, Nat.le_trans t.height_zero_le h⟩

theorem argsWithin {generics : Option (List TypeExpr)} (hl : genericsLawful generics)
    (h : optHeight (typeListHeight 1) generics ≤ room) : ∀ args ∈ generics, ArgsWithin room args := by
  rintro args rfl
  exact ⟨(hl args rfl).1, (hl args rfl).2, Nat.le_trans (typeListHeight_zero_le args) h⟩

theorem Directive.ReadBack.operandsInside {d : Directive} (h : d.ReadBack o) (hl : d.Lawful) (hc : d.Castless)
    (hroom : 2 * d.height 1 ≤ room) : OperandsInside (.ofRoom o (room + 1)) (room + 1) 0 Expr.Regrouped d := by
  cases d with
  | len e | free e | setAllocator e => exact Expr.ReadBack.inside h hroom hc
  | size type => exact typeWithin hl (by simp only [height] at hroom; omega)
  | ident | env | resetAllocator => trivial
  | alloc type count =>
    simp only [height] at hroom
    exact ⟨typeWithin hl.1 (by omega), inside_option h hc (by omega)⟩
  | realloc pointer type count =>
    simp only [height] at hroom
    exact ⟨h.1.inside (by omega) hc.1, typeWithin hl.2.1 (by omega), inside_option h.2 hc.2 (by omega)⟩

end

namespace Expr.ReadBack

variable {o : ParseOptions}

/-! ### Literals and names -/

theorem of_literal {span : Span} {k : TokenKind} {e : Expr} (h : literalOf? span k = some e) : e.ReadBack o := by
  have hliteral {span : Span} {e : Expr} (h : literalOf? span k = some e) : e.HandBuilt ∧ e.Lawful ∧
      trailingLevel ≤ e.level ∧ e.takesGenerics = false ∧ e.ungrouped = e ∧ k ≠ .punctuation .lParen ∧
      ∀ op, k ≠ .operator op := by
    unfold literalOf? at h
    split at h <;> cases h <;> exact ⟨trivial, trivial, trailingLevel_le, rfl, rfl, by simp, by simp⟩
  obtain ⟨hb, hl, hlevel, htake, -, hparen, hop⟩ := hliteral h
  obtain ⟨hlayout, hgt, heof, hother⟩ := literalOf?_layout h
  refine of_suffixed hb hl hlevel fun {room u f} _ _ hu => ?_
  rw [hlayout] at hu
  obtain ⟨hk, hc⟩ := Faces.token hu hgt heof
  obtain ⟨e', he', hsame⟩ := hother (u.advance.spanFrom u.peek.span.start)
  obtain ⟨-, -, -, -, hungrouped, -⟩ := hliteral he'
  refine .of_primary (hk ▸ hparen) (hk ▸ hop) ⟨e', _, primary_ok.2 (.inl ⟨by rwa [hk], rfl⟩), ⟨?_, by simp [htake]⟩, hc⟩
  rwa [Regrouped, hungrouped]

theorem of_ident (span : Span) (n : String) : (Expr.ident span n).ReadBack o := by
  refine of_suffixed trivial trivial trailingLevel_le fun {room u f} _ hf hu => ?_
  rw [Expr.layout] at hu
  obtain ⟨hk, hc⟩ := Faces.name hu
  have hcolons : u.advance.peek.kind ≠ .punctuation .colonColon :=
    hc.fragments.peek_of_loose hc.owed hf.loose ▸ hf.colons
  have hbody := shows_noBody (settled_ofRoom o room) (Inner.ofRoom_type o room) hc hf.loose hf.brace hf.lt
  have hrun : (nameExpr (.ofRoom o room) false).run u = (.ok (.ident _ n), u.advance) :=
    (nameExpr_ok (settled_ofRoom o room)).2 ⟨n, hk, .inr (.inr ⟨hcolons, .inr hbody, rfl, rfl⟩)⟩
  exact .of_primary (by simp [hk]) (by simp [hk])
    ⟨_, _, primary_ok.2 (.inr (.inr (.inl ⟨⟨n, hk⟩, hrun⟩))), ⟨rfl, fun _ => rfl⟩, hc⟩

theorem of_qualified (span : Span) {path : List String} (hpath : 2 ≤ path.length) :
    (Expr.qualified span path).ReadBack o := by
  refine of_suffixed trivial hpath trailingLevel_le fun {room u f} _ hf hu => ?_
  obtain ⟨n, m, names, rfl⟩ := exists_segments hpath
  rw [Expr.layout, separated_names, List.cons_append] at hu
  obtain ⟨hk, hc⟩ := hu.name
  obtain ⟨u', htail, hc'⟩ := rereads_pathTail hc hf.colons
  have hcolons : u.advance.peek.kind = .punctuation .colonColon := by
    simp only [List.flatMap_cons, List.cons_append] at hc
    exact hc.faces.mark.1
  have hrun : (nameExpr (.ofRoom o room) false).run u = (.ok (.qualified _ (n :: m :: names)), u') :=
    (nameExpr_ok (settled_ofRoom o room)).2 ⟨n, hk, .inl ⟨hcolons, _, htail, rfl⟩⟩
  exact .of_primary (by simp [hk]) (by simp [hk])
    ⟨_, u', primary_ok.2 (.inr (.inr (.inl ⟨⟨n, hk⟩, hrun⟩))), ⟨rfl, fun _ => rfl⟩, hc'⟩

theorem of_structLit {span : Span} {n : String} {generics : Option (List TypeExpr)} {fields : List FieldInit}
    (hb : (Expr.structLit span n generics fields).HandBuilt) (hl : (Expr.structLit span n generics fields).Lawful)
    (hfields : ∀ i ∈ fields, i.ReadBack o) : (Expr.structLit span n generics fields).ReadBack o := by
  refine of_suffixed hb hl trailingLevel_le fun {room u f} hs hf hu => ?_
  have hheight := hs.height_le
  simp only [Expr.height] at hheight
  obtain ⟨room, rfl⟩ : ∃ r, room = r + 1 := ⟨room - 1, by omega⟩
  have hg := settled_ofRoom o (room + 1)
  obtain ⟨rest, hlayout, -, hnext, hread⟩ := shows_structLit hg (Inner.ofRoom_type o _) u.peek.span.start span n
    (argsWithin hl.1 (by omega)) (items_fields hfields hs.castless (by omega))
  rw [hlayout, List.cons_append] at hu
  obtain ⟨hk, hc⟩ := hu.name
  obtain ⟨span', generics', fields', u', hrun, hsame, hrel, hc'⟩ := hread hc
  have hcolons : u.advance.peek.kind ≠ .punctuation .colonColon := fun hk => hnext f (hc.next_of_peek hk (by simp))
  have hname := (nameExpr_ok hg).2 ⟨n, hk, .inr (.inl ⟨hcolons, rfl, hrun⟩)⟩
  refine .of_primary (by simp [hk]) (by simp [hk])
    ⟨_, u', primary_ok.2 (.inr (.inr (.inl ⟨⟨n, hk⟩, hname⟩))), ⟨?_, by simp [takesGenerics]⟩, hc'⟩
  have hfields := Regrouped.fields hrel
  change Expr.structLit .zero n _ _ = Expr.structLit .zero n _ _
  rw [hsame, hfields]

/-! ### Arrays, and the forms of `#` and `$` -/

/-- The elements of an array do not begin with a type that has a semicolon behind it. -/
theorem no_elementType_of_heads {es : List Expr} {limit room : Nat} {u v : ParseState} {t : TypeExpr}
    {f : List Fragment} (h : ∀ e ∈ es, e.ReadBack o) (hroom : 2 * exprListHeight 1 es ≤ room)
    (hu : Faces u (commas (exprListLayout 0 es) ++ mark .rBracket :: f))
    (ht : (typeExpr limit room 0).run u = (.ok t, v)) : v.peek.kind ≠ .punctuation .semicolon := by
  intro hk
  cases es with
  | nil =>
    have := typeExpr_opens ht
    rw [exprListLayout, commas_nil, List.nil_append] at hu
    simp [hu.mark.1, opensType] at this
  | cons e es =>
    have he := h e List.mem_cons_self
    simp only [exprListHeight] at hroom
    obtain ⟨rest, hrest, hnext⟩ := commas_append (e.layout 0 true) (exprListLayout 0 es) .rBracket f
    rw [exprListLayout, hrest] at hu
    have hend := e.untypedHead 0 he.handBuilt he.lawful true rest limit room 0 u v t (by omega)
      (fun _ _ ht => by rcases hnext with h | h <;> simp [touchesWith, h] at ht) hu ht
    obtain ⟨_, _, -, -, -, ⟨ms, hms⟩, -⟩ := hend.divided (e.heads 0 he.handBuilt he.lawful true [])
      (by simp [hk, divides])
    rw [hk] at hms
    rcases hnext with h | h <;> rw [tokens_of_next h (by simp)] at hms <;> simp [skim] at hms

theorem of_array {span : Span} {element : Option TypeExpr} {isStatic : Bool} {elements : List Expr}
    (hb : (Expr.array span element isStatic elements).HandBuilt)
    (hl : (Expr.array span element isStatic elements).Lawful) (helements : ∀ e ∈ elements, e.ReadBack o) :
    (Expr.array span element isStatic elements).ReadBack o := by
  refine of_suffixed hb hl trailingLevel_le fun {room u f} hs hf hu => ?_
  have hheight := hs.height_le
  simp only [Expr.height] at hheight
  obtain ⟨room, rfl⟩ : ∃ r, room = r + 1 := ⟨room - 1, by omega⟩
  have hg := settled_ofRoom o (room + 1)
  have helement : ∀ t ∈ element, TypeWithin (room + 1) t := by
    rintro t rfl
    exact typeWithin (hl.1 t rfl) (by simp only [optHeight] at hheight; omega)
  obtain ⟨rest, hlayout, hread⟩ := shows_arrayLiteral hg (Inner.ofRoom_type o _) u.peek.span.start span isStatic
    helement (inside_list helements hs.castless (by omega))
    fun _ {_ _ _ _} hu ht => no_elementType_of_heads helements (by omega) hu (Inner.ofRoom_type o (room + 1) ▸ ht)
  have hsame {span' : Span} {element' : Option TypeExpr} {elements' : List Expr}
      (helement : Same (Option.map (TypeExpr.mapSpans noSpan)) element element')
      (helements : List.Forall₂ Regrouped elements elements') :
      (Expr.array span element isStatic elements).Recalled (.array span' element' isStatic elements') := by
    have helements := Regrouped.list helements
    refine ⟨?_, by simp [takesGenerics]⟩
    change Expr.array .zero _ isStatic _ = Expr.array .zero _ isStatic _
    rw [helement, helements]
  rw [hlayout] at hu
  cases isStatic with
  | false =>
    obtain ⟨span', element', elements', u', hrun, ht, hes, hc⟩ := hread (by simpa using hu)
    have hk : u.peek.kind = .punctuation .lBracket := ((arrayLiteral_ok hg).1 hrun).1
    exact .of_primary (by simp [hk]) (by simp [hk])
      ⟨_, u', primary_ok.2 (.inr (.inr (.inr (.inr (.inl ⟨hk, hrun⟩))))), hsame ht hes, hc⟩
  | true =>
    rw [if_pos rfl, List.cons_append, List.cons_append, List.nil_append] at hu
    obtain ⟨hk, hc⟩ := hu.mark
    obtain ⟨span', element', elements', u', hrun, ht, hes, hc'⟩ := hread hc.faces
    have hhash := hashExpr_ok.2 ⟨hk, .inl ⟨hc.faces.mark.1, hrun⟩⟩
    exact .of_primary (by simp [hk]) (by simp [hk])
      ⟨_, u', primary_ok.2 (.inr (.inr (.inr (.inr (.inr (.inl ⟨hk, hhash⟩)))))), hsame ht hes, hc'⟩

theorem of_directive {span : Span} {d : Directive} (hb : (Expr.directive span d).HandBuilt)
    (hl : (Expr.directive span d).Lawful) (h : d.ReadBack o) : (Expr.directive span d).ReadBack o := by
  refine of_suffixed hb hl trailingLevel_le fun {room u f} hs hf hu => ?_
  have hheight := hs.height_le
  simp only [Expr.height] at hheight
  obtain ⟨room, rfl⟩ : ∃ r, room = r + 1 := ⟨room - 1, by omega⟩
  have henv : d.name = .env → next f ≠ .punctuation .lParen := by
    intro hn
    refine hf.env ?_
    cases d <;> first | rfl | simp [Directive.name] at hn
  rw [Expr.layout] at hu
  have hinside : OperandsInside (.ofRoom o (room + 1)) (room + 1) 0 Regrouped d :=
    h.operandsInside hl hs.castless (by omega)
  obtain ⟨span', d', u', hrun, hrel, hc⟩ := shows_directive (Inner.ofRoom_type o _) hinside henv hu
  have hk := (hashExpr_ok.1 hrun).1
  exact .of_primary (by simp [hk]) (by simp [hk])
    ⟨_, u', primary_ok.2 (.inr (.inr (.inr (.inr (.inr (.inl ⟨hk, hrun⟩)))))),
      ⟨congrArg (Expr.directive .zero) (Regrouped.directive hrel), by simp [takesGenerics]⟩, hc⟩

/-- What is read of a form of `$` is a primary expression. -/
theorem suffixed_of_dollar {e e' : Expr} {G : Inner} {u u' : ParseState} {f : List Fragment}
    (hrun : (dollarExpr G).run u = (.ok e', u')) (he : e.Regrouped e') (htake : e.takesGenerics = false)
    (hc : Clear u' f) : ReadsSuffixed G e.Recalled u f := by
  have hk := (dollarExpr_ok.1 hrun).1
  exact .of_primary (by simp [hk]) (by simp [hk])
    ⟨_, u', primary_ok.2 (.inr (.inr (.inr (.inr (.inr (.inr ⟨hk, hrun⟩)))))), ⟨he, by simp [htake]⟩, hc⟩

theorem of_tuple {span : Span} {a b : Expr} (ha : a.ReadBack o) (hb : b.ReadBack o) :
    (Expr.tuple span a b).ReadBack o := by
  refine of_suffixed ⟨ha.handBuilt, hb.handBuilt⟩ ⟨ha.lawful, hb.lawful⟩ trailingLevel_le
    fun {room u f} hs hf hu => ?_
  have hheight := hs.height_le
  simp only [Expr.height] at hheight
  obtain ⟨room, rfl⟩ : ∃ r, room = r + 1 := ⟨room - 1, by omega⟩
  have hinside : ∀ e ∈ [a, b], ReadsInside (.ofRoom o (room + 1)) 0 Regrouped e :=
    inside_list (by simp [ha, hb]) ⟨hs.castless.1, hs.castless.2, trivial⟩ (by simp only [exprListHeight]; omega)
  have hlayout : (Expr.tuple span a b).layout 0 true ++ f =
      mark .dollar :: (parens (commas (exprListLayout 0 [a, b])) ++ f) := by
    simp [Expr.layout, exprListLayout]
  rw [hlayout] at hu
  obtain ⟨span', a', b', u', hrun, hsa, hsb, hc⟩ := shows_tuple (settled_ofRoom o (room + 1)) hinside hu
  exact suffixed_of_dollar hrun (congrArg₂ (Expr.tuple .zero) hsa hsb) rfl hc

theorem of_triple {span : Span} {a b c : Expr} (ha : a.ReadBack o) (hb : b.ReadBack o) (hc : c.ReadBack o) :
    (Expr.triple span a b c).ReadBack o := by
  refine of_suffixed ⟨ha.handBuilt, hb.handBuilt, hc.handBuilt⟩ ⟨ha.lawful, hb.lawful, hc.lawful⟩ trailingLevel_le
    fun {room u f} hs hf hu => ?_
  have hheight := hs.height_le
  simp only [Expr.height] at hheight
  obtain ⟨room, rfl⟩ : ∃ r, room = r + 1 := ⟨room - 1, by omega⟩
  have hinside : ∀ e ∈ [a, b, c], ReadsInside (.ofRoom o (room + 1)) 0 Regrouped e :=
    inside_list (by simp [ha, hb, hc]) ⟨hs.castless.1, hs.castless.2.1, hs.castless.2.2, trivial⟩
      (by simp only [exprListHeight]; omega)
  have hlayout : (Expr.triple span a b c).layout 0 true ++ f =
      mark .dollar :: mark .dollar :: (parens (commas (exprListLayout 0 [a, b, c])) ++ f) := by
    simp [Expr.layout, exprListLayout]
  rw [hlayout] at hu
  obtain ⟨span', a', b', c', u', hrun, hsa, hsb, hsc, hc⟩ := shows_triple (settled_ofRoom o (room + 1)) hinside hu
  refine suffixed_of_dollar hrun ?_ rfl hc
  change Expr.triple .zero _ _ _ = Expr.triple .zero _ _ _
  have hsa : a.mapSpans noSpan = a'.ungrouped.mapSpans noSpan := hsa
  have hsb : b.mapSpans noSpan = b'.ungrouped.mapSpans noSpan := hsb
  have hsc : c.mapSpans noSpan = c'.ungrouped.mapSpans noSpan := hsc
  rw [hsa, hsb, hsc]

theorem of_sigil {span : Span} {n : String} {args : List Expr} (hb : exprListHandBuilt args)
    (hl : exprListLawful args) (h : ∀ e ∈ args, e.ReadBack o) : (Expr.sigil span n (some args)).ReadBack o := by
  refine of_suffixed hb hl trailingLevel_le fun {room u f} hs hf hu => ?_
  have hheight := hs.height_le
  simp only [Expr.height, optExprListHeight] at hheight
  obtain ⟨room, rfl⟩ : ∃ r, room = r + 1 := ⟨room - 1, by omega⟩
  rw [Expr.layout, List.append_assoc] at hu
  obtain ⟨span', args', u', hrun, hrel, hc⟩ :=
    shows_sigil (settled_ofRoom o (room + 1)) (inside_list h hs.castless (by omega)) hu
  exact suffixed_of_dollar hrun (congrArg (fun es => Expr.sigil .zero n (some es)) (Regrouped.list hrel)) rfl hc

theorem of_sigilAlone (span : Span) (n : String) : (Expr.sigil span n none).ReadBack o := by
  refine of_suffixed trivial trivial trailingLevel_le fun {room u f} _ hf hu => ?_
  rw [Expr.layout, List.cons_append, List.cons_append, List.nil_append] at hu
  obtain ⟨span', u', hrun, hc⟩ := shows_sigilAlone hf.loose (hf.sigil ⟨_, _, rfl⟩) hu
  exact suffixed_of_dollar hrun rfl rfl hc

end Expr.ReadBack

end ElleFrontEnd
