import ElleFrontEnd.Proofs.ShowsExpr

/-!
# Expressions that are read again

One lemma for each parser of the expression grammar: what it read from a source is read again from its printed form.
-/

namespace ElleFrontEnd

open Fragment

theorem FieldRel.same {f f' : FieldInit} (h : FieldRel SameExpr f f') : SameField f f' := by
  obtain ⟨span, span', n, h⟩ := h
  change [FieldInit.mk .zero n _] = [FieldInit.mk .zero n _]
  rw [h]

theorem DirectiveRel.same {x x' : Directive} (h : DirectiveRel SameExpr x x') :
    Same (Directive.mapSpans noSpan) x x' := by
  have hcount {c c' : Option Expr} (h : OptionRel SameExpr c c') :
      c = none ∧ c' = none ∨ ∃ e e', c = some e ∧ c' = some e' ∧ e.mapSpans noSpan = e'.mapSpans noSpan :=
    optionRel_iff.1 h
  cases h with
  | len h => exact congrArg Directive.len h
  | size h => exact congrArg Directive.size h
  | ident _ | env | resetAllocator => rfl
  | alloc h hc =>
    rcases hcount hc with ⟨rfl, rfl⟩ | ⟨e, e', rfl, rfl, he⟩
    · exact congrArg (Directive.alloc · none) h
    · exact congrArg₂ (fun t c => Directive.alloc t (some c)) h he
  | realloc h ht hc =>
    rcases hcount hc with ⟨rfl, rfl⟩ | ⟨e, e', rfl, rfl, he⟩
    · exact congrArg₂ (Directive.realloc · · none) h ht
    · change Directive.realloc _ _ (some _) = Directive.realloc _ _ (some _)
      rw [h, ht, he]
  | free h => exact congrArg Directive.free h
  | setAllocator h => exact congrArg Directive.setAllocator h

theorem exprListMapSpans_eq {es es' : List Expr} (h : List.Forall₂ SameExpr es es') :
    exprListMapSpans noSpan es = exprListMapSpans noSpan es' := by
  rw [exprListMapSpans_eq_map, exprListMapSpans_eq_map, map_eq_of_same h]

namespace Parser

variable {s s' u : ParseState} {g G : Inner} {header : Bool} {limit room limit' room' : Nat} {f : List Fragment}
  (hr : g.Replayed G limit room limit' room')

/-! ### Parameter lists -/

/-- A type behind which a name stands. -/
theorem rereads_typeAndName (hr : g.Replayed G limit room limit' room') {t : TypeExpr} {n : String}
    (h : (g.type 0).run s = (.ok t, s')) (hu : Faces u (t.layout ++ space :: ofName n :: f)) :
    ∃ t' u', (G.type 0).run u = (.ok t', u') ∧ u'.peek.kind = .ident n ∧ SameType t t' ∧ Clear u'.advance f := by
  obtain ⟨t', u', hrun, hsame, hc⟩ := rereads_type hr h rfl hu
  obtain ⟨hk, hc⟩ := hc.space.name
  exact ⟨t', u', hrun, hk, hsame, hc⟩

/-- Parameters that differ in their spans only. -/
abbrev SameParam : Param → Param → Prop := Same (Param.mapSpans noSpan)

include hr

/-- A printed parameter is read again. -/
theorem rereadsItem_param {p : Param} (h : (param g).run s = (.ok p, s')) :
    RereadsItem .rParen (param G) Param.layout SameParam p := by
  have hopen {k : TokenKind} (hk : opensType k = true) :
      k ≠ .punctuation .rParen ∧ k ≠ .eof ∧ k ≠ .operator .gt ∧ k ≠ .punctuation .ellipsis ∧
        k ≠ .punctuation .atSign := by
    refine ⟨?_, ?_, ?_, ?_, ?_⟩ <;> rintro rfl <;> simp [opensType] at hk
  have hnot {f : List Fragment} {u : ParseState}
      (hf : next f = .punctuation .comma ∨ next f = .punctuation .rParen) (hc : Clear u f) :
        u.peek.kind.ident? = none := by
    have hg : next f ≠ .operator .gt := by rcases hf with hf | hf <;> simp [hf]
    rw [hc.fragments.peek hg]
    rcases hf with hf | hf <;> rw [hf] <;> rfl
  rcases param_ok.1 h with ⟨-, ⟨n, -, -, rfl⟩ | ⟨-, -, rfl⟩⟩ | ⟨-, -, type, s₁, n, ht, -, -, rfl⟩ |
    ⟨-, -, type, s₁, ht, ⟨n, -, -, rfl⟩ | ⟨-, -, rfl⟩⟩
  · refine ⟨⟨_, _, rfl, by simp, by simp, by simp⟩, fun hf hu => ?_⟩
    obtain ⟨hk, hc⟩ := Faces.mark hu
    obtain ⟨hk₁, hc⟩ := hc.faces.name
    exact ⟨_, _, param_ok.2 (.inl ⟨hk, .inl ⟨n, hk₁, rfl, rfl⟩⟩), rfl, hc⟩
  · refine ⟨⟨_, _, rfl, by simp, by simp, by simp⟩, fun hf hu => ?_⟩
    obtain ⟨hk, hc⟩ := Faces.mark hu
    exact ⟨_, _, param_ok.2 (.inl ⟨hk, .inr ⟨hnot hf hc, rfl, rfl⟩⟩), rfl, hc⟩
  · refine ⟨⟨_, _, rfl, by simp, by simp, by simp⟩, fun hf hu => ?_⟩
    simp only [Param.layout, List.cons_append, List.nil_append, List.append_assoc] at hu
    have hk₁ := hu.kindAt_one (by simp) (by simp) (by simp)
    obtain ⟨hk, hc⟩ := hu.mark
    obtain ⟨-, hc⟩ := hc.faces.name
    obtain ⟨t', u', hrun, hn, hsame, hc⟩ := rereads_typeAndName hr ht hc.space
    exact ⟨_, _, param_ok.2 (.inr (.inl ⟨hk, hk₁, t', u', n, hrun, hn, rfl, rfl⟩)),
      congrArg (Param.noFormat .zero · n) hsame, hc⟩
  · obtain ⟨k, f', hf', hk, -⟩ := type.layout_second
    refine ⟨⟨k, _, by simp only [Param.layout, hf']; rfl, (hopen hk).1, (hopen hk).2.1, (hopen hk).2.2.1⟩,
      fun hf hu => ?_⟩
    simp only [Param.layout, List.cons_append, List.nil_append, List.append_assoc] at hu
    obtain ⟨hp, -⟩ := TypeExpr.peek_of_faces hu
    obtain ⟨t', u', hrun, hn, hsame, hc⟩ := rereads_typeAndName hr ht hu
    exact ⟨_, _, param_ok.2 (.inr (.inr ⟨(hopen hp).2.2.2.1, fun h => (hopen hp).2.2.2.2 h.1, t', u', hrun,
      .inl ⟨n, hn, rfl, rfl⟩⟩)), congrArg (Param.named .zero · n) hsame, hc⟩
  · obtain ⟨k, f', hf', hk, -⟩ := type.layout_second
    refine ⟨⟨k, _, by simp only [Param.layout, hf']; rfl, (hopen hk).1, (hopen hk).2.1, (hopen hk).2.2.1⟩,
      fun hf hu => ?_⟩
    rw [Param.layout] at hu
    obtain ⟨t', u', hrun, hsame, hc⟩ := rereads_type hr ht (by rcases hf with hf | hf <;> rw [hf] <;> rfl) hu
    have hp := hrun
    rw [hr.type'] at hp
    have hp := typeExpr_opens hp
    exact ⟨_, _, param_ok.2 (.inr (.inr ⟨(hopen hp).2.2.2.1, fun h => (hopen hp).2.2.2.2 h.1, t', u', hrun,
      .inr ⟨hnot hf hc, rfl, rfl⟩⟩)), congrArg (Param.unnamed .zero) hsame, hc⟩

/-- A parameter list without a meta binding is not printed with one. -/
theorem not_meta {params : List Param} (hl : CommaListed .rParen (param g) s params s')
    (hm : ¬ (s.peek.kind = .ident metaMarker ∧ (s.kindAt 1).ident?.isSome = true))
    (hu : Faces u (commas (params.map Param.layout) ++ mark .rParen :: f)) :
    ¬ (u.peek.kind = .ident metaMarker ∧ (u.kindAt 1).ident?.isSome = true) := by
  rintro ⟨hk, hk₁⟩
  cases params with
  | nil =>
    simp only [List.map_nil, commas_nil, List.nil_append] at hu
    simp [hu.mark.1] at hk
  | cons p ps =>
    have hp : ∃ s₁, (param g).run s = (.ok p, s₁) := by
      cases hl with
      | last _ h _ | more _ h _ _ => exact ⟨_, h⟩
    obtain ⟨s₁, hp⟩ := hp
    obtain ⟨rest, hrest, hnext⟩ := commas_append p.layout (ps.map Param.layout) .rParen f
    rw [List.map_cons, hrest] at hu
    have hbare {n : String} {f : List Fragment} (hu : Faces u (ofName n :: f))
        (hf : next f = .punctuation .comma ∨ next f = .punctuation .rParen ∨ next f = .operator .star ∨
          next f = .punctuation .lBracket ∨ next f = .operator .lt) : False := by
      have h := hu.kindAt_one (by simp) (by simp) (by rcases hf with hf | hf | hf | hf | hf <;> simp [hf])
      rw [after_token] at h
      rw [h] at hk₁
      rcases hf with hf | hf | hf | hf | hf <;> rw [hf] at hk₁ <;> simp [TokenKind.ident?] at hk₁
    have htype {type : TypeExpr} {s₁ : ParseState} {f : List Fragment} (ht : (g.type 0).run s = (.ok type, s₁))
        (hu : Faces u (type.layout ++ f))
        (hf : next f = .punctuation .comma ∨ next f = .punctuation .rParen ∨ s₁.peek.kind.ident?.isSome = true) :
        False := by
      obtain ⟨k, f', hl, hopen, hsecond⟩ := type.layout_second
      rw [hl] at hu
      obtain rfl : k = .ident metaMarker := by
        rw [← hk]
        refine ((hu.token ?_ ?_).1).symm <;> rintro rfl <;> simp [opensType] at hopen
      rcases hsecond with h | rfl | ⟨k', f'', rfl, h⟩
      · simp at h
      · rcases hf with hf | hf | hf
        · exact hbare hu (.inl (by simpa using hf))
        · exact hbare hu (.inr (.inl (by simpa using hf)))
        · rw [hr.leading.type] at ht
          obtain ⟨hs, rfl⟩ := typeExpr_of_name ht hl
          refine hm ⟨hs, ?_⟩
          rwa [ParseState.kindAt_one (by simp [hs])]
      · rcases h with rfl | rfl | rfl
        · exact hbare hu (.inr (.inr (.inl rfl)))
        · exact hbare hu (.inr (.inr (.inr (.inl rfl))))
        · exact hbare hu (.inr (.inr (.inr (.inr rfl))))
    rcases param_ok.1 hp with ⟨-, ⟨n, -, -, rfl⟩ | ⟨-, -, rfl⟩⟩ | ⟨-, -, type, s₁, n, ht, -, -, rfl⟩ |
      ⟨-, -, type, s₁, ht, ⟨n, hn, -, rfl⟩ | ⟨-, -, rfl⟩⟩
    · simp [(Faces.mark hu).1] at hk
    · simp [(Faces.mark hu).1] at hk
    · simp [(Faces.mark hu).1] at hk
    · rw [Param.layout, List.append_assoc] at hu
      exact htype ht hu (.inr (.inr (by simp [hn, TokenKind.ident?])))
    · rw [Param.layout] at hu
      exact htype ht hu (hnext.imp_right .inl)

/-- Parameter lists are read again. -/
theorem rereads_paramList {list : ParamList} (hs : Ready s) (h : (paramList g).run s = (.ok list, s'))
    (hu : Faces u (list.layout ++ f)) :
    ∃ list' u', (paramList G).run u = (.ok list', u') ∧ Same (ParamList.mapSpans noSpan) list list' ∧ Clear u' f := by
  obtain ⟨-, s₁, s₂, hm, hl, -, -⟩ := (paramList_ok hr.settled).1 h
  obtain ⟨metaName, params⟩ := list
  have hs₁ := keeps_metaBinding hs.advance hm
  rw [ParamList.layout, parens, List.cons_append, List.cons_append, List.append_assoc, List.cons_append,
    List.nil_append] at hu
  obtain ⟨hk, hc⟩ := hu.mark
  have hbinding : ∃ v, metaBinding.run u.advance = (.ok metaName, v) ∧
      Faces v (commas (params.map Param.layout) ++ mark .rParen :: f) := by
    rcases metaBinding_ok.1 hm with ⟨-, n, -, rfl, -⟩ | ⟨hnot, rfl, rfl⟩
    · simp only [metaLayout, List.cons_append, List.nil_append] at hc
      cases params with
      | nil =>
        simp only [List.map_nil, commas_singleton, List.cons_append, List.nil_append] at hc
        obtain ⟨hk, hc⟩ := hc.faces.name
        obtain ⟨hn, hc⟩ := hc.space.name
        refine ⟨u.advance.advance.advance, metaBinding_ok.2 (.inl ⟨hk, n, hn, rfl, .inl ⟨hc.faces.mark.1, rfl⟩⟩), ?_⟩
        simpa using hc.faces
      | cons p ps =>
        rw [List.map_cons, commas_cons_cons] at hc
        simp only [List.cons_append, List.nil_append] at hc
        obtain ⟨hk, hc⟩ := hc.faces.name
        obtain ⟨hn, hc⟩ := hc.space.name
        obtain ⟨hcomma, hc⟩ := hc.faces.mark
        exact ⟨_, metaBinding_ok.2 (.inl ⟨hk, n, hn, rfl, .inr ⟨hcomma, rfl⟩⟩), by simpa using hc.space⟩
    · simp only [metaLayout, List.nil_append] at hc
      exact ⟨_, metaBinding_ok.2 (.inr ⟨not_meta hr hl hnot hc.faces, rfl, rfl⟩), hc.faces⟩
  obtain ⟨v, hbinding, hv⟩ := hbinding
  obtain ⟨params', u', hlist, hsame, hu'⟩ := commaListed_rereads (keeps_param hr.keeping)
    (fun _ h => rereadsItem_param hr h) (by simp) hs₁ hl hv rfl
  obtain ⟨hclose, hc⟩ := hu'.mark
  refine ⟨⟨metaName, params'⟩, _, (paramList_ok hr.settled').2 ⟨hk, v, u', hbinding, hlist, hclose, rfl⟩, ?_, hc⟩
  exact congrArg (ParamList.mk metaName) (map_eq_of_same hsame)

/-! ### Expressions in lists and brackets -/

omit hr in
/-- Between brackets, an expression is read again up to the token that ends it there. -/
theorem RereadsExpr.inside {p : Bool → Parser Expr} {e : Expr} (h : RereadsExpr p header e s') {depth : Nat}
    (hf : closes (next f) = true) (hb : next f ≠ .punctuation .lBrace) (hu : Faces u (e.layout depth true ++ f)) :
    ∃ e' u', (p false).run u = (.ok e', u') ∧ SameExpr e e' ∧ Clear u' f :=
  h depth false u f .of_false (.of_closes hf fun _ => hb) hu

/-- An expression that was read from a source is read again between brackets. -/
theorem readsInside_expression {e : Expr} (depth : Nat) (hs : Ready s)
    (h : (g.expression false).run s = (.ok e, s')) : ReadsInside G depth SameExpr e :=
  ⟨((hr.leading.expression h).begins depth).opens, fun hf hb hu => RereadsExpr.inside (hr.expression hs h) hf hb hu⟩

theorem readsInside_listed {close : Punctuation} {es : List Expr} (depth : Nat) (hs : Ready s)
    (h : CommaListed close (g.expression false) s es s') : ∀ e ∈ es, ReadsInside G depth SameExpr e := by
  induction h with
  | nil _ => simp
  | last _ h _ => simpa using readsInside_expression hr depth hs h
  | more _ h _ _ ih =>
    exact List.forall_mem_cons.2 ⟨readsInside_expression hr depth hs h,
      ih (hr.keeping.expression false hs h).advance⟩

theorem readsInside_arguments {es : List Expr} (depth : Nat) (hs : Ready s)
    (h : (arguments g).run s = (.ok es, s')) : ∀ e ∈ es, ReadsInside G depth SameExpr e := by
  obtain ⟨-, s₁, hl, -⟩ := (arguments_ok hr.settled).1 h
  exact readsInside_listed hr depth hs.advance hl

/-- Arguments are read again. -/
theorem rereads_arguments {es : List Expr} {depth : Nat} (hs : Ready s) (h : (arguments g).run s = (.ok es, s'))
    (hu : Faces u (parens (commas (exprListLayout depth es)) ++ f)) :
    ∃ es' u', (arguments G).run u = (.ok es', u') ∧ Same (exprListMapSpans noSpan) es es' ∧ Clear u' f := by
  obtain ⟨es', u', hrun, hsame, hc⟩ := shows_arguments hr.settled' (readsInside_arguments hr depth hs h) hu
  exact ⟨es', u', hrun, exprListMapSpans_eq hsame, hc⟩

/-! ### Primary expressions -/

/-- A primary expression that was read in a header or not, up to `s`, is read again by `p`. -/
def RereadsPrimary (p : Bool → Parser Expr) (room : Nat) (header : Bool) (e : Expr) (s : ParseState) : Prop :=
  ∀ (depth : Nat) (header' : Bool) (u : ParseState) (f : List Fragment),
    Admits header header' (tokens (e.layout depth true)) → Behind room e header' s f →
    Faces u (e.layout depth true ++ f) → ∃ e' u', (p header').run u = (.ok e', u') ∧ SameExpr e e' ∧ Clear u' f

omit hr in
theorem literalOf?_layout {span : Span} {k : TokenKind} {e : Expr} (h : literalOf? span k = some e) :
    (∀ depth, e.layout depth true = [.token k]) ∧ k ≠ .operator .gt ∧ k ≠ .eof ∧
      ∀ span', ∃ e', literalOf? span' k = some e' ∧ SameExpr e e' := by
  unfold literalOf? at h
  split at h <;> cases h <;>
    exact ⟨fun depth => by rw [Expr.layout], by simp, by simp, fun span' => ⟨_, rfl, rfl⟩⟩

theorem rereads_lambda {e : Expr} (hs : Ready s) (h : (lambda g header).run s = (.ok e, s')) :
    RereadsPrimary (lambda G) room' header e s' := by
  intro depth header' u f ha hf hu
  obtain ⟨-, params, s₁, hp, ⟨-, body, hb, rfl⟩ | ⟨-, body, hb, rfl⟩⟩ := lambda_ok.1 h
  · have hs₁ := keeps_paramList hr.settled hr.keeping hs.advance hp
    simp only [Expr.layout, List.cons_append, List.append_assoc, List.nil_append] at hu
    obtain ⟨hk, hc⟩ := hu.word
    obtain ⟨params', u₁, hparams, hsame, hc₁⟩ := rereads_paramList hr hs.advance hp hc.faces
    obtain ⟨body', u', hbody, hsame', hc'⟩ := hr.block hs₁ hb hc₁.space
    have hbrace : u₁.peek.kind = .punctuation .lBrace := by
      have := hc₁.space
      obtain ⟨span, ss⟩ := body
      rw [Block.layout, braces] at this
      split at this <;> exact this.mark.1
    exact ⟨_, u', lambda_ok.2 ⟨hk, params', u₁, hparams, .inl ⟨hbrace, body', hbody, rfl⟩⟩,
      congrArg₂ (Expr.blockLambda .zero) hsame hsame', hc'⟩
  · have hs₁ := keeps_paramList hr.settled hr.keeping hs.advance hp
    have hlevel : conditionalLevel ≤ body.level := Nat.zero_le _
    simp only [Expr.layout, grouped_of_level hlevel] at ha hu
    simp only [List.cons_append, List.append_assoc, List.nil_append] at hu
    obtain ⟨hk, hc⟩ := hu.word
    obtain ⟨params', u₁, hparams, hsame, hc₁⟩ := rereads_paramList hr hs.advance hp hc.faces
    obtain ⟨k, ks, htok, hopen⟩ := ((hr.leading.expression hb).begins depth).opens
    have hbrace : u₁.peek.kind ≠ .punctuation .lBrace := by
      intro hk
      have := hc₁.next_of_peek hk (by simp)
      rw [next_space, next_append htok] at this
      simp [this, opensOperand] at hopen
    rw [tokens_append] at ha
    obtain ⟨body', u', hbody, hsame', hc'⟩ := hr.expression hs₁ hb depth header' u₁ f ha.of_append.2 (hf.meets rfl)
      hc₁.space
    exact ⟨_, u', lambda_ok.2 ⟨hk, params', u₁, hparams, .inr ⟨hbrace, body', hbody, rfl⟩⟩,
      congrArg₂ (Expr.lambda .zero) hsame hsame', hc'⟩

theorem rereads_parenthesized (header : Bool) {e : Expr} {start : Nat} (start' : Nat) (hs : Ready s)
    (h : (parenthesized g start).run s = (.ok e, s')) :
    RereadsPrimary (fun _ => parenthesized G start') room' header e s' := by
  intro depth header' u f _ _ hu
  obtain ⟨inner, s₁, hi, -, -, rfl⟩ := parenthesized_ok.1 h
  rw [Expr.layout] at hu
  obtain ⟨-, span, inner', u', hrun, hsame, hc⟩ :=
    shows_parenthesized start' (readsInside_expression hr depth hs.advance hi) hu
  exact ⟨_, u', hrun, congrArg (Expr.paren .zero) hsame, hc⟩

/-! ### Names and struct literals -/

omit hr in
theorem separated_names (n : String) (names : List String) :
    separated [mark .colonColon] ((n :: names).map fun m => [ofName m]) =
      ofName n :: names.flatMap fun m => [mark .colonColon, ofName m] := by
  induction names generalizing n with
  | nil => rfl
  | cons m names ih =>
    have := ih m
    simp only [separated, List.map_cons, List.intersperse_cons_cons, List.flatten_cons] at this ⊢
    rw [this]
    rfl

omit hr in
theorem rereads_pathTail {names : List String}
    (hc : Clear u (names.flatMap (fun m => [mark .colonColon, ofName m]) ++ f))
    (hf : next f ≠ .punctuation .colonColon) : ∃ u', PathTail u names u' ∧ Clear u' f := by
  induction names generalizing u with
  | nil => exact ⟨u, .nil fun hk => hf (hc.next_of_peek hk (by simp)), hc⟩
  | cons m names ih =>
    simp only [List.flatMap_cons, List.cons_append, List.nil_append] at hc
    obtain ⟨hk, hc⟩ := hc.faces.mark
    obtain ⟨hk₁, hc⟩ := hc.faces.name
    obtain ⟨u', htail, hc'⟩ := ih hc
    exact ⟨u', .cons hk hk₁ htail, hc'⟩

omit hr in
theorem peek_of_pathTail {names : List String} (h : PathTail s names s') : s'.peek.kind ≠ .punctuation .colonColon := by
  induction h with
  | nil h => exact h
  | cons _ _ _ ih => exact ih

/-- The type arguments of a struct literal that was read from a source. -/
theorem argsWithin_structTypeArgs {generics : Option (List TypeExpr)}
    (h : (structTypeArgs g).run s = (.ok (some generics), s')) : ∀ args ∈ generics, ArgsWithin room' args := by
  rcases (structTypeArgs_some hr.settled).1 h with ⟨-, -, args, rfl, hargs, -⟩ | ⟨-, rfl, -⟩
  · simpa using argsWithin_typeArgs hr hargs
  · simp

theorem rereadsItem_fields {fields : List FieldInit} (depth : Nat) (hs : Ready s)
    (h : CommaListed .rBrace (fieldInit g) s fields s') :
    ∀ i ∈ fields, RereadsItem .rBrace (fieldInit G) (FieldInit.layout depth) (FieldRel SameExpr) i := by
  have hitem {s s' : ParseState} {i : FieldInit} (hs : Ready s) (h : (fieldInit g).run s = (.ok i, s')) :
      RereadsItem .rBrace (fieldInit G) (FieldInit.layout depth) (FieldRel SameExpr) i := by
    obtain ⟨n, value, -, -, hv, rfl⟩ := fieldInit_ok.1 h
    exact (readsInside_expression hr depth hs.advance.advance hv).field _ n
  induction h with
  | nil _ => simp
  | last _ h _ => simpa using hitem hs h
  | more _ h _ _ ih => exact List.forall_mem_cons.2 ⟨hitem hs h, ih (keeps_fieldInit hr.keeping hs h).advance⟩

theorem rereads_nameExpr {e : Expr} (hs : Ready s) (h : (nameExpr g header).run s = (.ok e, s')) :
    RereadsPrimary (nameExpr G) room' header e s' := by
  intro depth header' u f ha hf hu
  obtain ⟨n, hn, ⟨hk₁, names, hp, rfl⟩ | ⟨hk₁, rfl, hlit⟩ | ⟨hk₁, -, rfl, rfl⟩⟩ := (nameExpr_ok hr.settled).1 h
  · have hend : next f ≠ .punctuation .colonColon := hf.ne (peek_of_pathTail hp) rfl
    rw [Expr.layout, separated_names, List.cons_append] at hu
    obtain ⟨hk, hc⟩ := hu.name
    obtain ⟨u', htail, hc'⟩ := rereads_pathTail hc hend
    have hcolon : u.advance.peek.kind = .punctuation .colonColon := by
      cases hp with
      | nil hne => exact absurd hk₁ hne
      | cons _ _ _ => exact hc.faces.mark.1
    exact ⟨_, u', (nameExpr_ok hr.settled').2 ⟨n, hk, .inl ⟨hcolon, names, htail, rfl⟩⟩, rfl, hc'⟩
  · obtain ⟨generics, s₁, fields, s₂, hgen, -, hfields, -, hs', rfl⟩ := (structLiteral?_some hr.settled).1 hlit
    subst hs'
    have hs₁ := ready_of_structTypeArgs hr.settled hr.keeping hs.advance hgen
    obtain ⟨rest, hl, hbrace, hnext, hread⟩ := shows_structLit hr.settled' hr.type' u.peek.span.start
      (s₂.advance.spanFrom s.peek.span.start) n (argsWithin_structTypeArgs hr hgen)
      (rereadsItem_fields hr depth hs₁.advance hfields)
    have hheader : header' = false := by
      by_contra hh
      rcases ha (by simpa using hh) with h | h
      · simp at h
      · exact h (by rw [hl]; simp [hbrace])
    subst hheader
    rw [hl, List.cons_append] at hu
    obtain ⟨hk, hc⟩ := hu.name
    obtain ⟨span', generics', fields', u', hrun, hsame, hrel, hc'⟩ := hread hc
    refine ⟨_, u', (nameExpr_ok hr.settled').2 ⟨n, hk, .inr (.inl ⟨fun hcolon => ?_, rfl, hrun⟩)⟩, ?_, hc'⟩
    · exact hnext f (hc.next_of_peek hcolon (by simp))
    · have hfields := fieldInitListMapSpans_eq (hrel.imp fun _ _ h => h.same)
      change Expr.structLit .zero n _ _ = Expr.structLit .zero n _ _
      rw [hsame, hfields]
  · rw [Expr.layout] at hu
    obtain ⟨hk, hc⟩ := Faces.name hu
    refine ⟨_, _, (nameExpr_ok hr.settled').2 ⟨n, hk, .inr (.inr ⟨?_, ?_, rfl, rfl⟩)⟩, rfl, hc⟩
    · rw [hf.peek hc]
      exact hf.ne hk₁ rfl
    · cases header' with
      | true => exact .inl rfl
      | false =>
        exact .inr (shows_noBody hr.settled' hr.type' hc hf.loose (hf.brace rfl) fun ht => (hf.lt ht).2)

/-! ### Arrays, and the forms of `#` and `$` -/

/-- No type with a semicolon behind it opens the printed elements of an array. -/
theorem no_elementType {es : List Expr} {depth : Nat} (hl : CommaListed .rBracket (g.expression false) s es s')
    (hu : Faces u (commas (exprListLayout depth es) ++ mark .rBracket :: f)) {t : TypeExpr} {v : ParseState}
    (ht : (G.type 0).run u = (.ok t, v)) : v.peek.kind ≠ .punctuation .semicolon := by
  intro hk
  rw [hr.type'] at ht
  cases es with
  | nil =>
    have := typeExpr_opens ht
    rw [exprListLayout, commas_nil, List.nil_append] at hu
    simp [hu.mark.1, opensType] at this
  | cons e es =>
    have he : ∃ s₁, (g.expression false).run s = (.ok e, s₁) := by
      cases hl with
      | last _ h _ | more _ h _ _ => exact ⟨_, h⟩
    obtain ⟨s₁, he⟩ := he
    have hread := hr.leading.expression he
    obtain ⟨rest, hrest, hnext⟩ := commas_append (e.layout depth true) (exprListLayout depth es) .rBracket f
    rw [exprListLayout, hrest] at hu
    have hend := hread.untyped depth rest limit' room' 0 u v t hr.room_le
      (fun _ _ _ ht => by rcases hnext with h | h <;> simp [touchesWith, h] at ht) hu ht
    obtain ⟨_, _, -, -, -, ⟨ms, hms⟩, -⟩ := hend.divided (hread.begins depth) (by simp [hk, divides])
    rw [hk] at hms
    rcases hnext with h | h <;> rw [tokens_of_next h (by simp)] at hms <;> simp [skim] at hms

theorem rereads_arrayLiteral {start : Nat} (start' : Nat) {isStatic : Bool} {e : Expr} (depth : Nat) (hs : Ready s)
    (h : (arrayLiteral g start isStatic).run s = (.ok e, s')) :
    ∃ rest, e.layout depth true = (if isStatic then [mark .hash] else []) ++ mark .lBracket :: rest ∧
      ∀ {u : ParseState} {f : List Fragment}, Faces u (mark .lBracket :: (rest ++ f)) →
        ∃ e' u', (arrayLiteral G start' isStatic).run u = (.ok e', u') ∧ SameExpr e e' ∧ Clear u' f := by
  obtain ⟨-, element, s₁, elements, s₂, hl, -, rfl, rfl, ht⟩ := (arrayLiteral_ok hr.settled).1 h
  obtain ⟨helement, hs₁⟩ : (∀ t ∈ element, TypeWithin room' t) ∧ Ready s₁ := by
    rcases ht with ⟨type, s₀, rfl, ht, -, rfl⟩ | ⟨rfl, rfl, -⟩
    · exact ⟨by simpa using typeWithin_type hr ht, (hr.keeping.type hs.advance ht).advance⟩
    · exact ⟨by simp, hs.advance⟩
  obtain ⟨rest, hlay, hread⟩ := shows_arrayLiteral hr.settled' hr.type' start' (s₂.advance.spanFrom start) isStatic
    helement (readsInside_listed hr depth hs₁ hl) fun _ {_ _ _ _} hu ht => no_elementType hr hl hu ht
  refine ⟨rest, hlay, fun hu => ?_⟩
  obtain ⟨span', element', elements', u', hrun, hsame, hrel, hc⟩ := hread hu
  refine ⟨_, u', hrun, ?_, hc⟩
  have helements := exprListMapSpans_eq hrel
  change Expr.array .zero _ isStatic _ = Expr.array .zero _ isStatic _
  rw [hsame, helements]

theorem readsInside_optional {count : Option Expr} (depth : Nat) (hs : Ready s)
    (h : (optionalOperand g).run s = (.ok count, s')) : ∀ e ∈ count, ReadsInside G depth SameExpr e := by
  rcases optionalOperand_ok.1 h with ⟨-, e, rfl, he⟩ | ⟨-, rfl, -⟩
  · simpa using readsInside_expression hr depth hs.advance he
  · simp

/-- The operands of a directive that was read from a source are read again. -/
theorem operandsInside_directiveOf {x : Directive} (depth : Nat) (hs : Ready s)
    (h : (directiveOf g x.name).run s = (.ok x, s')) : OperandsInside G room' depth SameExpr x := by
  obtain ⟨-, ⟨hn, -, -⟩ | ⟨-, -, s₁, ho, -, -⟩⟩ := directiveOf_ok.1 h
  · cases x <;> trivial
  have hs := hs.advance
  cases x with
  | len e | free e | setAllocator e => exact readsInside_expression hr depth hs ho.2
  | size type => exact typeWithin_type hr ho.2
  | ident _ | env | resetAllocator => trivial
  | alloc type count =>
    obtain ⟨-, s₂, ht, ho⟩ := ho
    exact ⟨typeWithin_type hr ht, readsInside_optional hr depth (hr.keeping.type hs ht) ho⟩
  | realloc e type count =>
    obtain ⟨-, s₂, s₃, he, -, -, ht, ho⟩ := ho
    have hs₂ := hr.keeping.expression false hs he
    exact ⟨readsInside_expression hr depth hs he, typeWithin_type hr ht,
      readsInside_optional hr depth (hr.keeping.type hs₂.advance ht) ho⟩

theorem rereads_hashExpr (header : Bool) {e : Expr} (hs : Ready s) (h : (hashExpr g).run s = (.ok e, s')) :
    RereadsPrimary (fun _ => hashExpr G) room' header e s' := by
  intro depth header' u f _ hf hu
  obtain ⟨-, ⟨-, ha⟩ | ⟨n, x, -, -, hx, rfl⟩⟩ := hashExpr_ok.1 h
  · obtain ⟨rest, hl, hread⟩ := rereads_arrayLiteral hr u.peek.span.start depth hs.advance ha
    rw [hl, if_pos rfl, List.cons_append, List.cons_append, List.nil_append] at hu
    obtain ⟨hk, hc⟩ := hu.mark
    obtain ⟨e', u', hrun, hsame, hc'⟩ := hread hc.faces
    exact ⟨e', u', hashExpr_ok.2 ⟨hk, .inl ⟨hc.faces.mark.1, hrun⟩⟩, hsame, hc'⟩
  · have henv : x.name = .env → next f ≠ .punctuation .lParen := by
      intro hn
      obtain ⟨-, ⟨-, hk, rfl⟩ | ⟨hne, -⟩⟩ := directiveOf_ok.1 hx
      · exact hf.ne hk rfl
      · exact absurd hn hne
    rw [Expr.layout] at hu
    obtain ⟨span, x', u', hrun, hrel, hc⟩ :=
      shows_directive hr.type' (operandsInside_directiveOf hr depth hs.advance.advance hx) henv hu
    exact ⟨_, u', hrun, congrArg (Expr.directive .zero) hrel.same, hc⟩

theorem rereads_dollarExpr (header : Bool) {e : Expr} (hs : Ready s) (h : (dollarExpr g).run s = (.ok e, s')) :
    RereadsPrimary (fun _ => dollarExpr G) room' header e s' := by
  intro depth header' u f _ hf hu
  obtain ⟨-, -, ⟨-, -, -, a, b, c, ha, rfl⟩ | ⟨-, a, b, ha, rfl⟩ | ⟨n, -, ⟨-, -, args, ha, rfl⟩ | ⟨hno, rfl, rfl⟩⟩⟩ :=
    dollarExpr_ok.1 h
  · have hl : (Expr.triple (s'.spanFrom s.peek.span.start) a b c).layout depth true ++ f =
        mark .dollar :: mark .dollar :: (parens (commas (exprListLayout depth [a, b, c])) ++ f) := by
      simp [Expr.layout, exprListLayout]
    rw [hl] at hu
    obtain ⟨span, a', b', c', u', hrun, hsa, hsb, hsc, hc⟩ :=
      shows_triple hr.settled' (readsInside_arguments hr depth hs.advance.advance ha) hu
    refine ⟨_, u', hrun, ?_, hc⟩
    change Expr.triple .zero _ _ _ = Expr.triple .zero _ _ _
    rw [hsa, hsb, hsc]
  · have hl : (Expr.tuple (s'.spanFrom s.peek.span.start) a b).layout depth true ++ f =
        mark .dollar :: (parens (commas (exprListLayout depth [a, b])) ++ f) := by
      simp [Expr.layout, exprListLayout]
    rw [hl] at hu
    obtain ⟨span, a', b', u', hrun, hsa, hsb, hc⟩ :=
      shows_tuple hr.settled' (readsInside_arguments hr depth hs.advance ha) hu
    exact ⟨_, u', hrun, congrArg₂ (Expr.tuple .zero) hsa hsb, hc⟩
  · rw [Expr.layout, List.append_assoc] at hu
    obtain ⟨span, args', u', hrun, hrel, hc⟩ :=
      shows_sigil hr.settled' (readsInside_arguments hr depth hs.advance.advance ha) hu
    exact ⟨_, u', hrun, congrArg (fun es => Expr.sigil .zero n (some es)) (exprListMapSpans_eq hrel), hc⟩
  · rw [Expr.layout, List.cons_append, List.cons_append, List.nil_append] at hu
    obtain ⟨span, u', hrun, hc⟩ := shows_sigilAlone hf.loose (hf.sigil ⟨_, _, rfl⟩) hu
    exact ⟨_, u', hrun, rfl, hc⟩

/-! ### Any primary expression -/

theorem rereads_primary {e : Expr} (hs : Ready s) (h : (primary g header).run s = (.ok e, s')) :
    RereadsPrimary (primary G) room' header e s' := by
  intro depth header' u f ha hf hu
  rcases primary_ok.1 h with ⟨hl, -⟩ | ⟨-, hl⟩ | ⟨-, hn⟩ | ⟨-, hp⟩ | ⟨-, harr⟩ | ⟨-, hh⟩ | ⟨-, hd⟩
  · obtain ⟨hlayout, hgt, heof, hother⟩ := literalOf?_layout hl
    rw [hlayout] at hu
    obtain ⟨hk, hc⟩ := Faces.token hu hgt heof
    obtain ⟨e', he', hsame⟩ := hother (u.advance.spanFrom u.peek.span.start)
    exact ⟨e', _, primary_ok.2 (.inl ⟨by rwa [hk], rfl⟩), hsame, hc⟩
  · obtain ⟨e', u', hrun, hsame, hc⟩ := rereads_lambda hr hs hl depth header' u f ha hf hu
    exact ⟨e', u', primary_ok.2 (.inr (.inl ⟨(lambda_ok.1 hrun).1, hrun⟩)), hsame, hc⟩
  · obtain ⟨e', u', hrun, hsame, hc⟩ := rereads_nameExpr hr hs hn depth header' u f ha hf hu
    obtain ⟨n, hk, -⟩ := (nameExpr_ok hr.settled').1 hrun
    exact ⟨e', u', primary_ok.2 (.inr (.inr (.inl ⟨⟨n, hk⟩, hrun⟩))), hsame, hc⟩
  · obtain ⟨e', u', hrun, hsame, hc⟩ := rereads_parenthesized hr header u.peek.span.start hs hp depth
      header' u f ha hf hu
    have hk : u.peek.kind = .punctuation .lParen := by
      obtain ⟨inner, s₁, -, -, -, rfl⟩ := parenthesized_ok.1 hp
      rw [Expr.layout, parens] at hu
      exact (Faces.mark hu).1
    exact ⟨e', u', primary_ok.2 (.inr (.inr (.inr (.inl ⟨hk, hrun⟩)))), hsame, hc⟩
  · obtain ⟨rest, hl, hread⟩ := rereads_arrayLiteral hr u.peek.span.start depth hs harr
    rw [hl] at hu
    obtain ⟨e', u', hrun, hsame, hc⟩ := hread (by simpa using hu)
    exact ⟨e', u', primary_ok.2 (.inr (.inr (.inr (.inr (.inl ⟨((arrayLiteral_ok hr.settled').1 hrun).1, hrun⟩))))),
      hsame, hc⟩
  · obtain ⟨e', u', hrun, hsame, hc⟩ := rereads_hashExpr hr header hs hh depth header' u f ha hf hu
    exact ⟨e', u', primary_ok.2 (.inr (.inr (.inr (.inr (.inr (.inl ⟨(hashExpr_ok.1 hrun).1, hrun⟩)))))), hsame, hc⟩
  · obtain ⟨e', u', hrun, hsame, hc⟩ := rereads_dollarExpr hr header hs hd depth header' u f ha hf hu
    exact ⟨e', u', primary_ok.2 (.inr (.inr (.inr (.inr (.inr (.inr ⟨(dollarExpr_ok.1 hrun).1, hrun⟩)))))), hsame, hc⟩

end Parser

end ElleFrontEnd
