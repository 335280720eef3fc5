import ElleFrontEnd.Proofs.Lead

/-!
# The beginnings of the expressions that are read

Each parser of the expression grammar, where it succeeds, yields an expression that is printed with the beginning that
it was read from (`Reading`): one lemma for each parser, and the levels tied together in `leads_ofRoom`.
-/

namespace ElleFrontEnd

open Fragment

namespace Fragment

@[simp] theorem commas_nil : commas [] = [] := rfl

@[simp] theorem commas_singleton (a : List Fragment) : commas [a] = a := by simp [commas, separated]

theorem commas_cons_cons (a b : List Fragment) (as : List (List Fragment)) :
    commas (a :: b :: as) = a ++ mark .comma :: space :: commas (b :: as) := by
  simp [commas, separated, commaSpace]

theorem commas_cons (a : List Fragment) (as : List (List Fragment)) : ∃ f, commas (a :: as) = a ++ f := by
  cases as with
  | nil => exact ⟨[], by simp⟩
  | cons b as => exact ⟨_, commas_cons_cons a b as⟩

/-- Behind the first item of a list comes a comma or the closer. -/
theorem commas_append (a : List Fragment) (as : List (List Fragment)) (close : Punctuation) (f : List Fragment) :
    ∃ rest, commas (a :: as) ++ mark close :: f = a ++ rest ∧
      (next rest = .punctuation .comma ∨ next rest = .punctuation close) := by
  cases as with
  | nil => exact ⟨mark close :: f, by simp, .inr rfl⟩
  | cons b as => exact ⟨_, by rw [commas_cons_cons, List.append_assoc], .inl rfl⟩

end Fragment

namespace Parser

/-- What is known of the beginning of an expression that was read from `s` up to `s'`. -/
structure Reading (room : Nat) (e : Expr) (s s' : ParseState) : Prop where
  begins : ∀ depth, Begins (tokens (e.layout depth true)) s.kinds s'.kinds
  untyped : Untyped room e

end Parser

/-- The expressions that the parsers of nested constructs yield are printed with the beginning they were read from. -/
structure Inner.Leading (g : Inner) (limit room : Nat) : Prop where
  type : g.type = Parser.typeExpr limit room
  expression : ∀ {header s e s'}, (g.expression header).run s = (.ok e, s') → Parser.Reading room e s s'
  chain : ∀ {header level s e s'}, level ≤ leadingLevel → (g.chain header level).run s = (.ok e, s') →
    Parser.Reading room e s s'
  unary : ∀ {header s e s'}, (g.unary header).run s = (.ok e, s') → Parser.Reading room e s s'

namespace Parser

variable {s s' : ParseState} {g : Inner} {header : Bool} {e : Expr} {limit room : Nat}

/-! ### Beginnings that a token decides -/

theorem ne_rBracket {k : TokenKind} (h : opensOperand true k = true) : k ≠ .punctuation .rBracket := by
  rintro rfl
  simp [opensOperand] at h

theorem begins_of_token {k k' : TokenKind} (hl : ∀ depth, ∃ f, e.layout depth true = .token k :: f)
    (hk : s.peek.kind = k') (hshown : Shown k k') (hsimple : k.isSimple = true) (hn : ∀ n, k ≠ .ident n)
    (ho : opensOperand true k = true) (depth : Nat) : Begins (tokens (e.layout depth true)) s.kinds s'.kinds := by
  obtain ⟨f, hf⟩ := hl depth
  have hk' : s.peek.kind ≠ .eof := by
    intro he
    have := hshown.opens ho
    rw [← hk, he] at this
    exact absurd this (by decide)
  rw [hf, tokens_token, ParseState.kinds_of_peek hk', hk]
  exact .of_leads (.first (.of_simple hsimple hshown)) hn ho

theorem Reading.of_token {k k' : TokenKind} (hl : ∀ depth, ∃ f, e.layout depth true = .token k :: f)
    (hk : s.peek.kind = k') (hshown : Shown k k') (hsimple : k.isSimple = true) (ht : opensType k = false)
    (ho : opensOperand true k = true) : Reading room e s s' := by
  refine ⟨begins_of_token hl hk hshown hsimple (fun n hn => by simp [hn, opensType] at ht) ho, .of_token hl ht ?_ ?_⟩
  · rintro rfl
    simp [opensOperand] at ho
  · rintro rfl
    simp [opensOperand] at ho

/-- A name, and behind it a token that may be followed by anything. -/
theorem begins_of_name {n : String} {k : TokenKind}
    (hl : ∀ depth, ∃ f, tokens (e.layout depth true) = .ident n :: k :: f)
    (hk : s.peek.kind = .ident n) (hk₁ : s.advance.peek.kind = k) (hsimple : k.isSimple = true) (he : k ≠ .eof)
    (depth : Nat) : Begins (tokens (e.layout depth true)) s.kinds s'.kinds := by
  obtain ⟨f, hf⟩ := hl depth
  rw [hf, ParseState.kinds_of_peek (by simp [hk]), hk, ParseState.kinds_of_peek (by simpa [hk₁] using he), hk₁]
  refine ⟨.first (.of_simple rfl (.inl rfl)), fun m ls hm => ?_, ⟨_, _, rfl, rfl⟩⟩
  obtain ⟨h, rfl⟩ := List.cons.inj hm
  cases h
  exact ⟨_, rfl, .first (.of_simple hsimple (.inl rfl))⟩

/-- An expression that goes on with a token that may be followed by anything. -/
theorem Begins.goes_on {ls ks ls' : List TokenKind} {k : TokenKind} (hb : Begins ls ks s.kinds)
    (hk : s.peek.kind = k) (hsimple : k.isSimple = true) (he : k ≠ .eof) :
    Begins (ls ++ k :: ls') ks s'.kinds := by
  refine hb.append ?_
  rw [ParseState.kinds_of_peek (s := s) (by rwa [hk]), hk]
  exact .first (.of_simple hsimple (.inl rfl))

/-! ### Names -/

/-- Type arguments behind a name, with a parenthesis or a brace behind them, make a type that ends there. -/
theorem peek_of_generic {u u' : ParseState} {f : List Fragment} {n : String} {args : List TypeExpr} {t : TypeExpr}
    {angles : Nat} (hne : args ≠ []) (hw : typeListWellFormed args) (hr : typeListHeight 0 args + 1 ≤ room)
    (hf : next f = .punctuation .lParen ∨ next f = .punctuation .lBrace)
    (h : Faces u (ofName n :: (Fragment.angles (commas (typeListLayout args)) ++ f)))
    (hrun : (typeExpr limit room angles).run u = (.ok t, u')) : u'.peek.kind = next f := by
  have hgt : next f ≠ .operator .gt := by rcases hf with hf | hf <;> simp [hf]
  have hend : TypeEnd angles f := by
    refine ⟨?_, ?_, fun ht => ?_, fun ht => absurd ht.2 hgt⟩
    · rcases hf with hf | hf <;> simp [hf]
    · rcases hf with hf | hf <;> simp [hf]
    · rcases hf with hf | hf <;> simp [touchesWith, hf] at ht
  obtain ⟨t', v, hrun', -, hs⟩ := readsTypes_typeExpr limit room (.generic .zero n args) angles u f ⟨hne, hw⟩
    (by simpa [TypeExpr.height] using hr) hend (by simpa [TypeExpr.layout] using h)
  obtain ⟨-, rfl⟩ : t = t' ∧ u' = v := by simpa [hrun] using hrun'
  exact hs.peek hgt

theorem Untyped.ident (span : Span) (n : String) : Untyped room (.ident span n) := by
  intro depth f limit room' angles u u' t _ hlt hu hrun
  obtain ⟨inner, rfl, hbody⟩ := typeExpr_ok.1 hrun
  rw [Expr.layout] at hu ⊢
  exact TrialEnd.of_name hu (hlt span n rfl) hbody

variable (hg : g.Settled) (hd : g.Leading limit room)

/-- The printed form of a struct literal up to its brace. -/
theorem structLit_layout (span : Span) (n : String) (generics : Option (List TypeExpr)) (fields : List FieldInit)
    (depth : Nat) : ∃ f, (Expr.structLit span n generics fields).layout depth true =
      ofName n :: (optTypeArgsLayout generics ++ space :: mark .lBrace :: f) := by
  simp only [Expr.layout]
  split
  · exact ⟨[mark .rBrace], by simp⟩
  · exact ⟨space :: (commas (fieldInitListLayout depth fields) ++ [space, mark .rBrace]), by simp⟩

section
include hd

theorem wellFormed_typeArgs_leading {angles : Nat} {args : List TypeExpr}
    (h : (typeArgs g.type angles).run s = (.ok args, s')) :
    args ≠ [] ∧ typeListWellFormed args ∧ typeListHeight 0 args ≤ room := by
  rw [hd.type] at h
  obtain ⟨hne, hw⟩ := wellFormed_typeArgs (advances_typeExpr limit room) (fun _ _ _ _ => wellFormed_typeExpr) h
  exact ⟨hne, hw, typeArgs_height (advances_typeExpr limit room) (typeExpr_height limit room) angles _ _ _ h⟩

include hg

theorem reading_nameExpr (h : (nameExpr g header).run s = (.ok e, s')) : Reading (room + 1) e s s' := by
  obtain ⟨n, hk, ⟨hk₁, names, hp, rfl⟩ | ⟨-, -, hs⟩ | ⟨-, -, rfl, rfl⟩⟩ := (nameExpr_ok hg).1 h
  · cases hp with
    | nil hne => exact absurd hk₁ hne
    | @cons _ _ m names _ _ _ =>
      have hl (span : Span) (depth : Nat) : ∃ f, (Expr.qualified span (n :: m :: names)).layout depth true =
          ofName n :: mark .colonColon :: f := by
        simp [Expr.layout, separated]
      refine ⟨begins_of_name (fun depth => ?_) hk hk₁ rfl (by simp),
        (Untyped.ident .zero n).extend fun depth => ?_⟩
      · obtain ⟨f, hf⟩ := hl _ depth
        exact ⟨tokens f, by rw [hf]; rfl⟩
      · obtain ⟨f, hf⟩ := hl _ depth
        exact ⟨_, by rw [hf, Expr.layout]; rfl, fun _ => ⟨_, _, rfl, by simp⟩⟩
  · obtain ⟨generics, s₁, fields, s₂, ha, hb, -, -, rfl, rfl⟩ := (structLiteral?_some hg).1 hs
    rcases (structTypeArgs_some hg).1 ha with ⟨hlt, -, args, rfl, hargs, -⟩ | ⟨-, rfl, rfl⟩
    · obtain ⟨hne, hw, hr⟩ := wellFormed_typeArgs_leading hd hargs
      refine ⟨begins_of_name (k := .operator .lt) (fun depth => ?_) hk hlt rfl (by simp), ?_⟩
      · obtain ⟨f, hf⟩ := structLit_layout (s₂.advance.spanFrom s.peek.span.start) n (some args) fields depth
        exact ⟨_, by rw [hf]; rfl⟩
      · intro depth f limit' room' angles u u' t hle _ hu hrun
        obtain ⟨f', hf⟩ := structLit_layout (s₂.advance.spanFrom s.peek.span.start) n (some args) fields depth
        rw [hf] at hu
        refine .inr (.inl ?_)
        have := peek_of_generic (f := space :: mark .lBrace :: f' ++ f) hne hw (by omega) (.inr rfl)
          (by simpa [optTypeArgsLayout] using hu) hrun
        simpa using this
    · have hl := structLit_layout (s₂.advance.spanFrom s.peek.span.start) n none fields
      refine ⟨begins_of_name (fun depth => ?_) hk hb.1 rfl (by simp), (Untyped.ident .zero n).extend fun depth => ?_⟩
      · obtain ⟨f, hf⟩ := hl depth
        exact ⟨_, by rw [hf]; rfl⟩
      · obtain ⟨f, hf⟩ := hl depth
        exact ⟨_, by rw [hf, Expr.layout]; rfl, fun _ => ⟨_, _, rfl, by simp⟩⟩
  · refine ⟨fun depth => ?_, .ident _ n⟩
    rw [Expr.layout, ParseState.kinds_of_peek (by simp [hk]), hk]
    refine ⟨.first (.of_simple rfl (.inl rfl)), fun m ls hm => ?_, ⟨_, _, rfl, rfl⟩⟩
    obtain ⟨h, rfl⟩ := List.cons.inj hm
    cases h
    exact ⟨_, rfl, .nil⟩

end

/-! ### Groups -/

section
variable {u u' : ParseState} {f : List Fragment} {t : TypeExpr} {angles : Nat}

/-- The word of a lambda is a type, which ends before its parameters. -/
theorem peek_of_fn (hu : Faces u (word .fn :: mark .lParen :: f))
    (hrun : (typeExpr limit room angles).run u = (.ok t, u')) : u'.peek.kind = .punctuation .lParen := by
  obtain ⟨hk, hc⟩ := hu.word
  obtain ⟨hp, -⟩ := hc.faces.mark
  obtain ⟨inner, rfl, hbody⟩ := typeExpr_ok.1 hrun
  obtain ⟨base, u₁, hb, hgrow⟩ := typeBody_ok.1 hbody
  rcases baseType_ok.1 hb with ⟨p, -, rfl, -⟩ | ⟨m, hn, -⟩ | ⟨hn, -⟩
  · cases hgrow with
    | stop h =>
      obtain ⟨-, rfl⟩ := typeSuffix_none.1 h
      exact hp
    | next h _ =>
      obtain ⟨-, ⟨hs, -⟩ | ⟨-, hs, -⟩⟩ := typeSuffix_some.1 h
      · simp [hp] at hs
      · simp [ParseState.atBrackets, hp] at hs
  · simp [hk] at hn
  · simp [hk] at hn

/-- A parenthesis opens no type, unless one is read behind it that a comma follows. -/
theorem no_pairType (hu : Faces u (mark .lParen :: f))
    (hno : ∀ inner first v, room = inner + 1 → (typeExpr limit inner angles).run u.advance = (.ok first, v) →
      v.peek.kind ≠ .punctuation .comma)
    (hrun : (typeExpr limit room angles).run u = (.ok t, u')) : False := by
  obtain ⟨inner, rfl, hbody⟩ := typeExpr_ok.1 hrun
  obtain ⟨base, u₁, hb, -⟩ := typeBody_ok.1 hbody
  rcases baseType_ok.1 hb with ⟨p, hn, -⟩ | ⟨m, hn, -⟩ | ⟨-, h⟩
  · simp [hu.mark.1] at hn
  · simp [hu.mark.1] at hn
  · obtain ⟨first, v, second, w, hfirst, hcomma, -⟩ := tupleType_ok.1 h
    exact hno inner first v rfl hfirst hcomma

/-- A type that stands alone in parentheses is no pair of types. -/
theorem no_pairType_cast {type : TypeExpr} (hw : type.WellFormed) (hheight : type.height 0 + 1 ≤ room)
    (hu : Faces u (mark .lParen :: (type.layout ++ mark .rParen :: f)))
    (hrun : (typeExpr limit room angles).run u = (.ok t, u')) : False := by
  refine no_pairType hu (fun inner first v hr hfirst hcomma => ?_) hrun
  obtain ⟨t', v', hfirst', -, hs⟩ := readsTypes_typeExpr limit inner type angles _ _ hw (by omega)
    ⟨by simp, by simp, by simp [touchesWith], by simp [touchesWith]⟩ hu.mark.2.faces
  obtain ⟨-, rfl⟩ : first = t' ∧ v = v' := by simpa [hfirst] using hfirst'
  rw [hs.peek (by simp)] at hcomma
  simp at hcomma

end

/-- The printed form of an array, its element type and its elements apart. -/
theorem array_layout (span : Span) (element : Option TypeExpr) (isStatic : Bool) (elements : List Expr) (depth : Nat)
    (openRight : Bool) : (Expr.array span element isStatic elements).layout depth openRight =
      (if isStatic then [mark .hash] else []) ++ mark .lBracket :: ((match element with
        | none => []
        | some t => t.layout ++ mark .semicolon :: (if elements.isEmpty then [] else [space])) ++
        (commas (exprListLayout depth elements) ++ [mark .rBracket])) := by
  cases element <;> simp [Expr.layout]

section
include hd

omit hd in
theorem reading_lambda (h : (lambda g header).run s = (.ok e, s')) : Reading (room + 1) e s s' := by
  have hl : s.peek.kind = .keyword .fn ∧ ∀ depth, ∃ f, e.layout depth true = word .fn :: mark .lParen :: f := by
    obtain ⟨hk, params, s₁, -, ⟨-, body, -, rfl⟩ | ⟨-, body, -, rfl⟩⟩ := lambda_ok.1 h
    all_goals exact ⟨hk, fun depth => by simp [Expr.layout, ParamList.layout, parens]⟩
  obtain ⟨hk, hl⟩ := hl
  refine ⟨begins_of_token (fun depth => ?_) hk (.inl rfl) rfl (by simp) rfl, ?_⟩
  · obtain ⟨f, hf⟩ := hl depth
    exact ⟨_, hf⟩
  · intro depth f limit' room' angles u u' t _ _ hu hrun
    obtain ⟨f', hf⟩ := hl depth
    rw [hf] at hu
    exact .inl (peek_of_fn hu hrun)

/-- What stands in parentheses is no pair of types. -/
theorem reading_parenthesized {start : Nat} (hk : s.peek.kind = .punctuation .lParen)
    (h : (parenthesized g start).run s = (.ok e, s')) : Reading (room + 1) e s s' := by
  obtain ⟨inner, s₁, hi, hk₁, rfl, rfl⟩ := parenthesized_ok.1 h
  have hread := hd.expression hi
  refine ⟨begins_of_token (fun depth => ⟨_, by rw [Expr.layout, parens]; rfl⟩) hk (.inl rfl) rfl (by simp) rfl, ?_⟩
  intro depth f limit' room' angles u u' t hr _ hu hrun
  exfalso
  rw [Expr.layout, parens, List.cons_append, List.cons_append, List.append_assoc] at hu
  refine no_pairType hu (fun inner' first v hr' hfirst hcomma => ?_) hrun
  have hend := hread.untyped depth _ limit' inner' angles _ _ _ (by omega) (fun _ _ _ => by simp [touchesWith])
    hu.mark.2.faces hfirst
  obtain ⟨_, _, -, -, -, ⟨ms, hms⟩, -⟩ := hend.divided (hread.begins depth) (by simp [hcomma, divides])
  simp [hcomma, skim] at hms

/-- A cast begins with no pair of types. -/
theorem reading_cast {type : TypeExpr} {operand : Expr} {span : Span} {s₁ : ParseState}
    (hk : s.peek.kind = .punctuation .lParen) (ht : (g.type 0).run s.advance = (.ok type, s₁)) :
    Reading (room + 1) (.cast span type operand) s s' := by
  rw [hd.type] at ht
  have hw := wellFormed_typeExpr ht
  have hheight := typeExpr_height _ _ _ _ _ _ ht
  refine ⟨begins_of_token (fun depth => ⟨_, by rw [Expr.layout, parens]; rfl⟩) hk (.inl rfl) rfl (by simp) rfl, ?_⟩
  intro depth f limit' room' angles u u' t hr _ hu hrun
  exfalso
  rw [Expr.layout, parens] at hu
  simp only [List.cons_append, List.append_assoc] at hu
  exact no_pairType_cast hw (by omega) hu hrun

include hg

/-- The brackets of an array begin as they were read: at once closed, or with a token that closes none. -/
theorem reading_arrayLiteral {start : Nat} {isStatic : Bool} (hs : isStatic = false)
    (h : (arrayLiteral g start isStatic).run s = (.ok e, s')) : Reading (room + 1) e s s' := by
  subst hs
  obtain ⟨hk, element, s₁, elements, s₂, hl, hk₂, rfl, rfl, ht⟩ := (arrayLiteral_ok hg).1 h
  refine ⟨fun depth => ?_, .of_token (k := .punctuation .lBracket) (fun depth => ?_) rfl (by simp) (by simp)⟩
  swap
  · rw [array_layout]
    exact ⟨_, rfl⟩
  rw [ParseState.kinds_of_peek (by simp [hk]), hk, array_layout]
  simp only [Bool.false_eq_true, if_false, List.nil_append, tokens_token]
  refine .of_leads ?_ (by simp) rfl
  have hfirst {a b : TokenKind} {ls ks : List TokenKind} (ha : a ≠ .punctuation .rBracket)
      (hb : b ≠ .punctuation .rBracket) (hks : s.advance.kinds = b :: ks) :
      Leads s₂.advance.kinds (.punctuation .lBracket :: a :: ls) (.punctuation .lBracket :: s.advance.kinds) := by
    rw [hks]
    exact .first ⟨.inl rfl, by simp, rfl, fun _ => ⟨⟨_, _, rfl, ha⟩, _, _, rfl, hb⟩⟩
  rcases ht with ⟨type, s₀, rfl, ht, -, rfl⟩ | ⟨rfl, rfl, -⟩
  · rw [hd.type] at ht
    have hb := typeExpr_opens ht
    obtain ⟨k, f, hf, hopen⟩ := type.layout_cons
    have hne {k : TokenKind} (h : opensType k = true) : k ≠ .punctuation .rBracket ∧ k ≠ .eof := by
      constructor <;> rintro rfl <;> simp [opensType] at h
    simp only [hf, List.cons_append, tokens_token]
    exact hfirst (hne hopen).1 (hne hb).1 (ParseState.kinds_of_peek (hne hb).2)
  · cases elements with
    | nil =>
      cases hl with
      | nil _ =>
        rw [ParseState.kinds_of_peek (s := s.advance) (by simp [hk₂]), hk₂]
        simp only [exprListLayout, commas_nil, List.nil_append, tokens_token, tokens_nil]
        exact .brackets .nil
    | cons e es =>
      have he : ∃ s₃, (g.expression false).run s.advance = (.ok e, s₃) := by
        cases hl with
        | last _ h _ | more _ h _ _ => exact ⟨_, h⟩
      obtain ⟨s₃, he⟩ := he
      obtain ⟨f, hf⟩ := commas_cons (e.layout depth true) (exprListLayout depth es)
      obtain ⟨a, ls, b, ks, hls, hks, hs, ho⟩ := ((hd.expression he).begins depth).head
      have ha := ne_rBracket ho
      have hb := ne_rBracket (hs.opens ho)
      simp only [exprListLayout, hf, List.append_assoc, tokens_append, hls, List.cons_append]
      exact hfirst ha hb hks

theorem reading_primary (h : (primary g header).run s = (.ok e, s')) : Reading (room + 1) e s s' := by
  rcases primary_ok.1 h with ⟨hl, -⟩ | ⟨-, hl⟩ | ⟨-, hn⟩ | ⟨hk, hp⟩ | ⟨-, ha⟩ | ⟨-, hh⟩ | ⟨-, hd'⟩
  · unfold literalOf? at hl
    split at hl <;> cases hl <;> rename_i hk <;>
      exact .of_token (fun depth => ⟨[], by rw [Expr.layout]⟩) hk (.inl rfl) rfl rfl rfl
  · exact reading_lambda hl
  · exact reading_nameExpr hg hd hn
  · exact reading_parenthesized hd hk hp
  · exact reading_arrayLiteral hg hd rfl ha
  · obtain ⟨hk, ⟨-, ha⟩ | ⟨name, x, -, -, -, rfl⟩⟩ := hashExpr_ok.1 hh
    · obtain ⟨-, element, s₁, elements, s₂, -, -, -, rfl, -⟩ := (arrayLiteral_ok hg).1 ha
      refine .of_token (fun depth => ?_) hk (.inl rfl) rfl rfl rfl
      rw [array_layout]
      exact ⟨_, rfl⟩
    · refine .of_token (fun depth => ?_) hk (.inl rfl) rfl rfl rfl
      rw [Expr.layout]
      unfold Directive.layout
      split <;> exact ⟨_, rfl⟩
  · obtain ⟨hk, -, ⟨-, -, -, a, b, c, -, rfl⟩ | ⟨-, a, b, -, rfl⟩ | ⟨name, -, ⟨-, -, args, -, rfl⟩ | ⟨-, -, rfl⟩⟩⟩ :=
      dollarExpr_ok.1 hd'
    all_goals
      refine .of_token (fun depth => ?_) hk (.inl rfl) rfl rfl rfl
      rw [Expr.layout]
      exact ⟨_, rfl⟩

/-! ### Calls, members and subscripts -/

omit hg in
theorem reading_suffixed {s₀ : ParseState} {e' : Expr} (h : Suffixed g e s e' s') (hr : Reading (room + 1) e s₀ s) :
    Reading (room + 1) e' s₀ s' := by
  induction h with
  | stop _ => exact hr
  | @call e e' s s₁ s' args span ht hk ha _ ih =>
    have hl (depth : Nat) : ∃ a f, (Expr.call span e none args).layout depth true = e.layout depth true ++ a :: f ∧
        a ≠ op .lt ∧ tokens (a :: f) = .punctuation .lParen ::
          tokens (commas (exprListLayout depth args) ++ [mark .rParen]) := by
      rw [Expr.layout, grouped_of_closed ht.level_le ht.closed]
      unfold calleeSpace
      split <;> simp [optTypeArgsLayout, parens]
    refine ih ⟨fun depth => ?_, hr.untyped.extend fun depth => ?_⟩
    · obtain ⟨a, f, hf, -, htok⟩ := hl depth
      rw [hf, tokens_append, htok]
      exact Begins.goes_on (hr.begins depth) hk rfl (by simp)
    · obtain ⟨a, f, hf, ha, -⟩ := hl depth
      exact ⟨_, hf, fun _ => ⟨_, _, rfl, ha⟩⟩
  | @genericCall e e' s s₁ s₂ s' generics args span ht hk htake hgen ha _ ih =>
    obtain ⟨hne, hw, hheight⟩ := wellFormed_typeArgs_leading hd (callTypeArgs_ok.1 hgen).1
    have hl (depth : Nat) : (Expr.call span e (some generics) args).layout depth true = e.layout depth true ++
        (Fragment.angles (commas (typeListLayout generics)) ++ parens (commas (exprListLayout depth args))) := by
      rw [Expr.layout, grouped_of_closed ht.level_le ht.closed]
      unfold calleeSpace
      split
      · simp [Expr.takesGenerics] at htake
      · simp [optTypeArgsLayout]
    refine ih ⟨fun depth => ?_, ?_⟩
    · rw [hl, tokens_append]
      exact Begins.goes_on (hr.begins depth) hk rfl (by simp)
    · by_cases hid : ∃ span n, e = .ident span n
      · obtain ⟨span', n, rfl⟩ := hid
        intro depth f limit' room' angles u u' t hle _ hu hrun
        rw [hl, Expr.layout] at hu
        refine .inl ?_
        have := peek_of_generic (f := parens (commas (exprListLayout depth args)) ++ f) hne hw (by omega) (.inl rfl)
          (by simpa using hu) hrun
        simpa [parens] using this
      · exact hr.untyped.extend fun depth => ⟨_, hl depth, fun h => absurd h hid⟩
  | @member e e' s s' name span ht hk _ _ ih =>
    have hl (depth : Nat) : (Expr.member span e name).layout depth true =
        e.layout depth true ++ [mark .dot, ofName name] := by
      rw [Expr.layout, grouped_of_closed ht.level_le ht.closed]
    refine ih ⟨fun depth => ?_, hr.untyped.extend fun depth => ⟨_, hl depth, fun _ => ⟨_, _, rfl, by simp⟩⟩⟩
    rw [hl, tokens_append]
    exact Begins.goes_on (hr.begins depth) hk rfl (by simp)
  | @subscript e e' index s s₁ s' span ht hk hi _ _ ih =>
    have hl (depth : Nat) : (Expr.subscript span e index).layout depth true =
        e.layout depth true ++ mark .lBracket :: (index.layout depth true ++ [mark .rBracket]) := by
      rw [Expr.layout, grouped_of_closed ht.level_le ht.closed]
      simp
    refine ih ⟨fun depth => ?_, hr.untyped.extend fun depth => ⟨_, hl depth, fun _ => ⟨_, _, rfl, by simp⟩⟩⟩
    rw [hl, tokens_append]
    refine (hr.begins depth).append ?_
    obtain ⟨a, ls, b, ks, hls, hks, hs, ho⟩ := ((hd.expression hi).begins depth).head
    have ha := ne_rBracket ho
    have hb := ne_rBracket (hs.opens ho)
    rw [ParseState.kinds_of_peek (s := s) (by simp [hk]), hk, tokens_token, tokens_append, hls, hks]
    exact .first ⟨.inl rfl, by simp, rfl, fun _ => ⟨⟨_, _, rfl, ha⟩, _, _, rfl, hb⟩⟩

/-! ### Operators and casts -/

omit hg hd in
theorem layout_conditional (span : Span) (condition : Expr) (chosen : Option Expr) (alternative : Expr) (depth : Nat)
    (openRight : Bool) : (Expr.conditional span condition chosen alternative).layout depth openRight =
      grouped (conditionalLevel + 1) false condition (fun o => condition.layout depth o) ++
        space :: mark .question :: space :: ((match chosen with
          | none => []
          | some c => c.layout depth true ++ [space]) ++ mark .colon :: space ::
            grouped conditionalLevel openRight alternative (fun o => alternative.layout depth o)) := by
  cases chosen <;> simp [Expr.layout]

omit hg hd in
theorem conditional_layout {condition : Expr} (hl : 1 ≤ condition.level) (hc : condition.endsOpen = false) (span : Span)
    (chosen : Option Expr) (alternative : Expr) (depth : Nat) :
    (Expr.conditional span condition chosen alternative).layout depth true =
      condition.layout depth true ++ space :: mark .question :: space :: ((match chosen with
        | none => []
        | some c => c.layout depth true ++ [space]) ++ mark .colon :: space :: alternative.layout depth true) := by
  have hl : conditionalLevel + 1 ≤ condition.level := hl
  have hl' : conditionalLevel ≤ alternative.level := Nat.zero_le _
  rw [layout_conditional, grouped_of_closed hl hc, grouped_of_level hl']

variable (hf : g.Forms)
include hf

theorem reading_unaryBody (h : (unaryBody g header).run s = (.ok e, s')) : Reading (room + 1) e s s' := by
  rcases (unaryBody_ok hg).1 h with ⟨op, unary, inner, hk, hu, -, hi, rfl⟩ | ⟨hk, hda⟩ | ⟨hk, hc⟩ | ⟨-, -, ho⟩
  · obtain rfl : unary.operator = op := by simpa using List.find?_some hu
    have hl (depth : Nat) : (Expr.unary (s'.spanFrom s.peek.span.start) unary inner).layout depth true =
        Fragment.op unary.operator :: (unarySpace unary inner ++ inner.layout depth true) := by
      rw [Expr.layout, grouped_of_level (hf.unary hi).level_le, List.cons_append]
    by_cases hstar : unary = .deref
    · subst hstar
      refine ⟨fun depth => ?_, .of_token (fun depth => ⟨_, hl depth⟩) rfl (by simp [UnaryOp.operator]) (by simp)⟩
      have hspace : tokens (unarySpace .deref inner) = [] := by
        unfold unarySpace
        split
        · split <;> rfl
        · rfl
      rw [hl, tokens_token, tokens_append, hspace, List.nil_append, ParseState.kinds_of_peek (by simp [hk]), hk]
      exact .of_leads (.star ((hd.unary hi).begins depth).leads) (by simp) rfl
    · have hsimple : (TokenKind.operator unary.operator).isSimple = true ∧
          opensOperand true (.operator unary.operator) = true := by
        cases unary <;> first | exact absurd rfl hstar | decide
      exact .of_token (fun depth => ⟨_, hl depth⟩) hk (.inl rfl) hsimple.1 rfl hsimple.2
  · obtain ⟨-, inner, hi, rfl⟩ := doubleAddress_ok.1 hda
    exact .of_token (fun depth => ⟨_, by rw [Expr.layout]; rfl⟩) hk (.inr ⟨rfl, rfl⟩) rfl rfl rfl
  · obtain ⟨type, s₁, inner, hct, -, -, rfl⟩ := (cast?_some hg).1 hc
    obtain ⟨s₂, ht, -, rfl⟩ := castType_ok.1 hct
    exact reading_cast hd hk ht
  · obtain ⟨first, s₁, hp, hs, -⟩ := suffixed_of_operandExpr hg hf ho
    exact reading_suffixed hd hs (reading_primary hg hd hp)

omit hg hf in
theorem reading_chained {s₀ : ParseState} {e' : Expr} {level : Nat} (h : Chained g header level e s e' s')
    (hr : Reading (room + 1) e s₀ s) : Reading (room + 1) e' s₀ s' := by
  induction h with
  | stop _ => exact hr
  | @next left right e e' s s₁ s' op hk hfix hle hleft hclosed _ hright hlevel hj _ ih =>
    have hrl := rightLevel_le op
    have hread := hd.chain (by unfold leadingLevel; omega) hright
    refine ih ⟨fun depth => ?_, hr.untyped.extend fun depth => ?_⟩
    · obtain ⟨sep, hl, hsep⟩ := joined?_layout hj hfix hleft hclosed hlevel depth
      have htok : tokens (sep ++ right.layout depth true) = .operator op :: tokens (right.layout depth true) := by
        rcases hsep with rfl | ⟨rfl, -⟩ <;> rfl
      rw [hl, tokens_append, htok]
      refine (hr.begins depth).append ?_
      rw [ParseState.kinds_of_peek (s := s) (by simp [hk]), hk]
      by_cases hstar : op = .star
      · subst hstar
        exact .star (hread.begins depth).leads
      · exact .first ⟨.inl rfl, by simpa using hstar, rfl, by simp⟩
    · obtain ⟨sep, hl, hsep⟩ := joined?_layout hj hfix hleft hclosed hlevel depth
      refine ⟨_, hl, fun _ => ?_⟩
      rcases hsep with rfl | ⟨rfl, -, hlt⟩
      · exact ⟨_, _, rfl, by simp⟩
      · exact ⟨_, _, rfl, by simpa using hlt⟩

theorem reading_chainBody {level : Nat} (hl : level ≤ leadingLevel)
    (h : (chainBody g header level).run s = (.ok e, s')) :
    Reading (room + 1) e s s' := by
  obtain ⟨first, s₁, hu, -, hc, -⟩ := chained_of_chainBody hg hf hl h
  exact reading_chained hd hc (reading_unaryBody hg hd hf hu)

theorem reading_expressionBody (h : (expressionBody g header).run s = (.ok e, s')) : Reading (room + 1) e s s' := by
  obtain ⟨condition, s₁, hc, ⟨-, rfl, rfl⟩ | ⟨hk, chosen, s₂, alternative, -, -, -, rfl⟩⟩ := expressionBody_ok.1 h
  · exact reading_chainBody hg hd hf (by decide) hc
  · obtain ⟨first, s₀, hu, -, hch, hformed⟩ := chained_of_chainBody hg hf (by decide) hc
    have hclosed : condition.endsOpen = false := by
      by_contra ho
      exact (hformed.ends (by simpa using ho)).question hk
    have hr := reading_chained hd hch (reading_unaryBody hg hd hf hu)
    have hl := conditional_layout hformed.level_le hclosed (condition.span.merge alternative.span) chosen alternative
    refine ⟨fun depth => ?_, hr.untyped.extend fun depth => ⟨_, hl depth, fun _ => ⟨_, _, rfl, by simp⟩⟩⟩
    rw [hl, tokens_append]
    exact Begins.goes_on (hr.begins depth) hk rfl (by simp)

end

/-- The expressions that are read at any depth are printed with the beginning that they were read from. -/
theorem leading_ofRoom (o : ParseOptions) (room : Nat) : (Inner.ofRoom o room).Leading o.maxDepth room := by
  induction room with
  | zero => exact ⟨rfl, fun h => absurd (tooDeep_ok.1 h) id, fun _ h => absurd (tooDeep_ok.1 h) id,
      fun h => absurd (tooDeep_ok.1 h) id⟩
  | succ room ih =>
    have hg := settled_ofRoom o room
    have hf := forms_ofRoom o room
    exact ⟨rfl, fun h => reading_expressionBody hg ih hf h, fun hl h => reading_chainBody hg ih hf hl h,
      fun h => reading_unaryBody hg ih hf h⟩

end Parser

end ElleFrontEnd
