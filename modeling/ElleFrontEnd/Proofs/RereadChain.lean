import ElleFrontEnd.Proofs.RereadExpr

/-!
# Chains that are read again

Calls, members and subscripts behind an operand, operators and casts before it, and chains of operators between
operands are read again from their printed form.  What a printed chain goes on with is what the source went on with, so
that each step of the chain is followed by what may follow it (`Meets`, `Behind`).

Two `&` that are written for `&&` nest one level deeper than they did in the source (`Inner.Under`).
-/

namespace ElleFrontEnd

open Fragment

/-! ### Operands that begin like operators -/

theorem Shown.opensOperand_eq {a b : TokenKind} (h : Shown a b) (even : Bool) :
    Parser.opensOperand even a = Parser.opensOperand even b := by
  rcases h with rfl | ⟨rfl, rfl⟩
  · rfl
  · rfl

/-- An operand that begins with an operator that could stand between operands, or with a bracket, is printed with that
token first. -/
theorem Expr.layout_of_opensAmbiguously (depth : Nat) (openRight : Bool) (e : Expr) (h : e.opensAmbiguously = true) :
    ∃ k f, e.layout depth openRight = .token k :: f ∧ Parser.opensOperand false k = false := by
  have hhead {e' : Expr} (hl : trailingLevel ≤ e'.level)
      (hrest : ∀ o, ∃ k f, e'.layout depth o = .token k :: f ∧ Parser.opensOperand false k = false) :
      ∃ k f, grouped trailingLevel false e' (fun o => e'.layout depth o) = .token k :: f ∧
        Parser.opensOperand false k = false := by
    have hbody : e'.endsInBody = false := by cases e' <;> first | rfl |
      simp [Expr.level, trailingLevel, leadingLevel] at hl
    have hnot : ¬ e'.level < trailingLevel := by omega
    simpa [grouped, needsGroup, hnot, hbody] using hrest false
  cases e with
  | unary _ op operand =>
    simp only [opensAmbiguously] at h
    refine ⟨_, _, by simp only [layout]; rfl, ?_⟩
    cases op <;> first | rfl | simp at h
  | array _ element isStatic elements =>
    obtain rfl : isStatic = false := by simpa [opensAmbiguously] using h
    exact ⟨_, _, by simp only [layout]; rfl, rfl⟩
  | call _ callee _ _ =>
    simp only [opensAmbiguously, Bool.and_eq_true, decide_eq_true_eq] at h
    obtain ⟨k, f, hf, hk⟩ := hhead h.1 fun o => callee.layout_of_opensAmbiguously depth o h.2
    exact ⟨k, _, by simp only [layout, hf]; rfl, hk⟩
  | member _ object _ | subscript _ object _ =>
    simp only [opensAmbiguously, Bool.and_eq_true, decide_eq_true_eq] at h
    obtain ⟨k, f, hf, hk⟩ := hhead h.1 fun o => object.layout_of_opensAmbiguously depth o h.2
    exact ⟨k, _, by simp only [layout, hf]; rfl, hk⟩
  | _ => simp [opensAmbiguously] at h

/-- The parsers `G` of nested constructs are those of the grammar, with the parsers `G₂` one level further in. -/
structure Inner.Under (G G₂ : Inner) : Prop where
  expression : ∀ header, G.expression header = Parser.expressionBody G₂ header
  unary : ∀ header, G.unary header = Parser.unaryBody G₂ header

namespace Parser

variable {s s' u : ParseState} {g G G₂ : Inner} {header : Bool} {limit room limit' room' room₂ : Nat}
  {f : List Fragment}

/-- The first token of a printed expression opens an operand as it did in the source. -/
theorem opens_layout {e : Expr} {even : Bool} (h : Reading room e s s') (hs : opensOperand even s.peek.kind = true)
    (depth : Nat) : ∃ k ks, tokens (e.layout depth true) = k :: ks ∧ opensOperand even k = true := by
  obtain ⟨a, ls, b, ks, hls, hks, hshown, -⟩ := (h.begins depth).head
  exact ⟨a, ls, hls, by rw [hshown.opensOperand_eq, ← ParseState.peek_of_kinds hks, hs]⟩

variable (hr : g.Replayed G limit room limit' room')

/-! ### Calls, members and subscripts -/

section
include hr

/-- The calls, members and subscripts behind an operand are read again, behind what `e` is read as. -/
theorem rereads_suffixed {e e' : Expr} (h : Suffixed g e s e' s') (hs : Ready s) (start depth : Nat) :
    ∃ rest, e'.layout depth true = e.layout depth true ++ rest ∧ ∀ {header' : Bool} {f : List Fragment},
      Meets header' s' f → Behind room' e header' s (rest ++ f) ∧ ∀ {e₁ : Expr} {u : ParseState}, SameExpr e e₁ →
        Clear u (rest ++ f) → ∃ e₁' u', Grows (suffixStep G start) e₁ u e₁' u' ∧ SameExpr e' e₁' ∧ Clear u' f := by
  induction h with
  | @stop e s hstop =>
    refine ⟨[], by simp, fun hf => ⟨⟨by simpa using hf.toContinues, fun ht => absurd ht hf.lt, fun _ ht => ?_⟩,
      fun {e₁ u} he hu => ⟨e₁, u, .stop ((suffixStep_none hr.settled').2 ⟨rfl, ?_⟩), he, hu⟩⟩⟩
    · exact hf.ne hstop.paren rfl ht.2
    · have hst := hf.stops hstop hu
      exact ⟨hst.paren, hst.dot, hst.bracket, fun hk ha => absurd ⟨hk, ha⟩ (hu.fragments.not_lt hu.owed hf.lt)⟩
  | @call e e' s s₁ s' args span ht hk ha _ ih =>
    obtain ⟨rest, hl, hrest⟩ := ih (keeps_arguments hr.settled hr.keeping hs ha)
    have hl' : (Expr.call span e none args).layout depth true =
        e.layout depth true ++ (calleeSpace e ++ parens (commas (exprListLayout depth args))) := by
      rw [Expr.layout, grouped_of_closed ht.level_le ht.closed]
      simp [optTypeArgsLayout]
    refine ⟨_, by rw [hl, hl', List.append_assoc], fun {header' f} hf => ?_⟩
    obtain ⟨-, hread⟩ := hrest hf
    -- behind a sigil without arguments, a space keeps the parenthesis apart
    have hspace : calleeSpace e = [] ∧ (¬ ∃ span n, e = .sigil span n none) ∨ calleeSpace e = [space] := by
      unfold calleeSpace
      split
      · exact .inr rfl
      · rename_i h
        refine .inl ⟨rfl, ?_⟩
        rintro ⟨span, n, he⟩
        exact h span n he
    simp only [List.append_assoc]
    refine ⟨⟨⟨.inl ?_, loose_of_ne ?_, fun _ => ?_⟩, fun ht => ?_, fun hsig ht => ?_⟩, fun {e₁ u} he hu => ?_⟩
    · rcases hspace with ⟨h, -⟩ | h <;> simp [h, parens, hk]
    · rcases hspace with ⟨h, -⟩ | h <;> simp [h, parens]
    · rcases hspace with ⟨h, -⟩ | h <;> simp [h, parens]
    · rcases hspace with ⟨h, -⟩ | h <;> simp [touchesWith, h, parens] at ht
    · rcases hspace with ⟨-, h⟩ | h
      · exact h hsig
      · simp [touchesWith, h] at ht
    · have hu' : Faces u (parens (commas (exprListLayout depth args)) ++ (rest ++ f)) := by
        rcases hspace with ⟨h, -⟩ | h
        · simpa [h] using hu.faces
        · rw [h] at hu
          exact hu.space
      obtain ⟨span', args', u₁, hrun, hrel, hc⟩ :=
        shows_call hr.settled' start e₁ (readsInside_arguments hr depth hs ha) hu'
      have hcall : SameExpr (.call span e none args) (.call span' e₁ none args') :=
        congrArg₂ (fun e args => Expr.call .zero e none args) he (exprListMapSpans_eq hrel)
      obtain ⟨e₂, u', hgrow, hsame', hc'⟩ := hread hcall hc
      exact ⟨e₂, u', .next hrun hgrow, hsame', hc'⟩
  | @genericCall e e' s s₁ s₂ s' generics args span ht hk htake hgen ha _ ih =>
    obtain ⟨htargs, -, hk₁⟩ := callTypeArgs_ok.1 hgen
    have hs₁ := hr.keeping.typeArgs hs htargs
    have hargs := argsWithin_typeArgs hr htargs
    obtain ⟨rest, hl, hrest⟩ := ih (keeps_arguments hr.settled hr.keeping hs₁ ha)
    have hl' : (Expr.call span e (some generics) args).layout depth true = e.layout depth true ++
        (Fragment.angles (commas (typeListLayout generics)) ++ parens (commas (exprListLayout depth args))) := by
      rw [Expr.layout, grouped_of_closed ht.level_le ht.closed]
      unfold calleeSpace
      split
      · simp [Expr.takesGenerics] at htake
      · simp [optTypeArgsLayout]
    refine ⟨_, by rw [hl, hl', List.append_assoc], fun {header' f} hf => ?_⟩
    obtain ⟨-, hread⟩ := hrest hf
    simp only [List.append_assoc]
    refine ⟨⟨⟨.inl ?_, loose_of_ne ?_, fun _ => ?_⟩, fun _ => ⟨htake, generics, _, rfl, rfl, hargs⟩, fun hsigil => ?_⟩,
      fun {e₁ u} he hu => ?_⟩
    · simp [Fragment.angles, hk]
    · simp [Fragment.angles]
    · simp [Fragment.angles]
    · obtain ⟨_, _, he⟩ := hsigil
      simp [he, Expr.takesGenerics] at htake
    · have htake' : e₁.takesGenerics = true := by
        rw [← takesGenerics_mapSpans noSpan, ← he, takesGenerics_mapSpans, htake]
      obtain ⟨span', generics', args', u₁, hrun, hsame, hrel, hc⟩ :=
        shows_genericCall hr.settled' hr.type' start htake' hargs (readsInside_arguments hr depth hs₁ ha) hu
      have hcall : SameExpr (.call span e (some generics) args) (.call span' e₁ (some generics') args') := by
        have hargs := exprListMapSpans_eq hrel
        change Expr.call .zero _ (some _) _ = Expr.call .zero _ (some _) _
        rw [he, hsame, hargs]
      obtain ⟨e₂, u', hgrow, hsame', hc'⟩ := hread hcall hc
      exact ⟨e₂, u', .next hrun hgrow, hsame', hc'⟩
  | @member e e' s s' name span ht hk _ _ ih =>
    obtain ⟨rest, hl, hrest⟩ := ih hs.advance.advance
    have hl' : (Expr.member span e name).layout depth true = e.layout depth true ++ [mark .dot, ofName name] := by
      rw [Expr.layout, grouped_of_closed ht.level_le ht.closed]
    refine ⟨_, by rw [hl, hl', List.append_assoc], fun {header' f} hf => ?_⟩
    obtain ⟨-, hread⟩ := hrest hf
    simp only [List.cons_append, List.nil_append]
    refine ⟨⟨⟨.inl (by simp [hk]), loose_of_ne (by simp), fun _ => by simp⟩, fun ht => ?_, fun _ ht => ?_⟩,
      fun {e₁ u} he hu => ?_⟩
    · simp [touchesWith] at ht
    · simp [touchesWith] at ht
    · obtain ⟨span', u₁, hrun, hc⟩ := shows_member hr.settled' start e₁ hu.faces
      have hmember : SameExpr (.member span e name) (.member span' e₁ name) := congrArg (Expr.member .zero · name) he
      obtain ⟨e₂, u', hgrow, hsame, hc'⟩ := hread hmember hc
      exact ⟨e₂, u', .next hrun hgrow, hsame, hc'⟩
  | @subscript e e' index s s₁ s' span ht hk hi _ _ ih =>
    obtain ⟨rest, hl, hrest⟩ := ih (hr.keeping.expression false hs.advance hi).advance
    have hl' : (Expr.subscript span e index).layout depth true =
        e.layout depth true ++ mark .lBracket :: (index.layout depth true ++ [mark .rBracket]) := by
      rw [Expr.layout, grouped_of_closed ht.level_le ht.closed]
      simp
    refine ⟨_, by rw [hl, hl', List.append_assoc], fun {header' f} hf => ?_⟩
    obtain ⟨-, hread⟩ := hrest hf
    simp only [List.cons_append, List.nil_append, List.append_assoc]
    refine ⟨⟨⟨.inl (by simp [hk]), loose_of_ne (by simp), fun _ => by simp⟩, fun ht => ?_, fun _ ht => ?_⟩,
      fun {e₁ u} he hu => ?_⟩
    · simp [touchesWith] at ht
    · simp [touchesWith] at ht
    · obtain ⟨span', index', u₁, hrun, hsame, hc⟩ :=
        shows_subscript hr.settled' start e₁ (readsInside_expression hr depth hs.advance hi) hu.faces
      have hsubscript : SameExpr (.subscript span e index) (.subscript span' e₁ index') :=
        congrArg₂ (Expr.subscript .zero) he hsame
      obtain ⟨e₂, u', hgrow, hsame', hc'⟩ := hread hsubscript hc
      exact ⟨e₂, u', .next hrun hgrow, hsame', hc'⟩

/-! ### Operators and casts -/

omit hr in
theorem skim_head {k : TokenKind} {ks : List TokenKind} (h : skim (k :: ks) = []) :
    k = .operator .star ∨ k = .punctuation .lBracket := by
  unfold skim at h
  split at h
  · rename_i h'
    exact .inl (List.cons.inj h').1
  · rename_i h'
    exact .inr (List.cons.inj h').1
  · simp at h

omit hr in
theorem ParseState.peek_of_kinds_eq (h : s.kinds = s'.kinds) : s.peek.kind = s'.peek.kind := by
  by_cases hk : s.peek.kind = .eof
  · by_contra hne
    have := ParseState.kinds_of_peek (s := s') fun hk' => hne (hk.trans hk'.symm)
    rw [← h] at this
    exact hne (ParseState.peek_of_kinds this)
  · exact (ParseState.peek_of_kinds (h ▸ ParseState.kinds_of_peek hk)).symm

/-- Where a type in parentheses is read off a printed expression, the expression is a name with stars and empty
brackets, and so it was in the source. -/
theorem castType_printed {e : Expr} {depth : Nat} {t : TypeExpr} (hi : (g.expression header).run s = (.ok e, s'))
    (hu : Faces u (e.layout depth true ++ mark .rParen :: f)) {v : ParseState}
    (hrun : (castType G).run u = (.ok t, v)) :
    (v.peek.kind = next f ∨ v.peek.kind = .operator .shr) ∧ ∃ n ls, skim ls = [] ∧
      s.kinds = .ident n :: (ls ++ s'.kinds) ∧ (t.isNamed = true ↔ ls = []) := by
  obtain ⟨v, ht, hkv, rfl⟩ := castType_ok.1 hrun
  rw [hr.type'] at ht
  have hread := hr.leading.expression hi
  have hend := hread.untyped depth _ limit' room' 0 _ _ _ hr.room_le (fun _ _ _ => by simp [touchesWith]) hu ht
  obtain ⟨n, ls, hl, hskim, hks, hnamed, hpeek⟩ := hend.enclosed (hread.begins depth) hkv
  rw [hl, List.cons_append] at hks
  exact ⟨hpeek, n, ls, hskim, hks, hnamed⟩

/-- What stands in parentheses and was no cast in the source is no cast where it is printed. -/
theorem rereads_noCast {e : Expr} {depth : Nat} (hs : Ready s) (hi : (g.expression false).run s.advance = (.ok e, s'))
    (hk : s'.peek.kind = .punctuation .rParen) (hno : NoCast g s)
    (hf : next f = s'.advance.peek.kind ∨ closes (next f) = true)
    (hu : Faces u.advance (e.layout depth true ++ mark .rParen :: f)) : NoCast G u := by
  rcases hrun : (castType G).run u.advance with ⟨err | t, v⟩
  · exact .inl ⟨err, v, hrun⟩
  refine .inr ⟨t, v, hrun, ?_⟩
  obtain ⟨hv, n, ls, hskim, hks, hnamed⟩ := castType_printed hr hi hu hrun
  have hend : skim (.punctuation .rParen :: s'.advance.kinds) = .punctuation .rParen :: s'.advance.kinds :=
    skim_of_ne (by simp) (by simp)
  -- the same type in parentheses is read off the source
  rw [ParseState.kinds_of_peek (s := s') (by simp [hk]), hk] at hks
  have hn : s.advance.peek.kind = .ident n := ParseState.peek_of_kinds hks
  have hks' : s.advance.advance.kinds = ls ++ .punctuation .rParen :: s'.advance.kinds := by
    have := ParseState.kinds_of_peek (s := s.advance) (by simp [hn])
    rw [hks] at this
    exact (List.cons.inj this).2.symm
  have hlt : ¬ (s.advance.advance.peek.kind = .operator .lt ∧ s.advance.advance.isAdjacent = true) := by
    rintro ⟨hlt, -⟩
    cases ls with
    | nil => simp [ParseState.peek_of_kinds hks'] at hlt
    | cons k ls => rcases skim_head hskim with rfl | rfl <;> simp [ParseState.peek_of_kinds hks'] at hlt
  obtain ⟨r, rfl⟩ : ∃ r, room = r + 1 := ⟨room - 1, by have := hr.positive hi; omega⟩
  obtain ⟨t₀, s₂, hrun₀, hkinds, -, hnamed₀⟩ :=
    kinds_of_typeBody (typeExpr limit r) 0 hn hs.advance.owed hlt
  rw [hks', skim_append hskim, hend] at hkinds
  rw [hks', skim_append_eq hskim hend] at hnamed₀
  have hk₂ := ParseState.peek_of_kinds hkinds
  have hcast : (castType g).run s.advance = (.ok t₀, s₂.advance) :=
    castType_ok.2 ⟨s₂, by rw [hr.leading.type]; exact hrun₀, hk₂, rfl⟩
  have hopen : opensOperand (!t₀.isNamed) s₂.advance.peek.kind = false := by
    rcases hno with ⟨err, v', hfail⟩ | ⟨t₁, s₃, hrun₁, hopen⟩
    · simp [hcast] at hfail
    · rw [hcast] at hrun₁
      cases hrun₁
      exact hopen
  have hpeek : s₂.advance.peek.kind = s'.advance.peek.kind := by
    refine ParseState.peek_of_kinds_eq ?_
    have := ParseState.kinds_of_peek (s := s₂) (by simp [hk₂])
    rw [hkinds] at this
    exact (List.cons.inj this).2.symm
  have hsame : t.isNamed = t₀.isNamed := by rw [Bool.eq_iff_iff, hnamed, hnamed₀]
  rw [hpeek, ← hsame] at hopen
  rcases hv with hv | hv
  · rw [hv]
    rcases hf with hf | hf
    · rw [hf, hopen]
    · exact opensOperand_of_closes hf
  · rw [hv]
    rfl

omit hr in
theorem shown_of_faces {e : Expr} {depth : Nat} (h : Reading room e s s') (hu : Faces u (e.layout depth true ++ f)) :
    Shown u.peek.kind s.peek.kind := by
  obtain ⟨a, ls, b, ks, hls, hks, hshown, ha⟩ := (h.begins depth).head
  have hgt : a ≠ .operator .gt := by
    rintro rfl
    simp [opensOperand] at ha
  rwa [hu.peek (by rwa [next_append hls]), next_append hls, ParseState.peek_of_kinds hks]

omit hr in
/-- An operator before an operand that is read again. -/
theorem RereadsExpr.prefixed (hg : G.Settled) {span : Span} {unary : UnaryOp} {e : Expr}
    (h : RereadsExpr G.unary header e s') (hl : leadingLevel ≤ e.level)
    (ho : ∀ depth, ∃ k ks, tokens (e.layout depth true) = k :: ks ∧ opensOperand true k = true) :
    RereadsExpr (unaryBody G) header (.unary span unary e) s' := by
  intro depth header' u f ha hf hu
  have hlayout : (Expr.unary span unary e).layout depth true =
      Fragment.op unary.operator :: (unarySpace unary e ++ e.layout depth true) := by
    rw [Expr.layout, grouped_of_level hl, List.cons_append]
  rw [hlayout, tokens_token, tokens_append] at ha
  rw [hlayout, List.cons_append, List.append_assoc] at hu
  have ha' : Admits header header' (tokens (e.layout depth true)) :=
    (@Admits.of_append _ _ (.operator unary.operator :: tokens (unarySpace unary e)) _ ha).2
  obtain ⟨span', e', u', hrun, hsame, hc⟩ := shows_prefixed hg unary (unarySpace_cases unary e) (ho depth)
    (fun hu => h depth header' _ f ha' hf hu) hu
  exact ⟨_, u', hrun, congrArg (Expr.unary .zero unary) hsame, hc⟩

/-- An operand with the operators before it is read again. -/
theorem rereads_unaryBody {e : Expr} (hin : G.Under G₂) (hr₂ : g.Replayed G₂ limit room limit' room₂) (hs : Ready s)
    (h : (unaryBody g header).run s = (.ok e, s')) : RereadsExpr (unaryBody G) header e s' := by
  have hread := reading_unaryBody hr.settled hr.leading hr.forms h
  rcases (unaryBody_ok hr.settled).1 h with ⟨op, unary, inner, -, hu, -, hi, rfl⟩ | ⟨-, hda⟩ | ⟨-, hc⟩ | ⟨hno, hop, ho⟩
  · exact RereadsExpr.prefixed hr.settled' (hr.unary hs.advance hi) (hr.forms.unary hi).level_le
      fun depth => ((hr.leading.unary hi).begins depth).opens
  · obtain ⟨-, inner, hi, rfl⟩ := doubleAddress_ok.1 hda
    have hinner : RereadsExpr (unaryBody G₂) header (.unary ⟨s.peek.span.start + 1, inner.span.stop⟩ .addrOf inner)
      s' :=
      RereadsExpr.prefixed hr₂.settled' (hr₂.unary hs.advance hi) (hr.forms.unary hi).level_le
        fun depth => ((hr.leading.unary hi).begins depth).opens
    refine RereadsExpr.prefixed hr.settled' ?_ (Nat.le_refl _) fun depth => ⟨_, _, by rw [Expr.layout]; rfl, rfl⟩
    rwa [show G.unary = unaryBody G₂ from funext hin.unary]
  · obtain ⟨type, s₁, inner, hct, hopen, hi, rfl⟩ := (cast?_some hr.settled).1 hc
    obtain ⟨s₂, ht, -, rfl⟩ := castType_ok.1 hct
    have hs₂ := hr.keeping.type hs.advance ht
    intro depth header' u f ha hf hu
    have hreadi := hr.leading.unary hi
    have hplain : (type.isNamed && inner.opensAmbiguously) = false := by
      by_contra hb
      simp only [Bool.not_eq_false, Bool.and_eq_true] at hb
      obtain ⟨k, f', hl, hk⟩ := inner.layout_of_opensAmbiguously depth true hb.2
      obtain ⟨a, ls, b, ks, hls, hks, hshown, -⟩ := (hreadi.begins depth).head
      rw [hl] at hls
      obtain ⟨rfl, rfl⟩ := List.cons.inj hls
      rw [ParseState.peek_of_kinds hks, hb.1, Bool.not_true, ← hshown.opensOperand_eq, hk] at hopen
      simp at hopen
    have hlayout : (Expr.cast (s'.spanFrom s.peek.span.start) type inner).layout depth true =
        mark .lParen :: (type.layout ++ mark .rParen :: space :: inner.layout depth true) := by
      rw [Expr.layout, hplain, grouped_of_level (hr.forms.unary hi).level_le, parens]
      simp
    rw [hlayout] at ha hu
    simp only [List.cons_append, List.append_assoc] at hu
    have ha' : Admits header header' (tokens (inner.layout depth true)) := by
      have := @Admits.of_append _ _ (.punctuation .lParen :: (tokens type.layout ++ [.punctuation .rParen]))
        (tokens (inner.layout depth true)) (by simpa using ha)
      exact this.2
    obtain ⟨span', type', inner', u', hrun, hsame, hsame', hc⟩ := shows_cast hr.settled' hr.type'
      (typeWithin_type hr ht) (opens_layout hreadi hopen depth)
      (fun hu => hr.unary hs₂.advance hi depth header' _ f ha' hf hu) hu
    exact ⟨_, u', hrun, congrArg₂ (Expr.cast .zero) hsame hsame', hc⟩
  · obtain ⟨first, s₁, hp, hsuf, -⟩ := suffixed_of_operandExpr hr.settled hr.forms ho
    intro depth header' u f ha hf hu
    have hshown := shown_of_faces hread hu
    obtain ⟨rest, hl, hrest⟩ :=
      rereads_suffixed hr hsuf (keeps_primary hr.settled hr.keeping hs hp) u.peek.span.start depth
    obtain ⟨hb, hgrows⟩ := hrest hf
    rw [hl, tokens_append] at ha
    rw [hl, List.append_assoc] at hu
    have hno' : u.peek.kind = .punctuation .lParen → NoCast G u := by
      intro hk
      have hk' : s.peek.kind = .punctuation .lParen := by
        rcases hshown with h | ⟨h, -⟩
        · exact h.symm.trans hk
        · simp [hk] at h
      obtain ⟨inner, s₂, hi, hk₂, rfl, rfl⟩ : ∃ inner s₂, (g.expression false).run s.advance = (.ok inner, s₂) ∧
          s₂.peek.kind = .punctuation .rParen ∧ s₁ = s₂.advance ∧
          first = .paren (s₁.spanFrom s.peek.span.start) inner := by
        rcases primary_ok.1 hp with ⟨h, -⟩ | ⟨h, -⟩ | ⟨⟨n, h⟩, -⟩ | ⟨-, h⟩ | ⟨h, -⟩ | ⟨h, -⟩ | ⟨h, -⟩
        · simp [hk', literalOf?] at h
        · simp [hk'] at h
        · simp [hk'] at h
        · exact parenthesized_ok.1 h
        · simp [hk'] at h
        · simp [hk'] at h
        · simp [hk'] at h
      rw [Expr.layout, parens] at hu
      simp only [List.cons_append, List.append_assoc, List.nil_append] at hu
      exact rereads_noCast hr hs hi hk₂ (hno hk') hb.agrees hu.mark.2.faces
    have hop' : ∀ op, u.peek.kind = .operator op → UnaryOp.ofOperator? op = none ∧ op ≠ .andAnd := by
      intro op hk
      rcases hshown with h | ⟨-, h⟩
      · exact hop op (h.symm.trans hk)
      · exact absurd rfl (hop _ h).2
    obtain ⟨first', u₁, hrun, hsame, hc⟩ := rereads_primary hr hs hp depth header' u _ ha.of_append.1 hb hu
    obtain ⟨e', u', hgrow, hsame', hc'⟩ := hgrows hsame hc
    exact ⟨e', u', (unaryBody_ok hr.settled').2 (.inr (.inr (.inr ⟨hno', hop', (operandExpr_ok hr.settled').2
      ⟨first', u₁, hrun, hgrow⟩⟩))), hsame', hc'⟩

/-! ### Chains of operators -/

/-- The operators behind an operand are read again, behind what `e` is read as. -/
theorem rereads_chained {e e' : Expr} {level : Nat} (h : Chained g header level e s e' s') (hs : Ready s)
    (depth : Nat) :
    ∃ rest, e'.layout depth true = e.layout depth true ++ rest ∧ ∀ {header' : Bool} {f : List Fragment},
      Admits header header' (tokens rest) → Meets header' s' f → Meets header' s (rest ++ f) ∧
        ∀ {e₁ : Expr} {u : ParseState}, SameExpr e e₁ → Clear u (rest ++ f) →
          ∃ e₁' u', Grows (chainStep G header' level) e₁ u e₁' u' ∧ SameExpr e' e₁' ∧ Clear u' f := by
  induction h with
  | @stop e s hstop =>
    refine ⟨[], by simp, fun _ hf => ⟨hf, fun {e₁ u} he hu => ⟨e₁, u, .stop (chainStep_none.2 ⟨rfl, ?_⟩), he, hu⟩⟩⟩
    exact (hf.stops hstop hu).operator
  | @next left right e e' s s₁ s' op hk hfix hle hleft hclosed hopen hright hlevel hj _ ih =>
    have hrl := rightLevel_le op
    have hle' : rightLevel op.precedence op.associativity ≤ leadingLevel := by
      unfold leadingLevel
      omega
    obtain ⟨rest, hl, hrest⟩ := ih (hr.keeping.chain header _ hs.advance hright)
    obtain ⟨sep, hl', hsep⟩ := joined?_layout hj hfix hleft hclosed hlevel depth
    refine ⟨_, by rw [hl, hl', List.append_assoc], fun {header' f} ha hf => ?_⟩
    have htok : tokens sep = [.operator op] := by rcases hsep with rfl | ⟨rfl, -⟩ <;> rfl
    simp only [List.append_assoc, tokens_append, htok, List.singleton_append] at ha ⊢
    obtain ⟨hmeets, hread⟩ := hrest (@Admits.of_append _ _ (.operator op :: tokens (right.layout depth true)) _ ha).2 hf
    have ha' : Admits header header' (tokens (right.layout depth true)) :=
      (@Admits.of_append _ _ [.operator op] _ ha).2.of_append.1
    refine ⟨?_, fun {e₁ u} he hu => ?_⟩
    · rcases hsep with rfl | ⟨rfl, hgt, hlt⟩
      · exact ⟨⟨.inl (by simp [hk]), fun _ => by simp [touchesWith], fun _ => by simp⟩, by simp [touchesWith]⟩
      · exact ⟨⟨.inl (by simp [hk]), loose_of_ne (by simpa using hgt), fun _ => by simp⟩,
          fun ht => hlt (by simpa using ht.2)⟩
    · have hsep' : sep = [space, Fragment.op op, space] ∨ sep = [Fragment.op op] ∧ ¬ op = .gt :=
        hsep.imp_right fun h => ⟨h.1, h.2.1⟩
      obtain ⟨right', e₂, u₁, hrun, he₂, hsame, hc⟩ := shows_chainStep level e₁ hfix hle hsep'
        (opens_layout (hr.leading.chain hle' hright) hopen depth)
        (fun hu => hr.chain hle' hs.advance hright depth header' _ _ ha' hmeets hu) hu
      have hj' := Alike.joined? op he hsame
      rw [hj, he₂] at hj'
      obtain ⟨e₁', u', hgrow, hsame', hc'⟩ := hread hj' hc
      exact ⟨e₁', u', .next hrun hgrow, hsame', hc'⟩

variable (hin : G.Under G₂) (hr₂ : g.Replayed G₂ limit room limit' room₂)
include hin hr₂

theorem rereads_chainBody {e : Expr} {level : Nat} (hl : level ≤ leadingLevel) (hs : Ready s)
    (h : (chainBody g header level).run s = (.ok e, s')) : RereadsExpr (chainBody G · level) header e s' := by
  intro depth header' u f ha hf hu
  obtain ⟨first, s₁, hu₀, -, hc, -⟩ := chained_of_chainBody hr.settled hr.forms hl h
  obtain ⟨rest, hlay, hrest⟩ := rereads_chained hr hc (keeps_unaryBody hr.settled hr.keeping hs hu₀) depth
  rw [hlay, tokens_append] at ha
  rw [hlay, List.append_assoc] at hu
  obtain ⟨hmeets, hread⟩ := hrest ha.of_append.2 hf
  obtain ⟨first', u₁, hrun, hsame, hc₁⟩ :=
    rereads_unaryBody hr hin hr₂ hs hu₀ depth header' u _ ha.of_append.1 hmeets hu
  obtain ⟨e', u', hgrow, hsame', hc'⟩ := hread hsame hc₁
  exact ⟨e', u', (chainBody_ok hr.settled').2 ⟨first', u₁, hrun, hgrow⟩, hsame', hc'⟩

/-- Whole expressions are read again. -/
theorem rereads_expressionBody {e : Expr} (hs : Ready s) (h : (expressionBody g header).run s = (.ok e, s')) :
    RereadsExpr (expressionBody G) header e s' := by
  intro depth header' u f ha hf hu
  obtain ⟨condition, s₁, hc, ⟨hk, rfl, rfl⟩ | ⟨hk, chosen, s₂, alternative, hch, hcolon, halt, rfl⟩⟩ :=
    expressionBody_ok.1 h
  · obtain ⟨e', u', hrun, hsame, hc'⟩ := rereads_chainBody hr hin hr₂ (by decide) hs hc depth header' u f ha hf hu
    refine ⟨e', u', expressionBody_ok.2 ⟨e', u', hrun, .inl ⟨?_, rfl, rfl⟩⟩, hsame, hc'⟩
    rw [hf.peek hc']
    exact hf.ne hk rfl
  · obtain ⟨-, -, -, -, -, hformed⟩ := chained_of_chainBody hr.settled hr.forms (by decide) hc
    have hclosed : condition.endsOpen = false := by
      by_contra ho
      exact (hformed.ends (by simpa using ho)).question hk
    rw [conditional_layout hformed.level_le hclosed] at ha hu
    simp only [List.append_assoc, List.cons_append, tokens_append, tokens_token, tokens_space] at ha hu
    have hs₁ := keeps_chainBody hr.settled hr.keeping 1 hs hc
    obtain ⟨condition', u₁, hrun, hsame, hc₁⟩ := rereads_chainBody hr hin hr₂ (by decide) hs hc depth header' u _
      ha.of_append.1 (.of_space ⟨.inl (by simp [hk]), loose_of_ne (by simp), fun _ => by simp⟩) hu
    have ha₁ := (@Admits.of_append _ _ [.punctuation .question] _ ha.of_append.2).2
    have hchosen : ∀ e ∈ chosen, (∃ k ks, tokens (e.layout depth true) = k :: ks ∧ opensOperand true k = true) ∧
        ∀ {u : ParseState} {f : List Fragment}, next f = .punctuation .colon → Faces u (e.layout depth true ++ f) →
          ∃ e' u', (G.expression header').run u = (.ok e', u') ∧ SameExpr e e' ∧ Clear u' f := by
      rintro e rfl
      rcases consequence_ok.1 hch with ⟨-, h, -⟩ | ⟨-, c, h, he⟩
      · simp at h
      · obtain rfl := Option.some.inj h
        simp only [tokens_append] at ha₁
        exact ⟨((hr.leading.expression he).begins depth).opens, fun hf hu => hr.expression hs₁.advance he depth
          header' _ _ ha₁.of_append.1.of_append.1 (.of_closes (by rw [hf]; rfl) fun _ => by simp [hf]) hu⟩
    have hs₂ : Ready s₂ := by
      rcases consequence_ok.1 hch with ⟨-, -, rfl⟩ | ⟨-, c, -, he⟩
      · exact hs₁.advance
      · exact hr.keeping.expression header hs₁.advance he
    obtain ⟨span', chosen', alternative', u', hrun', hrel, hsame', hc'⟩ := shows_conditional hrun hc₁ hchosen
      fun hu => hr.expression hs₂.advance halt depth header' _ f
        (@Admits.of_append _ _ [.punctuation .colon] _ ha₁.of_append.2).2 hf hu
    refine ⟨_, u', hrun', ?_, hc'⟩
    have hcond : condition.mapSpans noSpan = condition'.mapSpans noSpan := hsame
    have halt : alternative.mapSpans noSpan = alternative'.mapSpans noSpan := hsame'
    rcases optionRel_iff.1 hrel with ⟨rfl, rfl⟩ | ⟨c, c', rfl, rfl, hc⟩
    · exact congrArg₂ (Expr.conditional .zero · none ·) hcond halt
    · have hc : c.mapSpans noSpan = c'.mapSpans noSpan := hc
      change Expr.conditional .zero _ (some _) _ = Expr.conditional .zero _ (some _) _
      rw [hcond, halt, hc]

end

end Parser

end ElleFrontEnd
