import ElleFrontEnd.Proofs.ReadBackChain
import ElleFrontEnd.Proofs.RoundTrip

/-!
# Printed trees in a program

The text of a tree that was built by hand, as the value of a variable in a function, is read as the same tree up to
stretches and nodes for parentheses (`print_readBack`), if no operand in parentheses of it is taken for the type of a
cast (`Expr.Castless`).  Where one is, another tree is read: the product of `a` and an empty array, with a subscript
behind it, is printed as `(a * [])[i]`, which is a cast of the array `[i]` (`print_not_readBack`).
-/

namespace ElleFrontEnd

open Fragment ElleFrontEnd.Parser

/-- The fragments of `bindingSource`. -/
def boundLayout (value : List Fragment) : List Fragment :=
  word .fn :: space :: ofName "m" :: (parens [] ++ space :: mark .lBrace :: space :: word .letKw :: space ::
    ofName "v" :: space :: Fragment.op .eq :: space :: (value ++ [mark .semicolon, space, mark .rBrace]))

theorem render_append (indent : Nat) (f g : List Fragment) :
    render indent (f ++ g) = render indent f ++ render indent g := by
  rw [render, List.map_append, String.join_append]
  rfl

theorem render_boundLayout (value : List Fragment) :
    render ({} : LayoutConfig).indent (boundLayout value) =
      bindingSource (render ({} : LayoutConfig).indent value) := by
  have hfront : render ({} : LayoutConfig).indent (word .fn :: space :: ofName "m" :: (parens [] ++
      [space, mark .lBrace, space, word .letKw, space, ofName "v", space, Fragment.op .eq, space])) =
        "fn m() \x7b let v = " := by decide +kernel
  have hback : render ({} : LayoutConfig).indent [mark .semicolon, space, mark .rBrace] = "; \x7d" := by
    decide +kernel
  have hparts : boundLayout value = (word .fn :: space :: ofName "m" :: (parens [] ++
      [space, mark .lBrace, space, word .letKw, space, ofName "v", space, Fragment.op .eq, space])) ++
        (value ++ [mark .semicolon, space, mark .rBrace]) := rfl
  rw [hparts, render_append, render_append, hfront, hback]
  exact String.append_assoc.symm

/-- The text around a value does not run into it. -/
theorem legible_boundLayout {value : List Fragment} (h : ∀ f, AfterWord f → Legible (value ++ f)) :
    Legible (boundLayout value) := by
  have hm : (TokenKind.ident "m").Legible := legible_of_lexemeAt (show (lexemeAt 'm' []).token = _ by decide)
  have hv : (TokenKind.ident "v").Legible := legible_of_lexemeAt (show (lexemeAt 'v' []).token = _ by decide)
  have hend : Legible [mark .semicolon, space, mark .rBrace] := legible_mark_space.2 ((legible_mark rfl).2 trivial)
  have hvalue : Legible (Fragment.op .eq :: space :: (value ++ [mark .semicolon, space, mark .rBrace])) :=
    legible_op_space.2 (h _ (afterWord_mark.2 hend))
  have hbody : Legible (mark .lBrace :: space :: word .letKw :: space :: ofName "v" :: space :: Fragment.op .eq ::
      space :: (value ++ [mark .semicolon, space, mark .rBrace])) :=
    legible_mark_space.2 (legible_word.2 (afterWord_space.2 ((legible_ofName hv).2 (afterWord_space.2 hvalue))))
  exact legible_word.2 (afterWord_space.2 ((legible_ofName hm).2 (afterWord_mark.2
    (legible_parens (fun f (hf : AfterType f) => hf.1) (legible_space.2 hbody)))))

namespace Parser

variable {G : Inner} {R : Expr → Prop} {c f : List Fragment} {u : ParseState}

/-- A variable is declared with the value that is read behind its name. -/
theorem reads_letStatement (hg : G.Settled) {n : String}
    (hread : ∀ {u : ParseState}, Faces u (c ++ mark .semicolon :: f) →
      ReadsAs (G.expression false) R u (mark .semicolon :: f))
    (hu : Faces u (word .letKw :: space :: ofName n :: space :: Fragment.op .eq :: space ::
      (c ++ mark .semicolon :: f))) :
    ReadsAs (Parser.statement G) (fun statement => ∃ e, statement.boundValue? = some e ∧ R e) u f := by
  obtain ⟨hk, hc⟩ := hu.word
  obtain ⟨hn, hc⟩ := hc.space.name
  obtain ⟨heq, hc⟩ := hc.space.op (by simp)
  obtain ⟨e, u', hrun, hR, hc⟩ := hread hc.space
  obtain ⟨hend, hc⟩ := hc.faces.mark
  have hinit : (initializer G false).run u.advance.advance = (.ok (some e), u') :=
    initializer_ok.2 (.inl ⟨heq, e, rfl, hrun⟩)
  have hbinding := (binding?_some hg).2 (.inl ⟨hk, n, some e, hn, hinit, rfl⟩)
  have hsimple := (simpleStatement_ok hg).2 (.inl ⟨_, hbinding, rfl⟩)
  have hform : (statementForm G).run u = (.ok _, u'.advance) := statementForm_ok.2
    (.inr (.inr (.inr (.inr (.inr (.inr (.inr (.inr ⟨by rw [hk]; rfl, u', hsimple, hend, rfl⟩))))))))
  exact ⟨_, _, statement_ok.2 ⟨_, hform, rfl⟩, ⟨e, rfl, hR⟩, hc⟩

/-- A block on one line that declares a variable begins with its value. -/
theorem reads_binding (o : ParseOptions) (room : Nat) {n : String}
    (hread : ∀ {u : ParseState} {f : List Fragment}, Faces u (c ++ mark .semicolon :: f) →
      ReadsAs ((Inner.ofRoom o room).expression false) R u (mark .semicolon :: f))
    (hu : Faces u (mark .lBrace :: space :: word .letKw :: space :: ofName n :: space :: Fragment.op .eq :: space ::
      (c ++ mark .semicolon :: space :: mark .rBrace :: f))) :
    ReadsAs (Inner.ofRoom o (room + 1)).block (fun b => ∃ e, b.firstValue? = some e ∧ R e) u f := by
  have hg := settled_ofRoom o room
  obtain ⟨hk, hc⟩ := hu.mark
  obtain ⟨hlet, -⟩ := hc.space.word
  obtain ⟨statement, u', hrun, ⟨e, he, hR⟩, hc'⟩ := reads_letStatement hg hread hc.space
  obtain ⟨hclose, hc'⟩ := hc'.space.mark
  have hstatements : Statements (.ofRoom o room) u.advance [statement] u'.advance :=
    .cons (by simp [hlet]) (by simp [hlet]) (by rw [ParseState.atEnd, hlet]; rfl) hrun (.nil hclose)
  exact ⟨_, _, (blockBody_ok hg hc'.fragments.clean).2 ⟨hk, _, hstatements, rfl⟩, ⟨e, he, hR⟩, hc'⟩

/-- A function without parameters is declared with the block that is read behind its parentheses. -/
theorem reads_function (hg : G.Settled) {n : String} {P : Block → Prop}
    (hread : ∀ {u : ParseState}, Faces u (mark .lBrace :: c) → ReadsAs G.block P u f)
    (hu : Faces u (word .fn :: space :: ofName n :: (parens [] ++ space :: mark .lBrace :: c))) :
    ReadsAs (declaration G) (fun d => ∃ span decl b, d = .function span decl ∧ decl.body = some b ∧ P b) u f := by
  obtain ⟨hk, hc⟩ := hu.word
  obtain ⟨hn, hc⟩ := hc.space.name
  have hparen : u.advance.advance.peek.kind = .punctuation .lParen := hc.faces.mark.1
  obtain ⟨u₁, hparams, hc₁⟩ := reads_noParams hg hc.faces
  have hbrace : u₁.peek.kind = .punctuation .lBrace := hc₁.space.mark.1
  obtain ⟨b, u', hrun, hP, hc'⟩ := hread hc₁.space
  have hname : declName.run u.advance = (.ok (.plain _ n), u.advance.advance) :=
    declName_ok.2 (.inr ⟨n, hn, .inr ⟨by simp [hparen], rfl, rfl⟩⟩)
  have hdecl : (functionDecl G []).run u = (.ok ⟨[], .plain _ n, [], ⟨none, []⟩, [], none, some b⟩, u') :=
    (functionDecl_ok hg).2 ⟨hk, rfl, _, _, u₁, u₁, u₁, hname, typeParams_ok.2 (.inr ⟨by simp [hparen], rfl, rfl⟩),
      hparams, .nil (by simp [hbrace]), returnType_ok.2 (.inr ⟨by simp [hbrace], rfl, rfl⟩),
      functionBody_ok.2 (.inl ⟨hbrace, rfl, b, rfl, hrun⟩)⟩
  have hform : (modifiedForm G).run u = (.ok _, u') :=
    modifiedForm_ok.2 ⟨[], u, .nil (by simp [hk]) (by rw [hk]; rfl), .inl ⟨hk, _, hdecl, rfl⟩⟩
  exact ⟨_, u', declaration_ok.2 ⟨_, declarationForm_of_modifiedForm hform, rfl⟩, ⟨_, _, b, rfl, rfl, hP⟩, hc'⟩

end Parser

/-- A program of one declaration. -/
theorem parseTokens_of_declaration {ts : List Token} {o : ParseOptions} {k : Keyword} {f : List Fragment}
    {d : Declaration} {s : ParseState} (hu : Faces { rest := ts } (word k :: f))
    (h : (declaration (.ofRoom o o.maxDepth)).run { rest := ts } = (.ok d, s)) (hend : Clear s []) :
    parseTokens ts o = .ok ⟨[d]⟩ := by
  have hfirst := hu.word.1
  have hlast : s.peek.kind = .eof := hend.fragments.peek_of_loose hend.owed (loose_of_ne (by simp))
  refine parseTokens_ok.2 ⟨s, hend.fragments.clean, .cons ?_ (by simp [hfirst]) h (.nil ?_)⟩
  · rw [ParseState.atEnd, hfirst]
    rfl
  · rw [ParseState.atEnd, hlast]
    rfl

/-- The text of a legible value in a function is lexed as the tokens of its fragments. -/
theorem lex_bindingSource {c : List Fragment} (hc : ∀ f, AfterWord f → Legible (c ++ f)) {source : String}
    (hsource : source = bindingSource (render ({} : LayoutConfig).indent c)) :
    tokenize source = .ok (lex source).tokens ∧ Faces { rest := (lex source).tokens } (boundLayout c) := by
  obtain ⟨hmarks, -, herrors⟩ := lex_render ({} : LayoutConfig).indent (legible_boundLayout hc)
  rw [render_boundLayout, ← hsource] at hmarks herrors
  refine ⟨?_, .inr (.of_marksOf rfl rfl hmarks)⟩
  rw [tokenize, herrors]
  rfl

/-- A function whose first variable has a value that is read from its fragments. -/
theorem parseTokens_bound {ts : List Token} {o : ParseOptions} {room : Nat} {c : List Fragment} {R : Expr → Prop}
    (hroom : o.maxDepth = room + 2) (hts : Faces { rest := ts } (boundLayout c))
    (hread : ∀ {u : ParseState} {f : List Fragment}, Faces u (c ++ mark .semicolon :: f) →
      ReadsAs ((Inner.ofRoom o (room + 1)).expression false) R u (mark .semicolon :: f)) :
    ∃ p value, parseTokens ts o = .ok p ∧ p.firstValue? = some value ∧ R value := by
  have hblock {u : ParseState} (hu : Faces u (mark .lBrace :: (space :: word .letKw :: space :: ofName "v" :: space ::
      Fragment.op .eq :: space :: (c ++ [mark .semicolon, space, mark .rBrace])))) :
      ReadsAs (Inner.ofRoom o (room + 2)).block (fun b => ∃ v, b.firstValue? = some v ∧ R v) u [] :=
    reads_binding o (room + 1) hread hu
  obtain ⟨_, u', hrun, ⟨span, decl, b, rfl, hbody, v, hv, hR⟩, hend⟩ :=
    reads_function (settled_ofRoom o (room + 2)) hblock hts
  rw [← hroom] at hrun
  refine ⟨_, v, parseTokens_of_declaration hts hrun hend, ?_, hR⟩
  simp [Program.firstValue?, Declaration.firstValue?, hbody, hv]

/-- The text of a lawful tree that was built by hand is read as the value of a variable: as the same tree, but for
stretches and nodes for parentheses, where twice the nesting of the tree is allowed. -/
theorem print_readBack {e : Expr} (hb : e.HandBuilt) (hl : e.Lawful) (hw : e.outline.Legible)
    (hc : e.Castless true false) : ∃ tokens, tokenize (bindingSource e.print) = .ok tokens ∧
      ∀ o : ParseOptions, 2 * e.height 1 + 2 ≤ o.maxDepth → ∃ p value, parseTokens tokens o = .ok p ∧
        p.firstValue? = some value ∧ SameExpr e value.ungrouped := by
  obtain ⟨hlex, hfaces⟩ := lex_bindingSource (fun f hf => e.legible_layout 0 hl hw true f hf) rfl
  refine ⟨_, hlex, fun o hdepth => ?_⟩
  obtain ⟨room, hroom⟩ : ∃ r, o.maxDepth = r + 2 := ⟨o.maxDepth - 2, by omega⟩
  exact parseTokens_bound hroom hfaces fun hu =>
    (e.readBack o hb hl).expression rfl (by simp) ⟨by omega, hc⟩ hu

/-- A sum with a lambda at its right edge. -/
def crowdedSum : Expr :=
  .binary .zero (.ident .zero "a") .add (.unary .zero .neg (.lambda .zero ⟨none, []⟩ (.ident .zero "x")))

/-- A product of the sum and of a cast by a bare name, whose operand begins like an operator. -/
def crowdedOperands : Expr :=
  .binary .zero crowdedSum .mul (.cast .zero (.named .zero "T") (.unary .zero .neg (.ident .zero "b")))

theorem print_readBack_crowded : crowdedOperands.print = "(a + -fn() x) * (T) (-b)" ∧
    ∃ tokens, tokenize (bindingSource crowdedOperands.print) = .ok tokens ∧
      ∀ o : ParseOptions, 12 ≤ o.maxDepth → ∃ p value, parseTokens tokens o = .ok p ∧
        p.firstValue? = some value ∧ SameExpr crowdedOperands value.ungrouped := by
  have hname : ∀ n ∈ ["a", "b", "x", "T"], (TokenKind.ident n).Legible := by
    have ha := legible_of_lexemeAt (show (lexemeAt 'a' []).token = some (.ident "a") by decide)
    have hb := legible_of_lexemeAt (show (lexemeAt 'b' []).token = some (.ident "b") by decide)
    have hx := legible_of_lexemeAt (show (lexemeAt 'x' []).token = some (.ident "x") by decide)
    have hT := legible_of_lexemeAt (show (lexemeAt 'T' []).token = some (.ident "T") by decide)
    simp [ha, hb, hx, hT]
  have hb : crowdedOperands.HandBuilt := ⟨⟨trivial, ⟨rfl, rfl⟩, trivial⟩, trivial⟩
  have hl : crowdedOperands.Lawful := ⟨⟨trivial, by simp [ParamList.Lawful], trivial⟩, trivial, trivial⟩
  have hw : crowdedOperands.outline.Legible := by
    simp only [List.forall_mem_cons] at hname
    simp [crowdedOperands, crowdedSum, Expr.outline, TypeExpr.outline, hname, ParamList.words, ParamList.outlines,
      outlinesLegible, nameWords]
  have hsum : ¬ LooksLikeType (crowdedSum.layout 0 true) := by
    rintro ⟨n, ks, hks, hskim⟩
    have htokens : tokens (crowdedSum.layout 0 true) = .ident "a" :: _ := rfl
    obtain ⟨-, rfl⟩ := List.cons.inj (hks.symm.trans htokens)
    exact absurd hskim (by decide)
  have hcastless : crowdedOperands.Castless true false := by
    refine ⟨?_, trivial⟩
    rw [castlessOperand, if_pos (by decide)]
    exact ⟨⟨trivial, trivial⟩, fun _ => hsum⟩
  obtain ⟨tokens, hlex, hread⟩ := print_readBack hb hl hw hcastless
  exact ⟨by decide +kernel, tokens, hlex, fun o ho => hread o ho⟩

/-! ### A tree that is read as another -/

/-- The product of `a` and an empty array, with a subscript behind it. -/
def arrayProductAt : Expr :=
  .subscript .zero (.binary .zero (.ident .zero "a") .mul (.array .zero none false [])) (.ident .zero "i")

/-- A name, a star and a pair of brackets are read as a type, also with spaces between them. -/
theorem reads_arrayOfPointers {limit room : Nat} {n : String} {u : ParseState} {f : List Fragment}
    (hu : Faces u (ofName n :: space :: Fragment.op .star :: space :: mark .lBracket :: mark .rBracket ::
      mark .rParen :: f)) :
    ∃ span t u', (typeExpr limit (room + 1) 0).run u = (.ok (.array span t 1), u') ∧ Clear u' (mark .rParen :: f) := by
  obtain ⟨hname, hc₁⟩ := hu.name
  obtain ⟨hstar, hc₂⟩ := hc₁.space.op (by simp)
  obtain ⟨hopen, hc₃⟩ := hc₂.space.mark
  obtain ⟨hclose, hc₄⟩ := hc₃.faces.mark
  have hend := hc₄.faces.mark.1
  have hbrackets : u.advance.advance.atBrackets :=
    ⟨hopen, by rw [ParseState.kindAt_one (by simp [hopen]), hclose]⟩
  have hbase : (baseType (typeExpr limit room) 0 u.peek.span.start).run u = (.ok (.named _ n), u.advance) :=
    baseType_ok.2 (.inr (.inl ⟨n, hname, namedType_ok.2 (.inr ⟨by simp [hstar], rfl, rfl⟩)⟩))
  have hstars : starRun.run u.advance = (.ok 1, u.advance.advance) :=
    starRun_ok.2 (.next hstar (.stop (by simp [hopen])))
  have hpairs : bracketRun.run u.advance.advance = (.ok 1, u.advance.advance.advance.advance) :=
    bracketRun_ok.2 (.next hbrackets (.stop fun h => absurd h.1 (by simp [hend])))
  have hstop : u.advance.advance.advance.advance.peek.kind ≠ .operator .star ∧
      ¬ u.advance.advance.advance.advance.atBrackets :=
    ⟨by simp [hend], fun h => absurd h.1 (by simp [hend])⟩
  exact ⟨_, _, _, typeExpr_ok.2 ⟨room, rfl, typeBody_ok.2 ⟨_, _, hbase,
    .next (typeSuffix_some.2 ⟨hc₁.owed, .inl ⟨hstar, 1, hstars, rfl⟩⟩)
      (.next (typeSuffix_some.2 ⟨hc₂.owed, .inr ⟨by simp [hopen], hbrackets, 1, hpairs, rfl⟩⟩)
        (.stop (typeSuffix_none.2 ⟨.inr hstop, rfl⟩)))⟩⟩, hc₄⟩

/-- `(a * [])` is taken for the type of a cast where an array follows. -/
theorem reads_arrayProductAt (o : ParseOptions) (room : Nat) {u : ParseState} {f : List Fragment}
    (hu : Faces u (arrayProductAt.layout 0 true ++ mark .semicolon :: f)) :
    ReadsAs ((Inner.ofRoom o (room + 6)).expression false) (fun e => ∃ span type operand, e = .cast span type operand) u
      (mark .semicolon :: f) := by
  have hlayout : arrayProductAt.layout 0 true = mark .lParen :: ofName "a" :: space :: Fragment.op .star :: space ::
      mark .lBracket :: mark .rBracket :: mark .rParen ::
        (Expr.array .zero none false [.ident .zero "i"]).layout 0 true := rfl
  rw [hlayout] at hu
  simp only [List.cons_append] at hu
  obtain ⟨hk, hc⟩ := hu.mark
  obtain ⟨span, t, u₁, htype, hc₁⟩ :
      ∃ span t u₁, (typeExpr o.maxDepth (room + 5) 0).run u.advance = (.ok (.array span t 1), u₁) ∧ Clear u₁ _ :=
    reads_arrayOfPointers hc.faces
  obtain ⟨hend, hc₂⟩ := hc₁.faces.mark
  have hcast : (castType (.ofRoom o (room + 5))).run u.advance = (.ok (.array span t 1), u₁.advance) :=
    castType_ok.2 ⟨u₁, htype, hend, rfl⟩
  have hopens : opensOperand true u₁.advance.peek.kind = true := by
    have hbracket := hc₂.faces.mark.1
    rw [hbracket]
    rfl
  have hreadable : (Expr.array .zero none false [.ident .zero "i"]).Readable (room + 4) true (mark .semicolon :: f) :=
    ⟨Nat.le_add_left _ _, trivial, trivial⟩
  have harray : (Expr.array .zero none false [.ident .zero "i"]).ReadBack o :=
    Expr.readBack o _ ⟨trivial, trivial⟩ ⟨by simp [optTypeLawful], trivial, trivial⟩
  obtain ⟨operand, u', hrun, -, hc'⟩ :=
    harray.unary (by decide) (fun _ => rfl) hreadable (.of_closes rfl (by simp)) hc₂.faces
  have hwhole : ReadsAs (unaryBody (.ofRoom o (room + 5)) false) (fun e => ∃ span type operand,
      e = .cast span type operand) u (mark .semicolon :: f) :=
    ⟨_, u', (unaryBody_ok (settled_ofRoom o (room + 5))).2 (.inr (.inr (.inl ⟨hk,
      (cast?_some (settled_ofRoom o (room + 5))).2 ⟨_, _, operand, hcast, hopens, hrun, rfl⟩⟩))), ⟨_, _, _, rfl⟩, hc'⟩
  exact ReadsChain.expression (settled_ofRoom o (room + 5)) (.of_readsAs hwhole) rfl

/-- A tree that was built by hand is not always read back, however much nesting is allowed. -/
theorem print_not_readBack : ¬ ∀ e : Expr, e.HandBuilt → e.Lawful → e.outline.Legible →
    ∃ tokens, tokenize (bindingSource e.print) = .ok tokens ∧ ∃ depth, ∀ o : ParseOptions, depth ≤ o.maxDepth →
      ∃ p value, parseTokens tokens o = .ok p ∧ p.firstValue? = some value ∧ SameExpr e value.ungrouped := by
  intro h
  have ha : (TokenKind.ident "a").Legible := legible_of_lexemeAt (show (lexemeAt 'a' []).token = _ by decide)
  have hi : (TokenKind.ident "i").Legible := legible_of_lexemeAt (show (lexemeAt 'i' []).token = _ by decide)
  have hb : arrayProductAt.HandBuilt := ⟨⟨trivial, trivial⟩, trivial⟩
  have hl : arrayProductAt.Lawful := ⟨⟨trivial, by simp [optTypeLawful], trivial⟩, trivial⟩
  have hw : arrayProductAt.outline.Legible := by
    simp [arrayProductAt, Expr.outline, exprListOutlines, optTypeOutlines, ha, hi]
  obtain ⟨hlex, hfaces⟩ := lex_bindingSource (fun f hf => arrayProductAt.legible_layout 0 hl hw true f hf) rfl
  obtain ⟨tokens, hlex', depth, hread⟩ := h arrayProductAt hb hl hw
  obtain rfl := Except.ok.inj (hlex'.symm.trans hlex)
  obtain ⟨p, value, hp, hv, hsame⟩ := hread { maxDepth := depth + 7 } (Nat.le_add_right depth 7)
  obtain ⟨p', _, hp', hv', span, type, operand, rfl⟩ := parseTokens_bound (o := { maxDepth := depth + 7 }) rfl hfaces
    (reads_arrayProductAt _ depth)
  obtain rfl := Except.ok.inj (hp.symm.trans hp')
  obtain rfl := Option.some.inj (hv.symm.trans hv')
  have hsame : arrayProductAt.mapSpans noSpan = (Expr.cast span type operand.ungrouped).mapSpans noSpan := hsame
  simp [arrayProductAt, Expr.mapSpans] at hsame

end ElleFrontEnd
