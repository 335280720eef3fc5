import ElleFrontEnd.Proofs.BoundValues
import ElleFrontEnd.Proofs.ConveyProgram
import ElleFrontEnd.Proofs.Trial

/-!
# Nodes are their texts

What a source reads at the stretch of a node is the node again: an expression as the value of a variable, a type on its
own.  For a type this holds just where the `<` and `>` of the text are balanced (`nodes_readBack`).  A list of type
arguments that is closed by the first half of a `>>` covers both halves.
-/

namespace ElleFrontEnd

open ElleFrontEnd.Parser (typeExpr)

variable {source : String} {limit : Nat} {e : Expr} {t : TypeExpr}

/-! ### Expressions -/

/-- The text is read back as the expression where just so many levels are allowed and, where levels are ample, wherever
enough are. -/
def Expr.IsText (e : Expr) (text : String) (ample : Prop) : Prop :=
  (∃ depth, ∀ o : ParseOptions, o.maxDepth = depth → e.ReadsBack text o) ∧
    (ample → ∃ depth, ∀ o : ParseOptions, depth ≤ o.maxDepth → e.ReadsBack text o)

theorem Expr.isText_of_cuts {text : String} {room : Nat} {cuts : List Cut} {ample : Prop}
    (hcuts : CutsAs text.toList cuts bindingBack)
    (h : ReadsCuts ((Inner.ofRoom ⟨limit, false⟩ room).expression false) cuts bindingBack (SameExpr e))
    (hample : ample → tokenCount cuts + 3 < room) : e.IsText text ample :=
  ⟨⟨room + 1, fun o ho => Expr.readsBack_of_cuts hcuts h (by omega) (.inl ho)⟩, fun ha => ⟨tokenCount cuts + 5,
    fun o ho => Expr.readsBack_of_cuts hcuts h (by omega) (.inr ⟨hample ha, by omega⟩)⟩⟩

/-- Before a value, no `;` belongs to it. -/
theorem cutsAs_of_excerpt {part : List Char} {used : List Token} {place : Place} {cuts : List Cut}
    (h : IsExcerpt part used place cuts) : CutsAs part cuts bindingBack where
  taken := h.taken
  faults := h.faults
  lexed := by
    have hback : bindingBack.flatMap Cut.taken = ';' :: " \x7d".toList := flatMap_taken_lexemes _
    rw [hback, h.again (by decide)]
    rfl

theorem tokenCount_of_tokens {used : List Token} {place : Place} {cuts : List Cut}
    (h : ∀ cuts', (placed place (cuts ++ cuts')).tokens =
      used ++ (placed (place.after (cuts.flatMap Cut.taken)) cuts').tokens) : tokenCount cuts = used.length := by
  have hkinds := congrArg List.length (kinds_placed place (cuts ++ []))
  rw [h, List.append_nil] at hkinds
  simpa [placed, tokenCount, eq_comm] using hkinds

theorem firstKind?_bindingBack : firstKind? bindingBack = some (.punctuation .semicolon) := by
  rw [firstKind?, kinds_bindingBack]
  rfl

theorem inert_bindingBack (place : Place) : Inert (placed place bindingBack).tokens := by
  intro t ht
  obtain ⟨ts, hts⟩ := List.head?_eq_some_iff.1 ht
  have hpeek := peek_placed place none bindingBack
  rw [ParseState.peek_cons hts, firstKind?_bindingBack] at hpeek
  exact .inl hpeek

/-- A parser that stops at its first failure records nothing. -/
theorem Resumes.errors {α : Type} {p q : Parser α} (h : Resumes p q) {s s' : ParseState} {r : Except Diagnostic α}
    (hr : p.run s = (r, s')) : s'.errors = s.errors := by
  have := h s
  change Resumed s (p.run s) _ at this
  rw [hr] at this
  generalize q s = y at this
  cases this with
  | same silent => exact silent
  | later silent _ => exact silent

theorem Expr.Recurs.isText {ample : Prop} (herrors : (lex source).errors = [])
    (h : e.Recurs limit (lex source).tokens ample) :
    ∃ text : String, e.span.Holds source.toList text.toList ∧ e.IsText text ample := by
  obtain ⟨room, used, s, s', hstretch, hroomy, ho, hrun⟩ := h
  obtain ⟨part, place, cuts, hholds, hpart⟩ := hstretch.excerpt herrors
  have hread := hrun _ (inert_bindingBack (place.after (cuts.flatMap Cut.taken)))
  have hclean : s'.errors = [] := (((resuming_ofRoom limit room).expression false).errors hread).trans hroomy.clean
  have hcuts := hstretch.readsCuts ho hclean (hpart.tokens_eq bindingBack) (Parser.Restarts.expression limit room)
    (fun ts us hl => (steady_ofRoom hl _ _).expression false) hread
  refine ⟨String.ofList part, by rwa [String.toList_ofList],
    Expr.isText_of_cuts (by rw [String.toList_ofList]; exact cutsAs_of_excerpt hpart) hcuts fun hample => ?_⟩
  have hlength := hroomy.room hample
  rw [hstretch.passes.rest, List.length_append] at hlength
  rw [tokenCount_of_tokens hpart.tokens_eq]
  omega

/-- A stretch without its first `&`. -/
theorem Span.Holds.behind_amp {text part : List Char} {start stop : Nat}
    (h : Span.Holds text ⟨start, stop⟩ ('&' :: part)) :
    Span.Holds text ⟨start + 1, stop⟩ part := by
  obtain ⟨before, rest, rfl, hspan⟩ := h
  obtain ⟨rfl, rfl⟩ := Span.mk.inj hspan
  refine ⟨before ++ ['&'], rest, by simp, ?_⟩
  have hamp : Char.utf8Size '&' = 1 := rfl
  simp only [byteLength_append, byteLength_cons, byteLength_nil, hamp]
  exact congrArg (Span.mk _) (by omega)

theorem Expr.RecursHalved.isText {ample : Prop} (herrors : (lex source).errors = [])
    (h : e.RecursHalved limit (lex source).tokens ample) :
    ∃ text : String, e.span.Holds source.toList text.toList ∧ e.IsText text ample := by
  obtain ⟨room, used, s, s', operand, hk, hopens, hstretch, hroomy, ho, rfl, hrun⟩ := h
  have hwhole : Stretch (lex source).tokens (s'.spanFrom s.start) (s.peek :: used) s s' :=
    ⟨hroomy.toAlong, hroomy.owed, (Passes.advance (by simp [hk])).trans hstretch.passes, List.cons_ne_nil _ _, rfl⟩
  obtain ⟨part, place, cuts, hholds, hpart⟩ := hwhole.excerpt herrors
  obtain ⟨cut, cuts, rfl⟩ : ∃ cut tail, cuts = cut :: tail := by
    cases cuts with
    | nil => cases hpart.lead
    | cons cut tail => exact ⟨cut, tail, rfl⟩
  have hcut : cut.lexeme.token = some (addressKind true) := hpart.lead.trans (congrArg some hk)
  have hwritten : cut.taken = ['&', '&'] :=
    ((faithful_of_mem (hpart.alone ▸ List.mem_cons_self)).written _ hcut (.inr fun parts h => by cases h)).1.symm
  have htext : part = '&' :: '&' :: cuts.flatMap Cut.taken := by
    rw [← hpart.taken, List.flatMap_cons, hwritten]
    rfl
  -- the lexemes behind the two `&` are those of the operand
  have htokens (rest : List Cut) : (placed (place.after cut.taken) (cuts ++ rest)).tokens =
      used ++ (placed ((place.after cut.taken).after (cuts.flatMap Cut.taken)) rest).tokens := by
    have := hpart.tokens_eq rest
    rw [List.cons_append, placed_cons_some hcut, List.flatMap_cons, Place.after_append] at this
    exact (List.cons.inj this).2
  have hread := hrun _ (inert_bindingBack ((place.after cut.taken).after (cuts.flatMap Cut.taken)))
  have hclean : s'.errors = [] := (((resuming_ofRoom limit room).unary false).errors hread).trans
    ((ParseState.advance_errors s).trans hroomy.clean)
  have hoperand := hstretch.readsCuts ho hclean (htokens bindingBack) (Parser.Restarts.unary limit room)
    (fun ts us hl => (steady_ofRoom hl _ _).unary false) hread
  have hfirst : Parser.opensOperand true ((firstKind? (cuts ++ bindingBack)).getD .eof) = true := by
    rw [← peek_placed (place.after cut.taken) none]
    obtain ⟨first, tail, rfl⟩ := List.exists_cons_of_ne_nil hstretch.ne_nil
    rw [ParseState.peek_cons hstretch.passes.rest] at hopens
    rwa [ParseState.peek_cons (htokens bindingBack)]
  obtain ⟨room', cuts', hcuts', -, hread', hcount⟩ :=
    exists_halved (cutsAs_of_excerpt hpart).tail (by rw [firstKind?_bindingBack]; rfl) hfirst hoperand
  refine ⟨String.ofList ('&' :: cuts.flatMap Cut.taken), ?_, Expr.isText_of_cuts
    (by rw [String.toList_ofList]; exact hcuts') (hread'.expression_of_unary firstKind?_bindingBack) fun hample => ?_⟩
  · rw [String.toList_ofList]
    rw [htext] at hholds
    exact hholds.behind_amp
  · have hlength := hroomy.room hample
    rw [hwhole.passes.rest, List.length_append, List.length_cons] at hlength
    refine hcount 3 ?_
    rw [tokenCount_of_tokens htokens]
    omega

/-! ### Types -/

/-- A text is read as the type and nothing else, up to stretches. -/
def TypeExpr.ReadsBack (t : TypeExpr) (text : String) (limit : Nat) : Prop :=
  ∃ tokens t' s', tokenize text = .ok tokens ∧ (typeExpr limit limit 0).run { rest := tokens } = (.ok t', s') ∧
    s'.atEnd = true ∧ SameType t t'

theorem tokenize_ok {text : String} {tokens : List Token} :
    tokenize text = .ok tokens ↔ (lex text).errors = [] ∧ (lex text).tokens = tokens := by
  unfold tokenize
  dsimp only
  split <;> simp_all

/-- An element that is no bracket may stand behind a sequence. -/
theorem Brackets.nests_concat {α : Type} [DecidableEq α] {b : Brackets α} {a : α} (ha : b.IsPlain a)
    (awaited as : List α) : b.nests awaited (as ++ [a]) = b.nests awaited as := by
  fun_induction b.nests awaited as <;> simp_all [Brackets.nests, Brackets.IsPlain]

theorem balanced_eof {used : List Token} {e : Token} (he : e.kind = .eof) :
    TokenKind.angles.Balanced (halvesOf (used ++ [e])) ↔ TokenKind.angles.Balanced (halvesOf used) := by
  have hplain : TokenKind.angles.IsPlain .eof := ⟨rfl, rfl⟩
  rw [← Brackets.nests_iff, ← Brackets.nests_iff, halvesOf_append, halvesOf_cons, he]
  exact Eq.to_iff (congrArg (· = true) (Brackets.nests_concat hplain _ _))

theorem halvesOf_eq_of_kinds {ts us : List Token} (h : ts.map Token.kind = us.map Token.kind) :
    halvesOf ts = halvesOf us := by
  have hkinds (ts : List Token) : halvesOf ts = (ts.map Token.kind).flatMap TokenKind.halves := by
    rw [List.flatMap_map]
    rfl
  rw [hkinds, hkinds, h]

/-- What is read up to the end of a text as a type has balanced `<` and `>`. -/
theorem TypeExpr.ReadsBack.balanced {text : String} (h : t.ReadsBack text limit) :
    TokenKind.angles.Balanced (halvesOf (lex text).tokens) := by
  obtain ⟨tokens, t', s', hlex, hrun, hend, -⟩ := h
  obtain ⟨-, used, hp, -, hangles, -⟩ := typeExpr_nests rfl hrun
  obtain ⟨ts, e, htokens, he, -, hts⟩ := (tokensLaid_lex text).ended
  obtain ⟨-, rfl⟩ := tokenize_ok.1 hlex
  rw [htokens] at hp
  have hrest := rest_of_atEnd (fun t ht => (hts t ht).1) he hp hend
  have hused : ts ++ [e] = used ++ s'.rest := hp.rest
  rw [htokens, hused, hrest]
  exact (balanced_eof he).2 hangles

theorem TypeExpr.Recurs.isText (herrors : (lex source).errors = []) (h : t.Recurs limit (lex source).tokens) :
    ∃ text : String, t.span.Holds source.toList text.toList ∧ ∀ depth, t.height 0 ≤ depth →
      (t.ReadsBack text depth ↔ TokenKind.angles.Balanced (halvesOf (lex text).tokens)) := by
  obtain ⟨room, used, s, s', hstretch, hrun⟩ := h
  obtain ⟨part, place, cuts, hholds, hpart⟩ := hstretch.excerpt herrors
  have hlex : lex (String.ofList part) = placed .start cuts := by
    rw [lex, String.toList_ofList, hpart.alone]
  refine ⟨String.ofList part, by rwa [String.toList_ofList], fun depth hdepth =>
    ⟨fun h => h.balanced, fun hangles => ?_⟩⟩
  have hkinds : (lex (String.ofList part)).tokens.map Token.kind =
      (used ++ (placed (place.after (cuts.flatMap Cut.taken)) []).tokens).map Token.kind := by
    rw [hlex, ← hpart.tokens_eq, List.append_nil, kinds_placed, kinds_placed]
  have hused : TokenKind.angles.Balanced (halvesOf used) := by
    rw [halvesOf_eq_of_kinds hkinds] at hangles
    exact (balanced_eof rfl).1 hangles
  have hread := hrun hused (placed (place.after (cuts.flatMap Cut.taken)) []).tokens fun t ht => by
    obtain rfl : _ = t := Option.some.inj ht
    exact .inr rfl
  have hfit := @Parser.typeExpr_fit depth limit depth room 0 _ _ t hread hdepth
  have hclean : s'.errors = [] := ((Parser.Silent.typeExpr limit room 0).errors_eq hread).trans hstretch.along.clean
  have ho : s'.owed = 0 := by
    rw [← ParseState.graft_owed (n := s'.rest.length) (s := s')]
    exact (typeExpr_nests ((ParseState.graft_owed).trans hstretch.owed) hread).1
  obtain ⟨t', last', hrun', hsame⟩ := hstretch.readsCuts ho hclean (hpart.tokens_eq [])
    (Parser.Starts.typeExpr depth depth 0).restarts (fun ts us hl => Alike.typeExpr hl depth depth 0) hfit .start none
  have htokenize : tokenize (String.ofList part) = .ok (lex (String.ofList part)).tokens :=
    tokenize_ok.2 ⟨by rw [hlex, errors_placed.2 hpart.faults], rfl⟩
  rw [List.append_nil, ← hlex] at hrun'
  exact ⟨_, t', _, htokenize, hrun', rfl, hsame⟩

/-! ### All nodes -/

/-- In a program that is read without errors, each node is what its stretch of the source is read as: an expression as
the value of a variable, and a type, where no pair of types goes on with a `>` owed, just where the `<` and `>` of its
text are balanced. -/
theorem nodes_readBack {source : String} {tokens : List Token} {o : ParseOptions} {p : Program}
    (hlex : tokenize source = .ok tokens) (hparse : parseTokens tokens o = .ok p) :
    (∀ e, .expr e ∈ p.nodes → ∃ text : String, e.span.Holds source.toList text.toList ∧
      (∃ depth, ∀ o' : ParseOptions, o'.maxDepth = depth → e.ReadsBack text o') ∧
        (tokens.length + 3 < o.maxDepth → ∃ depth, ∀ o' : ParseOptions, depth ≤ o'.maxDepth → e.ReadsBack text o')) ∧
    ∀ t, .type t ∈ p.nodes → PairsSettle o.maxDepth tokens →
      ∃ text : String, t.span.Holds source.toList text.toList ∧ ∀ depth, t.height 0 ≤ depth →
        (t.ReadsBack text depth ↔ TokenKind.angles.Balanced (halvesOf (lex text).tokens)) := by
  obtain ⟨herrors, rfl⟩ := tokenize_ok.1 hlex
  have hnodes := recurs_of_parseTokens hparse
  refine ⟨fun e he => ?_, fun t ht hpairs => (hnodes _ ht hpairs).isText herrors⟩
  rcases hnodes _ he with h | h
  · exact h.isText herrors
  · exact h.isText herrors

/-- Whether the node is a type at the stretch. -/
def Node.isTypeAt (span : Span) : Node → Bool
  | .type t => t.span = span
  | .expr _ => false

/-- Whether the node is an expression at the stretch. -/
def Node.isExprAt (span : Span) : Node → Bool
  | .expr e => e.span = span
  | .type _ => false

theorem exists_typeAt {nodes : List Node} {span : Span} (h : nodes.any (Node.isTypeAt span) = true) :
    ∃ t, .type t ∈ nodes ∧ t.span = span := by
  obtain ⟨node, hmem, hnode⟩ := List.any_eq_true.1 h
  cases node with
  | type t => exact ⟨t, hmem, of_decide_eq_true hnode⟩
  | expr e => cases hnode

theorem exists_exprAt {nodes : List Node} {span : Span} (h : nodes.any (Node.isExprAt span) = true) :
    ∃ e, .expr e ∈ nodes ∧ e.span = span := by
  obtain ⟨node, hmem, hnode⟩ := List.any_eq_true.1 h
  cases node with
  | type t => cases hnode
  | expr e => exact ⟨e, hmem, of_decide_eq_true hnode⟩

/-- A header with a name before the brace, and an operand with three `&` before it, two of them as one token. -/
def ampersandsSource : String := "fn f(V<A[]> x) \x7b if x == S \x7b return &&&x; \x7d \x7d"

theorem nodes_readBack_ampersands : ∃ tokens p, tokenize ampersandsSource = .ok tokens ∧
    parseTokens tokens {} = .ok p ∧
    (∃ e, .expr e ∈ p.nodes ∧ e.span = ⟨37, 40⟩ ∧ ∃ text : String, e.span.Holds ampersandsSource.toList text.toList ∧
      ∃ depth, ∀ o : ParseOptions, depth ≤ o.maxDepth → e.ReadsBack text o) ∧
    ∃ t, .type t ∈ p.nodes ∧ t.span = ⟨5, 11⟩ ∧ ∃ text : String, t.span.Holds ampersandsSource.toList text.toList ∧
      ∀ depth, t.height 0 ≤ depth →
        (t.ReadsBack text depth ↔ TokenKind.angles.Balanced (halvesOf (lex text).tokens)) := by
  have hlex : tokenize ampersandsSource = .ok (lex ampersandsSource).tokens := tokenize_ok.2 ⟨by decide +kernel, rfl⟩
  have hpairs : PairsSettle 256 (lex ampersandsSource).tokens := by decide +kernel
  have hlength : (lex ampersandsSource).tokens.length + 3 < 256 := by decide +kernel
  have hnodes : ((parseTokens (lex ampersandsSource).tokens {}).toOption.any fun p =>
      p.nodes.any (Node.isExprAt ⟨37, 40⟩) && p.nodes.any (Node.isTypeAt ⟨5, 11⟩)) = true := by decide +kernel
  rcases hparse : parseTokens (lex ampersandsSource).tokens {} with errors | p
  · simp [hparse, Except.toOption] at hnodes
  rw [hparse] at hnodes
  obtain ⟨hexpr, htype⟩ := Bool.and_eq_true_iff.1 hnodes
  obtain ⟨e, he, hspan⟩ := exists_exprAt hexpr
  obtain ⟨t, ht, hspan'⟩ := exists_typeAt htype
  obtain ⟨hexprs, htypes⟩ := nodes_readBack hlex hparse
  obtain ⟨text, hholds, -, hread⟩ := hexprs e he
  exact ⟨_, p, hlex, hparse, ⟨e, he, hspan, text, hholds, hread hlength⟩, t, ht, hspan', htypes t ht hpairs⟩

/-- Type arguments within others, both closed by one `>>`. -/
def sharedCloserSource : String := "fn f(V<A<B>> x);"

/-- The inner of two types that a `>>` closes covers it whole, and is not read back at any depth. -/
theorem nodes_not_readBack : ∃ tokens p t, tokenize sharedCloserSource = .ok tokens ∧
    parseTokens tokens {} = .ok p ∧ .type t ∈ p.nodes ∧ t.span = ⟨7, 12⟩ ∧
      t.span.Holds sharedCloserSource.toList "A<B>>".toList ∧ ∀ depth, ¬ t.ReadsBack "A<B>>" depth := by
  have hlex : tokenize sharedCloserSource = .ok (lex sharedCloserSource).tokens :=
    tokenize_ok.2 ⟨by decide +kernel, rfl⟩
  have hnodes : ((parseTokens (lex sharedCloserSource).tokens {}).toOption.any fun p =>
      p.nodes.any (Node.isTypeAt ⟨7, 12⟩)) = true := by decide +kernel
  have hangles : ¬ TokenKind.angles.Balanced (halvesOf (lex "A<B>>").tokens) := by decide +kernel
  rcases hparse : parseTokens (lex sharedCloserSource).tokens {} with errors | p
  · simp [hparse, Except.toOption] at hnodes
  rw [hparse] at hnodes
  obtain ⟨t, ht, hspan⟩ := exists_typeAt hnodes
  refine ⟨_, p, t, hlex, hparse, ht, hspan, ?_, fun depth h => hangles h.balanced⟩
  rw [hspan]
  exact ⟨"fn f(V<".toList, " x);".toList, by decide +kernel, by decide +kernel⟩

end ElleFrontEnd
