import ElleFrontEnd.Proofs.Halves
import ElleFrontEnd.Proofs.HandBuilt
import ElleFrontEnd.Proofs.RereadProgram

/-!
# The value of a variable

A text that is lexed as some lexemes, between those of `bindingSource`, is read as the value of the variable there, if
the value is read of the lexemes wherever they stand (`Expr.readsBack_of_cuts`).
-/

namespace ElleFrontEnd

open ElleFrontEnd.Parser

/-! ### The value of a variable -/

/-- The program that `bindingSource` is read as. -/
def bindingProgram (value : Expr) : Program :=
  let body : Block := .mk .zero [.varDecl .zero .letBound none "v" (some value)]
  ⟨[.function .zero ⟨[], .plain .zero "m", [], ⟨none, []⟩, [], none, some body⟩]⟩

/-- The tokens before the value in `bindingSource`. -/
def bindingKinds : List TokenKind :=
  [.keyword .fn, .ident "m", .punctuation .lParen, .punctuation .rParen, .punctuation .lBrace, .keyword .letKw,
    .ident "v", .operator .eq]

namespace Parser

variable {o : ParseOptions} {room : Nat} {s' : ParseState} {e : Expr}

theorem advance_mk (last : Option Token) {t : Token} (ts : List Token) (ht : t.kind ≠ .eof) :
    ({ last, rest := t :: ts } : ParseState).advance = { last := some t, rest := ts } := ParseState.advance_cons rfl ht

theorem peek_mk (last : Option Token) (t : Token) (ts : List Token) :
    ({ last, rest := t :: ts } : ParseState).peek = t := ParseState.peek_cons rfl

/-- A block that declares a variable. -/
theorem block_binding {t₅ t₆ t₇ t₈ : Token} {ts : List Token} {last : Option Token}
    (h₅ : t₅.kind = .punctuation .lBrace) (h₆ : t₆.kind = .keyword .letKw) (h₇ : t₇.kind = .ident "v")
    (h₈ : t₈.kind = .operator .eq)
    (hread : ((Inner.ofRoom o room).expression false).run { last := some t₈, rest := ts } = (.ok e, s'))
    (hend : s'.peek.kind = .punctuation .semicolon) (hclose : s'.advance.peek.kind = .punctuation .rBrace)
    (he : s'.errors = []) : ∃ span span',
      (Inner.ofRoom o (room + 1)).block.run { last, rest := t₅ :: t₆ :: t₇ :: t₈ :: ts } =
        (.ok (.mk span [.varDecl span' .letBound none "v" (some e)]), s'.advance.advance) := by
  have hg := settled_ofRoom o room
  have hinit : (initializer (Inner.ofRoom o room) false).run { last := some t₇, rest := t₈ :: ts } =
      (.ok (some e), s') := by
    refine initializer_ok.2 (.inl ⟨by rw [peek_mk, h₈], e, rfl, ?_⟩)
    rwa [advance_mk _ _ (by simp [h₈])]
  have hbinding : (binding? (Inner.ofRoom o room) false).run { last := some t₅, rest := t₆ :: t₇ :: t₈ :: ts } =
      (.ok (some (.variable .letBound none "v" (some e))), s') := by
    refine (binding?_some hg).2 (.inl ⟨by rw [peek_mk, h₆], "v", some e, ?_, ?_, rfl⟩)
    · rw [advance_mk _ _ (by simp [h₆]), peek_mk, h₇]
    · rwa [advance_mk _ _ (by simp [h₆]), advance_mk _ _ (by simp [h₇])]
  have hform : (statementForm (Inner.ofRoom o room)).run { last := some t₅, rest := t₆ :: t₇ :: t₈ :: ts } =
      (.ok _, s'.advance) :=
    statementForm_ok.2 (.inr (.inr (.inr (.inr (.inr (.inr (.inr (.inr ⟨by rw [peek_mk, h₆]; rfl, s',
      (simpleStatement_ok hg).2 (.inl ⟨_, hbinding, rfl⟩), hend, rfl⟩))))))))
  have hstatements : ∃ span, Statements (.ofRoom o room) { last := some t₅, rest := t₆ :: t₇ :: t₈ :: ts }
      [.varDecl span .letBound none "v" (some e)] s'.advance.advance :=
    ⟨_, .cons (by simp [peek_mk, h₆]) (by simp [peek_mk, h₆]) (by rw [ParseState.atEnd, peek_mk, h₆]; rfl)
      (statement_ok.2 ⟨_, hform, rfl⟩) (.nil hclose)⟩
  obtain ⟨span, hstatements⟩ := hstatements
  rw [← advance_mk last _ (by simp [h₅])] at hstatements
  refine ⟨_, span, (blockBody_ok hg ?_).2 ⟨by rw [peek_mk, h₅], _, hstatements, rfl⟩⟩
  simpa only [ParseState.advance_errors] using he

/-- A function without parameters is declared with a block. -/
theorem declaration_of_block {g : Inner} (hg : g.Settled) {t₁ t₂ t₃ t₄ t₅ : Token} {ts : List Token} {n : String}
    {body : Block} (h₁ : t₁.kind = .keyword .fn) (h₂ : t₂.kind = .ident n) (h₃ : t₃.kind = .punctuation .lParen)
    (h₄ : t₄.kind = .punctuation .rParen) (h₅ : t₅.kind = .punctuation .lBrace)
    (hblock : g.block.run { last := some t₄, rest := t₅ :: ts } = (.ok body, s')) : ∃ span span',
      (declaration g).run { rest := t₁ :: t₂ :: t₃ :: t₄ :: t₅ :: ts } =
        (.ok (.function span ⟨[], .plain span' n, [], ⟨none, []⟩, [], none, some body⟩), s') := by
  have hname : ∃ span, declName.run { last := some t₁, rest := t₂ :: t₃ :: t₄ :: t₅ :: ts } =
      (.ok (.plain span n), { last := some t₂, rest := t₃ :: t₄ :: t₅ :: ts }) := by
    refine ⟨_, declName_ok.2 (.inr ⟨n, by rw [peek_mk, h₂], .inr ⟨?_, ?_, rfl⟩⟩)⟩
    · simp [advance_mk, peek_mk, h₂, h₃]
    · rw [advance_mk _ _ (by simp [h₂])]
  have hparams : (paramList g).run { last := some t₂, rest := t₃ :: t₄ :: t₅ :: ts } =
      (.ok ⟨none, []⟩, { last := some t₄, rest := t₅ :: ts }) := by
    refine (paramList_ok hg).2 ⟨by rw [peek_mk, h₃], { last := some t₃, rest := t₄ :: t₅ :: ts },
      { last := some t₃, rest := t₄ :: t₅ :: ts }, ?_, .nil (.inl (by rw [peek_mk, h₄])), by rw [peek_mk, h₄], ?_⟩
    · rw [advance_mk _ _ (by simp [h₃])]
      exact metaBinding_ok.2 (.inr ⟨by simp [peek_mk, h₄], rfl, rfl⟩)
    · rw [advance_mk _ _ (by simp [h₄])]
  obtain ⟨span, hname⟩ := hname
  rw [← advance_mk none _ (by simp [h₁])] at hname
  have hdecl : (functionDecl g []).run { rest := t₁ :: t₂ :: t₃ :: t₄ :: t₅ :: ts } =
      (.ok ⟨[], .plain span n, [], ⟨none, []⟩, [], none, some body⟩, s') :=
    (functionDecl_ok hg).2 ⟨by rw [peek_mk, h₁], rfl, _, _, _, _, _, hname,
      typeParams_ok.2 (.inr ⟨by simp [peek_mk, h₃], rfl, rfl⟩), hparams, .nil (by simp [peek_mk, h₅]),
      returnType_ok.2 (.inr ⟨by simp [peek_mk, h₅], rfl, rfl⟩),
      functionBody_ok.2 (.inl ⟨by rw [peek_mk, h₅], rfl, body, rfl, hblock⟩)⟩
  have hform : (modifiedForm g).run { rest := t₁ :: t₂ :: t₃ :: t₄ :: t₅ :: ts } = (.ok _, s') :=
    modifiedForm_ok.2 ⟨[], _, .nil (by simp [peek_mk, h₁]) (by rw [peek_mk, h₁]; rfl),
      .inl ⟨by rw [peek_mk, h₁], _, hdecl, rfl⟩⟩
  exact ⟨_, span, declaration_ok.2 ⟨_, declarationForm_of_modifiedForm hform, rfl⟩⟩

end Parser

/-- A value that is read behind the first tokens of `bindingSource` is that of the variable. -/
theorem parseTokens_binding {o : ParseOptions} {room : Nat} (hroom : o.maxDepth = room + 1) {front ts : List Token}
    {e : Expr} {s' : ParseState} (hfront : front.map Token.kind = bindingKinds)
    (hread : ((Inner.ofRoom o room).expression false).run { last := front.getLast?, rest := ts } = (.ok e, s'))
    (hrest : s'.rest.map Token.kind = [.punctuation .semicolon, .punctuation .rBrace, .eof]) (he : s'.errors = []) :
    ∃ p, parseTokens (front ++ ts) o = .ok p ∧ p.withoutSpans = (bindingProgram e).withoutSpans := by
  obtain ⟨t₁, front, rfl, h₁, hfront⟩ := List.map_eq_cons_iff.1 hfront
  obtain ⟨t₂, front, rfl, h₂, hfront⟩ := List.map_eq_cons_iff.1 hfront
  obtain ⟨t₃, front, rfl, h₃, hfront⟩ := List.map_eq_cons_iff.1 hfront
  obtain ⟨t₄, front, rfl, h₄, hfront⟩ := List.map_eq_cons_iff.1 hfront
  obtain ⟨t₅, front, rfl, h₅, hfront⟩ := List.map_eq_cons_iff.1 hfront
  obtain ⟨t₆, front, rfl, h₆, hfront⟩ := List.map_eq_cons_iff.1 hfront
  obtain ⟨t₇, front, rfl, h₇, hfront⟩ := List.map_eq_cons_iff.1 hfront
  obtain ⟨t₈, front, rfl, h₈, hfront⟩ := List.map_eq_cons_iff.1 hfront
  obtain rfl := List.map_eq_nil_iff.1 hfront
  obtain ⟨semi, rest, hs', hsemi, hrest⟩ := List.map_eq_cons_iff.1 hrest
  obtain ⟨brace, rest, rfl, hbrace, hrest⟩ := List.map_eq_cons_iff.1 hrest
  obtain ⟨eof, rest, rfl, heof, -⟩ := List.map_eq_cons_iff.1 hrest
  have hend : s'.peek.kind = .punctuation .semicolon := by rw [ParseState.peek_cons hs', hsemi]
  have hadvance : s'.advance.rest = brace :: eof :: rest := by rw [ParseState.advance_cons hs' (by simp [hsemi])]
  have hclose : s'.advance.peek.kind = .punctuation .rBrace := by rw [ParseState.peek_cons hadvance, hbrace]
  have hlast : s'.advance.advance.rest = eof :: rest := by rw [ParseState.advance_cons hadvance (by simp [hbrace])]
  obtain ⟨span, span', hblock⟩ := Parser.block_binding h₅ h₆ h₇ h₈ hread hend hclose he
  rw [← hroom] at hblock
  obtain ⟨span₁, span₂, hdecl⟩ := Parser.declaration_of_block (settled_ofRoom o o.maxDepth) h₁ h₂ h₃ h₄ h₅ hblock
  refine ⟨_, parseTokens_ok.2 ⟨s'.advance.advance, ?_, .cons ?_ ?_ hdecl (.nil ?_)⟩, rfl⟩
  · simpa only [ParseState.advance_errors] using he
  · simp [ParseState.atEnd, Parser.peek_mk, h₁, TokenKind.isEof]
  · simp [Parser.peek_mk, h₁]
  · simp [ParseState.atEnd, ParseState.peek_cons hlast, heof, TokenKind.isEof]

/-! ### Values between lexemes -/

/-- The lexemes before the value in `bindingSource`. -/
def bindingFront : List Cut := lexemes "fn m() \x7b let v =".toList

/-- The lexemes behind the value in `bindingSource`. -/
def bindingBack : List Cut := lexemes "; \x7d".toList

theorem kinds_bindingBack :
    bindingBack.filterMap (·.lexeme.token) = [.punctuation .semicolon, .punctuation .rBrace] := by
  decide +kernel

theorem lexemes_bindingSource {text : String} {cuts : List Cut} (h : CutsAs text.toList cuts bindingBack) :
    ∃ blank : Cut, blank.lexeme.faults = [] ∧ blank.lexeme.token = none ∧
      lexemes (bindingSource text).toList = (bindingFront ++ [blank]) ++ (cuts ++ bindingBack) := by
  have hfront {ds : List Char} : lexemes ("fn m() \x7b let v =".toList ++ ' ' :: ds) =
      bindingFront ++ lexemes (' ' :: ds) := by
    have htaken : bindingFront.flatMap Cut.taken = "fn m() \x7b let v =".toList := flatMap_taken_lexemes _
    have hspace : Fades [] (' ' :: ds) := .of_isBreak (by decide) [] ds
    have hfaults : ∀ cut ∈ bindingFront, cut.lexeme.faults = [] := by decide +kernel
    have hlast : ∀ cut ∈ bindingFront.getLast?, cut.lexeme.token.isSome = true := by decide +kernel
    rw [← htaken]
    refine lexemes_append_of_fades ?_ hfaults hlast hspace
    rw [List.append_nil, htaken]
    exact (List.append_nil _).symm
  have hsource : (bindingSource text).toList =
      "fn m() \x7b let v =".toList ++ ' ' :: (text.toList ++ bindingBack.flatMap Cut.taken) := by
    have hopening : "fn m() \x7b let v = ".toList = "fn m() \x7b let v =".toList ++ [' '] := by decide +kernel
    have happend (a b c : String) : (a ++ b ++ c).toList = a.toList ++ (b.toList ++ c.toList) := by simp
    have hback : bindingBack.flatMap Cut.taken = "; \x7d".toList := flatMap_taken_lexemes _
    rw [hback]
    refine (happend _ text _).trans ?_
    exact (congrArg (· ++ (text.toList ++ "; \x7d".toList)) hopening).trans (List.append_assoc _ _ _)
  refine ⟨⟨[' '], .blank 0⟩, rfl, rfl, ?_⟩
  rw [hsource, hfront, lexemes_cons, lexemeAt_of_isBlank (by decide)]
  simp only [Lexeme.blank, List.take_zero, List.drop_zero, h.lexed, List.append_assoc, List.singleton_append]

section
variable {limit room : Nat} {cuts rest : List Cut} {e : Expr}

/-- An operand before a semicolon is an expression. -/
theorem ReadsCuts.expression_of_unary (hstop : firstKind? rest = some (.punctuation .semicolon))
    (h : ReadsCuts ((Inner.ofRoom ⟨limit, false⟩ room).unary false) cuts rest (SameExpr e)) :
    ReadsCuts ((Inner.ofRoom ⟨limit, false⟩ room).expression false) cuts rest (SameExpr e) := by
  intro place last
  obtain ⟨e', last', hrun, hsame⟩ := h place last
  refine ⟨e', last', ?_, hsame⟩
  cases room with
  | zero => cases hrun
  | succ room =>
    have hg := settled_ofRoom ⟨limit, false⟩ room
    have hend := (peek_placed (place.after (cuts.flatMap Cut.taken)) last' rest).trans (congrArg (·.getD .eof) hstop)
    refine expressionBody_ok.2 ⟨e', _, (chainBody_ok hg).2 ⟨e', _, hrun, .stop (chainStep_none.2 ⟨rfl, ?_⟩)⟩,
      .inl ⟨?_, rfl, rfl⟩⟩
    · intro op hop
      cases hend.symm.trans hop
    · intro hk
      cases hend.symm.trans hk

/-- As the value of a variable, a text is read as the expression, up to stretches. -/
def Expr.ReadsBack (e : Expr) (text : String) (o : ParseOptions) : Prop :=
  ∃ tokens p, tokenize (bindingSource text) = .ok tokens ∧ parseTokens tokens o = .ok p ∧
    p.withoutSpans = (bindingProgram e).withoutSpans

/-- What is read by a parse that stops at its first failure is read by one that goes on. -/
theorem Parser.expression_of_stopping {o : ParseOptions} {s s' : ParseState}
    (h : ((Inner.ofRoom ⟨o.maxDepth, false⟩ room).expression false).run s = (.ok e, s')) :
    ((Inner.ofRoom o room).expression false).run s = (.ok e, s') := by
  obtain ⟨depth, recover⟩ := o
  cases recover with
  | false => exact h
  | true =>
    have := (resuming_ofRoom depth room).expression false s
    change Resumed s (((Inner.ofRoom ⟨depth, false⟩ room).expression false).run s) _ at this
    rw [h] at this
    generalize hy : (Inner.ofRoom ⟨depth, true⟩ room).expression false s = y at this
    cases this with
    | same _ => exact hy

/-- An expression that is read of some lexemes is read back from their text where as many levels are left, or more than
tokens. -/
theorem Expr.readsBack_of_cuts {text : String} (hcuts : CutsAs text.toList cuts bindingBack)
    (h : ReadsCuts ((Inner.ofRoom ⟨limit, false⟩ room).expression false) cuts bindingBack (SameExpr e))
    {o : ParseOptions} (ho : 0 < o.maxDepth)
    (hfit : o.maxDepth = room + 1 ∨ tokenCount cuts + 3 < room ∧ tokenCount cuts + 4 < o.maxDepth) :
    e.ReadsBack text o := by
  obtain ⟨room', hroom⟩ : ∃ r, o.maxDepth = r + 1 := Nat.exists_eq_succ_of_ne_zero (Nat.ne_of_gt ho)
  obtain ⟨blank, hblank, hnone, hlexemes⟩ := lexemes_bindingSource hcuts
  have hlex : lex (bindingSource text) = placed .start ((bindingFront ++ [blank]) ++ (cuts ++ bindingBack)) :=
    congrArg (placed .start) hlexemes
  have hfront : ∀ cut ∈ bindingFront, cut.lexeme.faults = [] := by decide +kernel
  have hback : ∀ cut ∈ bindingBack, cut.lexeme.faults = [] := by decide +kernel
  have herrors : (lex (bindingSource text)).errors = [] := by
    rw [hlex, errors_placed]
    simp only [List.mem_append, List.mem_singleton]
    rintro cut ((hc | rfl) | hc | hc)
    · exact hfront cut hc
    · exact hblank
    · exact hcuts.faults cut hc
    · exact hback cut hc
  -- the tokens before the value, and the value behind them
  obtain ⟨front, htokens, hkinds⟩ := tokens_placed_append .start (bindingFront ++ [blank]) (cuts ++ bindingBack)
  have hopening : front.map Token.kind = bindingKinds := by
    have : bindingFront.filterMap (·.lexeme.token) = bindingKinds := by decide +kernel
    rw [hkinds, List.filterMap_append, this, List.filterMap_cons, hnone]
    rfl
  generalize Place.start.after ((bindingFront ++ [blank]).flatMap Cut.taken) = place at htokens
  obtain ⟨e', last', hrun, hsame⟩ := h place front.getLast?
  have hlength : (placed place (cuts ++ bindingBack)).tokens.length = tokenCount cuts + 3 := by
    have := congrArg List.length (kinds_placed place (cuts ++ bindingBack))
    rw [List.filterMap_append, kinds_bindingBack] at this
    simpa [tokenCount] using this
  have hfits : RoomsFit (tokenCount cuts + 3 < room ∧ tokenCount cuts + 3 < room') room room'
      { last := front.getLast?, rest := (placed place (cuts ++ bindingBack)).tokens } :=
    ⟨fun hample => by dsimp only; omega, fun hample => by omega⟩
  have hagree := ((agree_ofRoom _ limit o.maxDepth room room').expression false).ok hfits hrun
  obtain ⟨p, hp, hspans⟩ := parseTokens_binding hroom hopening (Parser.expression_of_stopping hagree.1)
    (by rw [kinds_placed, kinds_bindingBack]; rfl) rfl
  refine ⟨(lex (bindingSource text)).tokens, p, by rw [tokenize, herrors]; rfl, by rw [hlex, htokens]; exact hp, ?_⟩
  exact hspans.trans (congrArg bindingProgram hsame.symm)

end

end ElleFrontEnd
