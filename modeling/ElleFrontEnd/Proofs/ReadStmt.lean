import ElleFrontEnd.Proofs.ReadExpr

/-!
# Successful runs of the statement grammar

One lemma for each parser of `Grammar.Stmt`.  A block goes on behind a statement that fails, but not without recording
a diagnostic: the runs of blocks are described where none has been recorded.
-/

namespace ElleFrontEnd

namespace Parser

variable {s s' : ParseState} {g : Inner} {header : Bool}

/-! ### Declarations of variables, and assignments -/

theorem initializer_ok {o : Option Expr} :
    (initializer g header).run s = (.ok o, s') ↔
      (s.peek.kind = .operator .eq ∧ ∃ e, o = some e ∧ (g.expression header).run s.advance = (.ok e, s')) ∨
        (s.peek.kind ≠ .operator .eq ∧ o = none ∧ s' = s) := by
  unfold initializer
  simp [acceptOperator, ite_eq_iff]
  grind

theorem typeAndName_ok {r : TypeExpr × String} :
    (typeAndName g).run s = (.ok r, s') ↔
      ∃ s₁, (g.type 0).run s = (.ok r.1, s₁) ∧ s₁.peek.kind = .ident r.2 ∧ s' = s₁.advance := by
  unfold typeAndName
  simp
  grind

theorem typedBinding_ok {type : TypeExpr} {name : String} {form : BindingForm} :
    (typedBinding g header type name).run s = (.ok form, s') ↔
      (s.peek.kind = .punctuation .lBracket ∧ ∃ size s₁, (g.expression false).run s.advance = (.ok size, s₁) ∧
          s₁.peek.kind = .punctuation .rBracket ∧ s' = s₁.advance ∧ form = .buffer type name size) ∨
        (s.peek.kind ≠ .punctuation .lBracket ∧ ∃ init, (initializer g header).run s = (.ok init, s') ∧
          form = .variable .typed (some type) name init) := by
  unfold typedBinding
  simp [atMark, isAt, ite_eq_iff]
  grind

/-- Whether a declaration comes next that begins with a word or a name of its own. -/
def atLetOrWalrus (s : ParseState) : Prop :=
  s.peek.kind = .keyword .letKw ∨ s.peek.kind.ident?.isSome = true ∧ s.kindAt 1 = .operator .colonEq

section
variable (hg : g.Settled)
include hg

theorem binding?_some {form : BindingForm} :
    (binding? g header).run s = (.ok (some form), s') ↔
      (s.peek.kind = .keyword .letKw ∧ ∃ name init, s.advance.peek.kind = .ident name ∧
          (initializer g header).run s.advance.advance = (.ok init, s') ∧
          form = .variable .letBound none name init) ∨
        (s.kindAt 1 = .operator .colonEq ∧ ∃ name e, s.peek.kind = .ident name ∧
          (g.expression header).run s.advance.advance = (.ok e, s') ∧
          form = .variable .walrus none name (some e)) ∨
        (¬ atLetOrWalrus s ∧
          ¬ (s.peek.kind = .keyword .fn ∧ s.kindAt 1 = .punctuation .lParen) ∧
          ∃ r s₁, (typeAndName g).run s = (.ok r, s₁) ∧ (typedBinding g header r.1 r.2).run s₁ = (.ok form, s')) := by
  unfold binding? atLetOrWalrus
  simp [acceptKeyword, atIdent, isAhead, atKeyword, isAt, ite_eq_iff, attempt_silent (.typeAndName hg.silent)]
  grind [TokenKind.ident?]

theorem binding?_none :
    (binding? g header).run s = (.ok none, s') ↔ s' = s ∧ ¬ atLetOrWalrus s ∧
      ((s.peek.kind = .keyword .fn ∧ s.kindAt 1 = .punctuation .lParen) ∨ (typeAndName g).Fails s) := by
  unfold binding? atLetOrWalrus
  simp [acceptKeyword, atIdent, isAhead, atKeyword, isAt, ite_eq_iff, attempt_silent (.typeAndName hg.silent)]
  grind [TokenKind.ident?]

end

theorem assignment?_some {form : AssignOp} {value : Expr} :
    (assignment? g header).run s = (.ok (some (form, value)), s') ↔ ∃ op, s.peek.kind = .operator op ∧
      AssignOp.ofOperator? op = some form ∧ opensOperand true s.advance.peek.kind = true ∧
      (g.expression header).run s.advance = (.ok value, s') := by
  unfold assignment? nextKind
  rw [look_bind]
  cases hk : s.peek.kind with
  | operator op => cases ho : AssignOp.ofOperator? op <;> simp [TokenKind.operator?, ho]; grind
  | _ => simp [TokenKind.operator?]

theorem assignment?_none :
    (assignment? g header).run s = (.ok none, s') ↔ s' = s ∧
      ∀ op, s.peek.kind = .operator op → AssignOp.ofOperator? op = none := by
  unfold assignment? nextKind
  rw [look_bind]
  cases hk : s.peek.kind with
  | operator op => cases ho : AssignOp.ofOperator? op <;> simp [TokenKind.operator?, ho, @eq_comm _ s s']
  | _ => simp [TokenKind.operator?, @eq_comm _ s s']

section
variable (hg : g.Settled)
include hg

theorem simpleStatement_ok {form : Span → Stmt} :
    (simpleStatement g).run s = (.ok form, s') ↔
      (∃ binding, (binding? g false).run s = (.ok (some binding), s') ∧ form = binding.stmt) ∨
        ((binding? g false).run s = (.ok none, s) ∧ ∃ target s₁, (g.expression false).run s = (.ok target, s₁) ∧
          ((∃ op value, (assignment? g false).run s₁ = (.ok (some (op, value)), s') ∧
              form = fun span => .assign span target op value) ∨
            ((assignment? g false).run s₁ = (.ok none, s₁) ∧ s' = s₁ ∧ form = fun span => .expr span target))) := by
  have hb {s₁ : ParseState} (h : (binding? g false).run s = (.ok none, s₁)) : s₁ = s := ((binding?_none hg).1 h).1
  have ha {s₁ s₂ : ParseState} (h : (assignment? g false).run s₁ = (.ok none, s₂)) : s₂ = s₁ := (assignment?_none.1 h).1
  unfold simpleStatement
  simp [Option.exists]
  grind

end

/-! ### Control flow -/

theorem headerCondition_ok {e : Expr} :
    (headerCondition g).run s = (.ok e, s') ↔
      ∃ e₀, (g.expression true).run s = (.ok e₀, s') ∧ e = e₀.unparenthesized := by
  unfold headerCondition
  simp
  grind

theorem elsePart_ok {o : Else} :
    (elsePart g).run s = (.ok o, s') ↔
      (s.peek.kind = .keyword .elseKw ∧ s.advance.peek.kind = .keyword .ifKw ∧
          ∃ parts, g.elseIf.run s.advance = (.ok parts, s') ∧
            o = .elseIf (s'.spanFrom s.advance.peek.span.start) parts.condition parts.body parts.otherwise) ∨
        (s.peek.kind = .keyword .elseKw ∧ s.advance.peek.kind ≠ .keyword .ifKw ∧
          ∃ body, g.block.run s.advance = (.ok body, s') ∧ o = .block body) ∨
        (s.peek.kind ≠ .keyword .elseKw ∧ o = .absent ∧ s' = s) := by
  unfold elsePart
  simp [acceptKeyword, atKeyword, isAt, nextStart, spanFrom, ite_eq_iff]
  grind

theorem ifBody_ok {parts : IfParts} :
    (ifBody g).run s = (.ok parts, s') ↔ s.peek.kind = .keyword .ifKw ∧ ∃ s₁ s₂,
      (headerCondition g).run s.advance = (.ok parts.condition, s₁) ∧ g.block.run s₁ = (.ok parts.body, s₂) ∧
      (elsePart g).run s₂ = (.ok parts.otherwise, s') := by
  cases parts with
  | mk condition body otherwise =>
    unfold ifBody expectKeyword
    simp

theorem forInit_ok {init : ForInit} (hg : g.Settled) :
    (forInit g header).run s = (.ok init, s') ↔
      (∃ binding type name value, (binding? g header).run s = (.ok (some (.variable binding type name value)), s') ∧
          init = .varDecl (s'.spanFrom s.peek.span.start) binding type name value) ∨
        ((binding? g header).run s = (.ok none, s) ∧ ∃ e, (g.expression header).run s = (.ok e, s') ∧
          init = .expr e) := by
  have hb {s₁ : ParseState} (h : (binding? g header).run s = (.ok none, s₁)) : s₁ = s := ((binding?_none hg).1 h).1
  unfold forInit nextStart
  rw [look_bind, bind_ok]
  constructor
  · rintro ⟨_ | binding | buffer, s₁, h, hrest⟩
    · obtain rfl := hb h
      simp at hrest
      exact .inr ⟨h, by grind⟩
    · simp [spanFrom] at hrest
      obtain ⟨rfl, rfl⟩ := hrest
      exact .inl ⟨_, _, _, _, h, rfl⟩
    · simp [spanFrom] at hrest
  · rintro (⟨binding, type, name, value, h, rfl⟩ | ⟨h, e, he, rfl⟩)
    · exact ⟨_, _, h, by simp [spanFrom]⟩
    · exact ⟨_, _, h, by simp [he]⟩

theorem forStep_ok {step : ForStep} :
    (forStep g header).run s = (.ok step, s') ↔ ∃ target s₁, (g.expression header).run s = (.ok target, s₁) ∧
      ((∃ op value, (assignment? g header).run s₁ = (.ok (some (op, value)), s') ∧
          step = .assign (s'.spanFrom s.peek.span.start) target op value) ∨
        ((assignment? g header).run s₁ = (.ok none, s₁) ∧ s' = s₁ ∧ step = .expr target)) := by
  have ha {s₁ s₂ : ParseState} (h : (assignment? g header).run s₁ = (.ok none, s₂)) : s₂ = s₁ :=
    (assignment?_none.1 h).1
  unfold forStep nextStart
  simp [Option.exists, spanFrom]
  grind

theorem forHeader_ok {parts : ForInit × Expr × ForStep} :
    (forHeader g header).run s = (.ok parts, s') ↔ ∃ s₁ s₂,
      (forInit g header).run s = (.ok parts.1, s₁) ∧ s₁.peek.kind = .punctuation .semicolon ∧
      (g.expression header).run s₁.advance = (.ok parts.2.1, s₂) ∧ s₂.peek.kind = .punctuation .semicolon ∧
      (forStep g header).run s₂.advance = (.ok parts.2.2, s') := by
  obtain ⟨init, condition, step⟩ := parts
  unfold forHeader
  simp

theorem forLoopRest_ok {form : Span → Stmt} :
    (forLoopRest g).run s = (.ok form, s') ↔ ∃ init condition step body,
      (form = fun span => .forLoop span init condition step body) ∧
      ((s.peek.kind = .punctuation .lParen ∧ ∃ s₁,
        (forHeader g false).run s.advance = (.ok (init, condition, step), s₁) ∧
          s₁.peek.kind = .punctuation .rParen ∧ g.block.run s₁.advance = (.ok body, s')) ∨
        (s.peek.kind ≠ .punctuation .lParen ∧ ∃ s₁, (forHeader g true).run s = (.ok (init, condition, step), s₁) ∧
          g.block.run s₁ = (.ok body, s'))) := by
  unfold forLoopRest
  simp [atMark, isAt, ite_eq_iff]
  grind

theorem forStatement_ok {form : Span → Stmt} :
    (forStatement g).run s = (.ok form, s') ↔ s.peek.kind = .keyword .forKw ∧
      ((∃ name iterable s₁ body, s.advance.peek.kind = .ident name ∧ s.advance.kindAt 1 = .keyword .inKw ∧
          (g.expression true).run s.advance.advance.advance = (.ok iterable, s₁) ∧ g.block.run s₁ = (.ok body, s') ∧
          form = fun span => .forEach span name iterable body) ∨
        (¬ ((s.advance.peek.kind.ident?).isSome = true ∧ s.advance.kindAt 1 = .keyword .inKw) ∧
          (forLoopRest g).run s.advance = (.ok form, s'))) := by
  unfold forStatement forEachRest expectKeyword
  simp [atIdent, isAhead, ite_eq_iff]
  grind [TokenKind.ident?]

theorem returnStatement_ok {form : Span → Stmt} :
    (returnStatement g).run s = (.ok form, s') ↔
      (s.advance.peek.kind = .punctuation .semicolon ∧ s' = s.advance.advance ∧
          form = fun span => .returnValue span none) ∨
        (s.advance.peek.kind ≠ .punctuation .semicolon ∧ ∃ e s₁, (g.expression false).run s.advance = (.ok e, s₁) ∧
          s₁.peek.kind = .punctuation .semicolon ∧ s' = s₁.advance ∧
            form = fun span => .returnValue span (some e)) := by
  unfold returnStatement
  simp [atMark, isAt, ite_eq_iff]
  grind

/-- Whether a token opens a statement of a form of its own. -/
def opensForm : TokenKind → Bool
  | .keyword .ifKw | .keyword .whileKw | .keyword .forKw | .keyword .deferKw | .keyword .returnKw | .keyword .breakKw
  | .keyword .continueKw | .punctuation .lBrace => true
  | _ => false

theorem statementForm_ok {form : Span → Stmt} :
    (statementForm g).run s = (.ok form, s') ↔
      (s.peek.kind = .keyword .ifKw ∧ ∃ parts, (ifBody g).run s = (.ok parts, s') ∧
          form = fun span => .ifElse span parts.condition parts.body parts.otherwise) ∨
        (s.peek.kind = .keyword .whileKw ∧ ∃ condition s₁ body,
          (headerCondition g).run s.advance = (.ok condition, s₁) ∧
          g.block.run s₁ = (.ok body, s') ∧ form = fun span => .whileLoop span condition body) ∨
        (s.peek.kind = .keyword .forKw ∧ (forStatement g).run s = (.ok form, s')) ∨
        (s.peek.kind = .keyword .deferKw ∧ ∃ e s₁, (g.expression false).run s.advance = (.ok e, s₁) ∧
          s₁.peek.kind = .punctuation .semicolon ∧ s' = s₁.advance ∧ form = fun span => .defer span e) ∨
        (s.peek.kind = .keyword .returnKw ∧ (returnStatement g).run s = (.ok form, s')) ∨
        (s.peek.kind = .keyword .breakKw ∧ s.advance.peek.kind = .punctuation .semicolon ∧ s' = s.advance.advance ∧
          form = .breakLoop) ∨
        (s.peek.kind = .keyword .continueKw ∧ s.advance.peek.kind = .punctuation .semicolon ∧
          s' = s.advance.advance ∧ form = .continueLoop) ∨
        (s.peek.kind = .punctuation .lBrace ∧ ∃ body, g.block.run s = (.ok body, s') ∧
          form = fun span => .block span body.statements) ∨
        (opensForm s.peek.kind = false ∧ ∃ s₁, (simpleStatement g).run s = (.ok form, s₁) ∧
          s₁.peek.kind = .punctuation .semicolon ∧ s' = s₁.advance) := by
  unfold statementForm nextKind
  rw [look_bind]
  split <;> simp_all [opensForm] <;> grind

theorem statement_ok {statement : Stmt} :
    (Parser.statement g).run s = (.ok statement, s') ↔
      ∃ form, (statementForm g).run s = (.ok form, s') ∧ statement = form (s'.spanFrom s.peek.span.start) := by
  unfold Parser.statement nextStart
  simp [spanFrom]
  grind

/-! ### Blocks -/

/-- The statements of a block up to its closing brace, where none has failed. -/
inductive Statements (g : Inner) : ParseState → List Stmt → ParseState → Prop
  | nil {s : ParseState} : s.peek.kind = .punctuation .rBrace → Statements g s [] s.advance
  | stray {s s' : ParseState} {ss : List Stmt} : s.peek.kind = .punctuation .semicolon →
    Statements g s.advance ss s' → Statements g s ss s'
  | cons {s s₁ s' : ParseState} {statement : Stmt} {ss : List Stmt} : s.peek.kind ≠ .punctuation .rBrace →
    s.peek.kind ≠ .punctuation .semicolon → s.atEnd = false →
    (Parser.statement g).run s = (.ok statement, s₁) → Statements g s₁ ss s' → Statements g s (statement :: ss) s'

section
variable (hg : g.Settled)
include hg

theorem length_le_of_alike {α : Type} {R : α → α → Prop} {p : Parser α} {a : α}
    (hp : ∀ ts, SameLayout ts ts → Steady ts ts g → Alike ts ts R p p) (h : p.run s = (.ok a, s')) :
    s'.rest.length ≤ s.rest.length :=
  (advances_run (Alike.advances fun ts => hp ts (.refl ts) (hg.steady ts)) h).length_le

theorem length_of_ifBody {parts : IfParts} (h : (ifBody g).run s = (.ok parts, s')) :
    s'.rest.length < s.rest.length := by
  obtain ⟨hk, s₁, s₂, hc, hb, he⟩ := ifBody_ok.1 h
  have := (Advances.advance s).length_le
  have := length_le_of_alike hg (fun _ _ hs => Alike.headerCondition hs) hc
  have := hg.shrinks _ _ _ hb
  have := length_le_of_alike hg (fun _ hl hs => Alike.elsePart hl hs) he
  omega

theorem length_of_forStatement {form : Span → Stmt} (h : (forStatement g).run s = (.ok form, s')) :
    s'.rest.length < s.rest.length := by
  obtain ⟨hk, h⟩ := forStatement_ok.1 h
  have h₁ := (Advances.advance s).length_le
  rcases h with ⟨name, iterable, s₁, body, -, -, he, hb, -⟩ | ⟨-, h⟩
  · have := (Advances.advance s.advance).length_le
    have := (Advances.advance s.advance.advance).length_le
    have := (advances_run (hg.expression true) he).length_le
    have := hg.shrinks _ _ _ hb
    omega
  · obtain ⟨init, condition, step, body, -, ⟨-, s₁, hh, -, hb⟩ | ⟨-, s₁, hh, hb⟩⟩ := forLoopRest_ok.1 h
    · have := (Advances.advance s.advance).length_le
      have := length_le_of_alike hg (fun _ hl hs => Alike.forHeader hl hs false) hh
      have := (Advances.advance s₁).length_le
      have := hg.shrinks _ _ _ hb
      omega
    · have := length_le_of_alike hg (fun _ hl hs => Alike.forHeader hl hs true) hh
      have := hg.shrinks _ _ _ hb
      omega

/-- A statement has at least one token: a semicolon or a brace of its own. -/
theorem length_of_statement {statement : Stmt} (h : (Parser.statement g).run s = (.ok statement, s')) :
    s'.rest.length < s.rest.length := by
  obtain ⟨form, h, -⟩ := statement_ok.1 h
  have hskip := (Advances.advance s).length_le
  have hend {s₁ : ParseState} (h₁ : s₁.rest.length ≤ s.rest.length) (hk : s₁.peek.kind = .punctuation .semicolon) :
      s₁.advance.rest.length < s.rest.length := by
    have := length_advance_lt (s := s₁) (by simp [hk])
    omega
  rcases statementForm_ok.1 h with ⟨-, parts, h, -⟩ | ⟨-, condition, s₁, body, hc, hb, -⟩ | ⟨-, h⟩ |
    ⟨-, e, s₁, he, hk, rfl, -⟩ | ⟨-, h⟩ | ⟨-, hk, rfl, -⟩ | ⟨-, hk, rfl, -⟩ | ⟨-, body, hb, -⟩ | ⟨-, s₁, hs, hk, rfl⟩
  · exact length_of_ifBody hg h
  · have := length_le_of_alike hg (fun _ _ hs => Alike.headerCondition hs) hc
    have := hg.shrinks _ _ _ hb
    omega
  · exact length_of_forStatement hg h
  · have := (advances_run (hg.expression false) he).length_le
    exact hend (by omega) hk
  · rcases returnStatement_ok.1 h with ⟨hk, rfl, -⟩ | ⟨-, e, s₁, he, hk, rfl, -⟩
    · exact hend hskip hk
    · have := (advances_run (hg.expression false) he).length_le
      exact hend (by omega) hk
  · exact hend hskip hk
  · exact hend hskip hk
  · exact hg.shrinks _ _ _ hb
  · exact hend (length_le_of_alike hg (fun _ hl hs => Alike.simpleStatement hl hs) hs) hk

omit hg in
theorem blockRound_stop {o : ParseOptions} {opened : Span} :
    (blockRound o g opened).run s = (.ok .stop, s') ↔ s.peek.kind = .punctuation .rBrace ∧ s' = s.advance := by
  unfold blockRound
  simp [acceptMark, atEnd, nextSpan, ite_eq_iff]
  grind

omit hg in
theorem blockRound_more {o : ParseOptions} {opened : Span} {statement : Stmt} :
    (blockRound o g opened).run s = (.ok (.more statement), s') ↔ s.peek.kind ≠ .punctuation .rBrace ∧
      s.peek.kind ≠ .punctuation .semicolon ∧ s.atEnd = false ∧ (Parser.statement g).run s = (.ok statement, s') := by
  unfold blockRound
  simp [acceptMark, atEnd, nextSpan, ite_eq_iff]
  grind

omit hg in
/-- Where a round of a block yields nothing and nothing is recorded either, it has passed a stray semicolon. -/
theorem blockRound_none {o : ParseOptions} {opened : Span} (h : s'.errors = []) :
    (blockRound o g opened).run s = (.ok .none, s') ↔ s.peek.kind ≠ .punctuation .rBrace ∧
      s.peek.kind = .punctuation .semicolon ∧ s' = s.advance := by
  have hfail {e : Diagnostic} {s₁ : ParseState} : toNextStatement { s₁ with errors := s₁.errors ++ [e] } ≠ s' := by
    rintro rfl
    simp [toNextStatement] at h
  unfold blockRound record
  simp [acceptMark, atEnd, nextSpan, ite_eq_iff, hfail]
  grind [ParseState.atEnd, TokenKind.isEof]

omit hg in
theorem blockRound_last {o : ParseOptions} {opened : Span} {statement : Stmt} :
    ¬ (blockRound o g opened).run s = (.ok (.last statement), s') := by
  unfold blockRound
  simp [acceptMark, atEnd, nextSpan, ite_eq_iff]

omit hg in
theorem blockRound_stray {o : ParseOptions} {opened : Span} (hk : s.peek.kind = .punctuation .semicolon) :
    (blockRound o g opened).run s = (.ok .none, s.advance) := by
  unfold blockRound
  simp [acceptMark, atEnd, ParseState.atEnd, TokenKind.isEof, hk]

omit hg in
theorem length_skipStatement_le (depth : Nat) (last : Option Token) (ts : List Token) :
    (skipStatement depth last ts).2.length ≤ ts.length := by
  induction ts generalizing depth last with
  | nil => exact Nat.le_refl _
  | cons t ts ih =>
    have hskip (depth : Nat) : (skipStatement depth (some t) ts).2.length ≤ (t :: ts).length :=
      Nat.le_succ_of_le (ih depth (some t))
    unfold skipStatement
    split <;> first | exact Nat.le_refl _ | exact hskip _ | (split <;> first | exact hskip _ | simp)

omit hg in
/-- Whatever a statement failed at, a token is skipped, unless a brace or the end of the source comes next. -/
theorem length_skipStatement_lt {t : Token} (ts : List Token) (last : Option Token) (he : t.kind ≠ .eof)
    (hb : t.kind ≠ .punctuation .rBrace) : (skipStatement 0 last (t :: ts)).2.length < (t :: ts).length := by
  have hskip (depth : Nat) : (skipStatement depth (some t) ts).2.length < (t :: ts).length :=
    Nat.lt_succ_of_le (length_skipStatement_le depth (some t) ts)
  unfold skipStatement
  split <;> first | contradiction | exact hskip _ | simp

/-- Where a block goes on, it has passed a token, if only by skipping what a statement failed at. -/
theorem blockRound_shrinks (o : ParseOptions) (opened : Span) : RoundShrinks (blockRound o g opened) := by
  refine ⟨fun s st s' h => length_of_statement hg (blockRound_more.1 h).2.2.2, fun s s' h => ?_⟩
  unfold blockRound record at h
  simp [acceptMark, atEnd, nextSpan, ite_eq_iff] at h
  obtain ⟨hb, he, ⟨hk, rfl⟩ | ⟨-, e, s₁, hst, -, rfl⟩⟩ := h
  · exact length_advance_lt (by simp [hk])
  · have hadv : Advances s s₁ :=
      advances_run (Alike.advances fun ts => Alike.statement (.refl ts) (hg.steady ts)) hst
    obtain ⟨⟨used, hp⟩, -⟩ := hadv
    cases used with
    | cons t used =>
      have := length_skipStatement_le 0 s₁.last s₁.rest
      have hrest : s.rest.length = (t :: used).length + s₁.rest.length := by rw [hp.rest, List.length_append]
      rw [List.length_cons] at hrest
      simp only [toNextStatement]
      omega
    | nil =>
      -- the statement has failed where it began
      have hne : s.peek.kind ≠ .eof := by
        intro hk
        simp [ParseState.atEnd, hk, TokenKind.isEof] at he
      obtain ⟨ts, hr⟩ := ParseState.rest_of_peek hne
      have hr₁ : s₁.rest = s.peek :: ts := by rw [← hr, hp.rest, List.nil_append]
      simp only [toNextStatement, hr₁, hr]
      exact length_skipStatement_lt ts s₁.last hne hb

omit hg in
/-- The rounds of a block in which every round without a statement has only passed a stray semicolon. -/
theorem statements_of_collects {o : ParseOptions} {opened : Span} {ss : List Stmt}
    (hnone : ∀ s s₁ ss, (blockRound o g opened).run s = (.ok .none, s₁) → Collects (blockRound o g opened) s₁ ss s' →
      s.peek.kind = .punctuation .semicolon ∧ s₁ = s.advance) :
    Collects (blockRound o g opened) s ss s' ↔ Statements g s ss s' := by
  constructor
  · intro h
    induction h with
    | stop h =>
      obtain ⟨hk, rfl⟩ := blockRound_stop.1 h
      exact .nil hk
    | last h => exact absurd h blockRound_last
    | more h _ ih =>
      obtain ⟨hb, hk, he, hst⟩ := blockRound_more.1 h
      exact .cons hb hk he hst (ih hnone)
    | none h hrest ih =>
      obtain ⟨hk, rfl⟩ := hnone _ _ _ h hrest
      exact .stray hk (ih hnone)
  · intro h
    induction h with
    | nil hk => exact .stop (blockRound_stop.2 ⟨hk, rfl⟩)
    | stray hk _ ih => exact .none (blockRound_stray hk) (ih hnone)
    | cons hb hk he hst _ ih => exact .more (blockRound_more.2 ⟨hb, hk, he, hst⟩) (ih hnone)

/-- A block in which nothing has failed. -/
theorem blockBody_ok {o : ParseOptions} {body : Block} (hs : s'.errors = []) :
    (blockBody o g).run s = (.ok body, s') ↔ s.peek.kind = .punctuation .lBrace ∧
      ∃ ss, Statements g s.advance ss s' ∧ body = .mk (s'.spanFrom s.peek.span.start) ss := by
  have hadv (opened : Span) (s : ParseState) : Advances s (blockRound o g opened s).2 :=
    Alike.advances (fun ts => Alike.blockRound (.refl ts) (hg.steady ts) o _ _) s
  have hcollect (opened : Span) {s : ParseState} {ss : List Stmt} :
      (collect (blockRound o g opened)).run s = (.ok ss, s') ↔ Statements g s ss s' := by
    rw [collect_clean (hadv opened) ?_ ?_ hs]
    · refine statements_of_collects fun s s₁ ss h hrest => ?_
      exact ((blockRound_none ((advances_of_collects (hadv opened) hrest).errors_nil hs)).1 h).2
    · intro s st s' h
      exact length_of_statement hg (blockRound_more.1 h).2.2.2
    · intro s s' hs h
      obtain ⟨-, hk, rfl⟩ := (blockRound_none hs).1 h
      exact length_advance_lt (by simp [hk])
  unfold blockBody expectMark
  simp [hcollect, spanFrom]
  grind

/-- A block of a parse that stops at its first failure, whatever has been recorded before. -/
theorem blockBody_stopping {limit : Nat} {body : Block} :
    (blockBody ⟨limit, false⟩ g).run s = (.ok body, s') ↔ s.peek.kind = .punctuation .lBrace ∧
      ∃ ss, Statements g s.advance ss s' ∧ body = .mk (s'.spanFrom s.peek.span.start) ss := by
  have hnone (opened : Span) {s s' : ParseState} (h : (blockRound ⟨limit, false⟩ g opened).run s = (.ok .none, s')) :
      s.peek.kind = .punctuation .semicolon ∧ s' = s.advance := by
    unfold blockRound at h
    simp [acceptMark, atEnd, nextSpan, ite_eq_iff] at h
    exact ⟨h.2.2.1, h.2.2.2.symm⟩
  have hshrinks (opened : Span) : RoundShrinks (blockRound ⟨limit, false⟩ g opened) := by
    refine ⟨fun s st s' h => length_of_statement hg (blockRound_more.1 h).2.2.2, fun s s' h => ?_⟩
    obtain ⟨hk, rfl⟩ := hnone opened h
    exact length_advance_lt (by simp [hk])
  have hcollect (opened : Span) {s : ParseState} {ss : List Stmt} :
      (collect (blockRound ⟨limit, false⟩ g opened)).run s = (.ok ss, s') ↔ Statements g s ss s' :=
    (collect_ok (hshrinks opened)).trans (statements_of_collects fun s s₁ ss h _ => hnone opened h)
  unfold blockBody expectMark
  simp [hcollect, spanFrom]
  grind

end

end Parser

end ElleFrontEnd
