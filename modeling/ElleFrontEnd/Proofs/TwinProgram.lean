import ElleFrontEnd.Proofs.TwinGrammar

/-!
# Layout does not matter in programs

Statements, blocks with their recovery, and declarations run alike on two streams of the same layout, and so does the
parser of programs: `parsePartial_of_sameLayout` says what two readings of one sequence of tokens have in common.
-/

namespace ElleFrontEnd

variable {ts us : List Token}

/-! ### Statements -/

/-- Statements that differ in their spans only. -/
abbrev SameStmt : Stmt → Stmt → Prop := Same (Stmt.mapSpans noSpan)

/-- Statements without their stretches that differ in their spans only. -/
abbrev SameForm (f f' : Span → Stmt) : Prop := ∀ a b, SameStmt (f a) (f' b)

/-- Declarations of variables that differ in their spans only. -/
def SameBinding (b b' : Parser.BindingForm) : Prop :=
  (∃ binding type name init, b = .variable binding type name init ∧ ∃ type' init',
      b' = .variable binding type' name init' ∧ OptionRel SameType type type' ∧ OptionRel SameExpr init init') ∨
    ∃ type name size, b = .buffer type name size ∧ ∃ type' size', b' = .buffer type' name size' ∧
      SameType type type' ∧ SameExpr size size'

theorem map_of_optionRel {α γ : Type} {f : α → γ} {o o' : Option α} (h : OptionRel (Same f) o o') :
    o.map f = o'.map f := by
  match o, o', h with
  | none, none, _ => rfl
  | some a, some a', h => exact congrArg some h

theorem sameStmt_varDecl {binding : Binding} {type type' : Option TypeExpr} {name : String} {init init' : Option Expr}
    (ht : OptionRel SameType type type') (hi : OptionRel SameExpr init init') (a b : Span) :
    SameStmt (.varDecl a binding type name init) (.varDecl b binding type' name init') := by
  have ht := map_of_optionRel ht
  match init, init', hi with
  | none, none, _ => exact congrArg (Stmt.varDecl .zero binding · name none) ht
  | some e, some e', he => exact congrArg₂ (Stmt.varDecl .zero binding · name <| some ·) ht he

theorem sameInit_varDecl {binding : Binding} {type type' : Option TypeExpr} {name : String} {init init' : Option Expr}
    (ht : OptionRel SameType type type') (hi : OptionRel SameExpr init init') (a b : Span) :
    Same (ForInit.mapSpans noSpan) (.varDecl a binding type name init) (.varDecl b binding type' name init') := by
  have ht := map_of_optionRel ht
  match init, init', hi with
  | none, none, _ => exact congrArg (ForInit.varDecl .zero binding · name none) ht
  | some e, some e', he => exact congrArg₂ (ForInit.varDecl .zero binding · name <| some ·) ht he

theorem SameBinding.stmt {b b' : Parser.BindingForm} (h : SameBinding b b') :
    SameForm b.stmt b'.stmt := by
  intro a a'
  rcases h with ⟨_, _, _, _, rfl, _, _, rfl, ht, hi⟩ | ⟨_, _, _, rfl, _, _, rfl, ht, hs⟩
  · exact sameStmt_varDecl ht hi a a'
  · exact congrArg₂ (Stmt.buffer .zero · _ ·) ht hs

namespace Alike

variable (hl : SameLayout ts us) {g : Inner} (hg : Steady ts us g)
include hl hg

theorem initializer (header : Bool) :
    Alike ts us (OptionRel SameExpr) (Parser.initializer g header) (Parser.initializer g header) := by
  unfold Parser.initializer
  refine (Alike.accept hl _).thenEq fun more => .ite ?_ (.done trivial)
  exact (hg.expression header).bind fun e e' he => .done he

theorem typeAndName : Alike ts us (fun p q => SameType p.1 q.1 ∧ p.2 = q.2) (Parser.typeAndName g)
    (Parser.typeAndName g) := by
  unfold Parser.typeAndName
  exact (hg.type 0).bind fun t t' ht => (Alike.identifier hl).thenEq fun name => .done ⟨ht, rfl⟩

theorem typedBinding (header : Bool) {t t' : TypeExpr} (ht : SameType t t') (name : String) :
    Alike ts us SameBinding (Parser.typedBinding g header t name) (Parser.typedBinding g header t' name) := by
  unfold Parser.typedBinding
  refine (Alike.isAt hl _).thenEq fun sized => .ite ?_ ?_
  · refine (Alike.skip hl).bind fun _ _ _ => (hg.expression false).bind fun e e' he => ?_
    refine (Alike.closing hl _ _ _).thenEq fun _ => .done (.inr ?_)
    exact ⟨_, _, _, rfl, _, _, rfl, ht, he⟩
  · refine (Alike.initializer hl hg header).bind fun o o' ho => .done (.inl ?_)
    exact ⟨_, _, _, _, rfl, _, _, rfl, ht, ho⟩

theorem binding? (header : Bool) :
    Alike ts us (OptionRel SameBinding) (Parser.binding? g header) (Parser.binding? g header) := by
  unfold Parser.binding?
  refine (Alike.accept hl _).thenEq fun lets => .ite ?_ ?_
  · refine (Alike.identifier hl).thenEq fun name => (Alike.initializer hl hg header).bind fun o o' ho => ?_
    exact .done (.inl ⟨_, _, _, _, rfl, _, _, rfl, trivial, ho⟩)
  refine (Alike.atIdent hl).thenEq fun named => (Alike.isAhead hl _ _).thenEq fun walrus => .ite ?_ ?_
  · refine (Alike.identifier hl).thenEq fun name => (Alike.skip hl).bind fun _ _ _ => ?_
    refine (hg.expression header).bind fun e e' he => .done (.inl ?_)
    exact ⟨_, none, _, some e, rfl, none, some e', rfl, trivial, he⟩
  refine (Alike.isAt hl _).thenEq fun fn => (Alike.isAhead hl _ _).thenEq fun opens => .ite (.done trivial) ?_
  refine (Alike.attempt (Alike.typeAndName hl hg)).bind fun o o' ho => ?_
  match o, o', ho with
  | none, none, _ => exact .done trivial
  | some (t, name), some (t', _), ⟨ht, rfl⟩ =>
    exact (Alike.typedBinding hl hg header ht name).bind fun b b' hb => .done hb

theorem assignment? (header : Bool) : Alike ts us (OptionRel fun p q => p.1 = q.1 ∧ SameExpr p.2 q.2)
    (Parser.assignment? g header) (Parser.assignment? g header) := by
  unfold Parser.assignment?
  refine (Alike.kind hl).thenEq fun kind => ?_
  split
  · exact .done trivial
  split
  · exact .done trivial
  refine (Alike.skip hl).bind fun _ _ _ => (Alike.requireOperand hl _).thenEq fun _ => ?_
  exact (hg.expression header).bind fun e e' he => .done ⟨rfl, he⟩

theorem simpleStatement : Alike ts us SameForm (Parser.simpleStatement g) (Parser.simpleStatement g) := by
  unfold Parser.simpleStatement
  refine (Alike.binding? hl hg false).bind fun o o' ho => ?_
  match o, o', ho with
  | some form, some form', ho => exact .done ho.stmt
  | none, none, _ =>
    refine (hg.expression false).bind fun e e' he => (Alike.assignment? hl hg false).bind fun o o' ho => ?_
    match o, o', ho with
    | some (op, v), some (_, v'), ⟨rfl, hv⟩ =>
      exact .done fun _ _ => congrArg₂ (Stmt.assign .zero · op ·) he hv
    | none, none, _ => exact .done fun _ _ => congrArg (Stmt.expr .zero) he

omit hl in
theorem headerCondition : Alike ts us SameExpr (Parser.headerCondition g) (Parser.headerCondition g) := by
  unfold Parser.headerCondition
  refine (hg.expression true).bind fun e e' he => .done ?_
  have he : e.mapSpans noSpan = e'.mapSpans noSpan := he
  change e.unparenthesized.mapSpans noSpan = e'.unparenthesized.mapSpans noSpan
  rw [← unparenthesized_mapSpans, he, unparenthesized_mapSpans]

theorem elsePart : Alike ts us (Same (Else.mapSpans noSpan)) (Parser.elsePart g) (Parser.elsePart g) := by
  unfold Parser.elsePart
  refine (Alike.accept hl _).thenEq fun more => .ite ?_ (.done rfl)
  refine (Alike.isAt hl _).thenEq fun again => .ite ?_ ?_
  · refine Alike.start.bind fun _ _ _ => hg.elseIf.bind fun p p' hp => .spanned fun _ _ => ?_
    change Else.elseIf .zero _ _ _ = Else.elseIf .zero _ _ _
    rw [hp.condition, hp.body, hp.otherwise]
  · exact hg.block.bind fun b b' hb => .done (congrArg Else.block hb)

theorem ifBody : Alike ts us SameIf (Parser.ifBody g) (Parser.ifBody g) := by
  unfold Parser.ifBody
  refine (Alike.expect hl _ _).bind fun _ _ _ => (Alike.headerCondition hg).bind fun c c' hc => ?_
  exact hg.block.bind fun b b' hb => (Alike.elsePart hl hg).bind fun o o' ho => .done ⟨hc, hb, ho⟩

theorem forInit (header : Bool) :
    Alike ts us (Same (ForInit.mapSpans noSpan)) (Parser.forInit g header) (Parser.forInit g header) := by
  unfold Parser.forInit
  refine Alike.start.bind fun _ _ _ => (Alike.binding? hl hg header).bind fun o o' ho => ?_
  match o, o', ho with
  | none, none, _ => exact (hg.expression header).bind fun e e' he => .done (congrArg ForInit.expr he)
  | some b, some b', hb =>
    rcases hb with ⟨_, _, _, _, rfl, _, _, rfl, ht, hi⟩ | ⟨_, _, _, rfl, _, _, rfl, ht, hs⟩
    · exact .spanned fun a a' => sameInit_varDecl ht hi a a'
    · exact (Alike.spanFrom _ _).bind fun _ _ _ => .fail (.of_cause rfl rfl)

theorem forStep (header : Bool) :
    Alike ts us (Same (ForStep.mapSpans noSpan)) (Parser.forStep g header) (Parser.forStep g header) := by
  unfold Parser.forStep
  refine Alike.start.bind fun _ _ _ => (hg.expression header).bind fun e e' he => ?_
  refine (Alike.assignment? hl hg header).bind fun o o' ho => ?_
  match o, o', ho with
  | some (op, v), some (_, v'), ⟨rfl, hv⟩ =>
    exact .spanned fun _ _ => congrArg₂ (ForStep.assign .zero · op ·) he hv
  | none, none, _ => exact .done (congrArg ForStep.expr he)

/-- Headers of a loop that differ in their spans only. -/
abbrev SameHeader (p q : ForInit × Expr × ForStep) : Prop :=
  Same (ForInit.mapSpans noSpan) p.1 q.1 ∧ SameExpr p.2.1 q.2.1 ∧ Same (ForStep.mapSpans noSpan) p.2.2 q.2.2

theorem forHeader (header : Bool) : Alike ts us SameHeader (Parser.forHeader g header) (Parser.forHeader g header) := by
  unfold Parser.forHeader
  refine (Alike.forInit hl hg header).bind fun i i' hi => (Alike.semicolon hl).thenEq fun _ => ?_
  refine (hg.expression header).bind fun c c' hc => (Alike.semicolon hl).thenEq fun _ => ?_
  exact (Alike.forStep hl hg header).bind fun s s' hs => .done ⟨hi, hc, hs⟩

theorem forEachRest : Alike ts us SameForm (Parser.forEachRest g) (Parser.forEachRest g) := by
  unfold Parser.forEachRest
  refine (Alike.identifier hl).thenEq fun name => (Alike.skip hl).bind fun _ _ _ => ?_
  refine (hg.expression true).bind fun e e' he => hg.block.bind fun b b' hb => .done fun _ _ => ?_
  exact congrArg₂ (Stmt.forEach .zero name) he hb

theorem forLoopRest : Alike ts us SameForm (Parser.forLoopRest g) (Parser.forLoopRest g) := by
  have hloop {h h' : ForInit × Expr × ForStep} {b b' : Block} (hh : SameHeader h h')
      (hb : Same (Block.mapSpans noSpan) b b') :
      SameForm (.forLoop · h.1 h.2.1 h.2.2 b) (.forLoop · h'.1 h'.2.1 h'.2.2 b') := by
    intro _ _
    change Stmt.forLoop .zero _ _ _ _ = Stmt.forLoop .zero _ _ _ _
    rw [hh.1, hh.2.1, hh.2.2, hb]
  unfold Parser.forLoopRest
  refine (Alike.isAt hl _).thenEq fun opens => .ite ?_ ?_
  · refine (Alike.skip hl).bind fun _ _ _ => (Alike.forHeader hl hg false).bind fun h h' hh => ?_
    exact (Alike.closing hl _ _ _).thenEq fun _ => hg.block.bind fun b b' hb => .done (hloop hh hb)
  · refine (Alike.forHeader hl hg true).bind fun h h' hh => ?_
    exact hg.block.bind fun b b' hb => .done (hloop hh hb)

theorem forStatement : Alike ts us SameForm (Parser.forStatement g) (Parser.forStatement g) := by
  unfold Parser.forStatement
  refine (Alike.expect hl _ _).bind fun _ _ _ => (Alike.atIdent hl).thenEq fun named => ?_
  exact (Alike.isAhead hl _ _).thenEq fun each => .ite (Alike.forEachRest hl hg) (Alike.forLoopRest hl hg)

theorem returnStatement : Alike ts us SameForm (Parser.returnStatement g) (Parser.returnStatement g) := by
  unfold Parser.returnStatement
  refine (Alike.skip hl).bind fun _ _ _ => (Alike.isAt hl _).thenEq fun bare => .ite ?_ ?_
  · exact (Alike.semicolon hl).thenEq fun _ => .done fun _ _ => rfl
  · refine (hg.expression false).bind fun e e' he => (Alike.semicolon hl).thenEq fun _ => .done fun _ _ => ?_
    exact congrArg (fun e => Stmt.returnValue .zero (some e)) he

theorem statementForm : Alike ts us SameForm (Parser.statementForm g) (Parser.statementForm g) := by
  unfold Parser.statementForm
  refine (Alike.kind hl).thenEq fun kind => ?_
  split
  · refine (Alike.ifBody hl hg).bind fun p p' hp => .done fun _ _ => ?_
    change Stmt.ifElse .zero _ _ _ = Stmt.ifElse .zero _ _ _
    rw [hp.condition, hp.body, hp.otherwise]
  · refine (Alike.skip hl).bind fun _ _ _ => (Alike.headerCondition hg).bind fun c c' hc => ?_
    exact hg.block.bind fun b b' hb => .done fun _ _ => congrArg₂ (Stmt.whileLoop .zero) hc hb
  · exact Alike.forStatement hl hg
  · refine (Alike.skip hl).bind fun _ _ _ => (hg.expression false).bind fun e e' he => ?_
    exact (Alike.semicolon hl).thenEq fun _ => .done fun _ _ => congrArg (Stmt.defer .zero) he
  · exact Alike.returnStatement hl hg
  · exact (Alike.skip hl).bind fun _ _ _ => (Alike.semicolon hl).thenEq fun _ => .done fun _ _ => rfl
  · exact (Alike.skip hl).bind fun _ _ _ => (Alike.semicolon hl).thenEq fun _ => .done fun _ _ => rfl
  · refine hg.block.bind fun b b' hb => .done fun _ _ => ?_
    obtain ⟨s, ss⟩ := b
    obtain ⟨s', ss'⟩ := b'
    have hb : Block.mk .zero _ = Block.mk .zero _ := hb
    exact congrArg (Stmt.block .zero) (Block.mk.inj hb).2
  · exact (Alike.simpleStatement hl hg).bind fun f f' hf => (Alike.semicolon hl).thenEq fun _ => .done hf

theorem statement : Alike ts us SameStmt (Parser.statement g) (Parser.statement g) := by
  unfold Parser.statement
  exact Alike.start.bind fun _ _ _ => (Alike.statementForm hl hg).bind fun f f' hf => .spanned fun a b => hf a b

end Alike

/-! ### Recovery -/

/-- The reading place behind `k` more tokens. -/
def passing (k : Nat) (last : Option Token) (ts : List Token) : Option Token × List Token :=
  ((ts.take k).getLast?.or last, ts.drop k)

theorem passing_zero (last : Option Token) (ts : List Token) : passing 0 last ts = (last, ts) := rfl

theorem passing_succ (k : Nat) (last : Option Token) (t : Token) (ts : List Token) :
    passing (k + 1) last (t :: ts) = passing k (some t) ts := by
  unfold passing
  rw [List.take_succ_cons, List.drop_succ_cons, List.getLast?_cons]
  cases (ts.take k).getLast? <;> rfl

/-- Behind `k` more tokens of its stream. -/
theorem StandsAt.passing {n k : Nat} {s : ParseState} (h : StandsAt ts n s) (hk : k ≤ s.rest.length) :
    StandsAt ts (n + k)
      { s with last := (passing k s.last s.rest).1, rest := (passing k s.last s.rest).2 } := by
  have hlen : n + k ≤ ts.length := by
    rw [h.rest, List.length_drop] at hk
    have := h.bound
    omega
  refine ⟨hlen, ?_, ?_⟩
  · simp only [ElleFrontEnd.passing, h.rest, List.drop_drop]
  · simp only [ElleFrontEnd.passing, h.rest, h.last, List.take_add, List.getLast?_append]

/-- Two scans pass equally many tokens, and no `eof`. -/
def PassAlike (scan : Option Token → List Token → Option Token × List Token) (xs ys : List Token) : Prop :=
  ∃ k ≤ xs.length, (∀ t ∈ xs.take k, t.kind ≠ .eof) ∧ (∀ last, scan last xs = passing k last xs) ∧
    ∀ last, scan last ys = passing k last ys

namespace PassAlike

variable {scan scan' : Option Token → List Token → Option Token × List Token} {x y : Token} {xs ys : List Token}

theorem stay (hx : ∀ last, scan last xs = (last, xs)) (hy : ∀ last, scan last ys = (last, ys)) :
    PassAlike scan xs ys :=
  ⟨0, Nat.zero_le _, by simp, hx, hy⟩

theorem one (hk : x.kind ≠ .eof) (hx : ∀ last, scan last (x :: xs) = (some x, xs))
    (hy : ∀ last, scan last (y :: ys) = (some y, ys)) :
    PassAlike scan (x :: xs) (y :: ys) :=
  ⟨1, by simp, by simpa using hk, fun last => by rw [hx, passing_succ, passing_zero], fun last => by
    rw [hy, passing_succ, passing_zero]⟩

theorem next (hk : x.kind ≠ .eof) (h : PassAlike scan' xs ys) (hx : ∀ last, scan last (x :: xs) = scan' (some x) xs)
    (hy : ∀ last, scan last (y :: ys) = scan' (some y) ys) : PassAlike scan (x :: xs) (y :: ys) := by
  obtain ⟨k, hlen, he, hxs, hys⟩ := h
  refine ⟨k + 1, by simpa using hlen, ?_, fun last => ?_, fun last => ?_⟩
  · rw [List.take_succ_cons]
    intro t ht
    rcases List.mem_cons.1 ht with rfl | ht
    · exact hk
    · exact he t ht
  · rw [hx, hxs, passing_succ]
  · rw [hy, hys, passing_succ]

end PassAlike

/-- Two states behind scans that pass equally many tokens. -/
theorem Twin.scan {scan : Option Token → List Token → Option Token × List Token} {s u : ParseState}
    (h : Twin ts us s u) (hs : PassAlike scan s.rest u.rest) (hlen : s.rest.length = u.rest.length) :
    Twin ts us { s with last := (scan s.last s.rest).1, rest := (scan s.last s.rest).2 }
        { u with last := (scan u.last u.rest).1, rest := (scan u.last u.rest).2 } ∧
      Advances s { s with last := (scan s.last s.rest).1, rest := (scan s.last s.rest).2 } := by
  obtain ⟨n, h⟩ := h
  obtain ⟨k, hk, he, hx, hy⟩ := hs
  rw [hx, hy]
  refine ⟨⟨n + k, h.left.passing hk, h.right.passing (hlen ▸ hk), h.owed, h.errors⟩, ?_, ⟨[], by simp⟩⟩
  exact ⟨s.rest.take k, (List.take_append_drop k s.rest).symm, rfl, he⟩

theorem Twin.kinds (hl : SameLayout ts us) {s u : ParseState} (h : Twin ts us s u) :
    s.rest.map Token.kind = u.rest.map Token.kind := by
  obtain ⟨n, h⟩ := h
  rw [h.left.rest, h.right.rest, List.map_drop, List.map_drop, hl.kinds]

theorem passAlike_skipStatement (depth : Nat) {xs ys : List Token} (h : xs.map Token.kind = ys.map Token.kind) :
    PassAlike (Parser.skipStatement depth) xs ys := by
  induction xs generalizing depth ys with
  | nil =>
    rw [List.map_eq_nil_iff.1 h.symm]
    exact .stay (fun _ => rfl) fun _ => rfl
  | cons x xs ih =>
    cases ys with
    | nil => simp at h
    | cons y ys =>
      obtain ⟨kind, _, _⟩ := x
      obtain ⟨kind', _, _⟩ := y
      rw [List.map_cons, List.map_cons, List.cons.injEq] at h
      obtain ⟨rfl : kind = kind', h⟩ := h
      have hgo (depth' : Nat) := ih depth' h
      cases kind with
      | eof => exact .stay (fun _ => rfl) fun _ => rfl
      | punctuation mark =>
        cases mark with
        | rBrace =>
          by_cases hd : depth = 0
          · exact .stay (fun _ => if_pos hd) fun _ => if_pos hd
          · exact .next (by simp) (hgo (depth - 1)) (fun _ => if_neg hd) fun _ => if_neg hd
        | semicolon =>
          by_cases hd : depth = 0
          · exact .one (by simp) (fun _ => if_pos hd) fun _ => if_pos hd
          · exact .next (by simp) (hgo depth) (fun _ => if_neg hd) fun _ => if_neg hd
        | lBrace | lParen | lBracket => exact .next (by simp) (hgo (depth + 1)) (fun _ => rfl) fun _ => rfl
        | rParen | rBracket => exact .next (by simp) (hgo (depth - 1)) (fun _ => rfl) fun _ => rfl
        | _ => exact .next (by simp) (hgo depth) (fun _ => rfl) fun _ => rfl
      | _ => exact .next (by simp) (hgo depth) (fun _ => rfl) fun _ => rfl

theorem passAlike_skipDeclaration (moved : Bool) (depth : Nat) {xs ys : List Token}
    (h : xs.map Token.kind = ys.map Token.kind) : PassAlike (Parser.skipDeclaration moved depth) xs ys := by
  induction xs generalizing moved depth ys with
  | nil =>
    rw [List.map_eq_nil_iff.1 h.symm]
    exact .stay (fun _ => rfl) fun _ => rfl
  | cons x xs ih =>
    cases ys with
    | nil => simp at h
    | cons y ys =>
      obtain ⟨kind, _, _⟩ := x
      obtain ⟨kind', _, _⟩ := y
      rw [List.map_cons, List.map_cons, List.cons.injEq] at h
      obtain ⟨rfl : kind = kind', h⟩ := h
      have hgo (depth' : Nat) := ih true depth' h
      have hhead : xs.head?.map Token.kind = ys.head?.map Token.kind := by
        rw [← List.head?_map, ← List.head?_map, h]
      by_cases ho : (decide (depth = 0) && moved &&
          Parser.opensDeclaration kind ((xs.head?.map Token.kind).getD .eof)) = true
      · exact .stay (fun _ => if_pos ho) fun _ => if_pos (hhead ▸ ho)
      have ho' : ¬ (decide (depth = 0) && moved &&
          Parser.opensDeclaration kind ((ys.head?.map Token.kind).getD .eof)) = true := hhead ▸ ho
      cases kind with
      | eof => exact .stay (fun _ => if_neg ho) fun _ => if_neg ho'
      | punctuation mark =>
        cases mark with
        | rBrace =>
          by_cases hd : depth ≤ 1
          · exact .one (by simp) (fun _ => (if_neg ho).trans (if_pos hd)) fun _ => (if_neg ho').trans (if_pos hd)
          · exact .next (by simp) (hgo (depth - 1)) (fun _ => (if_neg ho).trans (if_neg hd)) fun _ =>
              (if_neg ho').trans (if_neg hd)
        | semicolon =>
          by_cases hd : depth = 0
          · exact .one (by simp) (fun _ => (if_neg ho).trans (if_pos hd)) fun _ => (if_neg ho').trans (if_pos hd)
          · exact .next (by simp) (hgo depth) (fun _ => (if_neg ho).trans (if_neg hd)) fun _ =>
              (if_neg ho').trans (if_neg hd)
        | lBrace | lParen | lBracket => exact .next (by simp) (hgo (depth + 1)) (fun _ => if_neg ho) fun _ => if_neg ho'
        | rParen | rBracket => exact .next (by simp) (hgo (depth - 1)) (fun _ => if_neg ho) fun _ => if_neg ho'
        | _ => exact .next (by simp) (hgo depth) (fun _ => if_neg ho) fun _ => if_neg ho'
      | _ => exact .next (by simp) (hgo depth) (fun _ => if_neg ho) fun _ => if_neg ho'

/-! ### Blocks -/

/-- Blocks that differ in their spans only. -/
abbrev SameBlock : Block → Block → Prop := Same (Block.mapSpans noSpan)

namespace Alike

section
variable (hl : SameLayout ts us) {g : Inner} (hg : Steady ts us g)
include hl

omit hl in
theorem record {d e : Diagnostic} (h : SameReport d e) : Alike ts us Unrelated (Parser.record d) (Parser.record e) :=
  .change fun s _ ht => ⟨ht.record h, .record s _⟩

theorem toNextStatement :
    Alike ts us Unrelated (Parser.change Parser.toNextStatement) (Parser.change Parser.toNextStatement) :=
  .change fun _ _ ht => ht.scan (passAlike_skipStatement 0 (ht.kinds hl)) (ht.length hl)

theorem toNextDeclaration :
    Alike ts us Unrelated (Parser.change Parser.toNextDeclaration) (Parser.change Parser.toNextDeclaration) :=
  .change fun _ _ ht => ht.scan (passAlike_skipDeclaration false 0 (ht.kinds hl)) (ht.length hl)

include hg

theorem blockRound (o : ParseOptions) (opened opened' : Span) :
    Alike ts us (RoundRel SameStmt) (Parser.blockRound o g opened) (Parser.blockRound o g opened') := by
  unfold Parser.blockRound
  refine (Alike.accept hl _).thenEq fun closes => .ite (.done trivial) ?_
  refine (Alike.atEnd hl).thenEq fun ends => .ite ?_ ?_
  · exact Alike.span.bind fun _ _ _ => .fail (.of_cause rfl rfl)
  refine (Alike.accept hl _).thenEq fun stray => .ite (.done trivial) ?_
  refine (Alike.outcome (Alike.statement hl hg)).bind fun r r' hr => ?_
  cases hr with
  | ok hs => exact .done hs
  | error hd =>
    refine .ite ?_ (.fail hd)
    exact (Alike.record hd).bind fun _ _ _ => (Alike.toNextStatement hl).bind fun _ _ _ => .done trivial

theorem blockBody (o : ParseOptions) : Alike ts us SameBlock (Parser.blockBody o g) (Parser.blockBody o g) := by
  unfold Parser.blockBody
  refine (Alike.expect hl _ _).bind fun opened opened' _ => ?_
  refine (Alike.collect hl (Alike.blockRound hl hg o _ _)).bind fun ss ss' hss => .spanned fun _ _ => ?_
  have := map_eq_of_same hss
  rw [← stmtListMapSpans_eq_map, ← stmtListMapSpans_eq_map] at this
  exact congrArg (Block.mk .zero) this

end

end Alike

/-- At every depth the parsers of nested constructs run alike. -/
theorem steady_ofRoom (hl : SameLayout ts us) (o : ParseOptions) (room : Nat) : Steady ts us (Inner.ofRoom o room) := by
  induction room with
  | zero =>
    have hdeep {α : Type} {R : α → α → Prop} : Alike ts us R (Parser.tooDeep o.maxDepth) (Parser.tooDeep o.maxDepth) :=
      Alike.tooDeep _
    exact ⟨fun _ => hdeep, fun _ => hdeep, fun _ _ => hdeep, fun _ => hdeep, hdeep, hdeep⟩
  | succ room ih =>
    exact
      { type := Alike.typeExpr hl _ _
        expression := Alike.expressionBody hl ih
        chain := Alike.chainBody hl ih
        unary := Alike.unaryBody hl ih
        block := Alike.blockBody hl ih o
        elseIf := Alike.ifBody hl ih }

/-! ### Declarations -/

/-- Attributes that differ in their spans only. -/
abbrev SameAttribute : Attribute → Attribute → Prop := Same (Attribute.mapSpans noSpan)

/-- Declarations that differ in their spans only. -/
abbrev SameDeclaration : Declaration → Declaration → Prop := Same (Declaration.mapSpans noSpan)

/-- Declarations without their stretches that differ in their spans only. -/
abbrev SameHead (f f' : Span → Declaration) : Prop := ∀ a b, SameDeclaration (f a) (f' b)

theorem DeclName.display_mapSpans (f : Span → Span) (n : DeclName) : (n.mapSpans f).display = n.display := by
  cases n <;> rfl

namespace Alike

section
variable (hl : SameLayout ts us)
include hl

theorem pathSegment : Alike ts us Eq Parser.pathSegment Parser.pathSegment := by
  unfold Parser.pathSegment
  refine (Alike.kind hl).thenEq fun kind => ?_
  split
  · exact (Alike.skip hl).bind fun _ _ _ => .done rfl
  · exact Alike.identifier hl

theorem importPath : Alike ts us Eq Parser.importPath Parser.importPath := by
  unfold Parser.importPath
  refine (Alike.expect hl _ _).bind fun _ _ _ => (Alike.separatedBy hl _ (Alike.pathSegment hl)).bind fun _ _ h => ?_
  exact (Alike.semicolon hl).thenEq fun _ => .done (by rw [eq_of_forall₂_eq h])

theorem globalOption : Alike ts us Eq Parser.globalOption Parser.globalOption := by
  unfold Parser.globalOption
  refine (Alike.kind hl).thenEq fun kind => ?_
  split
  · exact (Alike.skip hl).bind fun _ _ _ => .done rfl
  · exact (Alike.skip hl).bind fun _ _ _ => .done rfl
  · exact Alike.unexpected hl _

theorem globalLine : Alike ts us Eq Parser.globalLine Parser.globalLine := by
  unfold Parser.globalLine
  refine (Alike.expect hl _ _).bind fun _ _ _ => (Alike.separatedBy hl _ (Alike.globalOption hl)).bind fun _ _ h => ?_
  exact (Alike.semicolon hl).thenEq fun _ => .done (eq_of_forall₂_eq h)

theorem moduleLine : Alike ts us Eq Parser.moduleLine Parser.moduleLine := by
  unfold Parser.moduleLine
  refine (Alike.skip hl).bind fun _ _ _ => (Alike.identifier hl).thenEq fun name => ?_
  exact (Alike.semicolon hl).thenEq fun _ => .done rfl

theorem modifierList : Alike ts us Eq Parser.modifierList Parser.modifierList := by
  unfold Parser.modifierList
  refine (Alike.collect (R := Eq) hl ?_).mono fun _ _ => eq_of_forall₂_eq
  unfold Parser.modifierRound
  refine (Alike.isAt hl _).thenEq fun bang => .ite ?_ ?_
  · refine Alike.thenEq (.look fun s u ht => ht.kindAt hl 1) fun kind => ?_
    split
    · exact (Alike.skip hl).bind fun _ _ _ => (Alike.skip hl).bind fun _ _ _ => .done rfl
    · exact (Alike.skip hl).bind fun _ _ _ => Alike.unexpected hl _
  · refine (Alike.kind hl).thenEq fun kind => ?_
    split
    · exact (Alike.skip hl).bind fun _ _ _ => .done rfl
    · exact .done trivial

theorem declName : Alike ts us (Same (DeclName.mapSpans noSpan)) Parser.declName Parser.declName := by
  unfold Parser.declName
  refine Alike.start.bind fun _ _ _ => (Alike.kind hl).thenEq fun kind => ?_
  split
  · exact (Alike.skip hl).bind fun _ _ _ => .spanned fun _ _ => rfl
  · refine (Alike.identifier hl).thenEq fun first => (Alike.isAt hl _).thenEq fun path => .ite ?_ ?_
    · exact (Alike.pathTail hl).thenEq fun tail => .spanned fun _ _ => rfl
    · exact .spanned fun _ _ => rfl

theorem noDeclaration {α β : Type} {R : α → β → Prop} : Alike ts us R Parser.noDeclaration Parser.noDeclaration := by
  intro s u ht
  unfold Parser.noDeclaration
  rw [ht.kind hl]
  exact .error (.of_cause rfl rfl) ht (.refl s)

variable {g : Inner} (hg : Steady ts us g)
include hg

theorem attributeList :
    Alike ts us (Same (List.map (Attribute.mapSpans noSpan))) (Parser.attributeList g) (Parser.attributeList g) := by
  unfold Parser.attributeList
  refine (Alike.collect (R := SameAttribute) hl ?_).mono fun _ _ => map_eq_of_same
  unfold Parser.attributeRound
  refine (Alike.isAt hl _).thenEq fun marks => .ite ?_ (.done trivial)
  refine (Alike.skip hl).bind fun _ _ _ => (Alike.identifier hl).thenEq fun name => ?_
  refine (Alike.isAt hl _).thenEq fun opens => .ite ?_ ?_
  · refine (Alike.arguments hl hg).bind fun as as' has => (Alike.spanFrom _ _).bind fun _ _ _ => .done ?_
    exact congrArg (Attribute.mk .zero name ∘ some) has
  · exact (Alike.spanFrom _ _).bind fun _ _ _ => .done rfl

theorem returnType : Alike ts us (OptionRel SameType) (Parser.returnType g) (Parser.returnType g) := by
  unfold Parser.returnType
  refine (Alike.accept hl _).thenEq fun arrow => .ite ?_ (.done trivial)
  exact (hg.type 0).bind fun t t' ht => .done ht

theorem functionBody (modifiers : List Modifier) {name name' : DeclName}
    (hn : Same (DeclName.mapSpans noSpan) name name') :
    Alike ts us (OptionRel SameBlock) (Parser.functionBody g modifiers name)
      (Parser.functionBody g modifiers name') := by
  have hn : name.display = name'.display := by
    have hn : name.mapSpans noSpan = name'.mapSpans noSpan := hn
    rw [← DeclName.display_mapSpans noSpan, hn, DeclName.display_mapSpans]
  unfold Parser.functionBody
  rw [hn]
  refine (Alike.isAt hl _).thenEq fun braced => .ite ?_ ?_
  · exact hg.block.bind fun b b' hb => .ite (.fail (.of_cause rfl rfl)) (.done hb)
  · exact (Alike.onError (Alike.semicolon hl) fun _ _ h => h.withHint _).thenEq fun _ => .done trivial

theorem functionDecl (modifiers : List Modifier) : Alike ts us
    (fun f f' => f.modifiers = f'.modifiers ∧ Same (FunctionDecl.mapSpans noSpan) f f')
    (Parser.functionDecl g modifiers) (Parser.functionDecl g modifiers) := by
  unfold Parser.functionDecl
  refine (Alike.expect hl _ _).bind fun _ _ _ => (Alike.declName hl).bind fun n n' hn => ?_
  refine (Alike.typeParams hl).thenEq fun generics => (Alike.paramList hl hg).bind fun ps ps' hps => ?_
  refine (Alike.attributeList hl hg).bind fun as as' has => (Alike.returnType hl hg).bind fun r r' hr => ?_
  refine (Alike.functionBody hl hg modifiers hn).bind fun b b' hb => .done ⟨rfl, ?_⟩
  have hr := map_of_optionRel hr
  have hb := map_of_optionRel hb
  change FunctionDecl.mk modifiers _ generics _ _ _ _ = FunctionDecl.mk modifiers _ generics _ _ _ _
  rw [hn, hps, has, hr, hb]

theorem constDecl (modifiers : List Modifier) : Alike ts us (Same (ConstDecl.mapSpans noSpan))
    (Parser.constDecl g modifiers) (Parser.constDecl g modifiers) := by
  have htype : Alike ts us (OptionRel SameType) (Parser.constType g) (Parser.constType g) := by
    unfold Parser.constType
    refine (Alike.atIdent hl).thenEq fun named => (Alike.isAhead hl _ _).thenEq fun eq => .ite (.done trivial) ?_
    exact (hg.type 0).bind fun t t' ht => .done ht
  unfold Parser.constDecl
  refine (Alike.expect hl _ _).bind fun _ _ _ => htype.bind fun t t' ht => (Alike.identifier hl).thenEq fun name => ?_
  refine (Alike.expect hl _ _).bind fun _ _ _ => (hg.expression false).bind fun e e' he => ?_
  refine (Alike.semicolon hl).thenEq fun _ => .done ?_
  exact congrArg₂ (ConstDecl.mk modifiers · name ·) (map_of_optionRel ht) he

theorem structField : Alike ts us (Same (Field.mapSpans noSpan)) (Parser.structField g) (Parser.structField g) := by
  unfold Parser.structField
  refine Alike.start.bind fun _ _ _ => (Alike.atIdent hl).thenEq fun named =>
    (Alike.isAhead hl _ _).thenEq fun colon => ?_
  refine .ite ?_ ?_
  · refine (Alike.identifier hl).thenEq fun name => (Alike.skip hl).bind fun _ _ _ => ?_
    exact (hg.type 0).bind fun t t' ht => .spanned fun _ _ => congrArg (Field.mk .zero · name) ht
  · refine (hg.type 0).bind fun t t' ht => (Alike.identifier hl).thenEq fun name => .spanned fun _ _ => ?_
    exact congrArg (Field.mk .zero · name) ht

theorem fieldRound (opened opened' : Span) : Alike ts us (RoundRel (Same (Field.mapSpans noSpan)))
    (Parser.fieldRound g opened) (Parser.fieldRound g opened') := by
  unfold Parser.fieldRound
  refine (Alike.accept hl _).thenEq fun closes => .ite (.done trivial) ?_
  refine (Alike.atEnd hl).thenEq fun ends => (Alike.isAt hl _).thenEq fun paren =>
    (Alike.isAt hl _).thenEq fun bracket => ?_
  refine .ite ?_ ?_
  · exact (Alike.kind hl).thenEq fun kind => Alike.span.bind fun _ _ _ => .fail (.of_cause rfl rfl)
  · refine (Alike.structField hl hg).bind fun f f' hf => (Alike.accept hl _).thenEq fun _ => .ite (.done hf) ?_
    refine (Alike.accept hl _).thenEq fun _ => .ite (.done hf) ?_
    exact (Alike.isAt hl _).thenEq fun _ => .ite (.done hf) (Alike.unexpected hl _)

theorem structDecl (modifiers : List Modifier) : Alike ts us (Same (StructDecl.mapSpans noSpan))
    (Parser.structDecl g modifiers) (Parser.structDecl g modifiers) := by
  unfold Parser.structDecl
  refine (Alike.expect hl _ _).bind fun _ _ _ => (Alike.identifier hl).thenEq fun name => ?_
  refine (Alike.typeParams hl).thenEq fun generics => (Alike.attributeList hl hg).bind fun as as' has => ?_
  refine (Alike.expect hl _ _).bind fun _ _ _ =>
    (Alike.collect hl (Alike.fieldRound hl hg _ _)).bind fun fs fs' hf => ?_
  refine (Alike.accept hl _).thenEq fun _ => .done ?_
  exact congrArg₂ (StructDecl.mk modifiers name generics) has (map_eq_of_same hf)

theorem modifiedForm : Alike ts us SameHead (Parser.modifiedForm g) (Parser.modifiedForm g) := by
  unfold Parser.modifiedForm
  refine (Alike.modifierList hl).thenEq fun modifiers => (Alike.kind hl).thenEq fun kind => ?_
  split
  · refine (Alike.functionDecl hl hg modifiers).bind fun f f' hf => ?_
    rw [hf.1]
    refine .ite (.done fun _ _ => ?_) (.done fun _ _ => ?_)
    · exact congrArg (Declaration.externalFunction .zero) hf.2
    · exact congrArg (Declaration.function .zero) hf.2
  · refine (Alike.constDecl hl hg modifiers).bind fun c c' hc => .done fun _ _ => ?_
    exact congrArg (Declaration.constant .zero) hc
  · refine (Alike.structDecl hl hg modifiers).bind fun d d' hd => .done fun _ _ => ?_
    exact congrArg (Declaration.struct .zero) hd
  · exact Alike.noDeclaration hl

theorem declaration : Alike ts us SameDeclaration (Parser.declaration g) (Parser.declaration g) := by
  have hform : Alike ts us SameHead (Parser.declarationForm g) (Parser.declarationForm g) := by
    unfold Parser.declarationForm
    refine (Alike.kind hl).thenEq fun kind => ?_
    split
    · exact (Alike.importPath hl).thenEq fun path => .done fun _ _ => rfl
    · exact (Alike.globalLine hl).thenEq fun options => .done fun _ _ => rfl
    · exact (Alike.moduleLine hl).thenEq fun name => .done fun _ _ => rfl
    · exact Alike.modifiedForm hl hg
  unfold Parser.declaration
  exact Alike.start.bind fun _ _ _ => hform.bind fun f f' hf => .spanned fun a b => hf a b

omit hg in
theorem programRound (o : ParseOptions) :
    Alike ts us (RoundRel SameDeclaration) (Parser.programRound o) (Parser.programRound o) := by
  unfold Parser.programRound
  refine (Alike.atEnd hl).thenEq fun ends => .ite (.done trivial) ?_
  refine (Alike.accept hl _).thenEq fun stray => .ite (.done trivial) ?_
  refine (Alike.outcome (Alike.declaration hl (steady_ofRoom hl o _))).bind fun r r' hr => ?_
  cases hr with
  | ok hd => exact .done hd
  | error hd =>
    refine (Alike.record hd).bind fun _ _ _ => .ite ?_ (.done trivial)
    exact (Alike.toNextDeclaration hl).bind fun _ _ _ => .done trivial

omit hg in
theorem program (o : ParseOptions) : Alike ts us (Same (List.map (Declaration.mapSpans noSpan)))
    (Parser.program o) (Parser.program o) := by
  unfold Parser.program
  exact (Alike.collect hl (Alike.programRound hl o)).mono fun _ _ => map_eq_of_same

end

end Alike

/-! ### Token streams -/

/-- Two token streams of the same layout are read as programs that differ in their spans only, with the same reports
in the same order, whether or not reading goes on after a failure. -/
theorem parsePartial_of_sameLayout (h : SameLayout ts us) (o : ParseOptions) :
    (parsePartial ts o).1.withoutSpans = (parsePartial us o).1.withoutSpans ∧
      List.Forall₂ SameReport (parsePartial ts o).2 (parsePartial us o).2 := by
  have hstart : Twin ts us { rest := ts } { rest := us } :=
    ⟨0, ⟨Nat.zero_le _, rfl, rfl⟩, ⟨Nat.zero_le _, rfl, rfl⟩, rfl, .nil⟩
  have hrun := Alike.program h o _ _ hstart
  unfold parsePartial
  generalize Parser.program o { rest := ts } = x at hrun
  generalize Parser.program o { rest := us } = y at hrun
  cases hrun with
  | ok value place moved =>
    obtain ⟨n, place⟩ := place
    exact ⟨congrArg Program.mk value, place.errors⟩
  | error report place moved =>
    obtain ⟨n, place⟩ := place
    exact ⟨rfl, List.rel_append place.errors (.cons report .nil)⟩

/-- Blanks between tokens may move, while `V` and `<` stay together. -/
theorem parsePartial_of_sameLayout_generic :
    SameLayout (lex "fn f(V<T> x);").tokens (lex "fn f ( V<T>x ) ;").tokens ∧
      (parsePartial (lex "fn f(V<T> x);").tokens {}).1.withoutSpans =
        (parsePartial (lex "fn f ( V<T>x ) ;").tokens {}).1.withoutSpans := by
  have h : SameLayout (lex "fn f(V<T> x);").tokens (lex "fn f ( V<T>x ) ;").tokens := by decide +kernel
  exact ⟨h, (parsePartial_of_sameLayout h {}).1⟩

end ElleFrontEnd
