import ElleFrontEnd.Proofs.ReadType
import ElleFrontEnd.Proofs.Silent

/-!
# Successful runs of the expression grammar

One lemma for each parser of `Grammar.Expr`: what its successful runs are made of.  The parsers of nested constructs
are assumed to read on only, which they do at every depth (`settled_ofRoom`).
-/

namespace ElleFrontEnd

/-- What the parsers of nested constructs have in common at every depth: they run alike beside themselves, and so read
on only; types are read silently; and a block has at least its braces. -/
structure Inner.Settled (g : Inner) : Prop where
  steady : ∀ ts, Steady ts ts g
  silent : ∀ angles, Parser.Silent (g.type angles)
  shrinks : ∀ s body s', g.block.run s = (.ok body, s') → s'.rest.length < s.rest.length

theorem Parser.length_blockBody {g : Inner} (hg : ∀ ts, Steady ts ts g) {o : ParseOptions} {s s' : ParseState}
    {body : Block} (h : (Parser.blockBody o g).run s = (.ok body, s')) : s'.rest.length < s.rest.length := by
  simp [Parser.blockBody, Parser.expectMark, Parser.spanFrom] at h
  obtain ⟨hk, statements, h, -⟩ := h
  have hs : Advances s.advance s' := by
    refine Parser.advances_run (fun s => ?_) h
    exact Alike.advances (fun ts => Alike.collect (.refl ts) (Alike.blockRound (.refl ts) (hg ts) o _ _)) s
  have := Parser.length_advance_lt (s := s) (by simp [hk])
  have := hs.length_le
  omega

theorem settled_ofRoom (o : ParseOptions) (room : Nat) : (Inner.ofRoom o room).Settled := by
  refine ⟨fun ts => steady_ofRoom (.refl ts) o room, ?_, ?_⟩
  · cases room with
    | zero => exact fun _ _ => rfl
    | succ room => exact Parser.Silent.typeExpr o.maxDepth (room + 1)
  · intro s body s' h
    cases room with
    | zero => exact absurd (Parser.tooDeep_ok.1 h) id
    | succ room => exact Parser.length_blockBody (fun ts => steady_ofRoom (.refl ts) o room) h

namespace Inner.Settled

variable {g : Inner} (hg : g.Settled)
include hg

theorem type (angles : Nat) (s : ParseState) : Advances s (g.type angles s).2 :=
  Alike.advances (fun ts => (hg.steady ts).type angles) s

theorem expression (header : Bool) (s : ParseState) : Advances s (g.expression header s).2 :=
  Alike.advances (fun ts => (hg.steady ts).expression header) s

theorem chain (header : Bool) (level : Nat) (s : ParseState) : Advances s (g.chain header level s).2 :=
  Alike.advances (fun ts => (hg.steady ts).chain header level) s

theorem unary (header : Bool) (s : ParseState) : Advances s (g.unary header s).2 :=
  Alike.advances (fun ts => (hg.steady ts).unary header) s

theorem block (s : ParseState) : Advances s (g.block s).2 := Alike.advances (fun ts => (hg.steady ts).block) s

theorem elseIf (s : ParseState) : Advances s (g.elseIf s).2 := Alike.advances (fun ts => (hg.steady ts).elseIf) s

end Inner.Settled

namespace Parser

variable {s s' : ParseState} {g : Inner}

/-! ### Lists and names -/

/-- What ends a list before an item: its closer, or the end of the source. -/
def endsList (close : Punctuation) (s : ParseState) : Prop :=
  s.peek.kind = .punctuation close ∨ s.atEnd = true

/-- Whether a comma comes next. -/
def atComma (s : ParseState) : Prop := s.peek.kind = .punctuation .comma

@[simp] theorem noExpression_ok {α : Type} {a : α} : noExpression.run s = (.ok a, s') ↔ False := by
  simp [noExpression, run]

@[simp] theorem wrongOperands_ok {α : Type} {d : DirectiveName} {a : α} :
    (wrongOperands d).run s = (.ok a, s') ↔ False := by
  simp [wrongOperands, run]

@[simp] theorem requireOperand_ok {op : Operator} {u : Unit} :
    (requireOperand op).run s = (.ok u, s') ↔ opensOperand true s.peek.kind = true ∧ s = s' := by
  unfold run requireOperand
  split <;> simp_all

@[simp] theorem requireOperand_bind {β : Type} {op : Operator} {f : Unit → Parser β} {b : β} :
    (requireOperand op >>= f).run s = (.ok b, s') ↔
      opensOperand true s.peek.kind = true ∧ (f ()).run s = (.ok b, s') := by
  rw [bind_ok]
  constructor
  · rintro ⟨_, _, h, h'⟩
    obtain ⟨hk, rfl⟩ := requireOperand_ok.1 h
    exact ⟨hk, h'⟩
  · rintro ⟨hk, h⟩
    exact ⟨(), _, requireOperand_ok.2 ⟨hk, rfl⟩, h⟩

/-- The rounds of a list between commas. -/
abbrev CommaListed {α : Type} (close : Punctuation) (item : Parser α) : ParseState → List α → ParseState → Prop :=
  Listed (endsList close) atComma item

/-- The segments of a name, each behind a `::`. -/
inductive PathTail : ParseState → List String → ParseState → Prop
  | nil {s : ParseState} : s.peek.kind ≠ .punctuation .colonColon → PathTail s [] s
  | cons {s s' : ParseState} {name : String} {names : List String} : s.peek.kind = .punctuation .colonColon →
    s.advance.peek.kind = .ident name → PathTail s.advance.advance names s' → PathTail s (name :: names) s'

theorem pathTail_ok {names : List String} : pathTail.run s = (.ok names, s') ↔ PathTail s names s' := by
  have hstop (s s' : ParseState) : (do
      if ← acceptMark .colonColon then
        let segment ← identifier
        pure (Round.more segment)
      else pure .stop : Parser (Round String)).run s = (.ok .stop, s') ↔
        s.peek.kind ≠ .punctuation .colonColon ∧ s = s' := by
    simp [acceptMark, ite_eq_iff]
  have hmore (s s' : ParseState) (name : String) : (do
      if ← acceptMark .colonColon then
        let segment ← identifier
        pure (Round.more segment)
      else pure .stop : Parser (Round String)).run s = (.ok (.more name), s') ↔
        s.peek.kind = .punctuation .colonColon ∧ s.advance.peek.kind = .ident name ∧ s.advance.advance = s' := by
    simp [acceptMark, ite_eq_iff]
  have hround : RoundShrinks (do
      if ← acceptMark .colonColon then
        let segment ← identifier
        pure (Round.more segment)
      else pure .stop : Parser (Round String)) := by
    constructor
    · intro s name s' h
      obtain ⟨hk, -, rfl⟩ := (hmore s s' name).1 h
      have := length_advance_lt (s := s) (by simp [hk])
      have := (Advances.advance s.advance).length_le
      omega
    · intro s s' h
      simp [acceptMark, ite_eq_iff] at h
  unfold pathTail
  rw [collect_ok hround]
  constructor
  · intro h
    induction h with
    | stop h =>
      obtain ⟨hk, rfl⟩ := (hstop _ _).1 h
      exact .nil hk
    | last h => simp [acceptMark, ite_eq_iff] at h
    | more h _ ih =>
      obtain ⟨hk, hn, rfl⟩ := (hmore _ _ _).1 h
      exact .cons hk hn ih
    | none h _ _ => simp [acceptMark, ite_eq_iff] at h
  · intro h
    induction h with
    | nil hk => exact .stop ((hstop _ _).2 ⟨hk, rfl⟩)
    | cons hk hn _ ih => exact .more ((hmore _ _ _).2 ⟨hk, hn, rfl⟩) ih

section
variable (hg : g.Settled)
include hg

theorem exprList_ok {close : Punctuation} {opened : Span} {items : List Expr} :
    (exprList g close opened).run s = (.ok items, s') ↔
      ∃ s₁, CommaListed close (g.expression false) s items s₁ ∧ s₁.peek.kind = .punctuation close ∧
        s₁.advance = s' := by
  have hlist (s s' : ParseState) (as : List Expr) : (commaList close (g.expression false)).run s = (.ok as, s') ↔
      CommaListed close (g.expression false) s as s' := commaList_ok (hg.expression false)
  unfold exprList
  simp [hlist]

theorem arguments_ok {items : List Expr} :
    (arguments g).run s = (.ok items, s') ↔ s.peek.kind = .punctuation .lParen ∧
      ∃ s₁, CommaListed .rParen (g.expression false) s.advance items s₁ ∧ s₁.peek.kind = .punctuation .rParen ∧
        s₁.advance = s' := by
  unfold arguments expectMark
  simp [exprList_ok hg]

end

/-! ### Parameter lists and lambdas -/

theorem param_ok {p : Param} :
    (param g).run s = (.ok p, s') ↔
      (s.peek.kind = .punctuation .ellipsis ∧
          ((∃ name, s.advance.peek.kind = .ident name ∧ s' = s.advance.advance ∧
              p = .variadic (s'.spanFrom s.peek.span.start) (some name)) ∨
            (s.advance.peek.kind.ident? = none ∧ s' = s.advance ∧
              p = .variadic (s'.spanFrom s.peek.span.start) none))) ∨
        (s.peek.kind = .punctuation .atSign ∧ s.kindAt 1 = .ident noFormatMarker ∧
          ∃ type s₁ name, (g.type 0).run s.advance.advance = (.ok type, s₁) ∧ s₁.peek.kind = .ident name ∧
            s' = s₁.advance ∧ p = .noFormat (s'.spanFrom s.peek.span.start) type name) ∨
        (s.peek.kind ≠ .punctuation .ellipsis ∧
          ¬ (s.peek.kind = .punctuation .atSign ∧ s.kindAt 1 = .ident noFormatMarker) ∧
          ∃ type s₁, (g.type 0).run s = (.ok type, s₁) ∧
            ((∃ name, s₁.peek.kind = .ident name ∧ s' = s₁.advance ∧
                p = .named (s'.spanFrom s.peek.span.start) type name) ∨
              (s₁.peek.kind.ident? = none ∧ s' = s₁ ∧
                p = .unnamed (s'.spanFrom s.peek.span.start) type))) := by
  unfold param
  simp [nextStart, acceptMark, atIdent, atMark, isAt, isAhead, spanFrom, ite_eq_iff]
  grind [TokenKind.ident?]

theorem metaBinding_ok {name : Option String} :
    metaBinding.run s = (.ok name, s') ↔
      (s.peek.kind = .ident metaMarker ∧ ∃ n, s.advance.peek.kind = .ident n ∧ name = some n ∧
          ((s.advance.advance.peek.kind = .punctuation .rParen ∧ s' = s.advance.advance) ∨
            (s.advance.advance.peek.kind = .punctuation .comma ∧ s' = s.advance.advance.advance))) ∨
        (¬ (s.peek.kind = .ident metaMarker ∧ (s.kindAt 1).ident?.isSome = true) ∧ name = none ∧ s' = s) := by
  have hk (h : s.peek.kind = .ident metaMarker) : s.kindAt 1 = s.advance.peek.kind :=
    ParseState.kindAt_one (by simp [h])
  unfold metaBinding expectMark
  simp [isAt, atMark, ite_eq_iff]
  grind [TokenKind.ident?]

section
variable (hg : g.Settled)
include hg

theorem advances_param (s : ParseState) : Advances s (param g s).2 := 
  Alike.advances (fun ts => Alike.param (.refl ts) (hg.steady ts)) s

theorem advances_fieldInit (s : ParseState) : Advances s (fieldInit g s).2 :=
  Alike.advances (fun ts => Alike.fieldInit (.refl ts) (hg.steady ts)) s

theorem paramList_ok {list : ParamList} :
    (paramList g).run s = (.ok list, s') ↔ s.peek.kind = .punctuation .lParen ∧
      ∃ s₁ s₂, metaBinding.run s.advance = (.ok list.metaName, s₁) ∧
        CommaListed .rParen (param g) s₁ list.params s₂ ∧ s₂.peek.kind = .punctuation .rParen ∧ s₂.advance = s' := by
  have hlist (s s' : ParseState) (as : List Param) : (commaList .rParen (param g)).run s = (.ok as, s') ↔
      CommaListed .rParen (param g) s as s' := commaList_ok (advances_param hg)
  cases list with
  | mk metaName params =>
    unfold paramList expectMark
    simp [hlist]

omit hg in
theorem lambda_ok {header : Bool} {e : Expr} :
    (lambda g header).run s = (.ok e, s') ↔ s.peek.kind = .keyword .fn ∧
      ∃ params s₁, (paramList g).run s.advance = (.ok params, s₁) ∧
        ((s₁.peek.kind = .punctuation .lBrace ∧ ∃ body, g.block.run s₁ = (.ok body, s') ∧
            e = .blockLambda (s'.spanFrom s.peek.span.start) params body) ∨
          (s₁.peek.kind ≠ .punctuation .lBrace ∧ ∃ body, (g.expression header).run s₁ = (.ok body, s') ∧
            e = .lambda (s'.spanFrom s.peek.span.start) params body)) := by
  unfold lambda expectKeyword
  simp [atMark, isAt, spanFrom, ite_eq_iff]
  grind

end

/-! ### Struct literals, arrays, and the forms of `#` and `$` -/

section
variable (hg : g.Settled)
include hg

omit hg in
theorem fieldInit_ok {f : FieldInit} :
    (fieldInit g).run s = (.ok f, s') ↔ ∃ name value, s.peek.kind = .ident name ∧
      s.advance.peek.kind = .operator .eq ∧ (g.expression false).run s.advance.advance = (.ok value, s') ∧
      f = .mk (s'.spanFrom s.peek.span.start) name value := by
  unfold fieldInit expectOperator
  simp [nextStart, spanFrom]
  grind

/-- The type arguments of a struct literal that is read as such. -/
theorem structTypeArgs_some {generics : Option (List TypeExpr)} :
    (structTypeArgs g).run s = (.ok (some generics), s') ↔
      (s.peek.kind = .operator .lt ∧ s.isAdjacent = true ∧
          ∃ args, generics = some args ∧ (typeArgs g.type 0).run s = (.ok args, s') ∧ s'.owed = 0) ∨
        (¬ (s.peek.kind = .operator .lt ∧ s.isAdjacent = true) ∧ generics = none ∧ s' = s) := by
  unfold structTypeArgs
  simp [atOperator, isAt, isAdjacent, owed, ite_eq_iff, attempt_silent (.typeArgs hg.silent 0)]
  grind

/-- The type arguments of a struct literal, where none can be read. -/
theorem structTypeArgs_none :
    (structTypeArgs g).run s = (.ok none, s') ↔ s.peek.kind = .operator .lt ∧ s.isAdjacent = true ∧
      ((typeArgs g.type 0).Fails s ∧ s' = s ∨ ∃ args, (typeArgs g.type 0).run s = (.ok args, s') ∧ s'.owed ≠ 0) := by
  unfold structTypeArgs
  simp [atOperator, isAt, isAdjacent, owed, ite_eq_iff, attempt_silent (.typeArgs hg.silent 0)]
  grind

/-- Whether the braces of a struct literal come next. -/
def atBody (s : ParseState) : Prop :=
  s.peek.kind = .punctuation .lBrace ∧
    (s.kindAt 1 = .punctuation .rBrace ∨ (s.kindAt 1).ident?.isSome = true ∧ s.kindAt 2 = .operator .eq)

/-- The name just read opens no struct literal: there are no type arguments where they begin, or no braces behind
them. -/
def NoBody (g : Inner) (s : ParseState) : Prop :=
  (∃ s₁, (structTypeArgs g).run s = (.ok none, s₁)) ∨
    ∃ generics s₁, (structTypeArgs g).run s = (.ok (some generics), s₁) ∧ ¬ atBody s₁

theorem structLiteral?_some {start : Nat} {name : String} {e : Expr} :
    (structLiteral? g start name).run s = (.ok (some e), s') ↔
      ∃ generics s₁ fields s₂, (structTypeArgs g).run s = (.ok (some generics), s₁) ∧ atBody s₁ ∧
        CommaListed .rBrace (fieldInit g) s₁.advance fields s₂ ∧ s₂.peek.kind = .punctuation .rBrace ∧
        s' = s₂.advance ∧ e = .structLit (s'.spanFrom start) name generics fields := by
  have hlist (s s' : ParseState) (as : List FieldInit) : (commaList .rBrace (fieldInit g)).run s = (.ok as, s') ↔
      CommaListed .rBrace (fieldInit g) s as s' := commaList_ok (advances_fieldInit hg)
  unfold structLiteral? atStructBody
  simp [hlist, spanFrom, ite_eq_iff, atBody, Option.exists]
  grind

theorem structLiteral?_none {start : Nat} {name : String} :
    (structLiteral? g start name).run s = (.ok none, s') ↔ s' = s ∧ NoBody g s := by
  have hlist (s s' : ParseState) (as : List FieldInit) : (commaList .rBrace (fieldInit g)).run s = (.ok as, s') ↔
      CommaListed .rBrace (fieldInit g) s as s' := commaList_ok (advances_fieldInit hg)
  have hback {o : Option (Option (List TypeExpr))} {s₁ : ParseState} (h : (structTypeArgs g).run s = (.ok o, s₁)) :
      s₁.rewindTo s = s := rewindTo_eq ((Silent.structTypeArgs hg.silent).errors_eq h)
  unfold structLiteral? atStructBody
  simp [hlist, spanFrom, ite_eq_iff, atBody, NoBody, Option.exists]
  grind

theorem nameExpr_ok {header : Bool} {e : Expr} :
    (nameExpr g header).run s = (.ok e, s') ↔ ∃ name, s.peek.kind = .ident name ∧
      ((s.advance.peek.kind = .punctuation .colonColon ∧ ∃ names, PathTail s.advance names s' ∧
          e = .qualified (s'.spanFrom s.peek.span.start) (name :: names)) ∨
        (s.advance.peek.kind ≠ .punctuation .colonColon ∧ header = false ∧
          (structLiteral? g s.peek.span.start name).run s.advance = (.ok (some e), s')) ∨
        (s.advance.peek.kind ≠ .punctuation .colonColon ∧
          (header = true ∨ NoBody g s.advance) ∧
          s' = s.advance ∧ e = .ident (s'.spanFrom s.peek.span.start) name)) := by
  unfold nameExpr
  simp [nextStart, atMark, isAt, spanFrom, ite_eq_iff, pathTail_ok, Option.exists, structLiteral?_none hg]
  grind

theorem arrayLiteral_ok {start : Nat} {isStatic : Bool} {e : Expr} :
    (arrayLiteral g start isStatic).run s = (.ok e, s') ↔ s.peek.kind = .punctuation .lBracket ∧
      ∃ element s₁ elements s₂, CommaListed .rBracket (g.expression false) s₁ elements s₂ ∧
        s₂.peek.kind = .punctuation .rBracket ∧ s' = s₂.advance ∧
        e = .array (s'.spanFrom start) element isStatic elements ∧
        ((∃ type s₀, element = some type ∧ (g.type 0).run s.advance = (.ok type, s₀) ∧
            s₀.peek.kind = .punctuation .semicolon ∧ s₁ = s₀.advance) ∨
          (element = none ∧ s₁ = s.advance ∧ Fails (do
            let type ← g.type 0
            let _ ← expectMark .semicolon
            pure type) s.advance)) := by
  have htag : Silent (do
      let type ← g.type 0
      let _ ← expectMark .semicolon
      pure type) := (hg.silent 0).bind fun _ => (Silent.expect _ _).bind fun _ => .pure _
  unfold arrayLiteral
  simp [attempt_silent htag, exprList_ok hg, spanFrom]
  simp [expectMark]
  grind

end

/-! ### Directives -/

theorem operand_ok {α : Type} {d : DirectiveName} {isFirst : Bool} {p : Parser α} {a : α} :
    (operand d isFirst p).run s = (.ok a, s') ↔
      (isFirst = true ∧ s.peek.kind ≠ .punctuation .rParen ∧ p.run s = (.ok a, s')) ∨
        (isFirst = false ∧ s.peek.kind = .punctuation .comma ∧ s.advance.peek.kind ≠ .punctuation .rParen ∧
          p.run s.advance = (.ok a, s')) := by
  cases isFirst <;> simp [operand, acceptMark, atMark, isAt, ite_eq_iff]

theorem optionalOperand_ok {o : Option Expr} :
    (optionalOperand g).run s = (.ok o, s') ↔
      (s.peek.kind = .punctuation .comma ∧ ∃ e, o = some e ∧ (g.expression false).run s.advance = (.ok e, s')) ∨
        (s.peek.kind ≠ .punctuation .comma ∧ o = none ∧ s' = s) := by
  unfold optionalOperand
  simp [acceptMark, ite_eq_iff]
  grind

@[simp] theorem typeOperand_ok {d : DirectiveName} {t : TypeExpr} :
    (typeOperand g d).run s = (.ok t, s') ↔ (g.type 0).run s = (.ok t, s') := by
  simp [typeOperand]

theorem operandList_ok {α : Type} {d : DirectiveName} {p : Parser α} {a : α} :
    (operandList d p).run s = (.ok a, s') ↔ s.peek.kind = .punctuation .lParen ∧
      ∃ s₁, p.run s.advance = (.ok a, s₁) ∧ s₁.peek.kind = .punctuation .rParen ∧ s' = s₁.advance := by
  unfold operandList expectMark
  simp [atMark, isAt, atEnd, ite_eq_iff]
  grind

/-- The operands of a directive, from behind its parenthesis. -/
def Operands (g : Inner) (s s' : ParseState) : Directive → Prop
  | .len e | .free e | .setAllocator e =>
    s.peek.kind ≠ .punctuation .rParen ∧ (g.expression false).run s = (.ok e, s')
  | .size type => s.peek.kind ≠ .punctuation .rParen ∧ (g.type 0).run s = (.ok type, s')
  | .ident n => s.peek.kind = .ident n ∧ s' = s.advance
  | .alloc type count =>
    s.peek.kind ≠ .punctuation .rParen ∧ ∃ s₁, (g.type 0).run s = (.ok type, s₁) ∧
      (optionalOperand g).run s₁ = (.ok count, s')
  | .realloc e type count =>
    s.peek.kind ≠ .punctuation .rParen ∧ ∃ s₁ s₂, (g.expression false).run s = (.ok e, s₁) ∧
      s₁.peek.kind = .punctuation .comma ∧ s₁.advance.peek.kind ≠ .punctuation .rParen ∧
      (g.type 0).run s₁.advance = (.ok type, s₂) ∧ (optionalOperand g).run s₂ = (.ok count, s')
  | .env => False
  | .resetAllocator => s' = s

theorem directiveOf_ok {d : DirectiveName} {x : Directive} :
    (directiveOf g d).run s = (.ok x, s') ↔ x.name = d ∧
      ((x.name = .env ∧ s.peek.kind ≠ .punctuation .lParen ∧ s' = s) ∨
        (x.name ≠ .env ∧ s.peek.kind = .punctuation .lParen ∧
          ∃ s₁, Operands g s.advance s₁ x ∧ s₁.peek.kind = .punctuation .rParen ∧ s' = s₁.advance)) := by
  cases d <;> cases x <;>
    simp [directiveOf, operandList_ok, operand_ok, Directive.name, Operands, atMark, isAt, ite_eq_iff] <;> grind

theorem hashExpr_ok {e : Expr} :
    (hashExpr g).run s = (.ok e, s') ↔ s.peek.kind = .punctuation .hash ∧
      ((s.advance.peek.kind = .punctuation .lBracket ∧
          (arrayLiteral g s.peek.span.start true).run s.advance = (.ok e, s')) ∨
        ∃ name x, s.advance.peek.kind = .ident name ∧ DirectiveName.ofSpelling? name = some x.name ∧
          (directiveOf g x.name).run s.advance.advance = (.ok x, s') ∧
          e = .directive (s'.spanFrom s.peek.span.start) x) := by
  unfold hashExpr expectMark
  simp [atMark, isAt, nextKind, spanFrom, ite_eq_iff]
  intro _
  refine or_congr_right ?_
  constructor
  · rintro ⟨hk, h⟩
    split at h
    · rename_i name hname
      rw [skip_bind] at h
      split at h
      · simp at h
      · rename_i d hd
        simp at h
        obtain ⟨x, hx, rfl⟩ := h
        have hn := (directiveOf_ok.1 hx).1
        subst hn
        exact ⟨name, hname, x, hd, hx, rfl⟩
    · simp at h
  · rintro ⟨name, hk, x, hd, hx, rfl⟩
    refine ⟨by simp [hk], ?_⟩
    simp [hk, hd, hx]

theorem parenthesized_ok {start : Nat} {e : Expr} :
    (parenthesized g start).run s = (.ok e, s') ↔ ∃ inner s₁, (g.expression false).run s.advance = (.ok inner, s₁) ∧
      s₁.peek.kind = .punctuation .rParen ∧ s' = s₁.advance ∧ e = .paren (s'.spanFrom start) inner := by
  unfold parenthesized
  simp [spanFrom]
  grind

@[simp] theorem literal_ok {start : Nat} {build : Span → Expr} {e : Expr} :
    (literal start build).run s = (.ok e, s') ↔ build (s.advance.spanFrom start) = e ∧ s.advance = s' := by
  simp [literal, spanFrom]

@[simp] theorem wrongSize_ok {α : Type} {form : FixedLiteral} {found start : Nat} {a : α} :
    (wrongSize form found start).run s = (.ok a, s') ↔ False := by
  simp [wrongSize, spanFrom]

theorem dollarExpr_ok {e : Expr} :
    (dollarExpr g).run s = (.ok e, s') ↔ s.peek.kind = .punctuation .dollar ∧ s.advance.isAdjacent = true ∧
      ((s.advance.peek.kind = .punctuation .dollar ∧ s.advance.kindAt 1 = .punctuation .lParen ∧
          s.advance.nextIsAdjacent = true ∧ ∃ a b c, (arguments g).run s.advance.advance = (.ok [a, b, c], s') ∧
            e = .triple (s'.spanFrom s.peek.span.start) a b c) ∨
        (s.advance.peek.kind = .punctuation .lParen ∧ ∃ a b, (arguments g).run s.advance = (.ok [a, b], s') ∧
          e = .tuple (s'.spanFrom s.peek.span.start) a b) ∨
        ∃ name, s.advance.peek.kind = .ident name ∧
          ((s.advance.advance.peek.kind = .punctuation .lParen ∧ s.advance.advance.isAdjacent = true ∧
              ∃ args, (arguments g).run s.advance.advance = (.ok args, s') ∧
                e = .sigil (s'.spanFrom s.peek.span.start) name (some args)) ∨
            (¬ (s.advance.advance.peek.kind = .punctuation .lParen ∧ s.advance.advance.isAdjacent = true) ∧
              s' = s.advance.advance ∧ e = .sigil (s'.spanFrom s.peek.span.start) name none))) := by
  unfold dollarExpr expectMark
  simp [isAdjacent, atMark, isAt, isAhead, atIdent, spanFrom, ite_eq_iff]
  intro _
  constructor
  · rintro (⟨⟨⟨⟨ha, hd⟩, hl⟩, hn⟩, items, s₁, hargs, h⟩ | ⟨-, ⟨⟨ha, hl⟩, items, s₁, hargs, h⟩ | h⟩)
    · split at h
      · simp at h
        obtain ⟨rfl, rfl⟩ := h
        exact ⟨ha, .inl ⟨hd, hl, hn, _, _, _, hargs, rfl⟩⟩
      · simp at h
    · split at h
      · simp at h
        obtain ⟨rfl, rfl⟩ := h
        exact ⟨ha, .inr (.inl ⟨hl, _, _, hargs, rfl⟩)⟩
      · simp at h
    · grind
  · rintro ⟨ha, ⟨hd, hl, hn, a, b, c, hargs, rfl⟩ | ⟨hl, a, b, hargs, rfl⟩ | h⟩
    · exact .inl ⟨⟨⟨⟨ha, hd⟩, hl⟩, hn⟩, _, _, hargs, by simp⟩
    · exact .inr ⟨by simp [hl], .inl ⟨⟨ha, hl⟩, _, _, hargs, by simp⟩⟩
    · grind [TokenKind.ident?]

/-! ### Primary expressions and what follows them -/

/-- The literal that a token is. -/
def literalOf? (span : Span) : TokenKind → Option Expr
  | .number n => some (.number span n)
  | .str parts => some (.str span parts)
  | .char part => some (.char span part)
  | .rawName raw => some (.rawName span raw)
  | .keyword (.boolean value) => some (.bool span value)
  | _ => none

theorem primary_ok {header : Bool} {e : Expr} :
    (primary g header).run s = (.ok e, s') ↔
      (literalOf? (s'.spanFrom s.peek.span.start) s.peek.kind = some e ∧ s' = s.advance) ∨
        (s.peek.kind = .keyword .fn ∧ (lambda g header).run s = (.ok e, s')) ∨
        ((∃ name, s.peek.kind = .ident name) ∧ (nameExpr g header).run s = (.ok e, s')) ∨
        (s.peek.kind = .punctuation .lParen ∧ (parenthesized g s.peek.span.start).run s = (.ok e, s')) ∨
        (s.peek.kind = .punctuation .lBracket ∧ (arrayLiteral g s.peek.span.start false).run s = (.ok e, s')) ∨
        (s.peek.kind = .punctuation .hash ∧ (hashExpr g).run s = (.ok e, s')) ∨
        (s.peek.kind = .punctuation .dollar ∧ (dollarExpr g).run s = (.ok e, s')) := by
  unfold primary nextStart nextKind
  rw [look_bind, look_bind]
  split <;> simp_all [literalOf?] <;> grind

section
variable (hg : g.Settled)
include hg

omit hg in
theorem callTypeArgs_ok {args : List TypeExpr} :
    (callTypeArgs g).run s = (.ok args, s') ↔
      (typeArgs g.type 0).run s = (.ok args, s') ∧ s'.owed = 0 ∧ s'.peek.kind = .punctuation .lParen := by
  unfold callTypeArgs
  simp [owed, atMark, isAt, ite_eq_iff]

theorem suffixStep_none {start : Nat} {e : Expr} :
    (suffixStep g start e).run s = (.ok none, s') ↔ s' = s ∧ s.peek.kind ≠ .punctuation .lParen ∧
      s.peek.kind ≠ .punctuation .dot ∧ s.peek.kind ≠ .punctuation .lBracket ∧
      (s.peek.kind = .operator .lt → s.isAdjacent = true → e.takesGenerics = true → (callTypeArgs g).Fails s) := by
  unfold suffixStep genericCall?
  simp [atMark, isAt, atOperator, isAdjacent, spanFrom, acceptMark, ite_eq_iff,
    attempt_silent (.callTypeArgs hg.silent)]
  grind

theorem suffixStep_some {start : Nat} {e e' : Expr} :
    (suffixStep g start e).run s = (.ok (some e'), s') ↔
      (s.peek.kind = .punctuation .lParen ∧ ∃ args, (arguments g).run s = (.ok args, s') ∧
          e' = .call (s'.spanFrom start) e none args) ∨
        (s.peek.kind = .operator .lt ∧ s.isAdjacent = true ∧ e.takesGenerics = true ∧
          ∃ generics s₁ args, (callTypeArgs g).run s = (.ok generics, s₁) ∧ (arguments g).run s₁ = (.ok args, s') ∧
            e' = .call (s'.spanFrom start) e (some generics) args) ∨
        (s.peek.kind = .punctuation .dot ∧ ∃ name, s.advance.peek.kind = .ident name ∧ s' = s.advance.advance ∧
          e' = .member (s'.spanFrom start) e name) ∨
        (s.peek.kind = .punctuation .lBracket ∧ ∃ index s₁, (g.expression false).run s.advance = (.ok index, s₁) ∧
          s₁.peek.kind = .punctuation .rBracket ∧ s' = s₁.advance ∧ e' = .subscript (s'.spanFrom start) e index) := by
  unfold suffixStep genericCall?
  simp [atMark, isAt, atOperator, isAdjacent, spanFrom, acceptMark, ite_eq_iff,
    attempt_silent (.callTypeArgs hg.silent)]
  grind

theorem advances_callTypeArgs (s : ParseState) : Advances s (callTypeArgs g s).2 :=
  Alike.advances (fun ts => Alike.callTypeArgs (.refl ts) (hg.steady ts)) s

theorem length_of_arguments {args : List Expr} (h : (arguments g).run s = (.ok args, s')) :
    s'.rest.length < s.rest.length := by
  obtain ⟨hk, s₁, hlist, hclose, rfl⟩ := (arguments_ok hg).1 h
  have hitems : Advances s.advance s₁ := by
    refine advances_run (p := commaList .rParen (g.expression false)) ?_ ((commaList_ok (hg.expression false)).2 hlist)
    exact Alike.advances fun ts => Alike.commaList (.refl ts) _ ((hg.steady ts).expression false)
  have := length_advance_lt (s := s) (by simp [hk])
  have := hitems.length_le
  have := (Advances.advance s₁).length_le
  omega

theorem suffixStep_shrinks (start : Nat) : Shrinks (suffixStep g start) := by
  intro e s e' s' h
  rcases (suffixStep_some hg).1 h with ⟨hk, args, hargs, -⟩ | ⟨hk, -, -, generics, s₁, args, hgen, hargs, -⟩ |
    ⟨hk, name, -, rfl, -⟩ | ⟨hk, index, s₁, hindex, -, rfl, -⟩
  · exact length_of_arguments hg hargs
  · have := (advances_run (advances_callTypeArgs hg) hgen).length_le
    have := length_of_arguments hg hargs
    omega
  · have := length_advance_lt (s := s) (by simp [hk])
    have := (Advances.advance s.advance).length_le
    omega
  · have := length_advance_lt (s := s) (by simp [hk])
    have := (advances_run (hg.expression false) hindex).length_le
    have := (Advances.advance s₁).length_le
    omega

theorem operandExpr_ok {header : Bool} {e : Expr} :
    (operandExpr g header).run s = (.ok e, s') ↔ ∃ first s₁, (primary g header).run s = (.ok first, s₁) ∧
      Grows (suffixStep g s.peek.span.start) first s₁ e s' := by
  unfold operandExpr nextStart
  simp [grow_ok (suffixStep_shrinks hg _)]

/-! ### Operators and casts -/

omit hg in
theorem castType_ok {t : TypeExpr} :
    (castType g).run s = (.ok t, s') ↔
      ∃ s₁, (g.type 0).run s = (.ok t, s₁) ∧ s₁.peek.kind = .punctuation .rParen ∧ s' = s₁.advance := by
  unfold castType expectMark
  simp
  grind

theorem cast?_some {header : Bool} {e : Expr} :
    (cast? g header).run s = (.ok (some e), s') ↔ ∃ type s₁ inner, (castType g).run s.advance = (.ok type, s₁) ∧
      opensOperand (!type.isNamed) s₁.peek.kind = true ∧ (g.unary header).run s₁ = (.ok inner, s') ∧
      e = .cast (s'.spanFrom s.peek.span.start) type inner := by
  unfold cast? nextKind
  simp [attempt_silent (.castType hg.silent), spanFrom, ite_eq_iff]
  grind

/-- The parenthesis that comes next opens no cast: it holds no type, or no operand follows. -/
def NoCast (g : Inner) (s : ParseState) : Prop :=
  (castType g).Fails s.advance ∨ ∃ type s₁, (castType g).run s.advance = (.ok type, s₁) ∧
    opensOperand (!type.isNamed) s₁.peek.kind = false

theorem cast?_none {header : Bool} : (cast? g header).run s = (.ok none, s') ↔ s' = s ∧ NoCast g s := by
  have hback {t : TypeExpr} {s₁ : ParseState} (h : (castType g).run s.advance = (.ok t, s₁)) : s₁.rewindTo s = s :=
    rewindTo_eq (((Silent.castType hg.silent).errors_eq h).trans s.advance_errors)
  have hskip : s.advance.rewindTo s = s := rewindTo_eq s.advance_errors
  unfold cast? nextKind NoCast
  simp [attempt_silent (.castType hg.silent), spanFrom, ite_eq_iff]
  grind

omit hg in
theorem doubleAddress_ok {header : Bool} {start : Nat} {e : Expr} :
    (doubleAddress g header start).run s = (.ok e, s') ↔ opensOperand true s.advance.peek.kind = true ∧
      ∃ inner, (g.unary header).run s.advance = (.ok inner, s') ∧
        e = .unary (s'.spanFrom start) .addrOf (.unary ⟨start + 1, inner.span.stop⟩ .addrOf inner) := by
  unfold doubleAddress
  simp [spanFrom]
  grind

theorem unaryBody_ok {header : Bool} {e : Expr} :
    (unaryBody g header).run s = (.ok e, s') ↔
      (∃ op unary inner, s.peek.kind = .operator op ∧ UnaryOp.ofOperator? op = some unary ∧
          opensOperand true s.advance.peek.kind = true ∧ (g.unary header).run s.advance = (.ok inner, s') ∧
          e = .unary (s'.spanFrom s.peek.span.start) unary inner) ∨
        (s.peek.kind = .operator .andAnd ∧ (doubleAddress g header s.peek.span.start).run s = (.ok e, s')) ∨
        (s.peek.kind = .punctuation .lParen ∧ (cast? g header).run s = (.ok (some e), s')) ∨
        ((s.peek.kind = .punctuation .lParen → NoCast g s) ∧
          (∀ op, s.peek.kind = .operator op → UnaryOp.ofOperator? op = none ∧ op ≠ .andAnd) ∧
          (operandExpr g header).run s = (.ok e, s')) := by
  unfold unaryBody nextStart nextKind
  rw [look_bind, look_bind]
  split
  · rename_i op hop
    split
    · rename_i unary hu
      have hne : op ≠ .andAnd := by
        rintro rfl
        simp [UnaryOp.ofOperator?, UnaryOp.all, UnaryOp.operator] at hu
      simp [hop, hu, spanFrom, hne]
      grind
    · rename_i hu
      by_cases hand : op = .andAnd
      · subst hand
        simp [hop, hu]
      · simp [hop, hu, hand]
  · rename_i hk
    simp [Option.exists, cast?_none hg]
    grind
  · simp
    grind

end

/-! ### Chains of operators -/

theorem joined?_isSome {op : Operator} (h : op.fixity = .between) (left right : Expr) :
    (joined? op left right).isSome = true := by
  cases op <;> first | rfl | simp [Operator.fixity] at h

/-- An operator between two operands makes a range or an operation of them. -/
theorem joined?_some {op : Operator} {left right e : Expr} (h : joined? op left right = some e) :
    (∃ span binary, e = .binary span left binary right) ∨ ∃ span inclusive, e = .range span left right inclusive := by
  unfold joined? at h
  split at h
  · cases h
    exact .inr ⟨_, _, rfl⟩
  · cases h
    exact .inr ⟨_, _, rfl⟩
  · obtain ⟨binary, -, rfl⟩ := Option.map_eq_some_iff.1 h
    exact .inl ⟨_, _, rfl⟩

theorem binaryPower?_eq {op : Operator} {power : Nat × Associativity} :
    op.binaryPower? = some power ↔ op.fixity = .between ∧ power = (op.precedence, op.associativity) := by
  unfold Operator.binaryPower?
  split <;> simp_all [eq_comm]

theorem chainStep_none {header : Bool} {level : Nat} {left : Expr} :
    (chainStep g header level left).run s = (.ok none, s') ↔ s' = s ∧
      ∀ op, s.peek.kind = .operator op → op.fixity = .between → op.precedence < level := by
  unfold chainStep nextKind
  rw [look_bind]
  cases hk : s.peek.kind with
  | operator op =>
    cases hp : op.binaryPower? with
    | none =>
      have hf : op.fixity ≠ .between := by
        intro hf
        simp [Operator.binaryPower?, hf] at hp
      simp [TokenKind.operator?, hp, hf, @eq_comm _ s s']
    | some power =>
      obtain ⟨hf, rfl⟩ := binaryPower?_eq.1 hp
      have hj (right : Expr) : joined? op left right ≠ none := by
        have := joined?_isSome hf left right
        intro h
        simp [h] at this
      simp [TokenKind.operator?, hp, ite_eq_iff, hj, hf]
      grind
  | _ => simp [TokenKind.operator?, @eq_comm _ s s']

theorem chainStep_some {header : Bool} {level : Nat} {left e : Expr} :
    (chainStep g header level left).run s = (.ok (some e), s') ↔ ∃ op right, s.peek.kind = .operator op ∧
      op.fixity = .between ∧ level ≤ op.precedence ∧ opensOperand true s.advance.peek.kind = true ∧
      (g.chain header (rightLevel op.precedence op.associativity)).run s.advance = (.ok right, s') ∧
      joined? op left right = some e := by
  unfold chainStep nextKind
  rw [look_bind]
  cases hk : s.peek.kind with
  | operator op =>
    cases hp : op.binaryPower? with
    | none =>
      have hf : op.fixity ≠ .between := by
        intro hf
        simp [Operator.binaryPower?, hf] at hp
      simp [TokenKind.operator?, hp, hf]
    | some power =>
      obtain ⟨hf, rfl⟩ := binaryPower?_eq.1 hp
      simp [TokenKind.operator?, hp, ite_eq_iff, hf]
  | _ => simp [TokenKind.operator?]

section
variable (hg : g.Settled)
include hg

theorem chainStep_shrinks (header : Bool) (level : Nat) : Shrinks (chainStep g header level) := by
  intro left s e s' h
  obtain ⟨op, right, hk, -, -, -, hright, -⟩ := chainStep_some.1 h
  have := length_advance_lt (s := s) (by simp [hk])
  have := (advances_run (hg.chain header _) hright).length_le
  omega

theorem chainBody_ok {header : Bool} {level : Nat} {e : Expr} :
    (chainBody g header level).run s = (.ok e, s') ↔ ∃ first s₁, (unaryBody g header).run s = (.ok first, s₁) ∧
      Grows (chainStep g header level) first s₁ e s' := by
  unfold chainBody
  simp [grow_ok (chainStep_shrinks hg _ _)]

end

theorem consequence_ok {header : Bool} {o : Option Expr} :
    (consequence g header).run s = (.ok o, s') ↔
      (s.peek.kind = .punctuation .colon ∧ o = none ∧ s' = s) ∨
        (s.peek.kind ≠ .punctuation .colon ∧ ∃ e, o = some e ∧ (g.expression header).run s = (.ok e, s')) := by
  unfold consequence
  simp [atMark, isAt, ite_eq_iff]
  grind

theorem expressionBody_ok {header : Bool} {e : Expr} :
    (expressionBody g header).run s = (.ok e, s') ↔ ∃ condition s₁,
      (chainBody g header 1).run s = (.ok condition, s₁) ∧
        ((s₁.peek.kind ≠ .punctuation .question ∧ e = condition ∧ s' = s₁) ∨
          (s₁.peek.kind = .punctuation .question ∧ ∃ chosen s₂ alternative,
            (consequence g header).run s₁.advance = (.ok chosen, s₂) ∧ s₂.peek.kind = .punctuation .colon ∧
            (g.expression header).run s₂.advance = (.ok alternative, s') ∧
            e = .conditional (condition.span.merge alternative.span) condition chosen alternative)) := by
  unfold expressionBody expectMark
  simp [acceptMark, ite_eq_iff]
  grind

end Parser

end ElleFrontEnd
