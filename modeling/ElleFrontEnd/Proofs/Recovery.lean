import ElleFrontEnd.Grammar.Declaration
import ElleFrontEnd.Proofs.Silent

/-!
# Going on after a failure

A parse that goes on after its failures reads exactly what a parse that stops at the first one reads, up to that
failure.  `Resumes p q` says so of two parsers: `p` records nothing, and `q` either ends as `p` does, or it has
recorded, before anything else, the diagnostic that `p` fails with.  Blocks are where the two part; every other parser
hands on what its parts do, and the types that are only tried hold no block.
-/

namespace ElleFrontEnd

variable {α β : Type}

/-- The end of a run that stops at its first failure, beside the end of a run from the same state that goes on. -/
inductive Resumed (s : ParseState) :
    Except Diagnostic α × ParseState → Except Diagnostic α × ParseState → Prop
  /-- nothing has failed but what both fail with -/
  | same {x : Except Diagnostic α × ParseState} (silent : x.2.errors = s.errors) : Resumed s x x
  /-- the second run has recorded the failure of the first, and what it does then does not matter -/
  | later {e : Diagnostic} {s₁ : ParseState} {y : Except Diagnostic α × ParseState} (silent : s₁.errors = s.errors)
      (first : ∃ more, y.2.errors = s.errors ++ e :: more) : Resumed s (.error e, s₁) y

namespace Resumed

variable {s s₁ s₂ : ParseState} {x y : Except Diagnostic α × ParseState}

/-- Only what has been recorded before counts. -/
theorem of_errors (hs : s₁.errors = s.errors) (h : Resumed s₁ x y) : Resumed s x y := by
  cases h with
  | same silent => exact .same (silent.trans hs)
  | later silent first => exact .later (silent.trans hs) (hs ▸ first)

/-- What has been recorded stays at the head of all that is recorded behind it. -/
theorem of_adds {e : Diagnostic} {more : List Diagnostic} (silent : s₁.errors = s.errors)
    (first : s₂.errors = s.errors ++ e :: more) (hy : ∃ new, y.2.errors = s₂.errors ++ new) :
    Resumed s (.error e, s₁) y := by
  obtain ⟨new, hnew⟩ := hy
  refine .later silent ⟨more ++ new, ?_⟩
  rw [hnew, first, List.append_assoc, List.cons_append]

end Resumed

/-- The first parser stops at its first failure, which the second records and goes on. -/
def Resumes (p q : Parser α) : Prop := ∀ s, Resumed s (p s) (q s)

namespace Parser.Silent

theorem requireOperand (op : Operator) : (Parser.requireOperand op).Silent := by
  intro s
  unfold Parser.requireOperand
  split <;> rfl

theorem pathTail : Parser.pathTail.Silent :=
  .collect ((accept _).bind fun _ => .ite (identifier.bind fun _ => .pure _) (.pure _))

theorem metaBinding : Parser.metaBinding.Silent := by
  refine (look _).bind fun _ => (look _).bind fun _ => .ite ?_ (.pure _)
  refine skip.bind fun _ => identifier.bind fun _ => (look _).bind fun _ => .ite (.pure _) ?_
  exact (expect _ _).bind fun _ => .pure _

end Parser.Silent

open ElleFrontEnd.Parser (Silent)

namespace Resumes

variable {p q : Parser α} {f f' : α → Parser β}

theorem of_silent (h : p.Silent) : Resumes p p := fun s => .same (h s)

theorem silent (h : Resumes p q) : p.Silent := by
  intro s
  have := h s
  generalize p s = x, q s = y at this
  cases this with
  | same silent => exact silent
  | later silent _ => exact silent

/-- The second parser takes back nothing that has been recorded. -/
theorem adds (h : Resumes p q) (s : ParseState) : ∃ more, (q s).2.errors = s.errors ++ more := by
  have := h s
  generalize p s = x, q s = y at this
  cases this with
  | same silent => exact ⟨[], by rw [silent, List.append_nil]⟩
  | later _ first =>
    obtain ⟨more, hmore⟩ := first
    exact ⟨_, hmore⟩

theorem bind (hp : Resumes p q) (hf : ∀ a, Resumes (f a) (f' a)) : Resumes (p >>= f) (q >>= f') := by
  intro s
  change Resumed s (Parser.andThen p f s) (Parser.andThen q f' s)
  unfold Parser.andThen
  have h := hp s
  generalize p s = x, q s = y at h
  cases h with
  | same silent =>
    obtain ⟨e | a, s₁⟩ := x
    · exact .same silent
    · exact (hf a s₁).of_errors silent
  | later silent first =>
    obtain ⟨more, hmore⟩ := first
    obtain ⟨d | b, s₂⟩ := y
    · exact .later silent ⟨more, hmore⟩
    · -- only the second run gets to what follows, and all it does there is to record more
      exact .of_adds silent hmore ((hf b).adds s₂)

/-- Behind a parser that records nothing. -/
theorem after (hp : p.Silent) (hf : ∀ a, Resumes (f a) (f' a)) : Resumes (p >>= f) (p >>= f') :=
  (of_silent hp).bind hf

/-- Before parsers that record nothing. -/
theorem before (hp : Resumes p q) (hf : ∀ a, (f a).Silent) : Resumes (p >>= f) (q >>= f) :=
  hp.bind fun a => of_silent (hf a)

theorem looking {l : ParseState → α} (hf : ∀ a, Resumes (f a) (f' a)) :
    Resumes (Parser.look l >>= f) (Parser.look l >>= f') :=
  after (.look l) hf

theorem ite {c : Prop} [Decidable c] {p' q' : Parser α} (h : Resumes p q) (h' : Resumes p' q') :
    Resumes (if c then p else p') (if c then q else q') := by
  split
  · exact h
  · exact h'

theorem done (a : α) : Resumes (pure a : Parser α) (pure a) := of_silent (.pure a)

/-- Giving up, with nothing read. -/
theorem rewound (saved : ParseState) : Resumes (do Parser.change (·.rewindTo saved); pure (none : Option α))
    (do Parser.change (·.rewindTo saved); pure none) := by
  have hchange : (Parser.change (·.rewindTo saved)).Silent := Silent.change fun _ => rfl
  exact of_silent (hchange.bind fun _ => .pure none)

/-- A result that is built with the stretch it was read from. -/
theorem spanned (hp : Resumes p q) {start : Nat} {build : α → Span → β} :
    Resumes (do let a ← p; pure (build a (← Parser.spanFrom start)))
      (do let a ← q; pure (build a (← Parser.spanFrom start))) :=
  hp.before fun _ => (Silent.look _).bind fun _ => .pure _

theorem growFor {step step' : α → Parser (Option α)} (hs : ∀ a, Resumes (step a) (step' a)) (budget : List Token)
    (a : α) : Resumes (Parser.growFor step budget a) (Parser.growFor step' budget a) := by
  induction budget generalizing a with
  | nil => exact done a
  | cons t budget ih =>
    refine (hs a).bind fun o => ?_
    cases o with
    | none => exact done a
    | some a' => exact ih a'

theorem grow {step step' : α → Parser (Option α)} (hs : ∀ a, Resumes (step a) (step' a)) (a : α) :
    Resumes (Parser.grow step a) (Parser.grow step' a) :=
  fun s => growFor hs (s.peek :: s.rest) a s

theorem collectFor {round round' : Parser (Parser.Round α)} (hr : Resumes round round') (budget : List Token) :
    Resumes (Parser.collectFor round budget) (Parser.collectFor round' budget) := by
  induction budget with
  | nil => exact done []
  | cons t budget ih =>
    refine hr.bind fun r => ?_
    cases r with
    | stop => exact done []
    | last a => exact done [a]
    | more a => exact ih.before fun as => .pure (a :: as)
    | none => exact ih

theorem collect {round round' : Parser (Parser.Round α)} (hr : Resumes round round') :
    Resumes (Parser.collect round) (Parser.collect round') :=
  fun s => collectFor hr (s.peek :: s.rest) s

theorem commaList (close : Punctuation) (hp : Resumes p q) :
    Resumes (Parser.commaList close p) (Parser.commaList close q) := by
  refine collect (looking fun _ => ite (done _) (looking fun _ => ite (done _) ?_))
  exact hp.before fun _ => (Silent.accept _).bind fun _ => .ite (.pure _) (.pure _)

end Resumes

/-! ### Expressions -/

/-- The parsers of the one record nothing and stop at their first failure; those of the other go on.  Types are read
by the same parsers. -/
structure Resuming (g g' : Inner) : Prop where
  type : g'.type = g.type
  silent : ∀ angles, (g.type angles).Silent
  expression : ∀ header, Resumes (g.expression header) (g'.expression header)
  chain : ∀ header level, Resumes (g.chain header level) (g'.chain header level)
  unary : ∀ header, Resumes (g.unary header) (g'.unary header)
  block : Resumes g.block g'.block
  elseIf : Resumes g.elseIf g'.elseIf

namespace Resumes

variable {g g' : Inner} (hg : Resuming g g')
include hg

theorem exprList (close : Punctuation) (opened : Span) :
    Resumes (Parser.exprList g close opened) (Parser.exprList g' close opened) :=
  ((hg.expression false).commaList close).before fun _ => (Silent.closing _ _).bind fun _ => .pure _

theorem arguments : Resumes (Parser.arguments g) (Parser.arguments g') :=
  after (.expect _ _) fun _ => exprList hg _ _

theorem paramList : Resumes (Parser.paramList g) (Parser.paramList g') := by
  -- parameters hold types and names only, so both records read them alike
  have hparam : (Parser.param g).Silent := by
    refine (Silent.look _).bind fun _ => (Silent.accept _).bind fun _ => .ite ?_ ?_
    · refine (Silent.look _).bind fun _ => .ite (Silent.identifier.bind fun _ => ?_) ?_ <;>
        exact (Silent.look _).bind fun _ => .pure _
    refine (Silent.look _).bind fun _ => (Silent.look _).bind fun _ => .ite ?_ ?_
    · refine Silent.skip.bind fun _ => Silent.skip.bind fun _ => (hg.silent 0).bind fun _ => ?_
      exact Silent.identifier.bind fun _ => (Silent.look _).bind fun _ => .pure _
    · refine (hg.silent 0).bind fun _ => (Silent.look _).bind fun _ => .ite (Silent.identifier.bind fun _ => ?_) ?_ <;>
        exact (Silent.look _).bind fun _ => .pure _
  have hsame : Parser.param g' = Parser.param g := by
    unfold Parser.param
    rw [hg.type]
  unfold Parser.paramList
  rw [hsame]
  refine after (.expect _ _) fun _ => after .metaBinding fun _ => ?_
  exact ((of_silent hparam).commaList _).before fun _ => (Silent.closing _ _).bind fun _ => .pure _

theorem lambda (header : Bool) : Resumes (Parser.lambda g header) (Parser.lambda g' header) := by
  refine after (.expect _ _) fun _ => (paramList hg).bind fun _ => looking fun _ => ite ?_ ?_
  · exact hg.block.spanned
  · exact (hg.expression header).spanned

theorem fieldInit : Resumes (Parser.fieldInit g) (Parser.fieldInit g') :=
  looking fun _ => after .identifier fun _ => after (.expect _ _) fun _ => (hg.expression false).spanned

theorem structLiteral? (start : Nat) (name : String) :
    Resumes (Parser.structLiteral? g start name) (Parser.structLiteral? g' start name) := by
  have hsame : Parser.structTypeArgs g' = Parser.structTypeArgs g := by
    unfold Parser.structTypeArgs
    rw [hg.type]
  unfold Parser.structLiteral?
  rw [hsame]
  refine looking fun saved => after (.structTypeArgs hg.silent) fun o => ?_
  cases o with
  | none => exact rewound saved
  | some generics =>
    refine looking fun _ => ite (after .skip fun _ => ((fieldInit hg).commaList _).bind fun _ => ?_) (rewound saved)
    exact of_silent ((Silent.closing _ _).bind fun _ => (Silent.look _).bind fun _ => .pure _)

theorem nameExpr (header : Bool) : Resumes (Parser.nameExpr g header) (Parser.nameExpr g' header) := by
  have hspan {start : Nat} {build : Span → Expr} :
      Resumes (do pure (build (← Parser.spanFrom start))) (do pure (build (← Parser.spanFrom start))) :=
    looking fun _ => done _
  refine looking fun _ => after .identifier fun _ => looking fun _ => ite (after .pathTail fun _ => hspan) ?_
  refine ite hspan ((structLiteral? hg _ _).bind fun o => ?_)
  cases o with
  | none => exact hspan
  | some e => exact done e

theorem arrayLiteral (start : Nat) (isStatic : Bool) :
    Resumes (Parser.arrayLiteral g start isStatic) (Parser.arrayLiteral g' start isStatic) := by
  unfold Parser.arrayLiteral
  rw [hg.type]
  refine after (.expect _ _) fun opened => after (.attempt ?_) fun _ => (exprList hg _ opened).spanned
  exact (hg.silent 0).bind fun _ => (Silent.expect _ _).bind fun _ => .pure _

/-! ### Directives -/

omit hg in
theorem wrongOperands (d : DirectiveName) :
    Resumes (Parser.wrongOperands d : Parser α) (Parser.wrongOperands d) := of_silent fun _ => rfl

omit hg in
theorem operand (d : DirectiveName) (isFirst : Bool) {p q : Parser α} (hp : Resumes p q) :
    Resumes (Parser.operand d isFirst p) (Parser.operand d isFirst q) := by
  have hrest (separated : Bool) : Resumes
      (if !separated then Parser.wrongOperands d
        else do if ← Parser.atMark .rParen then Parser.wrongOperands d else p)
      (if !separated then Parser.wrongOperands d
        else do if ← Parser.atMark .rParen then Parser.wrongOperands d else q) :=
    ite (wrongOperands d) (looking fun _ => ite (wrongOperands d) hp)
  unfold Parser.operand
  cases isFirst with
  | true => exact hrest true
  | false => exact after (.accept _) hrest

omit hg in
theorem operandList (d : DirectiveName) {p q : Parser α} (hp : Resumes p q) :
    Resumes (Parser.operandList d p) (Parser.operandList d q) := by
  have hopened : (Parser.onError (·.withHint (.usage d)) (Parser.expectMark .lParen)).Silent :=
    Silent.onError _ (.expect _ _)
  unfold Parser.operandList
  refine after hopened fun _ => hp.bind fun _ => looking fun _ => looking fun _ => ?_
  exact ite (wrongOperands d) (of_silent ((Silent.closing _ _).bind fun _ => .pure _))

theorem optionalOperand : Resumes (Parser.optionalOperand g) (Parser.optionalOperand g') :=
  after (.accept _) fun _ => ite ((hg.expression false).before fun _ => .pure _) (done _)

theorem typeOperand (d : DirectiveName) : Resumes (Parser.typeOperand g d) (Parser.typeOperand g' d) := by
  unfold Parser.typeOperand
  rw [hg.type]
  exact of_silent (.onError _ (hg.silent 0))

theorem directiveOf (d : DirectiveName) : Resumes (Parser.directiveOf g d) (Parser.directiveOf g' d) := by
  have hvalue := operand d true (hg.expression false)
  have htype (isFirst : Bool) := operand d isFirst (typeOperand hg d)
  have hcount {build : Option Expr → Directive} : Resumes (do pure (build (← Parser.optionalOperand g)))
      (do pure (build (← Parser.optionalOperand g'))) := (optionalOperand hg).before fun _ => .pure _
  cases d with
  | len | free | setAllocator => exact operandList _ (hvalue.before fun _ => .pure _)
  | size => exact operandList _ ((htype true).before fun _ => .pure _)
  | ident => exact operandList _ ((operand _ true (of_silent .identifier)).before fun _ => .pure _)
  | env => exact looking fun _ => ite (wrongOperands _) (done _)
  | resetAllocator => exact operandList _ (done _)
  | alloc => exact operandList _ ((htype true).bind fun _ => hcount)
  | realloc => exact operandList _ (hvalue.bind fun _ => (htype false).bind fun _ => hcount)

theorem hashExpr : Resumes (Parser.hashExpr g) (Parser.hashExpr g') := by
  refine after (.expect _ _) fun _ => looking fun _ => ite (arrayLiteral hg _ true) (looking fun kind => ?_)
  split
  · refine after .skip fun _ => ?_
    split
    · exact of_silent (.fail _)
    · exact (directiveOf hg _).spanned
  · exact of_silent (.unexpected _)

/-! ### Operands and chains -/

theorem dollarExpr : Resumes (Parser.dollarExpr g) (Parser.dollarExpr g') := by
  have hspan {start : Nat} {build : Span → Expr} : (do pure (build (← Parser.spanFrom start)) : Parser Expr).Silent :=
    (Silent.look _).bind fun _ => .pure _
  have hsize (form : FixedLiteral) (found start : Nat) : (Parser.wrongSize form found start : Parser Expr).Silent :=
    (Silent.look _).bind fun _ => .fail _
  refine after (.expect _ _) fun _ => looking fun _ => looking fun _ => looking fun _ => looking fun _ => ite ?_ ?_
  · refine after .skip fun _ => (arguments hg).before fun items => ?_
    split
    · exact hspan
    · exact hsize _ _ _
  refine looking fun _ => ite ?_ ?_
  · refine (arguments hg).before fun items => ?_
    split
    · exact hspan
    · exact hsize _ _ _
  refine looking fun _ => ite ?_ (of_silent (.unexpected _))
  refine after .identifier fun _ => looking fun _ => looking fun _ => ite (arguments hg).spanned ?_
  exact of_silent hspan

theorem primary (header : Bool) : Resumes (Parser.primary g header) (Parser.primary g' header) := by
  have hliteral (start : Nat) (build : Span → Expr) :
      Resumes (Parser.literal start build) (Parser.literal start build) :=
    of_silent (Silent.skip.bind fun _ => (Silent.look _).bind fun _ => .pure _)
  refine looking fun start => looking fun kind => ?_
  split
  case h_6 => exact lambda hg header
  case h_7 => exact nameExpr hg header
  case h_8 =>
    refine after .skip fun _ => (hg.expression false).before fun _ => (Silent.closing _ _).bind fun _ => ?_
    exact (Silent.look _).bind fun _ => .pure _
  case h_9 => exact arrayLiteral hg _ false
  case h_10 => exact hashExpr hg
  case h_11 => exact dollarExpr hg
  case h_12 => exact of_silent fun _ => rfl
  all_goals exact hliteral _ _

theorem genericCall? (start : Nat) (callee : Expr) :
    Resumes (Parser.genericCall? g start callee) (Parser.genericCall? g' start callee) := by
  have hsame : Parser.callTypeArgs g' = Parser.callTypeArgs g := by
    unfold Parser.callTypeArgs
    rw [hg.type]
  unfold Parser.genericCall?
  rw [hsame]
  refine after (.attempt (.callTypeArgs hg.silent)) fun o => ?_
  cases o with
  | none => exact done none
  | some generics => exact (arguments hg).spanned

theorem operandExpr (header : Bool) : Resumes (Parser.operandExpr g header) (Parser.operandExpr g' header) := by
  refine looking fun start => (primary hg header).bind fun e => grow (fun e => ?_) e
  refine looking fun _ => ite (arguments hg).spanned ?_
  refine looking fun _ => looking fun _ => ite (genericCall? hg _ _) (after (.accept _) fun _ => ite ?_ ?_)
  · exact after .identifier fun _ => looking fun _ => done _
  refine looking fun _ => ite (after .skip fun _ => (hg.expression false).before fun _ => ?_) (done _)
  exact (Silent.closing _ _).bind fun _ => (Silent.look _).bind fun _ => .pure _

theorem cast? (header : Bool) : Resumes (Parser.cast? g header) (Parser.cast? g' header) := by
  have hsame : Parser.castType g' = Parser.castType g := by
    unfold Parser.castType
    rw [hg.type]
  unfold Parser.cast?
  rw [hsame]
  refine looking fun saved => after .skip fun _ => after (.attempt (.castType hg.silent)) fun o => ?_
  cases o with
  | none => exact rewound saved
  | some type => exact looking fun _ => ite (hg.unary header).spanned (rewound saved)

theorem unaryBody (header : Bool) : Resumes (Parser.unaryBody g header) (Parser.unaryBody g' header) := by
  refine looking fun start => looking fun kind => ?_
  split
  · rename_i op
    split
    · exact after .skip fun _ => after (.requireOperand _) fun _ => (hg.unary header).spanned
    · refine ite ?_ (operandExpr hg header)
      exact after .skip fun _ => after (.requireOperand _) fun _ => (hg.unary header).spanned
  · refine (cast? hg header).bind fun o => ?_
    cases o with
    | none => exact operandExpr hg header
    | some e => exact done e
  · exact operandExpr hg header

theorem chainBody (header : Bool) (level : Nat) :
    Resumes (Parser.chainBody g header level) (Parser.chainBody g' header level) := by
  refine (unaryBody hg header).bind fun e => grow (fun left => looking fun kind => ?_) e
  split
  · exact done none
  split
  · exact done none
  refine ite (done none) (after .skip fun _ => after (.requireOperand _) fun _ => ?_)
  exact (hg.chain header _).before fun _ => .pure _

theorem expressionBody (header : Bool) :
    Resumes (Parser.expressionBody g header) (Parser.expressionBody g' header) := by
  have hchosen : Resumes (Parser.consequence g header) (Parser.consequence g' header) :=
    looking fun _ => ite (done none) ((hg.expression header).before fun _ => .pure _)
  refine (chainBody hg header 1).bind fun _ => after (.accept _) fun _ => ite ?_ (done _)
  exact hchosen.bind fun _ => after (.expect _ _) fun _ => (hg.expression header).before fun _ => .pure _

end Resumes

end ElleFrontEnd
