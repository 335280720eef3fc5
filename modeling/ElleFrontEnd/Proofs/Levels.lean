import ElleFrontEnd.Proofs.TieExpr

/-!
# Parses with other levels

The number of levels that are allowed matters to a parse in two ways only: it is named where a construct would exceed
it, and it says where that is so.  So two parses with as many levels left agree, whatever limit they name, and so do
two parses that have more levels left than there are tokens (`RoomsFit`): from the same state they come to the same result
in the same state, or both fail (`Agree`).
-/

namespace ElleFrontEnd

open ElleFrontEnd.Parser (Round)

variable {α β : Type} {s s' : ParseState}

/-- Two runs come to the same result and to one state that `Q` holds of, or both fail. -/
inductive Agreed (Q : α → ParseState → Prop) :
    Except Diagnostic α × ParseState → Except Diagnostic α × ParseState → Prop
  | ok {a : α} {s : ParseState} : Q a s → Agreed Q (.ok a, s) (.ok a, s)
  | error {e e' : Diagnostic} {s s' : ParseState} : s.errors = s'.errors → Agreed Q (.error e, s) (.error e', s')

/-- From each state that `P` holds of, two parsers agree, and come to states that `Q` holds of. -/
def Agree (P : ParseState → Prop) (Q : α → ParseState → Prop) (p q : Parser α) : Prop :=
  ∀ s, P s → Agreed Q (p.run s) (q.run s)

namespace Agree

variable {P : ParseState → Prop} {Q : α → ParseState → Prop} {R : β → ParseState → Prop} {p q : Parser α}
  {f f' : α → Parser β}

theorem ok (h : Agree P Q p q) (hs : P s) {a : α} (hp : p.run s = (.ok a, s')) : q.run s = (.ok a, s') ∧ Q a s' := by
  have := h s hs
  rw [hp] at this
  generalize q.run s = y at this
  cases this with
  | ok hq => exact ⟨rfl, hq⟩

theorem mono {P' : ParseState → Prop} (h : Agree P Q p q) (hP : ∀ s, P' s → P s) : Agree P' Q p q :=
  fun s hs => h s (hP s hs)

theorem post {Q' : α → ParseState → Prop} (h : Agree P Q p q) (hQ : ∀ a s, Q a s → Q' a s) : Agree P Q' p q := by
  intro s hs
  have := h s hs
  generalize p.run s = x, q.run s = y at this ⊢
  cases this with
  | ok hq => exact .ok (hQ _ _ hq)
  | error he => exact .error he

theorem bind (hp : Agree P Q p q) (hf : ∀ a, Agree (Q a) R (f a) (f' a)) : Agree P R (p >>= f) (q >>= f') := by
  intro s hs
  have := hp s hs
  change Agreed R (Parser.andThen p f s) (Parser.andThen q f' s)
  unfold Parser.andThen
  change Agreed Q (p s) (q s) at this
  generalize p s = x, q s = y at this
  cases this with
  | ok hq => exact hf _ _ hq
  | error he => exact .error he

theorem done {a : α} (h : ∀ s, P s → Q a s) : Agree P Q (pure a) (pure a) := fun s hs => .ok (h s hs)

theorem fail {e e' : Diagnostic} : Agree P Q (Parser.fail e) (Parser.fail e') := fun _ _ => .error rfl

/-- A parser agrees with itself. -/
theorem self (h : ∀ s a s', P s → p.run s = (.ok a, s') → Q a s') : Agree P Q p p := by
  intro s hs
  rcases hr : p.run s with ⟨e | a, s'⟩
  · exact .error rfl
  · exact .ok (h s a s' hs hr)

/-- What is seen is the same on both sides. -/
theorem look {γ : Type} {l : ParseState → γ} {k k' : γ → Parser α}
    (h : ∀ c, Agree (fun s => P s ∧ l s = c) Q (k c) (k' c)) : Agree P Q (Parser.look l >>= k) (Parser.look l >>= k') :=
  fun s hs => h (l s) s ⟨hs, rfl⟩

theorem ite {c : Prop} [Decidable c] {p' q' : Parser α} (h : c → Agree P Q p q) (h' : ¬ c → Agree P Q p' q') :
    Agree P Q (if c then p else p') (if c then q else q') := by
  split
  · exact h ‹_›
  · exact h' ‹_›

theorem onError {k k' : Diagnostic → Diagnostic} (h : Agree P Q p q) :
    Agree P Q (Parser.onError k p) (Parser.onError k' q) := by
  intro s hs
  have := h s hs
  unfold Parser.run Parser.onError
  change Agreed Q (p s) (q s) at this
  generalize p s = x, q s = y at this
  cases this with
  | ok hq => exact .ok hq
  | error he => exact .error he

/-- Where the failure of a part is handed on, it is that of the whole. -/
theorem outcome {k k' : Except Diagnostic α → Parser β} (h : Agree P Q p q)
    (hk : ∀ a, Agree (Q a) R (k (.ok a)) (k' (.ok a))) (hfail : ∀ e, k (.error e) = Parser.fail e)
    (hfail' : ∀ e, k' (.error e) = Parser.fail e) : Agree P R (Parser.outcome p >>= k) (Parser.outcome q >>= k') := by
  intro s hs
  have := h s hs
  change Agreed R (Parser.andThen (Parser.outcome p) k s) (Parser.andThen (Parser.outcome q) k' s)
  unfold Parser.andThen Parser.outcome
  change Agreed Q (p s) (q s) at this
  generalize p s = x, q s = y at this
  cases this with
  | ok hq => exact hk _ _ hq
  | error he =>
    simp only [hfail, hfail']
    exact .error he

/-- Where a trial fails, both sides are back where it began. -/
theorem attempt {Q' : Option α → ParseState → Prop} (h : Agree P Q p q) (hok : ∀ a s, Q a s → Q' (some a) s)
    (hback : ∀ s s', P s → s'.rest = s.rest → Q' none s') : Agree P Q' (Parser.attempt p) (Parser.attempt q) := by
  intro s hs
  have := h s hs
  unfold Parser.run Parser.attempt
  change Agreed Q (p s) (q s) at this
  generalize p s = x, q s = y at this
  cases this with
  | ok hq => exact .ok (hok _ _ hq)
  | @error e e' s₁ s₁' he =>
    have hsame : s₁.rewindTo s = s₁'.rewindTo s := by simp [ParseState.rewindTo, he]
    simp only [hsame]
    exact .ok (hback _ _ hs rfl)

end Agree

/-- `W₁` holds before the first token of a construct, and `W₀` behind it. -/
structure Descends (W₁ W₀ : ParseState → Prop) : Prop where
  within {s s' : ParseState} : W₀ s → s'.rest.length ≤ s.rest.length → W₀ s'
  below {s s' : ParseState} : W₁ s → s'.rest.length < s.rest.length → W₀ s'
  same {s s' : ParseState} : W₁ s → s'.rest = s.rest → W₁ s'
  wide {s : ParseState} : W₀ s → W₁ s

/-- From each state that `W` holds of, two parsers agree and read on. -/
abbrev Agree.Along (W₁ W₀ : ParseState → Prop) (p q : Parser α) : Prop := Agree W₁ (fun _ => W₀) p q

/-- The parsers of nested constructs agree. -/
structure Inner.Agree (W : ParseState → Prop) (g g' : Inner) : Prop where
  type : ∀ angles, Agree.Along W W (g.type angles) (g'.type angles)
  expression : ∀ header, Agree.Along W W (g.expression header) (g'.expression header)
  chain : ∀ header level, Agree.Along W W (g.chain header level) (g'.chain header level)
  unary : ∀ header, Agree.Along W W (g.unary header) (g'.unary header)
  block : Agree.Along W W g.block g'.block
  elseIf : Agree.Along W W g.elseIf g'.elseIf

namespace Agree

variable {W₁ W₀ : ParseState → Prop} (hW : Descends W₁ W₀) {p q : Parser α} {f f' : α → Parser β}
include hW

/-! ### Single tokens -/

/-- A parser that reads on agrees with itself. -/
theorem leaf (h : ∀ s, Advances s (p s).2) : Along W₀ W₀ p p :=
  self fun _ _ _ hs hr => hW.within hs (Parser.advances_run h hr).length_le

/-- Behind a token, what follows is a level further in. -/
theorem first {P : ParseState → Prop} (hP : ∀ s, P s → W₁ s)
    (h : ∀ s a s', P s → p.run s = (.ok a, s') → s'.rest.length < s.rest.length) : Agree P (fun _ => W₀) p p :=
  self fun _ _ _ hs hr => hW.below (hP _ hs) (h _ _ _ hs hr)

theorem expect {kind : TokenKind} (hk : kind ≠ .eof) (wanted : Expected) :
    Along W₁ W₀ (Parser.expect kind wanted) (Parser.expect kind wanted) := by
  refine first hW (fun _ => id) fun s a s' _ hr => ?_
  obtain ⟨hkind, -, rfl⟩ := Parser.expect_ok.1 hr
  exact Parser.length_advance_lt (by rwa [hkind])

theorem identifier : Along W₁ W₀ Parser.identifier Parser.identifier := by
  refine first hW (fun _ => id) fun s a s' _ hr => ?_
  obtain ⟨hkind, rfl⟩ := Parser.identifier_ok.1 hr
  exact Parser.length_advance_lt (by simp [hkind])

theorem skip {k : TokenKind} (hk : k ≠ .eof) :
    Agree (fun s => W₁ s ∧ s.peek.kind = k) (fun _ => W₀) Parser.skip Parser.skip := by
  refine first hW (fun _ => And.left) fun s a s' hs hr => ?_
  obtain rfl : s.advance = s' := congrArg Prod.snd hr
  exact Parser.length_advance_lt (by rwa [hs.2])

/-- A parser that runs beside itself agrees with itself. -/
theorem alike {R : α → α → Prop} (h : ∀ us, Alike us us R p p) : Along W₀ W₀ p p := leaf hW (Alike.advances h)

omit hW in
theorem looking {P : ParseState → Prop} {Q : α → ParseState → Prop} {γ : Type} {l : ParseState → γ}
    {k k' : γ → Parser α} (h : ∀ c, Agree P Q (k c) (k' c)) :
    Agree P Q (Parser.look l >>= k) (Parser.look l >>= k') := look fun c => (h c).mono fun _ => And.left

omit hW in
/-- What follows may go back to the state that is saved. -/
theorem saving {P : ParseState → Prop} {Q : α → ParseState → Prop} {k k' : ParseState → Parser α}
    (h : ∀ saved, P saved → Agree P Q (k saved) (k' saved)) :
    Agree P Q (Parser.look id >>= k) (Parser.look id >>= k') := fun s hs => h s hs s hs

omit hW in
theorem ends (a : α) : Along W₀ W₀ (pure a) (pure a) := done fun _ => id

omit hW in
/-- The stretch of a construct is looked up behind it. -/
theorem spanned {P : ParseState → Prop} {start : Nat} {build : Span → α → β} (h : Agree P (fun _ => W₀) p q) :
    Agree P (fun _ => W₀) (do let a ← p; pure (build (← Parser.spanFrom start) a))
      (do let a ← q; pure (build (← Parser.spanFrom start) a)) := h.bind fun _ => looking fun _ => ends _

theorem widely {P : ParseState → Prop} (h : Agree W₁ (fun _ => W₀) p q) (hP : ∀ s, P s → W₀ s) :
    Agree P (fun _ => W₀) p q := h.mono fun s hs => hW.wide (hP s hs)

/-! ### Repetition -/

omit hW in
theorem grow {step step' : α → Parser (Option α)} (h : ∀ a, Along W₀ W₀ (step a) (step' a)) (a : α) :
    Along W₀ W₀ (Parser.grow step a) (Parser.grow step' a) := by
  have hfor (budget : List Token) (a : α) :
      Along W₀ W₀ (Parser.growFor step budget a) (Parser.growFor step' budget a) := by
    induction budget generalizing a with
    | nil => exact ends a
    | cons t budget ih =>
      refine (h a).bind fun o => ?_
      cases o with
      | none => exact ends a
      | some a' => exact ih a'
  exact fun s hs => hfor (s.peek :: s.rest) a s hs

omit hW in
theorem collect {round round' : Parser (Round α)} (h : Along W₀ W₀ round round') :
    Along W₀ W₀ (Parser.collect round) (Parser.collect round') := by
  have hfor (budget : List Token) :
      Along W₀ W₀ (Parser.collectFor round budget) (Parser.collectFor round' budget) := by
    induction budget with
    | nil => exact ends []
    | cons t budget ih =>
      refine h.bind fun r => ?_
      cases r with
      | stop => exact ends []
      | last a => exact ends [a]
      | more a => exact ih.bind fun as => ends (a :: as)
      | none => exact ih
  exact fun s hs => hfor (s.peek :: s.rest) s hs

theorem accept (kind : TokenKind) : Along W₀ W₀ (Parser.accept kind) (Parser.accept kind) :=
  alike hW fun us => .accept (.refl us) kind

theorem closing (close : Punctuation) (opened : Span) :
    Along W₀ W₀ (Parser.closing close opened) (Parser.closing close opened) :=
  alike hW fun us => .closing (.refl us) close opened opened

theorem pass : Along W₀ W₀ Parser.skip Parser.skip := alike hW fun us => .skip (.refl us)

theorem commaList (close : Punctuation) (h : Along W₀ W₀ p q) :
    Along W₀ W₀ (Parser.commaList close p) (Parser.commaList close q) := by
  refine collect (looking fun _ => .ite (fun _ => ends _) fun _ => looking fun _ => .ite (fun _ => ends _) fun _ => ?_)
  exact h.bind fun a => (accept hW _).bind fun more => .ite (fun _ => ends _) fun _ => ends _

/-! ### Types -/

section
variable {type type' : Nat → Parser TypeExpr} (ht : ∀ angles, Along W₀ W₀ (type angles) (type' angles))
include ht

theorem typeArgs (angles : Nat) : Along W₀ W₀ (Parser.typeArgs type angles) (Parser.typeArgs type' angles) := by
  refine (alike hW fun us => .expect (.refl us) _ _).bind fun _ => (collect ?_).bind fun args => ?_
  · refine (ht _).bind fun t => looking fun owed => .ite (fun _ => ends _) fun _ => ?_
    exact (accept hW _).bind fun more => .ite (fun _ => ends _) fun _ => ends _
  · exact (alike hW fun us => .closeAngle (.refl us) _).bind fun _ => ends args

theorem typeBody (angles : Nat) : Along W₁ W₀ (Parser.typeBody type angles) (Parser.typeBody type' angles) := by
  refine looking fun start => Agree.bind (Q := fun _ => W₀) ?_ fun base => ?_
  · refine look fun kind => ?_
    split
    · exact (skip hW (by simp)).bind fun _ => looking fun _ => ends _
    · refine (skip hW (by simp)).bind fun _ => looking fun lt => looking fun touches => .ite (fun _ => ?_) fun _ => ?_
      · exact (typeArgs hW ht angles).bind fun args => looking fun _ => ends _
      · exact looking fun _ => ends _
    · refine (skip hW (by simp)).bind fun opened => (ht angles).bind fun first => (accept hW _).bind fun comma =>
        .ite (fun _ => looking fun _ => .fail) fun _ => (ht angles).bind fun second => looking fun more =>
          .ite (fun _ => looking fun _ => .fail) fun _ => (closing hW _ _).bind fun _ => looking fun _ => ends _
    · exact fun s _ => .error rfl
  · exact grow (fun t => alike hW fun us => .typeSuffix (.refl us) start start rfl) base

end

/-! ### Parts of expressions -/

variable {g g' : Inner} (hg : g.Agree W₀ g')
include hg

theorem exprList (close : Punctuation) (opened : Span) :
    Along W₀ W₀ (Parser.exprList g close opened) (Parser.exprList g' close opened) :=
  (commaList hW _ (hg.expression false)).bind fun _ => (closing hW _ _).bind fun _ => ends _

theorem arguments : Along W₁ W₀ (Parser.arguments g) (Parser.arguments g') :=
  (expect hW (by simp) _).bind fun _ => exprList hW hg _ _

theorem param : Along W₀ W₀ (Parser.param g) (Parser.param g') := by
  have hname {start : Nat} {build : Span → String → Param} :
      Along W₀ W₀ (do let a ← Parser.identifier; pure (build (← Parser.spanFrom start) a))
        (do let a ← Parser.identifier; pure (build (← Parser.spanFrom start) a)) :=
    spanned (alike hW fun us => .identifier (.refl us))
  refine looking fun start => (accept hW _).bind fun variadic => .ite (fun _ => looking fun named => ?_)
    fun _ => looking fun marked => looking fun noFormat => .ite (fun _ => ?_) fun _ => ?_
  · exact .ite (fun _ => hname) fun _ => looking fun _ => ends _
  · exact (pass hW).bind fun _ => (pass hW).bind fun _ => (hg.type 0).bind fun type => hname
  · exact (hg.type 0).bind fun type => looking fun named => .ite (fun _ => hname) fun _ => looking fun _ => ends _

theorem paramList : Along W₀ W₀ (Parser.paramList g) (Parser.paramList g') := by
  refine (alike hW fun us => .expect (.refl us) _ _).bind fun opened => ?_
  refine (alike hW fun us => .metaBinding (.refl us)).bind fun name =>
    (commaList hW _ (param hW hg)).bind fun params => ?_
  exact (closing hW _ _).bind fun _ => ends _

theorem lambda (header : Bool) : Along W₁ W₀ (Parser.lambda g header) (Parser.lambda g' header) := by
  refine (expect hW (by simp) _).bind fun opened => (paramList hW hg).bind fun params => looking fun block =>
    .ite (fun _ => ?_) fun _ => ?_
  · exact spanned hg.block
  · exact spanned (hg.expression header)

theorem fieldInit : Along W₀ W₀ (Parser.fieldInit g) (Parser.fieldInit g') := by
  refine looking fun start => (alike hW fun us => .identifier (.refl us)).bind fun name => ?_
  exact (alike hW fun us => .expect (.refl us) _ _).bind fun _ => spanned (hg.expression false)

omit hg in
theorem tries {P : ParseState → Prop} (h : Agree P (fun _ => W₀) p q) (hP : ∀ s, P s → W₀ s) :
    Agree P (fun _ => W₀) (Parser.attempt p) (Parser.attempt q) :=
  attempt h (fun _ _ => id) fun s _ hs hr => hW.within (hP s hs) (Nat.le_of_eq (congrArg _ hr))

theorem structTypeArgs : Along W₀ W₀ (Parser.structTypeArgs g) (Parser.structTypeArgs g') := by
  refine looking fun lt => looking fun touches => .ite (fun _ => ?_) fun _ => ends _
  refine (tries hW (typeArgs hW hg.type 0) fun _ => id).bind fun args => ?_
  cases args with
  | none => exact ends none
  | some args => exact looking fun owed => .ite (fun _ => ends _) fun _ => ends _

theorem structLiteral? (start : Nat) (name : String) :
    Along W₀ W₀ (Parser.structLiteral? g start name) (Parser.structLiteral? g' start name) := by
  refine saving fun saved hs => (structTypeArgs hW hg).bind fun generics => ?_
  have hback : Along W₀ W₀ (do Parser.change (·.rewindTo saved); pure (none : Option Expr))
      (do Parser.change (·.rewindTo saved); pure none) := fun _ _ => .ok (hW.within hs (Nat.le_refl _))
  cases generics with
  | none => exact hback
  | some generics =>
    refine looking fun body => .ite (fun _ => ?_) fun _ => hback
    refine (pass hW).bind fun opened => (commaList hW _ (fieldInit hW hg)).bind fun fields => ?_
    exact (closing hW _ _).bind fun _ => looking fun _ => ends _

theorem nameExpr (header : Bool) : Along W₁ W₀ (Parser.nameExpr g header) (Parser.nameExpr g' header) := by
  refine looking fun start => (identifier hW).bind fun name => looking fun path => .ite (fun _ => ?_) fun _ =>
    .ite (fun _ => looking fun _ => ends _) fun _ => (structLiteral? hW hg start name).bind fun literal => ?_
  · exact (alike hW fun us => .pathTail (.refl us)).bind fun tail => looking fun _ => ends _
  · cases literal with
    | none => exact looking fun _ => ends _
    | some literal => exact ends literal

theorem arrayLiteral (start : Nat) (isStatic : Bool) :
    Along W₁ W₀ (Parser.arrayLiteral g start isStatic) (Parser.arrayLiteral g' start isStatic) := by
  refine (expect hW (by simp) _).bind fun opened => (tries hW ?_ fun _ => id).bind fun element =>
    spanned (exprList hW hg _ _)
  exact (hg.type 0).bind fun type => (alike hW fun us => .expect (.refl us) _ _).bind fun _ => ends type

omit hg in
theorem operand (d : DirectiveName) (isFirst : Bool) (h : Along W₀ W₀ p q) :
    Along W₀ W₀ (Parser.operand d isFirst p) (Parser.operand d isFirst q) := by
  have hrest (separated : Bool) : Along W₀ W₀
      (if !separated then Parser.wrongOperands d
        else do if ← Parser.atMark .rParen then Parser.wrongOperands d else p)
      (if !separated then Parser.wrongOperands d
        else do if ← Parser.atMark .rParen then Parser.wrongOperands d else q) :=
    .ite (fun _ _ _ => .error rfl) fun _ => looking fun _ => .ite (fun _ _ _ => .error rfl) fun _ => h
  unfold Parser.operand
  cases isFirst with
  | true => exact hrest true
  | false => exact (accept hW _).bind hrest

omit hg in
theorem operandList (d : DirectiveName) (h : Along W₀ W₀ p q) :
    Along W₀ W₀ (Parser.operandList d p) (Parser.operandList d q) := by
  refine (onError (alike hW fun us => .expect (.refl us) _ _)).bind fun opened => h.bind fun result => ?_
  exact looking fun _ => looking fun _ => .ite (fun _ _ _ => .error rfl) fun _ => (closing hW _ _).bind fun _ => ends _

theorem optionalOperand : Along W₀ W₀ (Parser.optionalOperand g) (Parser.optionalOperand g') :=
  (accept hW _).bind fun _ => .ite (fun _ => (hg.expression false).bind fun _ => ends _) fun _ => ends _

theorem directiveOf (d : DirectiveName) : Along W₀ W₀ (Parser.directiveOf g d) (Parser.directiveOf g' d) := by
  have hvalue := operand hW d true (hg.expression false)
  have htype (isFirst : Bool) : Along W₀ W₀ (Parser.operand d isFirst (Parser.typeOperand g d))
      (Parser.operand d isFirst (Parser.typeOperand g' d)) := operand hW d isFirst (onError (hg.type 0))
  have hcount {build : Option Expr → Directive} : Along W₀ W₀ (do pure (build (← Parser.optionalOperand g)))
      (do pure (build (← Parser.optionalOperand g'))) := (optionalOperand hW hg).bind fun _ => ends _
  cases d with
  | len | free | setAllocator => exact operandList hW _ (hvalue.bind fun _ => ends _)
  | size => exact operandList hW _ ((htype true).bind fun _ => ends _)
  | ident =>
    exact operandList hW _ ((operand hW _ true (alike hW fun us => .identifier (.refl us))).bind fun _ => ends _)
  | env => exact looking fun _ => .ite (fun _ _ _ => .error rfl) fun _ => ends _
  | resetAllocator => exact operandList hW _ (ends _)
  | alloc => exact operandList hW _ ((htype true).bind fun _ => hcount)
  | realloc => exact operandList hW _ (hvalue.bind fun _ => (htype false).bind fun _ => hcount)

theorem hashExpr : Along W₁ W₀ (Parser.hashExpr g) (Parser.hashExpr g') := by
  refine (expect hW (by simp) _).bind fun opened => looking fun array => .ite (fun _ => ?_) fun _ =>
    looking fun kind => ?_
  · exact widely hW (arrayLiteral hW hg _ true) fun _ => id
  split
  · refine (pass hW).bind fun _ => ?_
    split
    · exact .fail
    · exact spanned (directiveOf hW hg _)
  · exact fun _ _ => .error rfl

theorem dollarExpr : Along W₁ W₀ (Parser.dollarExpr g) (Parser.dollarExpr g') := by
  have hsize (form : FixedLiteral) (found start : Nat) :
      Along W₀ W₀ (Parser.wrongSize form found start : Parser Expr) (Parser.wrongSize form found start) :=
    looking fun _ => .fail
  have hargs := widely hW (arguments hW hg) fun _ => id
  refine (expect hW (by simp) _).bind fun opened => looking fun touching => looking fun _ => looking fun _ =>
    looking fun _ => .ite (fun _ => ?_) fun _ => looking fun _ => .ite (fun _ => ?_) fun _ => looking fun _ =>
      .ite (fun _ => ?_) fun _ _ _ => .error rfl
  · refine (pass hW).bind fun _ => hargs.bind fun items => ?_
    split
    · exact looking fun _ => ends _
    · exact hsize _ _ _
  · refine hargs.bind fun items => ?_
    split
    · exact looking fun _ => ends _
    · exact hsize _ _ _
  · refine (alike hW fun us => .identifier (.refl us)).bind fun name => looking fun _ => looking fun _ =>
      .ite (fun _ => ?_) fun _ => looking fun _ => ends _
    exact spanned hargs

/-! ### Operands and chains -/

theorem primary (header : Bool) : Along W₁ W₀ (Parser.primary g header) (Parser.primary g' header) := by
  have hliteral {k : TokenKind} (hk : k ≠ .eof) (start : Nat) (build : Span → Expr) :
      Agree (fun s => W₁ s ∧ s.peek.kind = k) (fun _ => W₀) (Parser.literal start build) (Parser.literal start build) :=
    (skip hW hk).bind fun _ => looking fun _ => ends _
  refine looking fun start => look fun kind => ?_
  split
  case h_6 => exact (lambda hW hg header).mono fun _ => And.left
  case h_7 => exact (nameExpr hW hg header).mono fun _ => And.left
  case h_8 =>
    refine (skip hW (by simp)).bind fun opened => (hg.expression false).bind fun inner => ?_
    exact (closing hW _ _).bind fun _ => looking fun _ => ends _
  case h_9 => exact (arrayLiteral hW hg start false).mono fun _ => And.left
  case h_10 => exact (hashExpr hW hg).mono fun _ => And.left
  case h_11 => exact (dollarExpr hW hg).mono fun _ => And.left
  case h_12 => exact fun _ _ => .error rfl
  all_goals exact hliteral (by simp) _ _

theorem suffixStep (start : Nat) (e : Expr) :
    Along W₀ W₀ (Parser.suffixStep g start e) (Parser.suffixStep g' start e) := by
  have hargs := widely hW (arguments hW hg) fun _ => id
  have hcall : Along W₀ W₀ (Parser.callTypeArgs g) (Parser.callTypeArgs g') :=
    (typeArgs hW hg.type 0).bind fun args => looking fun _ => .ite (fun _ _ _ => .error rfl) fun _ =>
      looking fun _ => .ite (fun _ => ends _) fun _ _ _ => .error rfl
  refine looking fun paren => .ite (fun _ => spanned hargs) fun _ => looking fun lt => looking fun touches =>
    .ite (fun _ => (tries hW hcall fun _ => id).bind fun generics => ?_) fun _ => (accept hW _).bind fun dot =>
      .ite (fun _ => ?_) fun _ => looking fun bracket => .ite (fun _ => ?_) fun _ => ends none
  · cases generics with
    | none => exact ends none
    | some generics => exact spanned hargs
  · exact (alike hW fun us => .identifier (.refl us)).bind fun name => looking fun _ => ends _
  · refine (pass hW).bind fun opened => (hg.expression false).bind fun index => ?_
    exact (closing hW _ _).bind fun _ => looking fun _ => ends _

theorem operandExpr (header : Bool) : Along W₁ W₀ (Parser.operandExpr g header) (Parser.operandExpr g' header) :=
  looking fun start => (primary hW hg header).bind fun e => grow (suffixStep hW hg start) e

/-- Where the parentheses are no cast, the operand is read from where they begin. -/
theorem cast? (header : Bool) : Agree (fun s => W₁ s ∧ s.peek.kind = .punctuation .lParen)
    (fun o s => if o.isSome then W₀ s else W₁ s) (Parser.cast? g header) (Parser.cast? g' header) := by
  refine saving fun saved hs => (skip hW (by simp)).bind fun opened => (tries hW ?_ fun _ => id).bind fun type => ?_
  · exact (hg.type 0).bind fun type => (alike hW fun us => .expect (.refl us) _ _).bind fun _ => ends type
  have hback : Agree W₀ (fun o s => if o.isSome then W₀ s else W₁ s)
      (do Parser.change (·.rewindTo saved); pure (none : Option Expr))
      (do Parser.change (·.rewindTo saved); pure none) := fun _ _ => .ok (hW.same hs.1 rfl)
  cases type with
  | none => exact hback
  | some type =>
    refine looking fun kind => .ite (fun _ => ?_) fun _ => hback
    exact (hg.unary header).bind fun e => looking fun _ => done fun _ => id

theorem unaryBody (header : Bool) : Along W₁ W₀ (Parser.unaryBody g header) (Parser.unaryBody g' header) := by
  have hrequire (op : Operator) : Along W₀ W₀ (Parser.requireOperand op) (Parser.requireOperand op) :=
    alike hW fun us => .requireOperand (.refl us) op
  refine looking fun start => look fun kind => ?_
  split
  · split
    · exact (skip hW (by simp)).bind fun _ => (hrequire _).bind fun _ => spanned (hg.unary header)
    · refine .ite (fun _ => ?_) fun _ => (operandExpr hW hg header).mono fun _ => And.left
      exact (skip hW (by simp)).bind fun _ => (hrequire _).bind fun _ => spanned (hg.unary header)
  · refine (cast? hW hg header).bind fun o => ?_
    cases o with
    | none => exact operandExpr hW hg header
    | some e => exact ends e
  · exact (operandExpr hW hg header).mono fun _ => And.left

theorem chainBody (header : Bool) (level : Nat) :
    Along W₁ W₀ (Parser.chainBody g header level) (Parser.chainBody g' header level) := by
  refine (unaryBody hW hg header).bind fun first => grow (fun left => looking fun kind => ?_) first
  split
  · exact ends none
  · split
    · exact ends none
    · refine .ite (fun _ => ends none) fun _ => (pass hW).bind fun _ => ?_
      exact (alike hW fun us => .requireOperand (.refl us) _).bind fun _ => (hg.chain header _).bind fun _ => ends _

theorem expressionBody (header : Bool) :
    Along W₁ W₀ (Parser.expressionBody g header) (Parser.expressionBody g' header) := by
  refine (chainBody hW hg header 1).bind fun condition => (accept hW _).bind fun question => .ite (fun _ => ?_)
    fun _ => ends condition
  refine Agree.bind (Q := fun _ => W₀) ?_ fun chosen => (alike hW fun us => .expect (.refl us) _ _).bind fun _ =>
    (hg.expression header).bind fun _ => ends _
  exact looking fun colon => .ite (fun _ => ends none) fun _ => (hg.expression header).bind fun _ => ends _

/-! ### Statements -/

theorem initializer (header : Bool) : Along W₀ W₀ (Parser.initializer g header) (Parser.initializer g' header) :=
  (accept hW _).bind fun _ => .ite (fun _ => (hg.expression header).bind fun _ => ends _) fun _ => ends none

theorem binding? (header : Bool) : Along W₀ W₀ (Parser.binding? g header) (Parser.binding? g' header) := by
  have hname : Along W₀ W₀ Parser.identifier Parser.identifier := alike hW fun us => .identifier (.refl us)
  refine (accept hW _).bind fun isLet => .ite (fun _ => ?_) fun _ => looking fun _ => looking fun _ =>
    .ite (fun _ => ?_) fun _ => looking fun _ => looking fun _ => .ite (fun _ => ends none) fun _ => ?_
  · exact hname.bind fun name => (initializer hW hg header).bind fun _ => ends _
  · exact hname.bind fun name => (pass hW).bind fun _ => (hg.expression header).bind fun _ => ends _
  · have htyped : Along W₀ W₀ (Parser.typeAndName g) (Parser.typeAndName g') :=
      (hg.type 0).bind fun type => hname.bind fun name => ends _
    refine (tries hW htyped fun _ => id).bind fun named => ?_
    cases named with
    | none => exact ends none
    | some named =>
      refine Agree.bind (Q := fun _ => W₀) ?_ fun form => ends _
      refine looking fun bracket => .ite (fun _ => ?_) fun _ => (initializer hW hg header).bind fun _ => ends _
      refine (pass hW).bind fun opened => (hg.expression false).bind fun size => ?_
      exact (closing hW _ _).bind fun _ => ends _

theorem assignment? (header : Bool) : Along W₀ W₀ (Parser.assignment? g header) (Parser.assignment? g' header) := by
  refine looking fun kind => ?_
  split
  · exact ends none
  · split
    · exact ends none
    · refine (pass hW).bind fun _ => (alike hW fun us => .requireOperand (.refl us) _).bind fun _ => ?_
      exact (hg.expression header).bind fun _ => ends _

theorem elsePart : Along W₀ W₀ (Parser.elsePart g) (Parser.elsePart g') := by
  refine (accept hW _).bind fun isElse => .ite (fun _ => ?_) fun _ => ends _
  refine looking fun isIf => .ite (fun _ => looking fun start => ?_) fun _ => hg.block.bind fun _ => ends _
  exact hg.elseIf.bind fun _ => looking fun _ => ends _

omit hW in
theorem headerCondition : Along W₀ W₀ (Parser.headerCondition g) (Parser.headerCondition g') :=
  (hg.expression true).bind fun _ => ends _

theorem ifBody : Along W₁ W₀ (Parser.ifBody g) (Parser.ifBody g') := by
  refine (expect hW (by simp) _).bind fun _ => (headerCondition hg).bind fun condition => hg.block.bind fun body => ?_
  exact (elsePart hW hg).bind fun _ => ends _

theorem forHeader (header : Bool) : Along W₀ W₀ (Parser.forHeader g header) (Parser.forHeader g' header) := by
  have hsemi : Along W₀ W₀ Parser.semicolon Parser.semicolon := alike hW fun us => .semicolon (.refl us)
  have hinit : Along W₀ W₀ (Parser.forInit g header) (Parser.forInit g' header) := by
    refine looking fun start => (binding? hW hg header).bind fun form => ?_
    split
    · exact looking fun _ => ends _
    · exact looking fun _ => .fail
    · exact (hg.expression header).bind fun _ => ends _
  have hstep : Along W₀ W₀ (Parser.forStep g header) (Parser.forStep g' header) := by
    refine looking fun start => (hg.expression header).bind fun target => (assignment? hW hg header).bind fun form => ?_
    split
    · exact looking fun _ => ends _
    · exact ends _
  refine hinit.bind fun init => hsemi.bind fun _ => (hg.expression header).bind fun condition => ?_
  exact hsemi.bind fun _ => hstep.bind fun _ => ends _

theorem forStatement : Along W₀ W₀ (Parser.forStatement g) (Parser.forStatement g') := by
  refine (alike hW fun us => .expect (.refl us) _ _).bind fun _ => looking fun _ => looking fun _ =>
    .ite (fun _ => ?_) fun _ => looking fun paren => .ite (fun _ => ?_) fun _ => ?_
  · refine (alike hW fun us => .identifier (.refl us)).bind fun name => (pass hW).bind fun _ => ?_
    exact (hg.expression true).bind fun iterable => hg.block.bind fun _ => ends _
  · refine (pass hW).bind fun opened => (forHeader hW hg false).bind fun parts => (closing hW _ _).bind fun _ => ?_
    exact hg.block.bind fun _ => ends _
  · exact (forHeader hW hg true).bind fun parts => hg.block.bind fun _ => ends _

theorem statement : Along W₀ W₀ (Parser.statement g) (Parser.statement g') := by
  have hsemi : Along W₀ W₀ Parser.semicolon Parser.semicolon := alike hW fun us => .semicolon (.refl us)
  refine looking fun start => Agree.bind (Q := fun _ => W₀) (looking fun kind => ?_) fun form => looking fun _ => ends _
  split
  · exact (widely hW (ifBody hW hg) fun _ => id).bind fun _ => ends _
  · exact (pass hW).bind fun _ => (headerCondition hg).bind fun condition => hg.block.bind fun _ => ends _
  · exact forStatement hW hg
  · exact (pass hW).bind fun _ => (hg.expression false).bind fun _ => hsemi.bind fun _ => ends _
  · refine (pass hW).bind fun _ => looking fun bare => .ite (fun _ => hsemi.bind fun _ => ends _) fun _ => ?_
    exact (hg.expression false).bind fun _ => hsemi.bind fun _ => ends _
  · exact (pass hW).bind fun _ => hsemi.bind fun _ => ends _
  · exact (pass hW).bind fun _ => hsemi.bind fun _ => ends _
  · exact hg.block.bind fun _ => ends _
  · refine Agree.bind (Q := fun _ => W₀) ?_ fun form => hsemi.bind fun _ => ends _
    refine (binding? hW hg false).bind fun form => ?_
    cases form with
    | some form => exact ends _
    | none =>
      refine (hg.expression false).bind fun target => (assignment? hW hg false).bind fun form => ?_
      split
      · exact ends _
      · exact ends _

/-- A block of a parse that stops at its first failure. -/
theorem blockBody (limit limit' : Nat) :
    Along W₁ W₀ (Parser.blockBody ⟨limit, false⟩ g) (Parser.blockBody ⟨limit', false⟩ g') := by
  refine (expect hW (by simp) _).bind fun opened => (collect ?_).bind fun statements => looking fun _ => ends _
  refine (accept hW _).bind fun closed => .ite (fun _ => ends _) fun _ => looking fun ended =>
    .ite (fun _ => looking fun _ => .fail) fun _ => (accept hW _).bind fun stray => .ite (fun _ => ends _) fun _ => ?_
  -- a failure of the statement is that of the block
  exact (statement hW hg).outcome (fun _ => ends _) (fun _ => rfl) fun _ => rfl

end Agree

/-! ### Levels -/

/-- As many levels are left on both sides or, where levels are ample, more than there are tokens. -/
structure RoomsFit (ample : Prop) (room room' : Nat) (s : ParseState) : Prop where
  more : ample → s.rest.length < room ∧ s.rest.length < room'
  same : ¬ ample → room = room'

theorem descends_fits (ample : Prop) (room room' : Nat) :
    Descends (RoomsFit ample (room + 1) (room' + 1)) (RoomsFit ample room room') where
  within hs hle := ⟨fun h => by have := hs.more h; omega, hs.same⟩
  below hs hlt := ⟨fun h => by have := hs.more h; omega, fun h => Nat.succ.inj (hs.same h)⟩
  same hs hr := ⟨fun h => hr ▸ hs.more h, hs.same⟩
  wide hs := ⟨fun h => by have := hs.more h; omega, fun h => congrArg _ (hs.same h)⟩

/-- Where no level is left on one side, none is left on the other. -/
theorem RoomsFit.zero_iff {ample : Prop} {room room' : Nat} {s : ParseState} (h : RoomsFit ample room room' s) :
    room = 0 ↔ room' = 0 := by
  by_cases ha : ample
  · have := h.more ha
    omega
  · rw [h.same ha]

theorem agree_tooDeep {ample : Prop} {limit limit' room' : Nat} {q : Nat → Parser α}
    (h : q 0 = Parser.tooDeep limit') :
    Agree.Along (RoomsFit ample 0 room') (RoomsFit ample 0 room') (Parser.tooDeep limit) (q room') := by
  intro s hs
  obtain rfl := hs.zero_iff.1 rfl
  rw [h]
  exact .error rfl

/-- Where a level is left on one side, one is left on the other. -/
theorem agree_level {ample : Prop} {room room' : Nat} {p : Parser α} {q : Nat → Parser α}
    (h : ∀ r, Agree.Along (RoomsFit ample (room + 1) (r + 1)) (RoomsFit ample room r) p (q (r + 1))) :
    Agree.Along (RoomsFit ample (room + 1) room') (RoomsFit ample (room + 1) room') p (q room') := by
  intro s hs
  obtain ⟨r, rfl⟩ : ∃ r, room' = r + 1 := Nat.exists_eq_succ_of_ne_zero fun h => by simpa using hs.zero_iff.2 h
  exact (h r).post (fun _ _ => (descends_fits ample room r).wide) s hs

theorem agree_typeExpr (ample : Prop) (limit limit' room room' angles : Nat) :
    Agree.Along (RoomsFit ample room room') (RoomsFit ample room room') (Parser.typeExpr limit room angles)
      (Parser.typeExpr limit' room' angles) := by
  induction room generalizing room' angles with
  | zero => exact agree_tooDeep (q := fun r => Parser.typeExpr limit' r angles) rfl
  | succ room ih =>
    exact agree_level (q := fun r => Parser.typeExpr limit' r angles) fun r =>
      Agree.typeBody (descends_fits ample room r) (ih r) angles

/-- The parsers of nested constructs agree where as many levels are left, and where levels are ample. -/
theorem agree_ofRoom (ample : Prop) (limit limit' room room' : Nat) :
    Inner.Agree (RoomsFit ample room room') (.ofRoom ⟨limit, false⟩ room) (.ofRoom ⟨limit', false⟩ room') := by
  induction room generalizing room' with
  | zero =>
    let g' := Inner.ofRoom ⟨limit', false⟩
    exact
      { type := fun angles => agree_tooDeep (q := fun r => (g' r).type angles) rfl
        expression := fun header => agree_tooDeep (q := fun r => (g' r).expression header) rfl
        chain := fun header level => agree_tooDeep (q := fun r => (g' r).chain header level) rfl
        unary := fun header => agree_tooDeep (q := fun r => (g' r).unary header) rfl
        block := agree_tooDeep (q := fun r => (g' r).block) rfl
        elseIf := agree_tooDeep (q := fun r => (g' r).elseIf) rfl }
  | succ room ih =>
    let g' := Inner.ofRoom ⟨limit', false⟩
    have hW (r : Nat) := descends_fits ample room r
    exact
      { type := fun angles => agree_level (q := fun r => (g' r).type angles) fun r =>
          Agree.typeBody (hW r) (agree_typeExpr ample limit limit' room r) angles
        expression := fun header => agree_level (q := fun r => (g' r).expression header) fun r =>
          Agree.expressionBody (hW r) (ih r) header
        chain := fun header level => agree_level (q := fun r => (g' r).chain header level) fun r =>
          Agree.chainBody (hW r) (ih r) header level
        unary := fun header => agree_level (q := fun r => (g' r).unary header) fun r =>
          Agree.unaryBody (hW r) (ih r) header
        block := agree_level (q := fun r => (g' r).block) fun r => Agree.blockBody (hW r) (ih r) limit limit'
        elseIf := agree_level (q := fun r => (g' r).elseIf) fun r => Agree.ifBody (hW r) (ih r) }

end ElleFrontEnd
