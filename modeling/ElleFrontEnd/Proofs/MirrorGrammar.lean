import ElleFrontEnd.Proofs.Mirror
import ElleFrontEnd.Session.Expr

/-!
# The methods of types and expressions

Each method mirrors the parser of its name, as soon as the methods of nested constructs mirror theirs.  Types are read
silently, whatever the number of open argument lists is.  The expressions of a program stand in no argument list, so
their parsers are told of none.
-/

namespace ElleFrontEnd

namespace Mirrors

/-! ### Types -/

section
variable {fits : Prop} {r : Registers} {type : Method TypeExpr} {type' : Nat → Parser TypeExpr}
  (ht : ∀ angles, Mirrors True fits { r with angles } type (type' angles)) (angles : Nat)

theorem closeAngle : Mirrors True fits { r with angles } Session.closeAngle (Parser.closeAngle angles) :=
  asking (reads (Trait.closeAngle angles))

include ht

theorem typeArgList :
    Mirrors True fits { r with angles } (Session.typeArgList type) (Parser.typeArgList type' angles) := by
  refine (collect ?_).bind fun _ => (closeAngle angles).bind fun _ => done _
  refine (ht angles).bind fun _ => looking fun _ => ite (done _) ?_
  exact after (Trait.accept _) fun _ => ite (done _) (done _)

theorem typeArgs : Mirrors True fits { r with angles } (Session.typeArgs type) (Parser.typeArgs type' angles) :=
  after (Trait.expect _ _) fun _ => underAngle (typeArgList ht (angles + 1))

theorem namedType (start : Nat) (name : String) :
    Mirrors True fits { r with angles } (Session.namedType type start name)
      (Parser.namedType type' angles start name) := by
  refine after Trait.skip fun _ => looking fun _ => looking fun _ => ite ?_ doneFrom
  exact (typeArgs ht angles).spanned

theorem tupleType (start : Nat) :
    Mirrors True fits { r with angles } (Session.tupleType type start) (Parser.tupleType type' angles start) := by
  refine after Trait.skip fun _ => (ht angles).bind fun _ => after (Trait.accept _) fun _ => ite ?_ ?_
  · exact looking fun _ => stuck
  refine (ht angles).bind fun _ => looking fun _ => ite (looking fun _ => stuck) ?_
  exact after (Trait.closing _ _) fun _ => doneFrom

theorem baseType (start : Nat) :
    Mirrors True fits { r with angles } (Session.baseType type start) (Parser.baseType type' angles start) := by
  refine looking fun kind => ?_
  cases kind with
  | keyword word =>
    cases word with
    | primitive p => exact after Trait.skip fun _ => doneFrom
    | _ => exact stuck
  | ident name => exact namedType ht angles start name
  | punctuation mark =>
    cases mark with
    | lParen => exact tupleType ht angles start
    | _ => exact stuck
  | _ => exact stuck

theorem typeBody : Mirrors True fits { r with angles } (Session.typeBody type) (Parser.typeBody type' angles) :=
  looking fun start => (baseType ht angles start).bind fun t => grow (fun _ => reads (Trait.typeSuffix _ _)) t

end

end Mirrors

/-! ### Expressions -/

/-- From registers that differ from `r` in the header flag at most, the methods of nested constructs mirror the parsers;
types are read in any number of argument lists. -/
structure Mirroring (fits : Prop) (r : Registers) (k : Methods) (g : Inner) : Prop where
  angles : fits → r.angles = 0
  type : ∀ angles header, Mirrors True fits { r with angles, header } k.type (g.type angles)
  expression : ∀ header, Mirrors False fits { r with header } k.expression (g.expression header)
  chain : ∀ header level, Mirrors False fits { r with header } (k.chain level) (g.chain header level)
  unary : ∀ header, Mirrors False fits { r with header } k.unary (g.unary header)
  block : ∀ header, Mirrors False fits { r with header } k.block g.block
  elseIf : ∀ header, Mirrors False fits { r with header } k.elseIf g.elseIf

theorem Mirroring.mono {fits fits' : Prop} {r : Registers} {k : Methods} {g : Inner} (hk : Mirroring fits r k g)
    (h : fits' → fits) : Mirroring fits' r k g :=
  ⟨hk.angles ∘ h, fun angles header => (hk.type angles header).of h fun _ => rfl,
    fun header => (hk.expression header).of h fun _ => rfl,
    fun header level => (hk.chain header level).of h fun _ => rfl,
    fun header => (hk.unary header).of h fun _ => rfl, fun header => (hk.block header).of h fun _ => rfl,
    fun header => (hk.elseIf header).of h fun _ => rfl⟩

namespace Mirrors

variable {α : Type} {silent fits : Prop} {r : Registers} {k : Methods} {g : Inner}

section
variable (hk : Mirroring fits r k g) (header : Bool)
include hk

theorem type : Mirrors silent fits { r with header } k.type (g.type 0) :=
  ((hk.type r.angles header).of id fun h => by rw [hk.angles h]).of_silent

theorem outerTypeArgs : Mirrors silent fits { r with header } (Session.typeArgs k.type) (Parser.typeArgs g.type 0) :=
  ((typeArgs (r := { r with header }) (hk.type · header) r.angles).of id fun h => by rw [hk.angles h]).of_silent

/-- Out of a header, the parser may be told so. -/
theorem expression {header : Bool} (hh : fits → header = false) :
    Mirrors False fits { r with header } k.expression (g.expression false) :=
  (hk.expression header).of id fun h => by rw [hh h]

theorem exprList {header : Bool} (hh : fits → header = false) (close : Punctuation) (opened : Span) :
    Mirrors False fits { r with header } (Session.exprList k close opened) (Parser.exprList g close opened) :=
  ((expression hk hh).commaList close).bind fun _ => after (Trait.closing _ _) fun _ => done _

/-- What is read in brackets, out of a header. -/
theorem bracketed : Mirrors False fits { r with header } (Method.withHeader false k.expression) (g.expression false) :=
  withHeader (hk.expression false)

theorem arguments : Mirrors False fits { r with header } (Session.arguments k) (Parser.arguments g) :=
  after (Trait.expect _ _) fun _ => withHeader (exprList hk (fun _ => rfl) _ _)

theorem param : Mirrors False fits { r with header } (Session.param k) (Parser.param g) := by
  refine looking fun start => after (Trait.accept _) fun _ => ite ?_ ?_
  · refine looking fun _ => ite ?_ doneFrom
    exact (reads Trait.identifier).spanned
  refine looking fun _ => looking fun _ => ite ?_ ?_
  · refine after Trait.skip fun _ => after Trait.skip fun _ => (type hk header).bind fun _ => ?_
    exact (reads Trait.identifier).spanned
  refine (type hk header).bind fun _ => looking fun _ => ite ?_ doneFrom
  exact (reads Trait.identifier).spanned

theorem paramList : Mirrors False fits { r with header } (Session.paramList k) (Parser.paramList g) := by
  refine after (Trait.expect _ _) fun _ => after Trait.metaBinding fun _ => ?_
  exact ((param hk header).commaList _).bind fun _ => after (Trait.closing _ _) fun _ => done _

theorem lambda : Mirrors False fits { r with header } (Session.lambda k) (Parser.lambda g header) := by
  refine after (Trait.expect _ _) fun _ => (paramList hk header).bind fun _ => looking fun _ => ite ?_ ?_
  · exact (hk.block header).spanned
  · exact (hk.expression header).spanned

theorem fieldInit {header : Bool} (hh : fits → header = false) :
    Mirrors False fits { r with header } (Session.fieldInit k) (Parser.fieldInit g) := by
  refine looking fun _ => after Trait.identifier fun _ => after (Trait.expect _ _) fun _ => ?_
  exact (expression hk hh).spanned

theorem fieldInits {header : Bool} (hh : fits → header = false) (opened : Span) :
    Mirrors False fits { r with header } (Session.fieldInits k opened) (Parser.fieldInits g opened) :=
  ((fieldInit hk hh).commaList _).bind fun _ => after (Trait.closing _ _) fun _ => done _

theorem structTypeArgs :
    Mirrors silent fits { r with header } (Session.structTypeArgs k) (Parser.structTypeArgs g) := by
  refine looking fun _ => looking fun _ => ite ((outerTypeArgs hk header).attempt.bind fun args => ?_) (done _)
  cases args with
  | none => exact done none
  | some args => exact looking fun _ => ite (done _) (done none)

theorem structLiteral? (start : Nat) (name : String) :
    Mirrors False fits { r with header } (Session.structLiteral? k start name)
      (Parser.structLiteral? g start name) := by
  refine MirrorsFrom.saving fun s => .bind (structTypeArgs hk header) fun generics => ?_
  cases generics with
  | none => exact .rewound
  | some generics =>
    refine .bind (reads Trait.atStructBody) fun _ => .ite (.on (after Trait.skip fun opened => ?_)) .rewound
    -- the parser passes the closer on its own, behind the fields
    refine (spanned (withHeader (fieldInits hk (fun _ => rfl) opened))).of id fun _ => ?_
    simp only [Parser.fieldInits, Parser.bind_assoc]
    rfl

theorem nameExpr : Mirrors False fits { r with header } (Session.nameExpr k) (Parser.nameExpr g header) := by
  refine looking fun start => after Trait.identifier fun name => looking fun _ => ite ?_ (asking ?_)
  · exact (reads Trait.pathTail).spanned
  refine ite doneFrom ((structLiteral? hk header start name).bind fun literal => ?_)
  cases literal with
  | none => exact doneFrom
  | some literal => exact done literal

theorem elementType : Mirrors silent fits { r with header } (Session.elementType k) (Parser.elementTag g) :=
  (type hk header).bind fun _ => after (Trait.expect _ _) fun _ => done _

theorem arrayLiteral (start : Nat) (isStatic : Bool) :
    Mirrors False fits { r with header } (Session.arrayLiteral k start isStatic)
      (Parser.arrayLiteral g start isStatic) := by
  refine after (Trait.expect _ _) fun _ => (elementType hk header).attempt.bind fun _ => ?_
  exact (withHeader (exprList hk (fun _ => rfl) _ _)).spanned

/-! ### Directives and the forms of `$` -/

omit hk in
theorem operand {r : Registers} {m : Method α} {p : Parser α} (d : DirectiveName) (isFirst : Bool)
    (h : Mirrors silent fits r m p) :
    Mirrors silent fits r (Session.operand d isFirst m) (Parser.operand d isFirst p) := by
  have hrest (separated : Bool) : Mirrors silent fits r
      (if !separated then liftM (Parser.wrongOperands d)
        else do if ← Parser.atMark .rParen then liftM (Parser.wrongOperands d) else m)
      (if !separated then Parser.wrongOperands d
        else do if ← Parser.atMark .rParen then Parser.wrongOperands d else p) :=
    ite stuck (looking fun _ => ite stuck h)
  cases isFirst with
  | true => exact (done true).bind hrest
  | false => exact after (Trait.accept _) hrest

omit hk in
theorem operandList {r : Registers} {m : Method α} {p : Parser α} (d : DirectiveName)
    (h : Mirrors silent fits r m p) :
    Mirrors silent fits r (Session.operandList d m) (Parser.operandList d p) := by
  refine after (Trait.calm.onError _ (Trait.expect _ _)) fun _ => h.bind fun _ => looking fun _ => looking fun _ => ?_
  exact ite stuck (after (Trait.closing _ _) fun _ => done _)

theorem optionalOperand :
    Mirrors False fits { r with header } (Session.optionalOperand k) (Parser.optionalOperand g) :=
  after (Trait.accept _) fun _ => ite ((bracketed hk header).bind fun _ => done _) (done _)

theorem typeOperand (d : DirectiveName) :
    Mirrors False fits { r with header } (Session.typeOperand k d) (Parser.typeOperand g d) :=
  onError _ (type hk header)

theorem directiveOf (d : DirectiveName) :
    Mirrors False fits { r with header } (Session.directiveOf k d) (Parser.directiveOf g d) := by
  have hvalue := operand d true (bracketed hk header)
  have htype (isFirst : Bool) := operand d isFirst (typeOperand hk header d)
  have hcount {build : Option Expr → Directive} : Mirrors False fits { r with header }
      (do pure (build (← Session.optionalOperand k))) (do pure (build (← Parser.optionalOperand g))) :=
    (optionalOperand hk header).bind fun _ => done _
  cases d with
  | len | free | setAllocator => exact operandList _ (hvalue.bind fun _ => done _)
  | size => exact operandList _ ((htype true).bind fun _ => done _)
  | ident => exact operandList _ ((operand _ true (reads Trait.identifier)).bind fun _ => done _)
  | env => exact looking fun _ => ite stuck (done _)
  | resetAllocator => exact operandList _ (done _)
  | alloc => exact operandList _ ((htype true).bind fun _ => hcount)
  | realloc => exact operandList _ (hvalue.bind fun _ => (htype false).bind fun _ => hcount)

theorem hashExpr : Mirrors False fits { r with header } (Session.hashExpr k) (Parser.hashExpr g) := by
  refine after (Trait.expect _ _) fun _ => looking fun _ => ite (arrayLiteral hk header _ true) (looking fun kind => ?_)
  cases kind with
  | ident name =>
    refine after Trait.skip fun _ => ?_
    cases DirectiveName.ofSpelling? name with
    | none => exact stuck
    | some d => exact (directiveOf hk header d).spanned
  | _ => exact stuck

theorem dollarExpr : Mirrors False fits { r with header } (Session.dollarExpr k) (Parser.dollarExpr g) := by
  refine after (Trait.expect _ _) fun _ => looking fun _ => looking fun _ => looking fun _ => looking fun _ => ite ?_ ?_
  · refine after Trait.skip fun _ => (arguments hk header).bind fun items => ?_
    match items with
    | [a, b, c] => exact doneFrom
    | [] | [_] | [_, _] | _ :: _ :: _ :: _ :: _ => exact reads (Trait.wrongSize _ _ _)
  refine looking fun _ => ite ?_ ?_
  · refine (arguments hk header).bind fun items => ?_
    match items with
    | [a, b] => exact doneFrom
    | [] | [_] | _ :: _ :: _ :: _ => exact reads (Trait.wrongSize _ _ _)
  refine looking fun _ => ite ?_ stuck
  refine after Trait.identifier fun _ => looking fun _ => looking fun _ => ite ?_ doneFrom
  exact (arguments hk header).spanned

/-! ### Operands and chains -/

theorem parenthesized (start : Nat) :
    Mirrors False fits { r with header } (Session.parenthesized k start) (Parser.parenthesized g start) := by
  refine after Trait.skip fun _ => (bracketed hk header).bind fun _ => ?_
  exact after (Trait.closing _ _) fun _ => doneFrom

theorem primary : Mirrors False fits { r with header } (Session.primary k) (Parser.primary g header) := by
  refine looking fun start => looking fun kind => ?_
  cases kind with
  | number n => exact reads (Trait.literal _ _)
  | str parts => exact reads (Trait.literal _ _)
  | char part => exact reads (Trait.literal _ _)
  | rawName raw => exact reads (Trait.literal _ _)
  | keyword word =>
    cases word with
    | boolean value => exact reads (Trait.literal _ _)
    | primitive p =>
      cases p with
      | fn => exact lambda hk header
      | _ => exact stuck
    | _ => exact stuck
  | ident name => exact nameExpr hk header
  | punctuation mark =>
    cases mark with
    | lParen => exact parenthesized hk header start
    | lBracket => exact arrayLiteral hk header start false
    | hash => exact hashExpr hk header
    | dollar => exact dollarExpr hk header
    | _ => exact stuck
  | _ => exact stuck

theorem callTypeArgs : Mirrors silent fits { r with header } (Session.callTypeArgs k) (Parser.callTypeArgs g) :=
  (outerTypeArgs hk header).bind fun _ => looking fun _ => ite stuck (looking fun _ => ite (done _) stuck)

theorem genericCall? (start : Nat) (callee : Expr) :
    Mirrors False fits { r with header } (Session.genericCall? k start callee)
      (Parser.genericCall? g start callee) := by
  refine (callTypeArgs hk header).attempt.bind fun generics => ?_
  cases generics with
  | none => exact done none
  | some generics => exact (arguments hk header).spanned

theorem suffixStep (start : Nat) (e : Expr) :
    Mirrors False fits { r with header } (Session.suffixStep k start e) (Parser.suffixStep g start e) := by
  refine looking fun _ => ite (arguments hk header).spanned ?_
  refine looking fun _ => looking fun _ => ite (genericCall? hk header _ _) (after (Trait.accept _) fun _ => ite ?_ ?_)
  · exact (reads Trait.identifier).spanned
  refine looking fun _ => ite (after Trait.skip fun _ => (bracketed hk header).bind fun _ => ?_) (done _)
  exact after (Trait.closing _ _) fun _ => doneFrom

theorem operandExpr : Mirrors False fits { r with header } (Session.operandExpr k) (Parser.operandExpr g header) :=
  looking fun start => (primary hk header).bind (grow (suffixStep hk header start))

theorem castType : Mirrors silent fits { r with header } (Session.castType k) (Parser.castType g) :=
  (type hk header).bind fun _ => after (Trait.expect _ _) fun _ => done _

theorem cast? : Mirrors False fits { r with header } (Session.cast? k) (Parser.cast? g header) := by
  refine MirrorsFrom.saving fun s => .bind (reads Trait.skip) fun _ => .bind (castType hk header).attempt fun type => ?_
  cases type with
  | none => exact .rewound
  | some type => exact .bind (reads Trait.nextKind) fun _ => .ite (.on (hk.unary header).spanned) .rewound

theorem doubleAddress (start : Nat) :
    Mirrors False fits { r with header } (Session.doubleAddress k start) (Parser.doubleAddress g header start) :=
  after Trait.skip fun _ => after (Trait.requireOperand _) fun _ => (hk.unary header).spanned

theorem unaryBody : Mirrors False fits { r with header } (Session.unaryBody k) (Parser.unaryBody g header) := by
  refine looking fun start => looking fun kind => ?_
  cases kind with
  | operator op =>
    dsimp only
    cases UnaryOp.ofOperator? op with
    | some unary => exact after Trait.skip fun _ => after (Trait.requireOperand _) fun _ => (hk.unary header).spanned
    | none => exact ite (doubleAddress hk header start) (operandExpr hk header)
  | punctuation mark =>
    cases mark with
    | lParen =>
      refine (cast? hk header).bind fun e => ?_
      cases e with
      | none => exact operandExpr hk header
      | some e => exact done e
    | _ => exact operandExpr hk header
  | _ => exact operandExpr hk header

theorem chainStep (level : Nat) (left : Expr) :
    Mirrors False fits { r with header } (Session.chainStep k level left) (Parser.chainStep g header level left) := by
  refine looking fun kind => ?_
  cases kind.operator? with
  | none => exact done none
  | some op =>
    dsimp only
    cases op.binaryPower? with
    | none => exact done none
    | some power =>
      refine ite (done none) (after Trait.skip fun _ => after (Trait.requireOperand _) fun _ => ?_)
      exact (hk.chain header _).bind fun _ => done _

theorem chainBody (level : Nat) :
    Mirrors False fits { r with header } (Session.chainBody k level) (Parser.chainBody g header level) :=
  (unaryBody hk header).bind (grow (chainStep hk header level))

theorem consequence : Mirrors False fits { r with header } (Session.consequence k) (Parser.consequence g header) :=
  looking fun _ => ite (done none) ((hk.expression header).bind fun _ => done _)

theorem expressionBody :
    Mirrors False fits { r with header } (Session.expressionBody k) (Parser.expressionBody g header) := by
  refine (chainBody hk header 1).bind fun _ => after (Trait.accept _) fun _ => ite ?_ (done _)
  refine (consequence hk header).bind fun _ => after (Trait.expect _ _) fun _ => ?_
  exact (hk.expression header).bind fun _ => done _

end

end Mirrors

end ElleFrontEnd
