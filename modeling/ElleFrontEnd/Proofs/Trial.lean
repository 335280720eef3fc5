import ElleFrontEnd.Proofs.Height
import ElleFrontEnd.Proofs.Recovery

/-!
# Types read on trial

A type before a name, in parentheses before an operand, behind a callee or a struct name, or at the head of an array
is only tried: where it cannot be read, the tokens are read as something else.  Running out of levels counts as not
being able to, so that a tighter limit can change what the tokens are read as.

`trialDepth` tells at which level the innermost type lies that a tree owes to such a trial.  Below that level, a
tighter limit changes nothing but the place where reading stops: `Reaches` describes the end of a run that gets to a
result unless it runs out of levels, `Curtails` and `Follows` compare whole parsers in this way.
-/

namespace ElleFrontEnd

variable {α β : Type}

/-! ### The depth of trials -/

/-- The level `n`, counted from one level further out.  Where nothing is read on trial there is nothing to count. -/
def deeper (n : Nat) : Nat := if n = 0 then 0 else n + 1

theorem deeper_le_succ {n room : Nat} : deeper n ≤ room + 1 ↔ n ≤ room := by
  unfold deeper
  split <;> omega

theorem le_deeper (n : Nat) : n ≤ deeper n := by
  unfold deeper
  split <;> omega

mutual

/-- The level of the innermost type in an expression that was read on trial, zero if there is none. -/
def Expr.trialDepth : Expr → Nat
  | .binary _ left _ right => max left.trialDepth (deeper right.trialDepth)
  | .unary _ _ operand => deeper operand.trialDepth
  | .call _ callee generics args =>
    max callee.trialDepth (deeper (max (optHeight (typeListHeight 0) generics) (exprListTrialDepth args)))
  | .member _ object _ => object.trialDepth
  | .subscript _ object index => max object.trialDepth (deeper index.trialDepth)
  | .conditional _ condition consequence alternative =>
    max condition.trialDepth (deeper (max (optExprTrialDepth consequence) alternative.trialDepth))
  | .cast _ type operand => deeper (max (type.height 0) operand.trialDepth)
  | .paren _ inner => deeper inner.trialDepth
  | .ident _ _ | .qualified _ _ | .rawName _ _ | .number _ _ | .str _ _ | .bool _ _ | .char _ _ => 0
  | .array _ element _ elements => deeper (max (optHeight (TypeExpr.height 0) element) (exprListTrialDepth elements))
  | .tuple _ first second => deeper (max first.trialDepth second.trialDepth)
  | .triple _ first second third => deeper (max first.trialDepth (max second.trialDepth third.trialDepth))
  | .structLit _ _ generics fields =>
    deeper (max (optHeight (typeListHeight 0) generics) (fieldInitListTrialDepth fields))
  | .lambda _ _ body => deeper body.trialDepth
  | .blockLambda _ _ body => deeper body.trialDepth
  | .range _ start stop _ => max start.trialDepth (deeper stop.trialDepth)
  | .directive _ directive => deeper directive.trialDepth
  | .sigil _ _ args => deeper (optExprListTrialDepth args)

/-- The innermost level of trials in some expressions. -/
def exprListTrialDepth : List Expr → Nat
  | [] => 0
  | e :: es => max e.trialDepth (exprListTrialDepth es)

/-- The level of trials in an expression that may be left out. -/
def optExprTrialDepth : Option Expr → Nat
  | none => 0
  | some e => e.trialDepth

/-- The level of trials in arguments that may be left out. -/
def optExprListTrialDepth : Option (List Expr) → Nat
  | none => 0
  | some es => exprListTrialDepth es

/-- The level of trials in the value of a field. -/
def FieldInit.trialDepth : FieldInit → Nat
  | .mk _ _ value => value.trialDepth

/-- The innermost level of trials in some fields. -/
def fieldInitListTrialDepth : List FieldInit → Nat
  | [] => 0
  | f :: fs => max f.trialDepth (fieldInitListTrialDepth fs)

/-- The level of trials in what a directive holds. -/
def Directive.trialDepth : Directive → Nat
  | .len value | .free value | .setAllocator value => value.trialDepth
  | .size _ | .ident _ | .env | .resetAllocator => 0
  | .alloc _ count => optExprTrialDepth count
  | .realloc pointer _ count => max pointer.trialDepth (optExprTrialDepth count)

/-- The level of trials in a block. -/
def Block.trialDepth : Block → Nat
  | .mk _ statements => deeper (stmtListTrialDepth statements)

/-- The innermost level of trials in some statements. -/
def stmtListTrialDepth : List Stmt → Nat
  | [] => 0
  | s :: ss => max s.trialDepth (stmtListTrialDepth ss)

/-- The level of trials in a statement, counted from the block that holds it.  The condition of an `if` or `while` may
have been read within parentheses that do not belong to it. -/
def Stmt.trialDepth : Stmt → Nat
  | .expr _ value | .defer _ value => value.trialDepth
  | .varDecl _ _ type _ init => max (optHeight (TypeExpr.height 0) type) (optExprTrialDepth init)
  | .assign _ target _ value => max target.trialDepth value.trialDepth
  | .ifElse _ condition body otherwise =>
    max (deeper condition.trialDepth) (max body.trialDepth otherwise.trialDepth)
  | .whileLoop _ condition body => max (deeper condition.trialDepth) body.trialDepth
  | .forLoop _ init condition step body =>
    max (max init.trialDepth (max condition.trialDepth step.trialDepth)) body.trialDepth
  | .forEach _ _ iterable body => max iterable.trialDepth body.trialDepth
  | .returnValue _ value => optExprTrialDepth value
  | .breakLoop _ | .continueLoop _ => 0
  | .block _ statements => deeper (stmtListTrialDepth statements)
  | .buffer _ type _ size => max (type.height 0) size.trialDepth

/-- The level of trials in what follows the block of an `if`. -/
def Else.trialDepth : Else → Nat
  | .absent => 0
  | .block body => body.trialDepth
  | .elseIf _ condition body otherwise =>
    deeper (max (deeper condition.trialDepth) (max body.trialDepth otherwise.trialDepth))

/-- The level of trials in what a `for` loop starts with. -/
def ForInit.trialDepth : ForInit → Nat
  | .varDecl _ _ type _ init => max (optHeight (TypeExpr.height 0) type) (optExprTrialDepth init)
  | .expr value => value.trialDepth

/-- The level of trials in what a `for` loop does after each round. -/
def ForStep.trialDepth : ForStep → Nat
  | .assign _ target _ value => max target.trialDepth value.trialDepth
  | .expr value => value.trialDepth

end

/-- The level of trials in the parts of an `if`, counted from the block that holds it. -/
def IfParts.trialDepth (parts : IfParts) : Nat :=
  max (deeper parts.condition.trialDepth) (max parts.body.trialDepth parts.otherwise.trialDepth)

/-- The level of trials in the arguments of an attribute. -/
def Attribute.trialDepth (a : Attribute) : Nat := optHeight exprListTrialDepth a.args

/-- The level of trials in a function. -/
def FunctionDecl.trialDepth (f : FunctionDecl) : Nat :=
  max (highest Attribute.trialDepth f.attributes) (optHeight Block.trialDepth f.body)

/-- The level of trials in a declaration. -/
def Declaration.trialDepth : Declaration → Nat
  | .importModule _ _ | .globalOptions _ _ | .moduleName _ _ => 0
  | .function _ decl | .externalFunction _ decl => decl.trialDepth
  | .constant _ decl => decl.value.trialDepth
  | .struct _ decl => highest Attribute.trialDepth decl.attributes

/-- The innermost level of trials in a program. -/
def Program.trialDepth (p : Program) : Nat := highest Declaration.trialDepth p.declarations

theorem exprListTrialDepth_eq (es : List Expr) : exprListTrialDepth es = highest Expr.trialDepth es := by
  induction es with
  | nil => rfl
  | cons e es ih => simp only [exprListTrialDepth, highest, ih]

theorem fieldInitListTrialDepth_eq (fs : List FieldInit) :
    fieldInitListTrialDepth fs = highest FieldInit.trialDepth fs := by
  induction fs with
  | nil => rfl
  | cons f fs ih => simp only [fieldInitListTrialDepth, highest, ih]

theorem stmtListTrialDepth_eq (ss : List Stmt) : stmtListTrialDepth ss = highest Stmt.trialDepth ss := by
  induction ss with
  | nil => rfl
  | cons s ss ih => simp only [stmtListTrialDepth, highest, ih]

theorem trialDepth_le_unparenthesized (e : Expr) : e.trialDepth ≤ deeper e.unparenthesized.trialDepth := by
  cases e with
  | paren span inner => exact Nat.le_refl _
  | _ => exact le_deeper _

theorem trialDepth_joined {op : Operator} {left right e : Expr} (h : Parser.joined? op left right = some e) :
    e.trialDepth = max left.trialDepth (deeper right.trialDepth) := by
  rcases Parser.joined?_some h with ⟨span, binary, rfl⟩ | ⟨span, inclusive, rfl⟩ <;> rfl

/-! ### Runs that run out of levels -/

section
variable (limit : Nat)

/-- The run gets to `a` and `s'`, unless it runs out of levels. -/
inductive Reaches (a : α) (s' : ParseState) : Except Diagnostic α × ParseState → Prop
  | ok : Reaches a s' (.ok a, s')
  | tooDeep {e : Diagnostic} {s₁ : ParseState} (cause : e.cause = .tooDeep limit) : Reaches a s' (.error e, s₁)

/-- The first parser does what the second does, unless it runs out of levels. -/
def Curtails (p p' : Parser α) : Prop :=
  ∀ s, p.run s = p'.run s ∨ ∃ e s₁, p.run s = (.error e, s₁) ∧ e.cause = .tooDeep limit

/-- The first parser gets to the results of the second that satisfy `P`, unless it runs out of levels. -/
def Follows (P : α → Prop) (p p' : Parser α) : Prop :=
  ∀ s a s', p'.run s = (.ok a, s') → P a → Reaches limit a s' (p.run s)

end

variable {limit : Nat}

namespace Reaches

variable {a : α} {b : β} {s s₁ s' : ParseState}

theorem of_run {p : Parser α} (h : p.run s = (.ok a, s')) : Reaches limit a s' (p.run s) := h ▸ .ok

theorem bind {p : Parser α} {f : α → Parser β} (hp : Reaches limit a s₁ (p.run s))
    (hf : Reaches limit b s' ((f a).run s₁)) : Reaches limit b s' ((p >>= f).run s) := by
  change Reaches limit b s' (Parser.andThen p f s)
  unfold Parser.andThen
  change Reaches limit a s₁ (p s) at hp
  generalize p s = x at hp
  cases hp with
  | ok => exact hf
  | tooDeep cause => exact .tooDeep cause

end Reaches

namespace Curtails

variable {p p' : Parser α}

theorem refl (p : Parser α) : Curtails limit p p := fun _ => .inl rfl

theorem tooDeep (p : Parser α) : Curtails limit (Parser.tooDeep limit) p := fun _ => .inr ⟨_, _, rfl, rfl⟩

theorem bind {f f' : α → Parser β} (hp : Curtails limit p p') (hf : ∀ a, Curtails limit (f a) (f' a)) :
    Curtails limit (p >>= f) (p' >>= f') := by
  intro s
  change Parser.andThen p f s = Parser.andThen p' f' s ∨ ∃ e s₁, Parser.andThen p f s = _ ∧ _
  unfold Parser.andThen
  rcases hp s with h | ⟨e, s₁, h, cause⟩
  · have h : p s = p' s := h
    rw [h]
    rcases p' s with ⟨e | a, s₁⟩
    · exact .inl rfl
    · exact hf a s₁
  · have h : p s = _ := h
    rw [h]
    exact .inr ⟨e, s₁, rfl, cause⟩

theorem after {f f' : α → Parser β} (hf : ∀ a, Curtails limit (f a) (f' a)) : Curtails limit (p >>= f) (p >>= f') :=
  (refl p).bind hf

theorem ite {c : Prop} [Decidable c] {q q' : Parser α} (hp : Curtails limit p p') (hq : Curtails limit q q') :
    Curtails limit (if c then p else q) (if c then p' else q') := by
  split
  · exact hp
  · exact hq

theorem collect {round round' : Parser (Parser.Round α)} (hr : Curtails limit round round') :
    Curtails limit (Parser.collect round) (Parser.collect round') := by
  have hfor (budget : List Token) :
      Curtails limit (Parser.collectFor round budget) (Parser.collectFor round' budget) := by
    induction budget with
    | nil => exact refl _
    | cons t budget ih =>
      refine hr.bind fun r => ?_
      cases r with
      | stop => exact refl _
      | last a => exact refl _
      | more a => exact ih.bind fun as => refl _
      | none => exact ih
  exact fun s => hfor (s.peek :: s.rest) s

/-- What is read in few levels is read in many. -/
theorem ok (h : Curtails limit p p') {s s' : ParseState} {a : α} (hp : p.run s = (.ok a, s')) :
    p'.run s = (.ok a, s') := by
  rcases h s with h | ⟨e, s₁, h, -⟩
  · rw [← h, hp]
  · rw [hp] at h
    cases h

theorem reaches (h : Curtails limit p p') {s s' : ParseState} {a : α} (hp : p'.run s = (.ok a, s')) :
    Reaches limit a s' (p.run s) := by
  rcases h s with h | ⟨e, s₁, h, cause⟩
  · exact .of_run (h.trans hp)
  · rw [h]
    exact .tooDeep cause

/-- Where the second parser fails, so does the first. -/
theorem fails (h : Curtails limit p p') {s : ParseState} (hp : p'.Fails s) : p.Fails s := by
  obtain ⟨e, s₁, hp⟩ := hp
  rcases h s with h | ⟨d, s₂, h, -⟩
  · exact ⟨e, s₁, h.trans hp⟩
  · exact ⟨d, s₂, h⟩

end Curtails

/-! ### Types -/

namespace Curtails

variable {type type' : Nat → Parser TypeExpr} (ht : ∀ angles, Curtails limit (type angles) (type' angles))
include ht

theorem typeArgs (angles : Nat) : Curtails limit (Parser.typeArgs type angles) (Parser.typeArgs type' angles) :=
  after fun _ => (collect ((ht _).bind fun _ => refl _)).bind fun _ => refl _

theorem typeBody (angles : Nat) : Curtails limit (Parser.typeBody type angles) (Parser.typeBody type' angles) := by
  refine after fun start => bind ?_ fun base => refl _
  refine after fun kind => ?_
  split
  · exact refl _
  · exact after fun _ => after fun _ => after fun _ => ite ((typeArgs ht angles).bind fun _ => refl _) (refl _)
  · refine after fun _ => (ht angles).bind fun _ => after fun _ => ite (refl _) ?_
    exact (ht angles).bind fun _ => refl _
  · exact refl _

end Curtails

theorem curtails_typeExpr {limit' room room' : Nat} (hroom : room ≤ room') (angles : Nat) :
    Curtails limit (Parser.typeExpr limit room angles) (Parser.typeExpr limit' room' angles) := by
  -- on the tighter of the two limits; the wider one follows it level by level
  induction room generalizing room' angles with
  | zero => exact .tooDeep _
  | succ room ih =>
    obtain ⟨room', rfl⟩ : ∃ r, room' = r + 1 := ⟨room' - 1, by omega⟩
    exact Curtails.typeBody (fun angles => ih (by omega) angles) angles

/-- What is read by the one list of items is read by the other. -/
theorem Listed.congr {ends separates : ParseState → Prop} {item item' : Parser α} {s s' : ParseState} {as : List α}
    (h : Listed ends separates item' s as s')
    (hi : ∀ a ∈ as, ∀ s s', item'.run s = (.ok a, s') → item.run s = (.ok a, s')) :
    Listed ends separates item s as s' := by
  induction h with
  | nil he => exact .nil he
  | last he ha hs => exact .last he (hi _ (by simp) _ _ ha) hs
  | more he ha hs _ ih =>
    exact .more he (hi _ (by simp) _ _ ha) hs (ih fun a hmem => hi a (List.mem_cons_of_mem _ hmem))

namespace Parser

section
variable {type type' : Nat → Parser TypeExpr} {room : Nat} (hadv : ∀ angles s, Advances s (type angles s).2)
  (hadv' : ∀ angles s, Advances s (type' angles s).2)
  (hfit : ∀ angles s t s', (type' angles).run s = (.ok t, s') → t.height 0 ≤ room → (type angles).run s = (.ok t, s'))
include hadv hadv' hfit

theorem typeArgs_fit {angles : Nat} {s s' : ParseState} {args : List TypeExpr}
    (h : (typeArgs type' angles).run s = (.ok args, s')) (hargs : typeListHeight 0 args ≤ room) :
    (typeArgs type angles).run s = (.ok args, s') := by
  obtain ⟨hk, s₁, hlist, hclose⟩ := (typeArgs_ok hadv').1 h
  rw [typeListHeight_eq, highest_le] at hargs
  exact (typeArgs_ok hadv).2 ⟨hk, s₁, hlist.congr fun t ht s s' h => hfit _ _ _ _ h (hargs t ht), hclose⟩

theorem typeBody_fit {angles : Nat} {s s' : ParseState} {t : TypeExpr}
    (h : (typeBody type' angles).run s = (.ok t, s')) (ht : t.height 0 ≤ room + 1) :
    (typeBody type angles).run s = (.ok t, s') := by
  obtain ⟨base, s₁, hbase, hrest⟩ := typeBody_ok.1 h
  -- the runs of stars and brackets behind the base count nothing
  have hsame : t.height 0 = base.height 0 := by
    refine Yields.grows (P := (·.height 0 = base.height 0)) (fun t ht s o s' h t' ho => ?_) hrest rfl
    obtain rfl := ho
    obtain ⟨-, ⟨-, k, -, rfl⟩ | ⟨-, -, k, -, rfl⟩⟩ := typeSuffix_some.1 h <;> exact ht
  rw [hsame] at ht
  refine typeBody_ok.2 ⟨base, s₁, baseType_ok.2 ?_, hrest⟩
  rcases baseType_ok.1 hbase with h | ⟨name, hk, h⟩ | ⟨hk, h⟩
  · exact .inl h
  · refine .inr (.inl ⟨name, hk, namedType_ok.2 ?_⟩)
    rcases namedType_ok.1 h with ⟨hlt, hadj, args, hargs, rfl⟩ | h
    · exact .inl ⟨hlt, hadj, args, typeArgs_fit hadv hadv' hfit hargs (Nat.le_of_succ_le_succ ht), rfl⟩
    · exact .inr h
  · obtain ⟨first, s₂, second, s₃, hfirst, hcomma, hsecond, hclose, rfl, rfl⟩ := tupleType_ok.1 h
    obtain ⟨h₁, h₂⟩ := Nat.max_le.1 (Nat.le_of_succ_le_succ ht)
    exact .inr (.inr ⟨hk, tupleType_ok.2 ⟨first, s₂, second, s₃, hfit _ _ _ _ hfirst h₁, hcomma,
      hfit _ _ _ _ hsecond h₂, hclose, rfl, rfl⟩⟩)

end

/-- A type is read wherever there are as many levels as it has. -/
theorem typeExpr_fit {limit limit' room room' angles : Nat} {s s' : ParseState} {t : TypeExpr}
    (h : (typeExpr limit' room' angles).run s = (.ok t, s')) (ht : t.height 0 ≤ room) :
    (typeExpr limit room angles).run s = (.ok t, s') := by
  induction room' generalizing room angles s t s' with
  | zero => exact absurd h (by simp [typeExpr])
  | succ room' ih =>
    have hpos : 0 < t.height 0 := t.height_pos
    obtain ⟨room, rfl⟩ : ∃ r, room = r + 1 := ⟨room - 1, by omega⟩
    have hadv (limit room angles : Nat) (s : ParseState) : Advances s (typeExpr limit room angles s).2 :=
      Alike.advances (fun ts => Alike.typeExpr (.refl ts) _ _ _) s
    exact typeBody_fit (hadv limit room) (hadv limit' room') (fun _ _ _ _ h ht => ih h ht) h ht

end Parser

/-! ### Following through larger parsers -/

namespace Follows

variable {P : α → Prop} {Q : β → Prop} {p p' : Parser α}

theorem of_curtails (h : Curtails limit p p') : Follows limit P p p' := fun _ _ _ hp _ => h.reaches hp

theorem refl (p : Parser α) : Follows limit P p p := of_curtails (.refl p)

/-- What follows tells what was read before: `hback` finds the trials of the part in those of the whole. -/
theorem bind {f f' : α → Parser β} (hp : Follows limit P p p') (hf : ∀ a, Follows limit Q (f a) (f' a))
    (hback : ∀ a, (f' a).Yields fun b => Q b → P a) : Follows limit Q (p >>= f) (p' >>= f') := by
  intro s b s' h hb
  obtain ⟨a, s₁, ha, h⟩ := Parser.bind_ok.1 h
  exact (hp s a s₁ ha (hback a _ _ _ h hb)).bind (hf a _ _ _ h hb)

theorem after {q : Parser β} {f f' : β → Parser α} (hf : ∀ b, Follows limit P (f b) (f' b)) :
    Follows limit P (q >>= f) (q >>= f') := by
  intro s a s' h ha
  obtain ⟨b, s₁, hb, h⟩ := Parser.bind_ok.1 h
  exact (Reaches.of_run hb).bind (hf b _ _ _ h ha)

/-- Behind a part that holds nothing read on trial. -/
theorem behind {q q' : Parser β} {f f' : β → Parser α} (hq : Follows limit (fun _ => True) q q')
    (hf : ∀ b, Follows limit P (f b) (f' b)) : Follows limit P (q >>= f) (q' >>= f') :=
  hq.bind hf fun _ _ _ _ _ _ => trivial

/-- Before a part that only builds the result. -/
theorem before {f : α → Parser β} (hp : Follows limit P p p') (hback : ∀ a, (f a).Yields fun b => Q b → P a) :
    Follows limit Q (p >>= f) (p' >>= f) :=
  hp.bind (fun _ => refl _) hback

/-- A result that is built with the stretch it was read from. -/
theorem spanned {start : Nat} {build : α → Span → β} (hp : Follows limit P p p')
    (hback : ∀ a span, Q (build a span) → P a) :
    Follows limit Q (do let a ← p; pure (build a (← Parser.spanFrom start)))
      (do let a ← p'; pure (build a (← Parser.spanFrom start))) :=
  hp.before fun a => .behind fun span => .pure (hback a span)

theorem ite {c : Prop} [Decidable c] {q q' : Parser α} (hp : Follows limit P p p') (hq : Follows limit P q q') :
    Follows limit P (if c then p else q) (if c then p' else q') := by
  split
  · exact hp
  · exact hq

theorem onError {f : Diagnostic → Diagnostic} (hf : ∀ e, (f e).cause = e.cause) (hp : Follows limit P p p') :
    Follows limit P (Parser.onError f p) (Parser.onError f p') := by
  intro s a s' h ha
  have h := hp s a s' (Parser.onError_ok.1 h) ha
  change Reaches limit a s' (Parser.onError f p s)
  unfold Parser.onError
  change Reaches limit a s' (p s) at h
  generalize p s = x at h
  cases h with
  | ok => exact .ok
  | tooDeep cause => exact .tooDeep ((hf _).trans cause)

theorem mono {P' : α → Prop} (hp : Follows limit P p p') (h : ∀ a, P' a → P a) : Follows limit P' p p' :=
  fun s a s' hrun ha => hp s a s' hrun (h a ha)

theorem collect {round round' : Parser (Parser.Round α)}
    (hr : Follows limit (Parser.Yields.OfRound P) round round') :
    Follows limit (fun as => ∀ a ∈ as, P a) (Parser.collect round) (Parser.collect round') := by
  have hfor (budget : List Token) : Follows limit (fun as => ∀ a ∈ as, P a) (Parser.collectFor round budget)
      (Parser.collectFor round' budget) := by
    induction budget with
    | nil => exact refl _
    | cons t budget ih =>
      refine hr.bind (fun r => ?_) (fun r => ?_)
      · cases r with
        | stop => exact refl _
        | last a => exact refl _
        | more a => exact ih.before fun as => .pure fun h => (List.forall_mem_cons.1 h).2
        | none => exact ih
      · cases r with
        | stop => exact fun _ _ _ _ _ => trivial
        | last a => exact .pure fun h => h a (by simp)
        | more a => exact .behind fun as => .pure fun h => h a (by simp)
        | none => exact fun _ _ _ _ _ => trivial
  exact fun s => hfor (s.peek :: s.rest) s

theorem commaList (close : Punctuation) (hp : Follows limit P p p') :
    Follows limit (fun as => ∀ a ∈ as, P a) (Parser.commaList close p) (Parser.commaList close p') := by
  refine collect (after fun _ => ite (refl _) (after fun _ => ite (refl _) (hp.before fun a => ?_)))
  exact .behind fun _ => .ite (.pure id) (.pure id)

/-- Both hand on the failures of the part. -/
theorem outcome {f f' : Except Diagnostic α → Parser β} (hp : Follows limit P p p')
    (hok : ∀ a, Follows limit Q (f (.ok a)) (f' (.ok a))) (hfail : ∀ e, f (.error e) = Parser.fail e)
    (hfail' : ∀ e, f' (.error e) = Parser.fail e) (hback : ∀ a, (f' (.ok a)).Yields fun b => Q b → P a) :
    Follows limit Q (Parser.outcome p >>= f) (Parser.outcome p' >>= f') := by
  intro s b s' h hb
  rcases Parser.outcome_bind.1 h with ⟨a, s₁, ha, h⟩ | ⟨e, s₁, -, h⟩
  · have hrun := hp s a s₁ ha (hback a _ _ _ h hb)
    change Reaches limit b s' (Parser.andThen (Parser.outcome p) f s)
    unfold Parser.andThen Parser.outcome
    change Reaches limit a s₁ (p s) at hrun
    generalize p s = x at hrun
    cases hrun with
    | ok => exact hok a _ _ _ h hb
    | tooDeep cause =>
      dsimp only
      rw [hfail]
      exact .tooDeep cause
  · rw [hfail'] at h
    exact absurd h (by simp)

/-- A step may only add to what was read on trial before. -/
theorem grow {step step' : α → Parser (Option α)} (hs : ∀ a, Follows limit (fun o => ∀ a' ∈ o, P a') (step a) (step' a))
    (hback : ∀ a, (step' a).Yields fun o => ∀ a' ∈ o, P a' → P a) (a : α) :
    Follows limit P (Parser.grow step a) (Parser.grow step' a) := by
  have hfor (budget : List Token) (a : α) :
      Follows limit P (Parser.growFor step budget a) (Parser.growFor step' budget a) := by
    induction budget generalizing a with
    | nil => exact refl _
    | cons t budget ih =>
      refine (hs a).bind (fun o => ?_) (fun o => ?_)
      · cases o with
        | none => exact refl _
        | some a₁ => exact ih a₁
      · cases o with
        | none => exact fun _ _ _ _ _ _ h => nomatch h
        | some a₁ =>
          -- the trials of the end are no fewer than those after this step
          intro s a' s' h ha' a₂ ho
          obtain rfl := Option.mem_some_iff.1 ho
          exact Parser.Yields.growFor hback budget a₁ _ _ _ h ha'
  exact fun s => hfor (s.peek :: s.rest) a s

/-- A trial that comes to nothing is no worse than one that is given up later. -/
theorem trying {γ : Type} {q q' : Parser (Option γ)} {f f' : Option γ → Parser β}
    (hf : ∀ o, Follows limit Q (f o) (f' o))
    (htrial : ∀ s o s₁ b s', q'.run s = (.ok o, s₁) → (f' o).run s₁ = (.ok b, s') → Q b →
      q.run s = (.ok o, s₁) ∨ ∃ s₂, q.run s = (.ok none, s₂) ∧ Reaches limit b s' ((f none).run s₂)) :
    Follows limit Q (q >>= f) (q' >>= f') := by
  intro s b s' h hb
  obtain ⟨o, s₁, ho, h⟩ := Parser.bind_ok.1 h
  rcases htrial s o s₁ b s' ho h hb with hq | ⟨s₂, hq, hnone⟩
  · exact (Reaches.of_run hq).bind (hf o _ _ _ h hb)
  · exact (Reaches.of_run hq).bind hnone

/-- What the second parser reads on trial, the first reads as well, or it is given up later. -/
theorem attempt {f f' : Option α → Parser β} (hs : p.Silent) (hs' : p'.Silent) (hp : Curtails limit p p')
    (hf : ∀ o, Follows limit Q (f o) (f' o))
    (htrial : ∀ s a s₁ b s', p'.run s = (.ok a, s₁) → (f' (some a)).run s₁ = (.ok b, s') → Q b →
      p.run s = (.ok a, s₁) ∨ Reaches limit b s' ((f none).run s)) :
    Follows limit Q (Parser.attempt p >>= f) (Parser.attempt p' >>= f') := by
  have hback {p : Parser α} (hs : p.Silent) {s : ParseState} (h : p.Fails s) :
      (Parser.attempt p).run s = (.ok none, s) := by
    obtain ⟨e, s₁, h⟩ := h
    exact Parser.attempt_none.2 ⟨e, s₁, h, Parser.rewindTo_eq (hs.errors_eq h)⟩
  refine trying hf fun s o s₁ b s' ho h hb => ?_
  cases o with
  | none =>
    -- what cannot be read in many levels cannot be read in few
    obtain ⟨e, s₂, he, rfl⟩ := Parser.attempt_none.1 ho
    rw [Parser.rewindTo_eq (hs'.errors_eq he)]
    exact .inl (hback hs (hp.fails ⟨e, s₂, he⟩))
  | some a =>
    have ha := Parser.attempt_some.1 ho
    rcases htrial s a s₁ b s' ha h hb with hrun | hnone
    · exact .inl (Parser.attempt_some.2 hrun)
    rcases hrun : p.run s with ⟨e | a₁, s₂⟩
    · exact .inr ⟨s, hback hs ⟨e, s₂, hrun⟩, hnone⟩
    · -- it has not been given up, so both have read the same
      rw [hp.ok hrun] at ha
      cases ha
      exact .inl (Parser.attempt_some.2 hrun)

end Follows

end ElleFrontEnd
