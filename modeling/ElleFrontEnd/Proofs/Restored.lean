import ElleFrontEnd.Proofs.MirrorProgram
import ElleFrontEnd.Proofs.Residue
import ElleFrontEnd.Session.Call

/-!
# What a call leaves behind

Whatever a call does in a session, and however it ends, the session has its registers back, the place has not moved
backwards in the token stream, and diagnostics have only been added.  A call that finds nothing leaves the session as it
was: of a session, only the place and the `>` owed there are remembered where something is tried, but nothing else has
changed by the time they are taken back.
-/

namespace ElleFrontEnd

open Session (Keeps)

variable {α β : Type}

/-! ### Methods that find nothing -/

namespace Method

/-- The method keeps its session and records nothing. -/
def Calm (m : Method α) : Prop := ∀ s, Keeps True s (m s).2

theorem Calm.of_mirrors {m : Method α} {fits : Registers → Prop} {p : Registers → Parser α}
    (h : ∀ r, Mirrors True (fits r) r m (p r)) : m.Calm :=
  fun s => (h s.registers).keeps s.reading

theorem Calm.reads {p : Parser α} (hp : Trait.calm.holds p) : Calm (liftM p) :=
  fun s => (Mirrors.reads hp : Mirrors True True s.registers (liftM p) p).keeps s.reading

/-- The method always finds something, unless it fails. -/
def Finds (m : Method (Option α)) : Prop := ∀ s, (m s).1 ≠ .ok none

/-- Where the method finds nothing, it leaves the session as it was. -/
def Declines (m : Method (Option α)) : Prop := ∀ s, (m s).1 = .ok none → (m s).2 = s

/-- Where the method finds nothing, it takes back what has been read silently since `s₀`. -/
def Undoes (s₀ : Session) (m : Method (Option α)) : Prop :=
  ∀ s, Keeps True s₀ s → (m s).1 = .ok none → (m s).2 = s₀

theorem Finds.some (a : α) : Finds (pure (some a)) := by
  rintro s ⟨⟩

theorem Finds.behind {m : Method β} {f : β → Method (Option α)} (hf : ∀ b, Finds (f b)) : Finds (m >>= f) := by
  intro s
  change (andThen m f s).1 ≠ _
  unfold andThen
  rcases m s with ⟨e | b, s'⟩
  · rintro ⟨⟩
  · exact hf b s'

namespace Declines

variable {m m' : Method (Option α)}

theorem of_finds (h : Finds m) : Declines m := fun s hn => absurd hn (h s)

theorem none : Declines (pure none : Method (Option α)) := fun _ _ => rfl

theorem looking {l : ParseState → β} {f : β → Method (Option α)} (hf : ∀ b, Declines (f b)) :
    Declines (liftM (Parser.look l) >>= f) := fun s => hf (l s.reading) s

theorem ite {c : Prop} [Decidable c] (h : Declines m) (h' : Declines m') : Declines (if c then m else m') := by
  split
  · exact h
  · exact h'

/-- A token that is passed belongs to what is found. -/
theorem accepting {kind : TokenKind} {f : Bool → Method (Option α)} (htrue : Finds (f true))
    (hfalse : Declines (f false)) : Declines (liftM (Parser.accept kind) >>= f) := by
  intro s
  change (andThen (reads (Parser.accept kind)) f s).1 = _ → (andThen (reads (Parser.accept kind)) f s).2 = _
  unfold andThen reads Parser.accept
  split
  · rename_i hs
    split at hs <;> cases hs
    · exact fun hn => absurd hn (htrue _)
    · exact hfalse s
  · rintro ⟨⟩

/-- Giving up what was tried leaves nothing behind if trying has recorded nothing. -/
theorem attempt {m : Method α} (h : m.Calm) : Declines (Method.attempt m) := by
  intro s
  have hm := h s
  unfold Method.attempt
  rcases hs : m s with ⟨e | a, s'⟩ <;> rw [hs] at hm
  · exact fun _ => hm.rewindTo_eq
  · rintro ⟨⟩

theorem attempting {m : Method β} (h : m.Calm) {f : Option β → Method (Option α)} (hnone : Declines (f .none))
    (hsome : ∀ b, Finds (f (.some b))) : Declines (Method.attempt m >>= f) := by
  intro s
  have hback := attempt h s
  change (andThen (Method.attempt m) f s).1 = _ → (andThen (Method.attempt m) f s).2 = _
  unfold andThen
  rcases hs : Method.attempt m s with ⟨e | b, s'⟩ <;> rw [hs] at hback
  · rintro ⟨⟩
  · cases b with
    | none =>
      cases hback rfl
      exact hnone s'
    | some b => exact fun hn => absurd hn (hsome b s')

end Declines

namespace Undoes

variable {s₀ : Session} {m m' : Method (Option α)}

theorem of_finds (h : Finds m) : Undoes s₀ m := fun s _ hn => absurd hn (h s)

theorem bind {m : Method β} (h : m.Calm) {f : β → Method (Option α)} (hf : ∀ b, Undoes s₀ (f b)) :
    Undoes s₀ (m >>= f) := by
  intro s hs
  have hm := h s
  change (andThen m f s).1 = _ → (andThen m f s).2 = _
  unfold andThen
  rcases hx : m s with ⟨e | b, s'⟩ <;> rw [hx] at hm
  · rintro ⟨⟩
  · exact hf b s' (hs.trans hm)

theorem ite {c : Prop} [Decidable c] (h : Undoes s₀ m) (h' : Undoes s₀ m') : Undoes s₀ (if c then m else m') := by
  split
  · exact h
  · exact h'

theorem rewound : Undoes s₀ (do Parser.change (·.rewindTo s₀.reading); pure (none : Option α)) :=
  fun _ hs _ => hs.rewindTo_eq

/-- What remembers its place may go back to it. -/
theorem saving {f : ParseState → Method (Option α)} (h : ∀ s, Undoes s (f s.reading)) :
    Declines (liftM (Parser.look id) >>= f) := fun s => h s s (.refl s)

end Undoes

end Method

open Method (Calm Finds Declines Undoes)

section
variable {k : Methods} {fits : Registers → Prop} {g : Registers → Inner}
  (hk : ∀ r, Mirroring (fits r) r k (g r))
include hk

theorem Session.declines_structLiteral? (start : Nat) (name : String) :
    Declines (Session.structLiteral? k start name) := by
  have hargs : (Session.structTypeArgs k).Calm := .of_mirrors fun r => Mirrors.structTypeArgs (hk r) r.header
  refine Undoes.saving fun s => .bind hargs fun generics => ?_
  cases generics with
  | none => exact .rewound
  | some generics =>
    refine .bind (.reads Trait.atStructBody) fun _ => .ite (.of_finds ?_) .rewound
    exact .behind fun _ => .behind fun _ => .behind fun _ => .some _

theorem Session.declines_cast? : Declines (Session.cast? k) := by
  have htype : (Method.attempt (Session.castType k)).Calm :=
    .of_mirrors fun r => (Mirrors.castType (hk r) r.header).attempt
  refine Undoes.saving fun s => .bind (.reads Trait.skip) fun _ => .bind htype fun type => ?_
  cases type with
  | none => exact .rewound
  | some type =>
    refine .bind (.reads Trait.nextKind) fun _ => .ite (.of_finds ?_) .rewound
    exact .behind fun _ => .behind fun _ => .some _

theorem Session.declines_binding? : Declines (Session.binding? k) := by
  have hfound : (Session.typeAndName k).Calm := .of_mirrors fun r => Mirrors.typeAndName (hk r) r.header
  refine .accepting (.behind fun _ => .behind fun _ => .some _) (.looking fun _ => .looking fun _ => .ite ?_ ?_)
  · exact .of_finds (.behind fun _ => .behind fun _ => .behind fun _ => .some _)
  refine .looking fun _ => .looking fun _ => .ite .none (.attempting hfound .none fun found => ?_)
  exact .behind fun _ => .some _

end

/-! ### Calls -/

namespace Session

theorem Simple.calm (c : Simple α) : Trait.calm.holds c.parser := by
  cases c with
  | skip => exact Trait.skip
  | accept kind => exact Trait.accept kind
  | expect kind wanted => exact Trait.expect kind wanted
  | closing close opened => exact Trait.closing close opened
  | identifier => exact Trait.identifier
  | semicolon => exact Trait.semicolon
  | typeSuffixes start type => exact Trait.calm.grow (Trait.typeSuffix start) type
  | typeParams => exact Trait.typeParams
  | requireOperand op => exact Trait.requireOperand op
  | pathSegment =>
    refine Trait.calm.bind Trait.nextKind fun kind => ?_
    split
    · exact Trait.calm.bind Trait.skip fun _ => Trait.calm.done _
    · exact Trait.identifier
  | importPath => exact Trait.importPath
  | globalLine => exact Trait.globalLine
  | moduleLine => exact Trait.moduleLine
  | modifierList => exact Trait.modifierList
  | declName => exact Trait.declName
  | toNextStatement => exact ⟨Alike.advances fun ts => Alike.toNextStatement (.refl ts), fun _ => rfl⟩
  | toNextDeclaration => exact ⟨Alike.advances fun ts => Alike.toNextDeclaration (.refl ts), fun _ => rfl⟩

theorem Offer.mirrors {fits : Prop} {r : Registers} {k : Methods}
    (hk : Mirroring fits r k (Inner.ofRoom r.options r.room))
    (c : Offer α) : Mirrors False fits r (c.method k) (c.parser r) := by
  cases c with
  | tryTypeArgs => exact (Mirrors.outerTypeArgs hk r.header).attempt
  | tryCallTypeArgs => exact (Mirrors.callTypeArgs hk r.header).attempt
  | tryElementType => exact (Mirrors.elementType hk r.header).attempt
  | tryCastType => exact (Mirrors.castType hk r.header).attempt
  | tryTypeAndName => exact (Mirrors.typeAndName hk r.header).attempt
  | structLiteral start name => exact Mirrors.structLiteral? hk r.header start name
  | cast => exact Mirrors.cast? hk r.header
  | binding => exact Mirrors.binding? hk r.header

/-- Nothing that is tried records anything, so giving it up restores the session. -/
theorem Offer.declines {fits : Registers → Prop} {k : Methods} {g : Registers → Inner}
    (hk : ∀ r, Mirroring (fits r) r k (g r)) (c : Offer α) : Declines (c.method k) := by
  cases c with
  | tryTypeArgs => exact .attempt (.of_mirrors fun r => Mirrors.outerTypeArgs (hk r) r.header)
  | tryCallTypeArgs => exact .attempt (.of_mirrors fun r => Mirrors.callTypeArgs (hk r) r.header)
  | tryElementType => exact .attempt (.of_mirrors fun r => Mirrors.elementType (hk r) r.header)
  | tryCastType => exact .attempt (.of_mirrors fun r => Mirrors.castType (hk r) r.header)
  | tryTypeAndName => exact .attempt (.of_mirrors fun r => Mirrors.typeAndName (hk r) r.header)
  | structLiteral start name => exact declines_structLiteral? hk start name
  | cast => exact declines_cast? hk
  | binding => exact declines_binding? hk

theorem Call.mirrors (r : Registers) (c : Call α) :
    Mirrors False (c.Fits r) r (c.method (.ofFuel (r.options.maxDepth + 1))) (c.parser r) := by
  have hroom : r.room < r.options.maxDepth + 1 := Nat.lt_succ_of_le (Nat.sub_le _ _)
  have ht (angles : Nat) : Mirrors True True { r with angles } (Methods.ofFuel (r.options.maxDepth + 1)).type
      ((Inner.ofRoom r.options r.room).type angles) := by
    rw [← Methods.withBlocks_blockBody]
    exact (Mirrors.typeExpr _ _ { r with angles }).of (fun _ => hroom) fun _ =>
      (congrFun (Inner.ofRoom_type ..) angles).symm
  have hk : Mirroring (r.angles = 0) r (.ofFuel (r.options.maxDepth + 1)) (Inner.ofRoom r.options r.room) :=
    (Mirroring.ofFuel _ r).mono fun h => ⟨hroom, h⟩
  have hflat : Mirroring (r.angles = 0 ∧ r.header = false) r (.ofFuel (r.options.maxDepth + 1))
      (Inner.ofRoom r.options r.room) := hk.mono And.left
  cases c with
  | simple c => exact Mirrors.reads c.calm
  | offer c => exact c.mirrors hk
  | closeAngle => exact (Mirrors.closeAngle r.angles).of_silent
  | typeArgList => exact (Mirrors.typeArgList ht r.angles).of_silent
  | typeArgs => exact (Mirrors.typeArgs ht r.angles).of_silent
  | typeBody => exact (Mirrors.typeBody ht r.angles).of_silent
  | exprList close opened => exact Mirrors.exprList hflat And.right close opened
  | arguments => exact Mirrors.arguments hk r.header
  | param => exact Mirrors.param hk r.header
  | paramList => exact Mirrors.paramList hk r.header
  | lambda => exact Mirrors.lambda hk r.header
  | fieldInits opened => exact Mirrors.fieldInits hflat And.right opened
  | nameExpr => exact Mirrors.nameExpr hk r.header
  | arrayLiteral start isStatic => exact Mirrors.arrayLiteral hk r.header start isStatic
  | directive d => exact Mirrors.directiveOf hk r.header d
  | hashExpr => exact Mirrors.hashExpr hk r.header
  | dollarExpr => exact Mirrors.dollarExpr hk r.header
  | primary => exact Mirrors.primary hk r.header
  | callTypeArgs => exact Mirrors.callTypeArgs hk r.header
  | operandExpr => exact Mirrors.operandExpr hk r.header
  | unaryBody => exact Mirrors.unaryBody hk r.header
  | chainBody level => exact Mirrors.chainBody hk r.header level
  | expressionBody => exact Mirrors.expressionBody hk r.header
  | initializer => exact Mirrors.initializer hk r.header
  | assignment => exact Mirrors.assignment? hk r.header
  | simpleStatement => exact Mirrors.simpleStatement hflat And.right
  | headerCondition => exact Mirrors.headerCondition hk r.header
  | ifBody => exact Mirrors.ifBody hk r.header
  | whileStatement => exact Mirrors.whileStatement hk r.header
  | forInit => exact Mirrors.forInit hk r.header
  | forStep => exact Mirrors.forStep hk r.header
  | forStatement => exact Mirrors.forStatement hk r.header
  | statement => exact Mirrors.statement hflat And.right
  | recoverFrom e => exact Mirrors.recoverFrom e
  | blockInner => exact Mirrors.blockInner hflat And.right
  | blockBody => exact Mirrors.blockBody hk r.header
  | attributeList => exact Mirrors.attributeList hk r.header
  | functionDecl modifiers => exact Mirrors.functionDecl hk r.header modifiers
  | constDecl modifiers => exact Mirrors.constDecl hflat And.right modifiers
  | structField => exact Mirrors.structField hk r.header
  | structDecl modifiers => exact Mirrors.structDecl hk r.header modifiers
  | declaration => exact Mirrors.declaration hflat And.right
  | program =>
    refine Mirrors.program (hflat.mono And.right) (fun h => h.2.2) fun h => ?_
    unfold Registers.room
    rw [h.1, Nat.sub_zero]
  | type => exact (ht r.angles).of_silent
  | expression => exact hk.expression r.header
  | chain level => exact hk.chain r.header level
  | unary => exact hk.unary r.header
  | block => exact hk.block r.header
  | elseIf => exact hk.elseIf r.header

/-- Every state has some place in some token stream. -/
theorem exists_standsAt (s : ParseState) : ∃ tokens n, StandsAt tokens n s := by
  rcases hlast : s.last with _ | t
  · exact ⟨s.rest, 0, Nat.zero_le _, rfl, hlast⟩
  · exact ⟨t :: s.rest, 1, by simp, rfl, hlast⟩

/-- What a call leaves as it has found it, and what it may have added. -/
structure Restores (s s' : Session) : Prop where
  options : s'.registers.options = s.registers.options
  depth : s'.registers.depth = s.registers.depth
  angles : s'.registers.angles = s.registers.angles
  header : s'.registers.header = s.registers.header
  /-- the tokens are the same, and the place among them has not moved backwards -/
  place : ∀ tokens n, StandsAt tokens n s.reading → ∃ n', n ≤ n' ∧ StandsAt tokens n' s'.reading
  errors : ∃ new, s'.reading.errors = s.reading.errors ++ new

theorem Keeps.restores {silent : Prop} {s s' : Session} (h : Keeps silent s s') : s.Restores s' where
  options := congrArg Registers.options h.registers
  depth := congrArg Registers.depth h.registers
  angles := congrArg Registers.angles h.registers
  header := congrArg Registers.header h.registers
  place _ n hn := by
    obtain ⟨used, hused⟩ := h.reading.passes
    exact ⟨n + used.length, Nat.le_add_right _ _, hn.of_passes hused⟩
  errors := h.reading.errors

/-- From every session, each call puts back what it borrows, whether it succeeds or fails; where an offer finds nothing,
the whole session is as it was; and from registers that fit, a call yields what the parser that it follows yields, and
goes where that goes. -/
theorem calls_restore (s : Session) :
    (∀ {α : Type} (c : Call α), s.Restores (c.run s).2) ∧
      (∀ {α : Type} (c : Offer α), (c.run s).1 = .ok none → (c.run s).2 = s) ∧
      ∀ {α : Type} (c : Call α), c.Fits s.registers → c.run s = Method.reads (c.parser s.registers) s :=
  ⟨fun c => ((c.mirrors s.registers).keeps s.reading).restores,
    fun c => c.declines (fun r => Mirroring.ofFuel _ r) s,
    fun c hfits => (c.mirrors s.registers).same hfits s.reading⟩

end Session

/-- A parse is a run of a session that starts at the head of the tokens, with nothing borrowed. -/
theorem parsePartial_eq_run (tokens : List Token) (o : ParseOptions) :
    parsePartial tokens o =
      match Session.Call.program.run ⟨{ rest := tokens }, { options := o }⟩ with
      | (.ok declarations, s) => (⟨declarations⟩, s.reading.errors)
      | (.error e, s) => (⟨[]⟩, s.reading.errors ++ [e]) := by
  rw [show Session.Call.program.run ⟨{ rest := tokens }, { options := o }⟩ = Method.reads (Parser.program o) _ from
    (Session.Call.program.mirrors { options := o }).same ⟨rfl, rfl, rfl⟩ { rest := tokens }]
  unfold parsePartial Method.reads
  rcases Parser.program o { rest := tokens } with ⟨e | declarations, s⟩ <;> rfl

end ElleFrontEnd
