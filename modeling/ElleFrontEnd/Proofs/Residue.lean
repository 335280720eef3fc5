import ElleFrontEnd.Proofs.Fresh
import ElleFrontEnd.Proofs.Ready

/-!
# What a failure leaves behind

The second half of a `>>` is owed from the closer of an inner argument list to that of the outer one.  A type that fails
in between leaves it owed, and then what is read behind the failure is read as if a list were open
(`owed_behind_failure`).

Where no type of a token stream fails in this way (`SettlesTypes`), as where no `>>` occurs
(`settlesTypes_of_no_shr`), nothing is left behind: no `>` is owed at the head of any round of a program or a block, and
from the head of each declaration on, the rest is read as by a fresh parser (`program_residue`).
-/

namespace ElleFrontEnd

open ElleFrontEnd.Parser (Round)

/-- The state behind the first `n` tokens of a stream, where nothing is owed and nothing has been recorded. -/
def stateAt (tokens : List Token) (n : Nat) : ParseState :=
  { last := (tokens.take n).getLast?, rest := tokens.drop n }

/-- Wherever in the stream a type is read, and however deep, no `>` is owed behind it, whether it succeeds or fails. -/
def SettlesTypes (limit : Nat) (tokens : List Token) : Prop :=
  ∀ n ≤ tokens.length, ∀ room ≤ limit, ((Parser.typeExpr limit room 0).run (stateAt tokens n)).2.owed = 0

instance (limit : Nat) (tokens : List Token) : Decidable (SettlesTypes limit tokens) :=
  inferInstanceAs (Decidable (∀ n ≤ tokens.length, ∀ room ≤ limit, _ = 0))

theorem StandsAt.of_passes {ts used : List Token} {n : Nat} {s s' : ParseState} (h : StandsAt ts n s)
    (hp : Passes s used s') : StandsAt ts (n + used.length) s' := by
  have hdrop : ts.drop n = used ++ s'.rest := h.rest ▸ hp.rest
  have hlen : n + used.length ≤ ts.length := by
    have := congrArg List.length hdrop
    rw [List.length_drop, List.length_append] at this
    have := h.bound
    omega
  refine ⟨hlen, ?_, ?_⟩
  · rw [← List.drop_drop, hdrop, List.drop_left]
  · rw [List.take_add, hdrop, List.take_left, List.getLast?_append, hp.last, h.last]

/-- A state beside itself, where no `>` is owed, and `P` holds of the reading place; reading on keeps `P` up. -/
def Tie.still (P : ParseState → Prop)
    (hP : ∀ {s s' : ParseState} {used : List Token}, P s → Passes s used s' → P s') : Tie where
  rel s t := s = t ∧ s.owed = 0 ∧ P s
  gone _ := False
  near := by
    rintro s _ ⟨rfl, -⟩
    rfl
  gap := by
    rintro s _ s' _ ⟨rfl, -⟩ ⟨rfl, -⟩
    exact Nat.add_comm _ _
  within := by
    rintro s _ ⟨rfl, ho, hs⟩ -
    obtain ⟨⟨used, hu⟩, -⟩ := Advances.advance s
    exact ⟨rfl, by simpa using ho, hP hs hu⟩
  advance := by
    rintro s _ ⟨rfl, ho, hs⟩
    obtain ⟨⟨used, hu⟩, -⟩ := Advances.advance s
    exact .inl ⟨rfl, by simpa using ho, hP hs hu⟩
  rewind := by
    rintro s _ s' _ ⟨rfl, ho, hs⟩ ⟨rfl, -⟩
    exact ⟨rfl, ho, hP hs (.of_place rfl rfl)⟩
  record := by
    rintro s _ e ⟨rfl, ho, hs⟩
    exact ⟨rfl, ho, hP hs (.of_place rfl rfl)⟩
  next := by
    rintro s _ ⟨rfl, ho, hs⟩
    obtain ⟨⟨used, hu⟩, -⟩ := Alike.advances (fun ts => Alike.toNextStatement (.refl ts)) s
    exact .inl ⟨rfl, ho, hP hs hu⟩
  gone_of_advances := fun h _ => h

/-- A state within a token stream. -/
abbrev Tie.settled (tokens : List Token) : Tie :=
  .still (fun s => ∃ n, StandsAt tokens n s) fun ⟨_, hn⟩ hp => ⟨_, hn.of_passes hp⟩

/-- A state from which no `>>` is to come. -/
abbrev Tie.unshifted : Tie :=
  .still (fun s => ∀ t ∈ s.rest, t.kind ≠ .operator .shr) fun h hp t ht =>
    h t (by rw [hp.rest]; exact List.mem_append_right _ ht)

theorem Tie.unshifted_closeAngle (angles : Nat) :
    Tie.unshifted.Holds (Parser.closeAngle angles) (Parser.closeAngle angles) := by
  have hadv (s : ParseState) : Advances s (Parser.closeAngle angles s).2 :=
    Alike.advances (fun ts => Alike.closeAngle (.refl ts) angles) s
  refine ⟨?_, hadv⟩
  rintro s _ ⟨rfl, ho, hs⟩ -
  have hpeek : s.peek.kind ≠ .operator .shr := by
    intro hk
    obtain ⟨ts, hr⟩ := ParseState.rest_of_peek (s := s) (by simp [hk])
    exact hs s.peek (by rw [hr]; exact List.mem_cons_self) hk
  have howed : ((Parser.closeAngle angles).run s).2.owed = 0 := by
    unfold Parser.closeAngle Parser.owed Parser.acceptOperator
    rw [Parser.look_bind, if_neg (by omega), Parser.accept_bind]
    simp only [Parser.accept_bind, if_neg hpeek, Parser.ite_run]
    split
    · exact (ParseState.advance_owed s).trans ho
    · simpa [Parser.run, Parser.unexpected] using ho
  obtain ⟨⟨used, hu⟩, -⟩ := hadv s
  exact .same ⟨rfl, howed, fun t ht => hs t (by rw [hu.rest]; exact List.mem_append_right _ ht)⟩

/-- Without `>>`, all argument lists are closed one by one. -/
theorem settlesTypes_of_no_shr (limit : Nat) {tokens : List Token} (h : ∀ t ∈ tokens, t.kind ≠ .operator .shr) :
    SettlesTypes limit tokens := by
  intro n _ room _
  have := (Tie.Runs.typeExpr Tie.unshifted_closeAngle limit room 0).ends (stateAt tokens n) (stateAt tokens n)
    ⟨rfl, rfl, fun t ht => h t (List.mem_of_mem_drop ht)⟩ trivial
  unfold Parser.run
  generalize Parser.typeExpr limit room 0 (stateAt tokens n) = x at this ⊢
  cases this with
  | same hst => exact hst.2.1
  | gone hm => exact hm.elim

namespace Parser

variable {α β : Type} {limit room : Nat} {tokens : List Token}

/-- Where the parser succeeds and no `>` was owed before, none is owed behind it. -/
def Settles (p : Parser α) : Prop := ∀ s a s', s.owed = 0 → p.run s = (.ok a, s') → s'.owed = 0

namespace Settles

variable {p q : Parser α} {f : α → Parser β}

theorem bind (hp : Settles p) (hf : ∀ a, Settles (f a)) : Settles (p >>= f) := by
  intro s b s' hs h
  obtain ⟨a, s₁, ha, h⟩ := bind_ok.1 h
  exact hf a _ _ _ (hp _ _ _ hs ha) h

theorem pure (a : α) : Settles (Pure.pure a : Parser α) := by
  intro s b s' hs h
  exact (pure_ok.1 h).2 ▸ hs

theorem fails (h : ∀ s a s', p.run s ≠ (.ok a, s')) : Settles p := fun s a s' _ hs => absurd hs (h s a s')

theorem ite {c : Prop} [Decidable c] (hp : Settles p) (hq : Settles q) : Settles (if c then p else q) := by
  split
  · exact hp
  · exact hq

theorem look (l : ParseState → α) : Settles (Parser.look l) := by
  intro s a s' hs h
  cases h
  exact hs

theorem expect (kind : TokenKind) (wanted : Expected) : Settles (Parser.expect kind wanted) := by
  intro s a s' hs h
  obtain ⟨-, -, rfl⟩ := expect_ok.1 h
  simpa using hs

theorem identifier : Settles Parser.identifier := by
  intro s name s' hs h
  obtain ⟨-, rfl⟩ := identifier_ok.1 h
  simpa using hs

theorem unexpected {wanted : Expected} : Settles (Parser.unexpected wanted : Parser α) :=
  fails fun _ _ _ h => unexpected_ok.1 h

theorem attempt (hp : Settles p) : Settles (Parser.attempt p) := by
  intro s o s' hs h
  cases o with
  | some a => exact hp _ _ _ hs (attempt_some.1 h)
  | none =>
    obtain ⟨e, s₁, -, rfl⟩ := attempt_none.1 h
    exact hs

theorem typeExpr (limit room : Nat) : Settles (Parser.typeExpr limit room 0) := fun s t s' hs h =>
  Nat.eq_zero_of_le_zero (owed_typeExpr limit room 0 s t s' (Nat.le_of_eq hs) h)

theorem typeArgs (limit room : Nat) : Settles (Parser.typeArgs (Parser.typeExpr limit room) 0) := fun _ _ _ hs h =>
  Nat.eq_zero_of_le_zero
    (owed_typeArgs (advances_typeExpr limit room) (owed_typeExpr limit room) (Nat.le_of_eq hs) h)

end Settles

/-- What is only tried leaves nothing behind: where it fails, the reading place is restored with what was owed. -/
theorem Settles.tried {p : Parser α} (hp : Settles p) (hadv : ∀ s, Advances s (p s).2) :
    (Tie.settled tokens).Tried p p := by
  refine ⟨?_, hadv⟩
  rintro s _ ⟨rfl, ho, n, hn⟩
  have hs := hadv s
  rcases hr : p s with ⟨e | a, s'⟩ <;> rw [hr] at hs
  · exact .failed ⟨rfl, ho, _, hn.of_passes (.of_place rfl rfl)⟩
  · obtain ⟨⟨used, hu⟩, -⟩ := hs
    exact .same ⟨rfl, hp s a s' ho hr, _, hn.of_passes hu⟩

end Parser

namespace Tie

variable {limit room : Nat} {tokens : List Token} {g g' : Inner}

/-- A type is read alike, and owes nothing behind it. -/
theorem settled_typeExpr (h : SettlesTypes limit tokens) (hroom : room ≤ limit) :
    (settled tokens).Ties (Parser.typeExpr limit room 0) (Parser.typeExpr limit room 0) := by
  refine ⟨?_, Parser.advances_typeExpr limit room 0⟩
  rintro s _ ⟨rfl, ho, n, hn⟩ -
  have hs : s = (stateAt tokens n).behind s.errors := by
    obtain ⟨last, rest, owed, errors⟩ := s
    obtain rfl : owed = 0 := ho
    obtain rfl : last = (tokens.take n).getLast? := hn.last
    obtain rfl : rest = tokens.drop n := hn.rest
    simp [stateAt, ParseState.behind]
  have hties := (Runs.typeExpr (Runs.closeAngle (Parser.owing_recorded s.errors)) limit room 0).ties
  have hrun := Parser.run_behind hties (stateAt tokens n)
  rw [← hs] at hrun
  obtain ⟨⟨used, hu⟩, -⟩ := Parser.advances_typeExpr limit room 0 s
  refine .same ⟨rfl, ?_, _, hn.of_passes hu⟩
  change ((Parser.typeExpr limit room 0).run s).2.owed = 0
  rw [hrun]
  exact h n hn.bound room hroom

/-- What is tried is made of types alone. -/
theorem TypesTied.of_type_eq {K : Tie} (htype : g'.type = g.type) (h : K.TypesTied g g) : K.TypesTied g g' where
  type := htype ▸ h.type
  callTypeArgs := by simpa only [Parser.callTypeArgs, htype] using h.callTypeArgs
  castHead := by simpa only [Parser.castHead, Parser.castType, htype] using h.castHead
  structHead := by simpa only [Parser.structHead, Parser.structTypeArgs, htype] using h.structHead
  elementTag := by simpa only [Parser.elementTag, htype] using h.elementTag
  typeAndName := by simpa only [Parser.typeAndName, htype] using h.typeAndName

theorem TypesTied.of_settled (h : SettlesTypes limit tokens) (hroom : room ≤ limit)
    (hg : g.type = Parser.typeExpr limit room) : (settled tokens).TypesTied g g := by
  have hadv : (recorded []).TypesTied g g := .of_owing (Parser.owing_recorded []) hg hg
  have htype : Parser.Settles (g.type 0) := by
    rw [hg]
    exact .typeExpr limit room
  have hargs : Parser.Settles (Parser.typeArgs g.type 0) := by
    rw [hg]
    exact .typeArgs limit room
  have hcast : Parser.Settles (Parser.castType g) :=
    htype.bind fun _ => (Parser.Settles.expect _ _).bind fun _ => .pure _
  have hstruct : Parser.Settles (Parser.structTypeArgs g) := by
    refine (Parser.Settles.look _).bind fun _ => (Parser.Settles.look _).bind fun _ => .ite ?_ (.pure _)
    refine hargs.attempt.bind fun o => ?_
    cases o with
    | none => exact .pure _
    | some args => exact (Parser.Settles.look _).bind fun _ => .ite (.pure _) (.pure _)
  refine ⟨by rw [hg]; exact settled_typeExpr h hroom, ?_, ?_, ?_, ?_, ?_⟩
  · refine Parser.Settles.tried ?_ hadv.callTypeArgs.advances
    refine hargs.bind fun _ => (Parser.Settles.look _).bind fun _ => .ite .unexpected ?_
    exact (Parser.Settles.look _).bind fun _ => .ite (.pure _) .unexpected
  · refine Parser.Settles.tried ?_ hadv.castHead.advances
    refine (Parser.Settles.expect _ _).bind fun _ => hcast.bind fun _ => (Parser.Settles.look _).bind fun _ => ?_
    exact .ite (.pure _) (.fails fun _ _ _ h => Parser.noExpression_ok.1 h)
  · refine Parser.Settles.tried ?_ hadv.structHead.advances
    refine hstruct.bind fun o => ?_
    cases o with
    | none => exact .fails fun _ _ _ h => Parser.noExpression_ok.1 h
    | some generics =>
      refine (Parser.Settles.look _).bind fun _ => .ite (.pure _) (.fails fun _ _ _ h => Parser.noExpression_ok.1 h)
  · refine Parser.Settles.tried ?_ hadv.elementTag.advances
    exact htype.bind fun _ => (Parser.Settles.expect _ _).bind fun _ => .pure _
  · refine Parser.Settles.tried ?_ hadv.typeAndName.advances
    exact htype.bind fun _ => .bind .identifier fun _ => .pure _

end Tie

/-! ### Heads of rounds -/

namespace Parser

variable {α : Type}

/-- The states in which the rounds of a repetition begin. -/
inductive HeadOf (round : Parser (Round α)) (s : ParseState) : ParseState → Prop
  | first : HeadOf round s s
  | more {h h' : ParseState} {a : α} : HeadOf round s h → round.run h = (.ok (.more a), h') → HeadOf round s h'
  | none {h h' : ParseState} : HeadOf round s h → round.run h = (.ok .none, h') → HeadOf round s h'

/-- The round, unless a `>` is owed where it begins: then the alarm is run in its place. -/
def guarded (alarm round : Parser α) : Parser α := fun s => if s.owed = 0 then round s else alarm s

/-- A block whose rounds are guarded by the alarm. -/
def guardedBlock (alarm : Parser (Round Stmt)) (o : ParseOptions) (g : Inner) : Parser Block := do
  let opened ← expectMark .lBrace
  let statements ← collect (guarded alarm (blockRound o g opened))
  pure (.mk (← spanFrom opened.start) statements)

end Parser

/-- The declarations of a program, where the rounds of all blocks are guarded by the alarm. -/
def Parser.guardedProgram (alarm : Parser (Round Stmt)) (o : ParseOptions) : Parser (List Declaration) :=
  Parser.collect (Parser.roundOf o
    (Parser.declaration (Inner.withBlocks (Parser.guardedBlock alarm o) o o.maxDepth)))

namespace Tie

variable {tokens : List Token} {o : ParseOptions}

theorem tied_guarded (h : SettlesTypes o.maxDepth tokens) (alarm : Parser (Round Stmt)) {room : Nat}
    (hroom : room ≤ o.maxDepth) :
    (settled tokens).Tied (Inner.ofRoom o room) (Inner.withBlocks (Parser.guardedBlock alarm o) o room) := by
  have htypes {room : Nat} (hroom : room ≤ o.maxDepth) :
      (settled tokens).TypesTied (Inner.ofRoom o room) (Inner.withBlocks (Parser.guardedBlock alarm o) o room) :=
    .of_type_eq ((Inner.withBlocks_type ..).trans (Inner.ofRoom_type ..).symm)
      (.of_settled h hroom (Inner.ofRoom_type o room))
  induction room with
  | zero => exact .tooDeep (htypes hroom) o rfl rfl
  | succ room ih =>
    have hs := settled_ofRoom o room
    have hg := ih (Nat.le_of_succ_le hroom)
    refine hg.around hs (Runs.blockBody hs fun opened => ?_) (htypes hroom)
    have hround := Runs.blockRound hg o opened
    refine ⟨?_, hround.advances⟩
    rintro s _ ⟨rfl, ho, hn⟩ -
    have := hround.ends s s ⟨rfl, ho, hn⟩ trivial
    unfold Parser.guarded
    rwa [if_pos ho]

/-- No round of a program changes where blocks are guarded, and each ends where no `>` is owed. -/
theorem round_guarded (h : SettlesTypes o.maxDepth tokens) (alarm : Parser (Round Stmt)) :
    (settled tokens).Ties (Parser.programRound o)
      (Parser.roundOf o (Parser.declaration (Inner.withBlocks (Parser.guardedBlock alarm o) o o.maxDepth))) := by
  have hs := settled_ofRoom o o.maxDepth
  refine .roundOf (Runs.declaration (tied_guarded h alarm (Nat.le_refl _)) hs) ?_
  have hadv (s : ParseState) : Advances s (Parser.change Parser.toNextDeclaration s).2 :=
    Alike.advances (fun ts => Alike.toNextDeclaration (.refl ts)) s
  refine ⟨?_, hadv⟩
  rintro s _ ⟨rfl, ho, n, hn⟩ -
  obtain ⟨⟨used, hu⟩, -⟩ := hadv s
  exact .same ⟨rfl, ho, _, hn.of_passes hu⟩

end Tie

theorem Parser.owed_of_headOf {tokens : List Token} {o : ParseOptions} (h : SettlesTypes o.maxDepth tokens)
    {s : ParseState} (hs : Parser.HeadOf (Parser.programRound o) { rest := tokens } s) :
    s.owed = 0 ∧ ∃ n, StandsAt tokens n s := by
  have hround {s s' : ParseState} {r : Round Declaration} (hs : s.owed = 0 ∧ ∃ n, StandsAt tokens n s)
      (hr : (Parser.programRound o).run s = (.ok r, s')) : s'.owed = 0 ∧ ∃ n, StandsAt tokens n s' := by
    have := (Tie.round_guarded h (pure .stop)).ends s s ⟨rfl, hs⟩ trivial
    rw [show Parser.programRound o s = (.ok r, s') from hr] at this
    generalize Parser.roundOf o _ s = y at this
    cases this with
    | same hs' => exact hs'.2
    | gone _ hgone => exact hgone.elim
  induction hs with
  | first => exact ⟨rfl, 0, Nat.zero_le _, rfl, rfl⟩
  | more _ hr ih => exact hround ih hr
  | none _ hr ih => exact hround ih hr

/-- Nothing is left behind where no type fails with a `>` owed: at the head of each round of the program no `>` is
owed, and the rest is read as a fresh parser reads it, behind what has been recorded; and no alarm changes anything
that goes off where a `>` is owed at the head of a round of a block. -/
theorem program_residue {tokens : List Token} {o : ParseOptions} (h : SettlesTypes o.maxDepth tokens) :
    (∀ s, Parser.HeadOf (Parser.programRound o) { rest := tokens } s →
      s.owed = 0 ∧ ((Parser.program o).run s).1 = ((Parser.program o).run { rest := s.rest }).1 ∧
        ((Parser.program o).run s).2.errors =
          s.errors ++ ((Parser.program o).run { rest := s.rest }).2.errors) ∧
      ∀ alarm, (Parser.guardedProgram alarm o).run { rest := tokens } = (Parser.program o).run { rest := tokens } := by
  refine ⟨fun s hs => ?_, fun alarm => ?_⟩
  · have ho := (Parser.owed_of_headOf h hs).1
    exact ⟨ho, Parser.program_fresh ho⟩
  · have hcollect := Tie.Runs.collect (Tie.round_guarded h alarm) (Parser.programRound_shrinks o)
    have := hcollect.ends { rest := tokens } { rest := tokens } ⟨rfl, rfl, 0, Nat.zero_le _, rfl, rfl⟩ trivial
    change (Tie.settled tokens).Ends True ((Parser.program o).run _) ((Parser.guardedProgram alarm o).run _) at this
    generalize (Parser.program o).run _ = x, (Parser.guardedProgram alarm o).run _ = y at this ⊢
    cases this with
    | same hst => rw [hst.1]
    | gone _ hgone => exact hgone.elim

/-- A function with a pair that is closed too early, within the type arguments of its parameter, and a function behind
it. -/
def brokenPairTokens : List Token := (lex "fn f(A<(B<C>> D) x);\nfn g(A<B> y);").tokens

/-- Whether a round has yielded no item, and another one follows. -/
def Parser.Round.isNone {α : Type} : Round α → Bool
  | .none => true
  | _ => false

/-- The broken pair leaves a `>` owed, and the function behind it is lost, which a fresh parser reads. -/
theorem owed_behind_failure :
    ∃ s, Parser.HeadOf (Parser.programRound {}) { rest := brokenPairTokens } s ∧ s.owed = 1 ∧
      (parsePartial brokenPairTokens {}).1.declarations.length = 0 ∧
      (parsePartial s.rest {}).1.declarations.length = 1 := by
  have hround : ((Parser.programRound {}).run { rest := brokenPairTokens }).1.toOption.any Parser.Round.isNone = true ∧
      ((Parser.programRound {}).run { rest := brokenPairTokens }).2.owed = 1 ∧
      (parsePartial ((Parser.programRound {}).run { rest := brokenPairTokens }).2.rest {}).1.declarations.length =
        1 := by
    decide +kernel
  have hlost : (parsePartial brokenPairTokens {}).1.declarations.length = 0 := by decide +kernel
  rcases hrun : (Parser.programRound {}).run { rest := brokenPairTokens } with ⟨e | r, s⟩
  · simp [hrun, Except.toOption] at hround
  · rw [hrun] at hround
    obtain ⟨hnone, howed, hread⟩ := hround
    cases r with
    | none => exact ⟨s, .none .first hrun, howed, hlost, hread⟩
    | stop | last | more => simp [Except.toOption, Parser.Round.isNone] at hnone

end ElleFrontEnd
