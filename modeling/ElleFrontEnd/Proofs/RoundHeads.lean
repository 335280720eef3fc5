import ElleFrontEnd.Proofs.Restored

/-!
# The registers at the heads of rounds

A session begins each round of a program with the registers it started from, whatever has failed before, and each round
of a block out of all argument lists.  The heads of the rounds of blocks lie deep within a run, so what holds there is
said by assertions: methods that fail where a check does not hold (`Method.checked`), with which a run ends as it does
without them.

The owed `>` is no register, and a failure may leave one behind; where types settle, none is owed at these heads either,
and what comes next is read as in a fresh session (`Session.rounds_begin_clear`).
-/

namespace ElleFrontEnd

open ElleFrontEnd.Parser (Round)

variable {α : Type}

namespace Method

/-- The sessions in which the rounds of a repetition begin. -/
inductive HeadOf (round : Method (Round α)) (s : Session) : Session → Prop
  | first : HeadOf round s s
  | more {h h' : Session} {a : α} : HeadOf round s h → round h = (.ok (.more a), h') → HeadOf round s h'
  | none {h h' : Session} : HeadOf round s h → round h = (.ok .none, h') → HeadOf round s h'

/-- The method, if the check holds where it begins; where it does not, the failure with `e`. -/
def checked (check : Session → Prop) [DecidablePred check] (e : Diagnostic) (m : Method α) : Method α :=
  fun s => if check s then m s else (.error e, s)

end Method

namespace Session

/-- A session that has read nothing of its tokens. -/
def start (tokens : List Token) (o : ParseOptions) : Session := ⟨{ rest := tokens }, { options := o }⟩

/-- No argument list is open. -/
def OutOfLists (s : Session) : Prop := s.registers.angles = 0

/-- No argument list is open, and no `>` is owed. -/
def AtRest (s : Session) : Prop := s.OutOfLists ∧ s.reading.owed = 0

instance : DecidablePred OutOfLists := fun s => inferInstanceAs (Decidable (s.registers.angles = 0))

instance : DecidablePred AtRest := fun s => inferInstanceAs (Decidable (s.OutOfLists ∧ s.reading.owed = 0))

section
variable (check : Session → Prop) [DecidablePred check] (e : Diagnostic)

/-- A block with an assertion at the head of each of its rounds. -/
def checkedBlock (k : Methods) : Method Block := Method.withHeader false do
  let opened ← Parser.expectMark .lBrace
  let statements ← Method.collect (Method.checked check e (blockRound k opened))
  pure (.mk (← Parser.spanFrom opened.start) statements)

/-- The declarations of a program, with an assertion at the head of each round of all blocks. -/
def checkedProgram : Method (List Declaration) := fun s =>
  program (Methods.withBlocks (checkedBlock check e) (s.registers.options.maxDepth + 1)) s

end

end Session

open Session (OutOfLists AtRest)

/-! ### Assertions -/

namespace Mirrors

variable {silent fits : Prop} {r : Registers} {m : Method α} {p : Parser α} {check : Session → Prop}
  [DecidablePred check] {e : Diagnostic}

/-- An assertion that depends on the reading place is an assertion of the parser. -/
theorem checked (h : Mirrors silent fits r m p) (watch : ParseState → Prop) [DecidablePred watch]
    (hc : fits → ∀ s, check ⟨s, r⟩ ↔ watch s) :
    Mirrors silent fits r (Method.checked check e m) (fun s => if watch s then p s else Parser.fail e s) := by
  refine ⟨fun s => ?_, fun hfits s => ?_⟩
  · unfold Method.checked
    split
    · exact h.keeps s
    · exact .refl _
  · have hsame := h.same hfits s
    unfold Method.checked Method.reads at *
    dsimp only at hsame ⊢
    by_cases hs : check ⟨s, r⟩
    · simp only [if_pos hs, if_pos ((hc hfits s).1 hs), hsame]
    · simp only [if_neg hs, if_neg fun hw => hs ((hc hfits s).2 hw)]
      rfl

/-- An assertion that holds may be left out. -/
theorem asserted (h : Mirrors silent fits r m p) (hc : fits → ∀ s, check ⟨s, r⟩) :
    Mirrors silent fits r (Method.checked check e m) p :=
  (h.checked (fun _ => True) fun hfits s => iff_true_intro (hc hfits s)).of id fun _ => by
    funext s
    exact if_pos trivial

variable {k : Methods} {g : Inner} {header : Bool}

theorem outOfListsBlock (hk : Mirroring fits r k g) (e : Diagnostic) :
    Mirrors False fits { r with header } (Session.checkedBlock OutOfLists e k) (Parser.blockBody r.options g) := by
  refine withHeader (after (Trait.expect _ _) fun _ => (collect ?_).spanned)
  exact (blockRound hk (fun _ => (rfl : false = false)) _).asserted fun hfits _ => hk.angles hfits

theorem atRestBlock (hk : Mirroring fits r k g) (e : Diagnostic) :
    Mirrors False fits { r with header } (Session.checkedBlock AtRest e k)
      (Parser.guardedBlock (Parser.fail e) r.options g) := by
  refine withHeader (after (Trait.expect _ _) fun _ => (collect ?_).spanned)
  exact (blockRound hk (fun _ => (rfl : false = false)) _).checked (·.owed = 0) fun hfits _ =>
    and_iff_right (hk.angles hfits)

end Mirrors

/-! ### Heads of rounds -/

namespace Session

variable {tokens : List Token} {o : ParseOptions}

/-- At the start, nothing is borrowed, and there is fuel for all levels. -/
theorem start_fits (tokens : List Token) (o : ParseOptions) :
    (start tokens o).registers.room < o.maxDepth + 1 ∧ (start tokens o).registers.angles = 0 :=
  ⟨Nat.lt_succ_self _, rfl⟩

theorem methods_mirror (o : ParseOptions) :
    Mirroring True { options := o } (Methods.ofFuel (o.maxDepth + 1)) (Inner.ofRoom o o.maxDepth) :=
  (Mirroring.ofFuel (o.maxDepth + 1) { options := o }).mono fun _ => start_fits [] o

/-- Each round of a program begins where one of its parser begins, with the registers of the start. -/
theorem headOf_start {s : Session} (h : Method.HeadOf (programRound (start tokens o).methods) (start tokens o) s) :
    s.registers = { options := o } ∧ Parser.HeadOf (Parser.programRound o) { rest := tokens } s.reading := by
  have hround : Mirrors False True { options := o } (programRound (start tokens o).methods) (Parser.programRound o) :=
    Mirrors.programRound (methods_mirror o) fun _ => (rfl : false = false)
  have hread {s s' : Session} {r : Round Declaration} (hs : s.registers = { options := o })
      (hr : programRound (start tokens o).methods s = (.ok r, s')) :
      s'.registers = { options := o } ∧ (Parser.programRound o).run s.reading = (.ok r, s'.reading) := by
    obtain ⟨s, _⟩ := s
    cases hs
    rw [hround.same trivial s] at hr
    obtain ⟨hresult, hstate⟩ := Prod.mk.inj hr
    subst hstate
    exact ⟨rfl, Prod.ext hresult rfl⟩
  induction h with
  | first => exact ⟨rfl, .first⟩
  | more _ hr ih =>
    obtain ⟨hs', hr⟩ := hread ih.1 hr
    exact ⟨hs', .more ih.2 hr⟩
  | none _ hr ih =>
    obtain ⟨hs', hr⟩ := hread ih.1 hr
    exact ⟨hs', .none ih.2 hr⟩

theorem program_start (tokens : List Token) (o : ParseOptions) :
    Call.program.run (start tokens o) = Method.reads (Parser.program o) (start tokens o) :=
  (Call.program.mirrors { options := o }).same ⟨rfl, rfl, rfl⟩ { rest := tokens }

/-- Blocks begin their rounds out of all argument lists. -/
theorem checkedProgram_outOfLists (e : Diagnostic) (tokens : List Token) (o : ParseOptions) :
    checkedProgram OutOfLists e (start tokens o) = Call.program.run (start tokens o) := by
  have hk := (Mirroring.withBlocks _ Parser.blockBody
    (fun hk header => Mirrors.outOfListsBlock hk e) (o.maxDepth + 1) { options := o }).mono
      fun _ : True => start_fits tokens o
  have hprogram := Mirrors.program hk (fun _ => (rfl : false = false)) fun _ => (Inner.withBlocks_blockBody o _).symm
  exact (hprogram.same trivial { rest := tokens }).trans (program_start tokens o).symm

/-- Where types settle, no `>` is owed when a block begins a round. -/
theorem checkedProgram_atRest (h : SettlesTypes o.maxDepth tokens) (e : Diagnostic) :
    checkedProgram AtRest e (start tokens o) = Call.program.run (start tokens o) := by
  have hk := (Mirroring.withBlocks _ (Parser.guardedBlock (Parser.fail e))
    (fun hk header => Mirrors.atRestBlock hk e) (o.maxDepth + 1) { options := o }).mono
      fun _ : True => start_fits tokens o
  have hprogram : Mirrors False True { options := o }
      (program (Methods.withBlocks (checkedBlock AtRest e) (o.maxDepth + 1)))
      (Parser.guardedProgram (Parser.fail e) o) :=
    (Mirrors.programRound hk fun _ => (rfl : false = false)).collect
  refine (hprogram.same trivial { rest := tokens }).trans (Eq.trans ?_ (program_start tokens o).symm)
  have hguarded : Parser.guardedProgram (Parser.fail e) o { rest := tokens } = Parser.program o { rest := tokens } :=
    (program_residue h).2 (Parser.fail e)
  unfold Method.reads start
  rw [hguarded]

/-- A session begins each round of a program with nothing borrowed, and each round of a block out of all argument
lists.  Where moreover no type fails with a `>` owed, none is owed at these heads, and from the head of each round of
the program on, the rest is read as in a fresh session, behind what has been recorded. -/
theorem rounds_begin_clear (tokens : List Token) (o : ParseOptions) :
    (∀ s, Method.HeadOf (programRound (start tokens o).methods) (start tokens o) s →
      s.registers = (start tokens o).registers) ∧
    (∀ e, checkedProgram OutOfLists e (start tokens o) = Call.program.run (start tokens o)) ∧
    (SettlesTypes o.maxDepth tokens →
      (∀ s, Method.HeadOf (programRound (start tokens o).methods) (start tokens o) s →
        s.reading.owed = 0 ∧
          (Call.program.run s).1 = (Call.program.run (start s.reading.rest o)).1 ∧
          (Call.program.run s).2.reading.errors =
            s.reading.errors ++ (Call.program.run (start s.reading.rest o)).2.reading.errors) ∧
      ∀ e, checkedProgram AtRest e (start tokens o) = Call.program.run (start tokens o)) := by
  refine ⟨fun s hs => (headOf_start hs).1, fun e => checkedProgram_outOfLists e tokens o, fun h => ⟨fun s hs => ?_,
    checkedProgram_atRest h⟩⟩
  obtain ⟨hregisters, hhead⟩ := headOf_start hs
  obtain ⟨ho, hresult, herrors⟩ := (program_residue h).1 s.reading hhead
  obtain ⟨s, _⟩ := s
  cases hregisters
  rw [program_start, show Call.program.run ⟨s, { options := o }⟩ = Method.reads (Parser.program o) _ from
    (Call.program.mirrors { options := o }).same ⟨rfl, rfl, rfl⟩ s]
  exact ⟨ho, hresult, herrors⟩

/-- A function whose parameter type is not closed, and one behind it. -/
def openTypeTokens : List Token := (lex "fn f(A<B x); fn g(A<B> y);").tokens

/-- The unclosed type leaves nothing behind. -/
theorem rounds_begin_clear_openType :
    SettlesTypes 3 openTypeTokens ∧
      (∀ s, Method.HeadOf (programRound (start openTypeTokens { maxDepth := 3 }).methods)
        (start openTypeTokens { maxDepth := 3 }) s → s.registers = { options := { maxDepth := 3 } } ∧ s.AtRest) ∧
      ∀ e, checkedProgram AtRest e (start openTypeTokens { maxDepth := 3 }) =
        Call.program.run (start openTypeTokens { maxDepth := 3 }) := by
  have hsettles : SettlesTypes 3 openTypeTokens := by decide +kernel
  obtain ⟨hregisters, -, hclear⟩ := rounds_begin_clear openTypeTokens { maxDepth := 3 }
  obtain ⟨hheads, hblocks⟩ := hclear hsettles
  refine ⟨hsettles, fun s hs => ⟨hregisters s hs, ?_, (hheads s hs).1⟩, hblocks⟩
  exact congrArg Registers.angles (hregisters s hs)

end Session

end ElleFrontEnd
