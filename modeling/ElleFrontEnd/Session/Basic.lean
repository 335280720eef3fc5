import ElleFrontEnd.Grammar.Stmt

/-!
# Parsing sessions

The parsers of `Grammar` are handed what they have to know of the constructs around them: how many more levels may be
opened, how many argument lists are open, whether the header of a statement is read.  A session keeps these in registers
instead, which a method changes before it reads the inside of a construct, and puts back behind it, whether that has
been read or not.

A method that gives up what it has tried goes back to the place where it began, and to the `>` owed there.  The
registers and the diagnostics are not part of that place.
-/

namespace ElleFrontEnd

/-- What a session has to know beside its reading place. -/
structure Registers where
  options : ParseOptions
  /-- how many levels of nesting are open -/
  depth : Nat := 0
  /-- how many argument lists are open -/
  angles : Nat := 0
  /-- whether the header of a statement is read -/
  header : Bool := false

/-- How many more levels may be opened. -/
def Registers.room (r : Registers) : Nat := r.options.maxDepth - r.depth

/-- The state of a parser that keeps registers. -/
structure Session where
  reading : ParseState
  registers : Registers

/-- A computation that reads tokens in a session, and may fail with a diagnostic. -/
def Method (α : Type) : Type := Session → Except Diagnostic α × Session

namespace Method

variable {α β : Type}

/-- The method that reads nothing and yields `a`. -/
def done (a : α) : Method α := fun s => (.ok a, s)

/-- `m`, then the method that its result asks for. -/
def andThen (m : Method α) (f : α → Method β) : Method β := fun s =>
  match m s with
  | (.ok a, s') => f a s'
  | (.error e, s') => (.error e, s')

instance : Monad Method where
  pure := done
  bind := andThen

/-- A parser that needs no registers. -/
def reads (p : Parser α) : Method α := fun s => ((p s.reading).1, { s with reading := (p s.reading).2 })

instance : MonadLift Parser Method := ⟨reads⟩

/-- A look at the registers. -/
def register (f : Registers → α) : Method α := fun s => (.ok (f s.registers), s)

/-- `m` with the registers set by `enter` before it, and by `leave` behind it, from what they were and what they are
then. -/
def within (enter : Registers → Registers) (leave : Registers → Registers → Registers) (m : Method α) : Method α :=
  fun s =>
    let (result, s') := m { s with registers := enter s.registers }
    (result, { s' with registers := leave s.registers s'.registers })

/-- `m` one level further in. -/
def deeper (m : Method α) : Method α :=
  within (fun r => { r with depth := r.depth + 1 }) (fun _ r => { r with depth := r.depth - 1 }) m

/-- `m` one level further in, if the limit allows for it. -/
def nested (m : Method α) : Method α := do
  let options ← register Registers.options
  if options.maxDepth ≤ (← register Registers.depth) then Parser.tooDeep options.maxDepth else deeper m

/-- `m` in the header of a statement, or out of it. -/
def withHeader (header : Bool) (m : Method α) : Method α :=
  within (fun r => { r with header }) (fun before r => { r with header := before.header }) m

/-- `m` inside one more argument list. -/
def underAngle (m : Method α) : Method α :=
  within (fun r => { r with angles := r.angles + 1 }) (fun _ r => { r with angles := r.angles - 1 }) m

/-- `m`, which fails with a diagnostic changed by `f`. -/
def onError (f : Diagnostic → Diagnostic) (m : Method α) : Method α := fun s =>
  match m s with
  | (.ok a, s') => (.ok a, s')
  | (.error e, s') => (.error (f e), s')

/-- `m`, if it succeeds; where it fails, reading goes back to where it began. -/
def attempt (m : Method α) : Method (Option α) := fun s =>
  match m s with
  | (.ok a, s') => (.ok (some a), s')
  | (.error _, s') => (.ok none, { s' with reading := s'.reading.rewindTo s.reading })

/-- `m`, with its failure as a result. -/
def outcome (m : Method α) : Method (Except Diagnostic α) := fun s =>
  match m s with
  | (.ok a, s') => (.ok (.ok a), s')
  | (.error e, s') => (.ok (.error e), s')

/-! ### Repetition -/

/-- Applies `step` until it declines, at most once for each element of `budget`. -/
def growFor (step : α → Method (Option α)) : (budget : List Token) → α → Method α
  | [], a => pure a
  | _ :: budget, a => do
    match ← step a with
    | none => pure a
    | some a' => growFor step budget a'

/-- Applies `step` until it declines. -/
def grow (step : α → Method (Option α)) (a : α) : Method α :=
  fun s => growFor step (s.reading.peek :: s.reading.rest) a s

/-- The items of at most one round for each element of `budget`. -/
def collectFor (round : Method (Parser.Round α)) : (budget : List Token) → Method (List α)
  | [] => pure []
  | _ :: budget => do
    match ← round with
    | .stop => pure []
    | .last a => pure [a]
    | .more a => do
      let items ← collectFor round budget
      pure (a :: items)
    | .none => collectFor round budget

/-- The items of all rounds. -/
def collect (round : Method (Parser.Round α)) : Method (List α) :=
  fun s => collectFor round (s.reading.peek :: s.reading.rest) s

/-- Items between commas, up to the closer of their group; a comma may stand before the closer. -/
def commaList (close : Punctuation) (item : Method α) : Method (List α) :=
  collect do
    if ← Parser.atMark close then pure .stop
    else if ← Parser.atEnd then pure .stop
    else do
      let a ← item
      if ← Parser.acceptMark .comma then pure (.more a) else pure (.last a)

end Method

end ElleFrontEnd
