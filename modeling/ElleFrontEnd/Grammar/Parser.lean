import ElleFrontEnd.Token.Stream

/-!
# Parsers

A parser reads tokens one by one and ends with a result or a diagnostic; either way it also yields the state it has
reached, because a caller that recovers from the diagnostic goes on from there.  A state has the tokens that are left
to read and the token read last, the halves of `>>` tokens that are still to close an argument list, and the
diagnostics recorded so far.

The token stream need not end in an `eof` token: a reader past the last token sees one.  An `eof` token is never
passed.

Repetition is always one of two combinators, `grow` and `collect`.  A round of either that goes on takes a token, so
that a run has at most one round more than there are tokens; the tokens at its start are the budget it runs on.
-/

namespace ElleFrontEnd

/-- The state of a parser. -/
structure ParseState where
  /-- the token read last -/
  last : Option Token := none
  /-- the tokens to read -/
  rest : List Token
  /-- how many `>` are still owed by a `>>` read before -/
  owed : Nat := 0
  /-- the diagnostics recorded so far, oldest first -/
  errors : List Diagnostic := []

namespace ParseState

/-- The end of the token read last. -/
def lastStop (s : ParseState) : Nat := (s.last.map fun t => t.span.stop).getD 0

/-- The token that a reader past the last token sees. -/
def eof (s : ParseState) : Token :=
  { kind := .eof
    span := ⟨s.lastStop, s.lastStop⟩
    pos := (s.last.map Token.pos).getD .first }

/-- The next token. -/
def peek (s : ParseState) : Token := s.rest.headD s.eof

/-- The kind of the token that stands `n` places after the next one. -/
def kindAt (s : ParseState) (n : Nat) : TokenKind := ((s.rest[n]?).map Token.kind).getD .eof

/-- Whether no token is left but `eof`. -/
def atEnd (s : ParseState) : Bool := s.peek.kind.isEof

/-- The state behind the next token; the end is not passed. -/
def advance (s : ParseState) : ParseState :=
  match s.rest with
  | [] => s
  | t :: ts => if t.kind.isEof then s else { s with last := some t, rest := ts }

/-- The end of what has been read; before the first token, the start of it. -/
def readStop (s : ParseState) : Nat :=
  match s.last with
  | some t => t.span.stop
  | none => s.peek.span.start

/-- The stretch from `start` to the end of what has been read. -/
def spanFrom (s : ParseState) (start : Nat) : Span := ⟨start, s.readStop⟩

/-- Whether the next token touches the token read last. -/
def isAdjacent (s : ParseState) : Bool :=
  match s.last with
  | some t => t.isAdjacentTo s.peek
  | none => false

/-- Whether the next token touches the one after it. -/
def nextIsAdjacent (s : ParseState) : Bool :=
  match s.rest with
  | t :: u :: _ => t.isAdjacentTo u
  | _ => false

/-- The reading place of `saved`, with all that has been recorded since. -/
def rewindTo (s saved : ParseState) : ParseState :=
  { s with last := saved.last, rest := saved.rest, owed := saved.owed }

end ParseState

/-- A computation that reads tokens and may fail with a diagnostic. -/
def Parser (α : Type) : Type := ParseState → Except Diagnostic α × ParseState

namespace Parser

variable {α β : Type}

/-- The parser that reads nothing and yields `a`. -/
def done (a : α) : Parser α := fun s => (.ok a, s)

/-- `p`, then the parser that its result asks for. -/
def andThen (p : Parser α) (f : α → Parser β) : Parser β := fun s =>
  match p s with
  | (.ok a, s') => f a s'
  | (.error e, s') => (.error e, s')

instance : Monad Parser where
  pure := done
  bind := andThen

/-- The parser that fails with `e` where it stands. -/
def fail (e : Diagnostic) : Parser α := fun s => (.error e, s)

/-- A look at the state. -/
def look (f : ParseState → α) : Parser α := fun s => (.ok (f s), s)

/-- A change of the state. -/
def change (f : ParseState → ParseState) : Parser Unit := fun s => (.ok (), f s)

/-- `p`, which fails with a diagnostic changed by `f`. -/
def onError (f : Diagnostic → Diagnostic) (p : Parser α) : Parser α := fun s =>
  match p s with
  | (.ok a, s') => (.ok a, s')
  | (.error e, s') => (.error (f e), s')

/-- `p`, if it succeeds; where it fails, nothing is read. -/
def attempt (p : Parser α) : Parser (Option α) := fun s =>
  match p s with
  | (.ok a, s') => (.ok (some a), s')
  | (.error _, s') => (.ok none, s'.rewindTo s)

/-- `p`, with its failure as a result. -/
def outcome (p : Parser α) : Parser (Except Diagnostic α) := fun s =>
  match p s with
  | (.ok a, s') => (.ok (.ok a), s')
  | (.error e, s') => (.ok (.error e), s')

/-! ### Tokens -/

/-- The kind of the next token. -/
def nextKind : Parser TokenKind := look fun s => s.peek.kind

/-- The stretch of the next token. -/
def nextSpan : Parser Span := look fun s => s.peek.span

/-- The start of the next token. -/
def nextStart : Parser Nat := look fun s => s.peek.span.start

/-- The stretch from `start` to the end of what has been read. -/
def spanFrom (start : Nat) : Parser Span := look fun s => s.spanFrom start

/-- Passes the next token and yields its stretch. -/
def skip : Parser Span := fun s => (.ok s.peek.span, s.advance)

/-- Whether the next token is of a kind. -/
def isAt (kind : TokenKind) : Parser Bool := look fun s => s.peek.kind = kind

/-- Whether the token that stands `n` places after the next one is of a kind. -/
def isAhead (n : Nat) (kind : TokenKind) : Parser Bool := look fun s => s.kindAt n = kind

/-- Whether the next token touches the token read last. -/
def isAdjacent : Parser Bool := look ParseState.isAdjacent

/-- Whether the next token is an operator. -/
def atOperator (op : Operator) : Parser Bool := isAt (.operator op)

/-- Whether the next token is a punctuation mark. -/
def atMark (mark : Punctuation) : Parser Bool := isAt (.punctuation mark)

/-- Whether the next token is a keyword. -/
def atKeyword (word : Keyword) : Parser Bool := isAt (.keyword word)

/-- Whether the next token is an identifier. -/
def atIdent : Parser Bool := look fun s => s.peek.kind.ident?.isSome

/-- Whether no token is left. -/
def atEnd : Parser Bool := look ParseState.atEnd

/-- Passes the next token if it is of a kind. -/
def accept (kind : TokenKind) : Parser Bool := fun s =>
  if s.peek.kind = kind then (.ok true, s.advance) else (.ok false, s)

/-- Passes the next token if it is the operator. -/
def acceptOperator (op : Operator) : Parser Bool := accept (.operator op)

/-- Passes the next token if it is the mark. -/
def acceptMark (mark : Punctuation) : Parser Bool := accept (.punctuation mark)

/-- Passes the next token if it is the keyword. -/
def acceptKeyword (word : Keyword) : Parser Bool := accept (.keyword word)

/-- Fails at the next token, because something else was wanted there. -/
def unexpected (wanted : Expected) : Parser α := fun s =>
  (.error { cause := .unexpected wanted s.peek.kind, span := s.peek.span }, s)

/-- Passes the next token, which must be of the kind that is wanted, and yields its stretch. -/
def expect (kind : TokenKind) (wanted : Expected) : Parser Span := fun s =>
  if s.peek.kind = kind then (.ok s.peek.span, s.advance) else unexpected wanted s

/-- Passes the operator. -/
def expectOperator (op : Operator) : Parser Span := expect (.operator op) (.operator op)

/-- Passes the mark. -/
def expectMark (mark : Punctuation) : Parser Span := expect (.punctuation mark) (.punctuation mark)

/-- Passes the keyword. -/
def expectKeyword (word : Keyword) : Parser Span := expect (.keyword word) (.keyword word)

/-- Passes an identifier and yields its name. -/
def identifier : Parser String := fun s =>
  match s.peek.kind with
  | .ident name => (.ok name, s.advance)
  | _ => unexpected .identifier s

/-- Passes the semicolon that ends an item. -/
def semicolon : Parser Unit := fun s =>
  if s.peek.kind = .punctuation .semicolon then (.ok (), s.advance)
  else
    (.error
      { cause := .unexpected (.punctuation .semicolon) s.peek.kind
        span := s.peek.span
        notes := [.previousEndsAt s.readStop]
        hints := [.addSemicolon] }, s)

/-- Passes the closer of a group opened at `opened`.  The end of the source, another closer, and a semicolon within
parentheses or brackets mean that the group is never closed. -/
def closing (close : Punctuation) (opened : Span) : Parser Unit := fun s =>
  let found := s.peek.kind
  if found = .punctuation close then (.ok (), s.advance)
  else
    let unclosed : Bool := match found with
      | .punctuation .semicolon => close ≠ .rBrace
      | .punctuation mark => mark.isCloser
      | kind => kind.isEof
    if unclosed then
      (.error
        { cause := .unclosed close.opening found
          span := s.peek.span
          notes := [.openedAt opened.start]
          hints := [.insert close] }, s)
    else unexpected (.punctuation close) s

/-! ### Repetition -/

/-- Applies `step` until it declines, at most once for each element of `budget`. -/
def growFor (step : α → Parser (Option α)) : (budget : List Token) → α → Parser α
  | [], a => pure a
  | _ :: budget, a => do
    match ← step a with
    | none => pure a
    | some a' => growFor step budget a'

/-- Applies `step` until it declines. -/
def grow (step : α → Parser (Option α)) (a : α) : Parser α := fun s => growFor step (s.peek :: s.rest) a s

/-- What a round of `collect` ends with. -/
inductive Round (α : Type)
  /-- there are no more items -/
  | stop
  /-- the last item -/
  | last (item : α)
  /-- an item that another round follows -/
  | more (item : α)
  /-- no item, but another round -/
  | none

/-- The items of at most one round for each element of `budget`. -/
def collectFor (round : Parser (Round α)) : (budget : List Token) → Parser (List α)
  | [] => pure []
  | _ :: budget => do
    match ← round with
    | .stop => pure []
    | .last a => pure [a]
    | .more a => do
      let items ← collectFor round budget
      pure (a :: items)
    | .none => collectFor round budget

/-- The items of all rounds. -/
def collect (round : Parser (Round α)) : Parser (List α) := fun s => collectFor round (s.peek :: s.rest) s

/-- Items between commas, up to the closer of their group; a comma may stand before the closer. -/
def commaList (close : Punctuation) (item : Parser α) : Parser (List α) :=
  collect do
    if ← atMark close then pure .stop
    else if ← atEnd then pure .stop
    else do
      let a ← item
      if ← acceptMark .comma then pure (.more a) else pure (.last a)

/-- `item`, and more of it after each `separator`. -/
def separatedBy (separator : TokenKind) (item : Parser α) : Parser (List α) :=
  collect do
    let a ← item
    if ← accept separator then pure (.more a) else pure (.last a)

end Parser

end ElleFrontEnd
