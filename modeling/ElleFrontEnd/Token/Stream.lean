import ElleFrontEnd.Token.Lexeme

/-!
# Token streams

Lexing a source cuts it into lexemes and gives each its place.  The result holds the tokens, ended by one `eof`
token, the stretches that are comments, and a diagnostic for every malformed place.  Lexing never stops at a
malformed place; `tokenize` refuses a source that has any.
-/

namespace ElleFrontEnd

/-- What lexing made of a source. -/
structure Lexed where
  tokens : List Token
  comments : List Span
  errors : List Diagnostic
deriving DecidableEq

/-- The stretch of a source from character `start` up to character `stop` of a text that begins at `place`. -/
def spanWithin (place : Place) (text : List Char) (start stop : Nat) : Span :=
  ⟨place.offset + byteLength (text.take start), place.offset + byteLength (text.take stop)⟩

namespace Cut

/-- The stretch that a lexeme at `place` covers. -/
def span (place : Place) (cut : Cut) : Span := ⟨place.offset, (place.after cut.taken).offset⟩

/-- The token of a lexeme at `place`. -/
def tokenAt (place : Place) (cut : Cut) : List Token :=
  cut.lexeme.token.toList.map fun kind => ⟨kind, cut.span place, place.position⟩

/-- The comment that a lexeme at `place` is. -/
def commentAt (place : Place) (cut : Cut) : List Span :=
  if cut.lexeme.isComment then [cut.span place] else []

/-- The diagnostics for a lexeme at `place`. -/
def errorsAt (place : Place) (cut : Cut) : List Diagnostic :=
  cut.lexeme.faults.map fun f => { cause := f.cause, span := spanWithin place cut.taken f.start f.stop }

end Cut

/-- Lexemes put in their places, the first of them at `place`. -/
def placed (place : Place) : List Cut → Lexed
  | [] => { tokens := [⟨.eof, ⟨place.offset, place.offset⟩, place.position⟩], comments := [], errors := [] }
  | cut :: cuts =>
    let later := placed (place.after cut.taken) cuts
    { tokens := cut.tokenAt place ++ later.tokens
      comments := cut.commentAt place ++ later.comments
      errors := cut.errorsAt place ++ later.errors }

/-- The tokens, comments and lexical diagnostics of a source. -/
def lex (source : String) : Lexed := placed .start (lexemes source.toList)

/-- The tokens of a source without malformed places, or the diagnostics of another. -/
def tokenize (source : String) : Except (List Diagnostic) (List Token) :=
  let lexed := lex source
  if lexed.errors.isEmpty then .ok lexed.tokens else .error lexed.errors

/-- Tokens as source text, with one space between two of them. -/
def renderTokens (tokens : List Token) : String :=
  " ".intercalate ((tokens.filter fun t => !t.kind.isEof).map fun t => t.kind.display)

end ElleFrontEnd
