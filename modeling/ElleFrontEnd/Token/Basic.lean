import ElleFrontEnd.Literal.Quoted
import ElleFrontEnd.Text.Span
import ElleFrontEnd.Vocabulary.Keyword
import ElleFrontEnd.Vocabulary.Operator
import ElleFrontEnd.Vocabulary.Punctuation

/-!
# Tokens

A token is a kind together with the stretch of the source it covers and the position of its first character.  The
kind of a literal keeps the literal as written, so that every kind can be shown as the text it was read from.
-/

namespace ElleFrontEnd

/-- What a token is. -/
inductive TokenKind
  | keyword (word : Keyword)
  | operator (op : Operator)
  | punctuation (mark : Punctuation)
  | ident (name : String)
  | number (literal : NumberLit)
  | str (parts : List StrPart)
  | char (part : StrPart)
  /-- a name in backticks -/
  | rawName (raw : String)
  /-- the end of the source -/
  | eof
deriving DecidableEq

namespace TokenKind

/-- The token as written. -/
def display : TokenKind → String
  | .keyword k => k.spelling
  | .operator o => o.spelling
  | .punctuation p => p.spelling
  | .ident name => name
  | .number n => n.text
  | .str parts => "\"" ++ displayParts parts ++ "\""
  | .char part => "'" ++ part.display ++ "'"
  | .rawName raw => "`" ++ raw ++ "`"
  | .eof => ""

/-- The token as a message about it calls it. -/
def describe (kind : TokenKind) : String :=
  match kind with
  | .eof => "end of file"
  | .ident name => s!"identifier `{name}`"
  | .number _ => s!"number `{kind.display}`"
  | .str _ => "string literal"
  | .char _ => "character literal"
  | .rawName _ => s!"exact literal `{kind.display}`"
  | .keyword _ => s!"keyword `{kind.display}`"
  | .operator _ | .punctuation _ => s!"`{kind.display}`"

/-- The keyword of a keyword token. -/
def keyword? : TokenKind → Option Keyword
  | .keyword k => some k
  | _ => none

/-- The operator of an operator token. -/
def operator? : TokenKind → Option Operator
  | .operator o => some o
  | _ => none

/-- The mark of a punctuation token. -/
def punctuation? : TokenKind → Option Punctuation
  | .punctuation p => some p
  | _ => none

/-- The name of an identifier token. -/
def ident? : TokenKind → Option String
  | .ident name => some name
  | _ => none

/-- The visibility that a keyword token asks for. -/
def visibility? : TokenKind → Option Visibility
  | .keyword k => k.visibility?
  | _ => none

/-- Whether the token ends the source. -/
def isEof : TokenKind → Bool
  | .eof => true
  | _ => false

end TokenKind

/-- A token in its place. -/
structure Token where
  kind : TokenKind
  span : Span
  pos : Position
deriving DecidableEq

/-- Whether `next` begins where `t` ends, with nothing between them. -/
def Token.isAdjacentTo (t next : Token) : Bool := t.span.stop = next.span.start

end ElleFrontEnd
