/-!
# Punctuation

The tokens that are neither words nor operators: delimiters, separators, path marks and the marks `@`, `#` and `$`.
-/

namespace ElleFrontEnd

/-- What a punctuation token is for. -/
inductive PunctuationCategory
  | delimiter | separator | access | marker
deriving DecidableEq

/-- The name of a punctuation category. -/
def PunctuationCategory.label : PunctuationCategory → String
  | .delimiter => "Delimiter"
  | .separator => "Separator"
  | .access => "Access"
  | .marker => "Marker"

/-- A punctuation token. -/
inductive Punctuation
  | comma | semicolon | colon
  | dot | colonColon
  | arrow | question | ellipsis | atSign | hash | dollar
  | lParen | rParen | lBracket | rBracket | lBrace | rBrace
deriving DecidableEq

namespace Punctuation

/-- The punctuation table. -/
def all : List Punctuation :=
  [.comma, .semicolon, .colon, .dot, .colonColon, .arrow, .question, .ellipsis, .atSign, .hash, .dollar, .lParen,
   .rParen, .lBracket, .rBracket, .lBrace, .rBrace]

/-- How the token is written. -/
def spelling : Punctuation → String
  | .comma => ","
  | .semicolon => ";"
  | .colon => ":"
  | .dot => "."
  | .colonColon => "::"
  | .arrow => "->"
  | .question => "?"
  | .ellipsis => "..."
  | .atSign => "@"
  | .hash => "#"
  | .dollar => "$"
  | .lParen => "("
  | .rParen => ")"
  | .lBracket => "["
  | .rBracket => "]"
  | .lBrace => "\x7b"
  | .rBrace => "\x7d"

/-- The name of the token in token dumps. -/
def label : Punctuation → String
  | .comma => "Comma"
  | .semicolon => "Semicolon"
  | .colon => "Colon"
  | .dot => "Dot"
  | .colonColon => "ColonColon"
  | .arrow => "Arrow"
  | .question => "Question"
  | .ellipsis => "Ellipsis"
  | .atSign => "At"
  | .hash => "Hash"
  | .dollar => "Dollar"
  | .lParen => "LParen"
  | .rParen => "RParen"
  | .lBracket => "LBracket"
  | .rBracket => "RBracket"
  | .lBrace => "LBrace"
  | .rBrace => "RBrace"

/-- The group a token belongs to. -/
def category : Punctuation → PunctuationCategory
  | .comma | .semicolon | .colon => .separator
  | .dot | .colonColon => .access
  | .arrow | .question | .ellipsis | .atSign | .hash | .dollar => .marker
  | .lParen | .rParen | .lBracket | .rBracket | .lBrace | .rBrace => .delimiter

/-- The token with the given spelling. -/
def ofSpelling? (text : String) : Option Punctuation := all.find? (·.spelling == text)

/-- The closer of an opening delimiter. -/
def closing? : Punctuation → Option Punctuation
  | .lParen => some .rParen
  | .lBracket => some .rBracket
  | .lBrace => some .rBrace
  | _ => none

/-- The opener that a closing delimiter answers to; a brace where there is none. -/
def opening (close : Punctuation) : Punctuation :=
  (all.find? (·.closing? == some close)).getD .lBrace

/-- Whether the token closes a delimited group. -/
def isCloser : Punctuation → Bool
  | .rParen | .rBracket | .rBrace => true
  | _ => false

/-- Whether the token opens a delimited group. -/
def isOpener (p : Punctuation) : Bool := p.closing?.isSome

end Punctuation

end ElleFrontEnd
