import ElleFrontEnd.Dump.Basic
import ElleFrontEnd.Text.Escaped
import ElleFrontEnd.Token.Basic

/-!
# Dumps of tokens
-/

namespace ElleFrontEnd

/-- A text in quotes. -/
def Dump.text (s : String) : Dump := .atom (quotedText s)

/-- Texts in quotes. -/
def Dump.texts (ss : List String) : Dump := .list (ss.map .text)

/-- The dump of a span. -/
def Span.dump (s : Span) : Dump := .record "Span" [("start", .nat s.start), ("end", .nat s.stop)]

/-- The dump of a number literal. -/
def NumberLit.dump (n : NumberLit) : Dump :=
  .record "NumberLit" [("kind", .atom n.kind.label), ("text", .text n.text)]

/-- The dump of an escape. -/
def Escape.dump : Escape → Dump
  | .simple c => .tuple "Simple" [.atom (quotedChar c)]
  | .octal digits => .tuple "Octal" [.text digits]
  | .hex digits => .tuple "Hex" [.text digits]
  | .unicode digits => .tuple "Unicode" [.text digits]

/-- The dump of a piece of a quoted literal. -/
def StrPart.dump : StrPart → Dump
  | .text t => .tuple "Text" [.text t]
  | .escape e => .tuple "Escape" [e.dump]

/-- The dump of a token. -/
def TokenKind.dump : TokenKind → Dump
  | .keyword k => .tuple "Keyword" [.atom k.label]
  | .operator o => .tuple "Operator" [.atom o.label]
  | .punctuation p => .tuple "Punctuation" [.atom p.label]
  | .ident name => .tuple "Ident" [.text name]
  | .number n => .tuple "Number" [n.dump]
  | .str parts => .tuple "Str" [.list (parts.map StrPart.dump)]
  | .char part => .tuple "Char" [part.dump]
  | .rawName raw => .tuple "Exact" [.text raw]
  | .eof => .atom "Eof"

end ElleFrontEnd
