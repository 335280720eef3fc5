import ElleFrontEnd.Literal.Number

/-!
# The contents of quoted literals

A string or character literal holds pieces of plain text and escapes.  Escapes keep their digits as written; what
they stand for is computed on demand, and an escape whose number is no character stands for nothing.
-/

namespace ElleFrontEnd

/-- What follows a backslash. -/
inductive Escape
  | simple (c : Char)
  /-- one to three octal digits -/
  | octal (digits : String)
  /-- `x` and two digits -/
  | hex (digits : String)
  /-- `u` and four digits -/
  | unicode (digits : String)
deriving DecidableEq

/-- The character with a given code point. -/
def charOfCode? (n : Nat) : Option Char := if n.isValidChar then some (Char.ofNat n) else none

namespace Escape

/-- What a one-letter escape stands for; a character without a special meaning stands for itself. -/
def simpleValue : Char → Char
  | 'n' => '\n'
  | 't' => '\t'
  | 'r' => '\r'
  | '0' => '\x00'
  | 'a' => '\x07'
  | 'b' => '\x08'
  | 'f' => '\x0c'
  | 'v' => '\x0b'
  | 'e' => '\x1b'
  | c => c

/-- The character that an escape stands for. -/
def value? : Escape → Option Char
  | .simple c => some (simpleValue c)
  | .octal digits => (readNatBelow? UInt32.size 8 digits.toList).bind charOfCode?
  | .hex digits | .unicode digits => (readNatBelow? UInt32.size 16 digits.toList).bind charOfCode?

/-- The escape as written. -/
def display : Escape → String
  | .simple c => "\\" ++ c.toString
  | .octal digits => "\\" ++ digits
  | .hex digits => "\\x" ++ digits
  | .unicode digits => "\\u" ++ digits

end Escape

/-- A piece of a quoted literal. -/
inductive StrPart
  | text (text : String)
  | escape (escape : Escape)
deriving DecidableEq

namespace StrPart

/-- The piece as written. -/
def display : StrPart → String
  | .text t => t
  | .escape e => e.display

/-- The text that a piece stands for. -/
def value : StrPart → String
  | .text t => t
  | .escape e => (e.value?.map Char.toString).getD ""

end StrPart

/-- The text that a string literal stands for. -/
def stringValue (parts : List StrPart) : String := String.join (parts.map StrPart.value)

/-- The pieces of a literal as written. -/
def displayParts (parts : List StrPart) : String := String.join (parts.map StrPart.display)

end ElleFrontEnd
