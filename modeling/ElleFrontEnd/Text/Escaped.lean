import ElleFrontEnd.Text.Printable

/-!
# Escaped text

How a character or a text is shown in messages and dumps.  Five characters have an escape of one letter, the quotes
that would end the text are marked by a backslash, and a character without a printed form is given by its code point
in braces.
-/

namespace ElleFrontEnd

/-- A number in lower-case hexadecimal digits. -/
def hexText (n : Nat) : String := String.ofList (Nat.toDigits 16 n)

/-- A character as it stands in a text that is enclosed in one of `quotes`. -/
def escapedChar (quotes : List Char) (c : Char) : String :=
  match c with
  | '\x00' => "\\0"
  | '\t' => "\\t"
  | '\r' => "\\r"
  | '\n' => "\\n"
  | '\\' => "\\\\"
  | c =>
    if quotes.contains c then "\\" ++ c.toString
    else if isPrinted c then c.toString
    else "\\u\x7b" ++ hexText c.toNat ++ "\x7d"

/-- A text in double quotes. -/
def quotedText (text : String) : String :=
  "\"" ++ String.join (text.toList.map (escapedChar ['"'])) ++ "\""

/-- A character in single quotes. -/
def quotedChar (c : Char) : String := "'" ++ escapedChar ['\''] c ++ "'"

end ElleFrontEnd
