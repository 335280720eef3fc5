import ElleFrontEnd.Text.Span

/-!
# Looking up lines and columns

A line index holds the byte offset at which each line of a text begins and answers which line and column an offset
belongs to.  An offset past the end counts as the end.  An offset inside a character has as its column the number of
bytes since the start of the line, plus one.
-/

namespace ElleFrontEnd

/-- The number of characters in the first `n` bytes of a text, if these bytes end between two characters. -/
def charCount? : List Char → Nat → Option Nat
  | _, 0 => some 0
  | [], _ + 1 => none
  | c :: cs, n => if c.utf8Size ≤ n then (charCount? cs (n - c.utf8Size)).map (· + 1) else none

/-- The text behind its first `n` bytes, if these bytes end between two characters. -/
def dropBytes? : List Char → Nat → Option (List Char)
  | cs, 0 => some cs
  | [], _ + 1 => none
  | c :: cs, n => if c.utf8Size ≤ n then dropBytes? cs (n - c.utf8Size) else none

/-- The offsets behind the line feeds of a text that begins at `offset`. -/
def lineStartsFrom (offset : Nat) : List Char → List Nat
  | [] => []
  | c :: cs =>
    let next := offset + c.utf8Size
    if c = '\n' then next :: lineStartsFrom next cs else lineStartsFrom next cs

/-- The offsets at which the lines of a text begin, and its length in bytes. -/
structure LineIndex where
  starts : List Nat
  size : Nat

namespace LineIndex

/-- The line index of a text. -/
def ofText (text : List Char) : LineIndex := ⟨0 :: lineStartsFrom 0 text, byteLength text⟩

/-- The number of lines; a text that ends in a line feed has an empty last line. -/
def lineCount (index : LineIndex) : Nat := index.starts.length

/-- The position of a byte offset in the text that the index was made of. -/
def position (index : LineIndex) (text : List Char) (offset : Nat) : Position :=
  let offset := min offset index.size
  let started := index.starts.takeWhile (· ≤ offset)
  let lineStart := started.getLastD 0
  let within := (dropBytes? text lineStart).bind (charCount? · (offset - lineStart))
  ⟨started.length, within.getD (offset - lineStart) + 1⟩

end LineIndex

end ElleFrontEnd
