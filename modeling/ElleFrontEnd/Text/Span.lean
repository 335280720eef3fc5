/-!
# Places in a text

A source is a list of characters.  Offsets count the bytes of its UTF-8 form, lines end at line feeds only, and
columns count characters; lines and columns start at 1.
-/

namespace ElleFrontEnd

/-- The number of bytes that a text takes in UTF-8. -/
def byteLength : List Char → Nat
  | [] => 0
  | c :: cs => c.utf8Size + byteLength cs

theorem byteLength_append (a b : List Char) : byteLength (a ++ b) = byteLength a + byteLength b := by
  induction a with
  | nil => simp [byteLength]
  | cons c cs ih => simp [byteLength, ih]; omega

/-- A stretch of a source, from the byte offset `start` up to and without `stop`. -/
structure Span where
  start : Nat
  stop : Nat
deriving DecidableEq

namespace Span

/-- The empty stretch at the start of the source. -/
def zero : Span := ⟨0, 0⟩

/-- The smallest stretch that covers both. -/
def merge (a b : Span) : Span := ⟨min a.start b.start, max a.stop b.stop⟩

/-- The number of bytes covered; a stretch that ends before it starts covers none. -/
def length (s : Span) : Nat := s.stop - s.start

/-- Whether the stretch covers nothing. -/
def isEmpty (s : Span) : Bool := s.length = 0

end Span

/-- A line and a column, both counted from 1. -/
structure Position where
  line : Nat
  column : Nat
deriving DecidableEq

namespace Position

/-- The position of the first character. -/
def first : Position := ⟨1, 1⟩

/-- The position after a character: a line feed opens the next line. -/
def after (p : Position) (c : Char) : Position :=
  if c = '\n' then ⟨p.line + 1, 1⟩ else ⟨p.line, p.column + 1⟩

/-- The position as `line:column`. -/
def text (p : Position) : String := s!"{p.line}:{p.column}"

end Position

/-- A place in a source: its byte offset together with its line and column. -/
structure Place where
  offset : Nat
  position : Position
deriving DecidableEq

namespace Place

/-- The place before the first character. -/
def start : Place := ⟨0, .first⟩

/-- The place behind one more character. -/
def step (p : Place) (c : Char) : Place := ⟨p.offset + c.utf8Size, p.position.after c⟩

/-- The place behind a text that begins at `p`. -/
def after (p : Place) (text : List Char) : Place := text.foldl step p

theorem offset_after (p : Place) (text : List Char) : (p.after text).offset = p.offset + byteLength text := by
  induction text generalizing p with
  | nil => simp [after, byteLength]
  | cons c cs ih =>
    have h := ih (p.step c)
    simp only [after, List.foldl_cons, byteLength, step] at h ⊢
    omega

end Place

end ElleFrontEnd
