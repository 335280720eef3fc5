import ElleFrontEnd.Token.Basic

/-!
# Fragments

A printed source is a sequence of fragments: tokens, spaces, and line breaks with the depth of the line they open.
Printing decides on fragments, and only `render` turns them into text, so that the tokens of a printed source can be
read off without lexing it.
-/

namespace ElleFrontEnd

/-- How a printed source is laid out. -/
structure LayoutConfig where
  /-- spaces per level -/
  indent : Nat := 4
  /-- blank lines between declarations -/
  blankLines : Nat := 1
deriving DecidableEq

/-- A piece of a printed source. -/
inductive Fragment
  | token (kind : TokenKind)
  | space
  /-- the end of a line, and the depth of the next -/
  | line (depth : Nat)
deriving DecidableEq

namespace Fragment

/-- A keyword. -/
abbrev word (k : Keyword) : Fragment := .token (.keyword k)

/-- An operator. -/
abbrev op (o : Operator) : Fragment := .token (.operator o)

/-- A punctuation mark. -/
abbrev mark (p : Punctuation) : Fragment := .token (.punctuation p)

/-- A name. -/
abbrev ofName (text : String) : Fragment := .token (.ident text)

/-- The text of a fragment. -/
def text (indent : Nat) : Fragment → String
  | .token kind => kind.display
  | .space => " "
  | .line depth => "\n" ++ String.ofList (List.replicate (depth * indent) ' ')

/-- The token of a fragment. -/
def token? : Fragment → Option TokenKind
  | .token kind => some kind
  | _ => none

/-- The text of a sequence of fragments. -/
def render (indent : Nat) (fragments : List Fragment) : String := String.join (fragments.map (text indent))

/-- The tokens of a sequence of fragments. -/
def tokens (fragments : List Fragment) : List TokenKind := fragments.filterMap token?

/-- A comma and a space. -/
def commaSpace : List Fragment := [mark .comma, space]

/-- Items with a separator between two of them. -/
def separated (separator : List Fragment) (items : List (List Fragment)) : List Fragment :=
  (items.intersperse separator).flatten

/-- Items with commas between them. -/
def commas (items : List (List Fragment)) : List Fragment := separated commaSpace items

/-- Fragments in parentheses. -/
def parens (inner : List Fragment) : List Fragment := mark .lParen :: inner ++ [mark .rParen]

/-- Fragments in angle brackets. -/
def angles (inner : List Fragment) : List Fragment := op .lt :: inner ++ [op .gt]

end Fragment

end ElleFrontEnd
