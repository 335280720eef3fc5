import ElleFrontEnd.Literal.Double
import ElleFrontEnd.Text.LineIndex

/-!
# Number literals

A number literal is kept as it is written, with its radix mark and its `_` separators.  Its integer value is exact or
absent: the value must fit into 64 bits.  Its floating value is the nearest double.
-/

namespace ElleFrontEnd

/-- The forms of a number literal. -/
inductive NumberKind
  | hex | octal | binary | decimal | float | scientific
deriving DecidableEq

namespace NumberKind

/-- The name of the form. -/
def label : NumberKind → String
  | .hex => "Hex"
  | .octal => "Octal"
  | .binary => "Binary"
  | .decimal => "Decimal"
  | .float => "Float"
  | .scientific => "Scientific"

/-- All forms. -/
def all : List NumberKind := [.hex, .octal, .binary, .decimal, .float, .scientific]

end NumberKind

/-- A number literal as written. -/
structure NumberLit where
  kind : NumberKind
  text : String
deriving DecidableEq

/-- The value of a digit in a radix up to 16; letters may be of either case. -/
def digitValue? (radix : Nat) (c : Char) : Option Nat :=
  let value :=
    if c.isDigit then c.toNat - '0'.toNat
    else if 'a' ≤ c && c ≤ 'f' then c.toNat - 'a'.toNat + 10
    else if 'A' ≤ c && c ≤ 'F' then c.toNat - 'A'.toNat + 10
    else radix
  if value < radix then some value else none

/-- The value of a run of digits that follows digits of value `above`. -/
def digitsValue? (radix above : Nat) : List Char → Option Nat
  | [] => some above
  | c :: cs => do digitsValue? radix (above * radix + (← digitValue? radix c)) cs

/-- The number below `bound` that a text writes in a radix; one plus sign may stand before its digits. -/
def readNatBelow? (bound radix : Nat) (text : List Char) : Option Nat :=
  let digits := match text with
    | '+' :: cs => cs
    | cs => cs
  if digits.isEmpty then none
  else (digitsValue? radix 0 digits).filter (· < bound)

/-- A decimal number: `digits · 10 ^ exponent`, with a sign. -/
structure Decimal where
  digits : Nat
  exponent : Int

namespace Decimal

/-- The decimal exponent that ends a number: nothing, or `e`, an optional sign and digits. -/
def readExponent? : List Char → Option Int
  | [] => some 0
  | e :: cs =>
    if e = 'e' || e = 'E' then
      match cs with
      | '-' :: ds => if ds.isEmpty then none else (digitsValue? 10 0 ds).map fun n => -(n : Int)
      | '+' :: ds => if ds.isEmpty then none else (digitsValue? 10 0 ds).map Int.ofNat
      | ds => if ds.isEmpty then none else (digitsValue? 10 0 ds).map Int.ofNat
    else none

/-- Digits with at most one point among them, and an optional exponent; at least one digit must stand before the
exponent. -/
def read? (text : List Char) : Option Decimal :=
  let whole := text.takeWhile Char.isDigit
  let rest := text.dropWhile Char.isDigit
  let (fraction, rest) := match rest with
    | '.' :: cs => (cs.takeWhile Char.isDigit, cs.dropWhile Char.isDigit)
    | cs => ([], cs)
  let digits := whole ++ fraction
  if digits.isEmpty then none
  else do
    let value ← digitsValue? 10 0 digits
    let exponent ← readExponent? rest
    pure ⟨value, exponent - fraction.length⟩

/-- The bits of the double nearest to a decimal number.  A number of `k` digits lies between `10 ^ (k - 1)` and
`10 ^ k`, so that an exponent far out of the range of doubles is settled without computing the power. -/
def nearestBits (d : Decimal) : Nat :=
  let size := d.exponent + ((Nat.toDigits 10 d.digits).length : Nat)
  if d.digits = 0 || size < -400 then 0
  else if 400 < size then Double.infinityBits
  else if d.exponent < 0 then Double.nearestBits d.digits (Nat.pow 10 (-d.exponent).toNat)
  else Double.nearestBits (d.digits * Nat.pow 10 d.exponent.toNat) 1

end Decimal

/-- The bits of the double that a text without a sign writes; infinity and NaN have names of their own. -/
def readUnsignedDouble? (text : List Char) : Option Nat :=
  match Decimal.read? text with
  | some d => some d.nearestBits
  | none =>
    let word := String.ofList (text.map Char.toLower)
    if word = "inf" || word = "infinity" then some Double.infinityBits
    else if word = "nan" then some Double.nanBits
    else none

/-- The bits of the double that a text writes. -/
def readDouble? : List Char → Option Nat
  | '-' :: cs => (readUnsignedDouble? cs).map Double.negatedBits
  | '+' :: cs => readUnsignedDouble? cs
  | cs => readUnsignedDouble? cs

namespace NumberLit

/-- A text without its digit separators. -/
def withoutSeparators (text : List Char) : List Char := text.filter (· ≠ '_')

/-- The digits of an integer literal and their radix: the two bytes of a radix mark do not belong to the digits. -/
def digits? (n : NumberLit) : Option (Nat × List Char) :=
  let text := n.text.toList
  match n.kind with
  | .hex => (dropBytes? text 2).map (16, ·)
  | .octal => (dropBytes? text 2).map (8, ·)
  | .binary => (dropBytes? text 2).map (2, ·)
  | .decimal => some (10, text)
  | .float | .scientific => none

/-- The value of an integer literal, if it is below `2 ^ 64`. -/
def intValue? (n : NumberLit) : Option Nat := do
  let (radix, digits) ← n.digits?
  readNatBelow? UInt64.size radix (withoutSeparators digits)

/-- The bits of the double nearest to the literal; a hexadecimal, octal or binary literal has one only if it has an
integer value. -/
def floatBits? (n : NumberLit) : Option Nat :=
  match n.kind with
  | .decimal | .float | .scientific => readDouble? (withoutSeparators n.text.toList)
  | .hex | .octal | .binary => n.intValue?.map fun v => Double.nearestBits v 1

end NumberLit

end ElleFrontEnd
