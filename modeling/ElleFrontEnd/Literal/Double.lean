/-!
# Nearest doubles

The IEEE 754 double nearest to a quotient of natural numbers, as its 64 bits read as one number; a tie goes to the
even neighbour.  A positive double is `q · 2 ^ e` with `q < 2 ^ 53` and `-1074 ≤ e`, and its bits are
`(e + 1074) · 2 ^ 52 + q` whenever `q` is not smaller than it has to be.  A quotient too large for that becomes
infinity.
-/

namespace ElleFrontEnd

namespace Double

/-- The bits of positive infinity. -/
def infinityBits : Nat := 2047 <<< 52

/-- The bits of the standard quiet NaN. -/
def nanBits : Nat := infinityBits + 1 <<< 51

/-- The bits of a double with the sign changed to minus. -/
def negatedBits (bits : Nat) : Nat := bits + 1 <<< 63

/-- The quotient rounded to the nearest whole number, a tie to the even one. -/
def roundedQuotient (num den : Nat) : Nat :=
  let q := num / den
  let twice := 2 * (num % den)
  if twice < den || (twice = den && q % 2 = 0) then q else q + 1

/-- `num / (den * 2 ^ e)` as a pair of natural numbers. -/
def scaled (num den : Nat) (e : Int) : Nat × Nat :=
  if e < 0 then (num <<< (-e).toNat, den) else (num, den <<< e.toNat)

/-- The exponent of the last place of the double nearest to `num / den`. -/
def lastPlace (num den : Nat) : Int :=
  let e := (num.log2 : Int) - den.log2 - 53
  let (n, d) := scaled num den e
  max (-1074) (if n / d < 1 <<< 53 then e else e + 1)

/-- The bits of the double nearest to `num / den`, where `den` is not 0. -/
def nearestBits (num den : Nat) : Nat :=
  if num = 0 then 0
  else
    let e := lastPlace num den
    let (n, d) := scaled num den e
    min infinityBits ((e + 1074).toNat <<< 52 + roundedQuotient n d)

end Double

end ElleFrontEnd
