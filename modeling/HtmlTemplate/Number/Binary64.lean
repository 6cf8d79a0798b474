/-!
# Double precision in exact arithmetic

The non-negative finite numbers of the format with 53 bits of precision. Every operation
takes the exact result as a quotient of naturals and rounds it once, a tie to the even
neighbour.
-/
namespace HtmlTemplate

/-- The number `mantissa * 2 ^ exponent`. -/
structure Binary64 where
  mantissa : Nat
  exponent : Int
deriving DecidableEq, Repr

namespace Binary64

/-- The least exponent of the format. -/
def minExponent : Int := -1074

/-- The greatest exponent of the format. -/
def maxExponent : Int := 971

/-- Zero, with the least exponent. -/
def zero : Binary64 := ⟨0, minExponent⟩

/-- Whether the number is zero. -/
def isZero (x : Binary64) : Bool := x.mantissa == 0

/-- The quotient `n / d` in units of `2 ^ e`, as a numerator and a denominator. -/
def scaled (n d : Nat) (e : Int) : Nat × Nat :=
  if 0 ≤ e then (n, d * Nat.pow 2 e.toNat) else (n * Nat.pow 2 (-e).toNat, d)

/-- The integer nearest to `n / d`, a tie to the even one. -/
def nearest (n d : Nat) : Nat :=
  let q := n / d
  let r := n % d
  if 2 * r < d then q else if d < 2 * r then q + 1 else q + q % 2

/-- The exponent that gives `n / d` a mantissa of 53 bits, or the least one. -/
def exponentFor (n d : Nat) : Int :=
  let e : Int := n.log2 - d.log2 - 53
  let (a, b) := scaled n d e
  max minExponent (if a / b < Nat.pow 2 53 then e else e + 1)

/-- The double nearest to `n / d`, or nothing when it lies beyond the finite ones. -/
def ofRatio? (n d : Nat) : Option Binary64 :=
  if n = 0 then some zero
  else
    let e := exponentFor n d
    let (a, b) := scaled n d e
    let m := nearest a b
    let (m, e) := if m = Nat.pow 2 53 then (Nat.pow 2 52, e + 1) else (m, e)
    if maxExponent < e then none else some ⟨m, e⟩

/-- The number as a numerator and a denominator. -/
def ratio (x : Binary64) : Nat × Nat :=
  if 0 ≤ x.exponent then (x.mantissa * Nat.pow 2 x.exponent.toNat, 1)
  else (x.mantissa, Nat.pow 2 (-x.exponent).toNat)

/-- The rounded product, or nothing when it is too large. -/
def mul? (x y : Binary64) : Option Binary64 :=
  ofRatio? (x.ratio.1 * y.ratio.1) (x.ratio.2 * y.ratio.2)

/-- The rounded quotient; the divisor is not zero. -/
def div? (x y : Binary64) : Option Binary64 :=
  ofRatio? (x.ratio.1 * y.ratio.2) (x.ratio.2 * y.ratio.1)

end Binary64

end HtmlTemplate
