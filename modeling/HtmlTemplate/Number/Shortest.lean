import HtmlTemplate.Number.Binary64
import HtmlTemplate.Text

/-!
# The shortest decimal of a double

The fewest digits that read back as the same double, and of those the nearest. Between
the neighbouring doubles lies an interval of decimals that round to the number; the
search tries the number's two neighbours on ever finer decimal grids.
-/
namespace HtmlTemplate

/-- The number `0.d₁d₂… * 10 ^ point`, with digits that begin and end with no zero. -/
structure Decimal where
  digits : Text
  point : Int
deriving DecidableEq, Repr

namespace Binary64

/-- Whether `n / d` rounds to the number: it lies between the midpoints to the two
neighbouring doubles, or on one of them when the mantissa is even. -/
def roundsFrom (x : Binary64) (n d : Nat) : Bool :=
  -- All bounds are in units of a quarter of the last place.
  let below := if x.mantissa = Nat.pow 2 52 ∧ minExponent < x.exponent then 1 else 2
  let (unit, parts) := if 0 ≤ x.exponent then (Nat.pow 2 x.exponent.toNat, 1)
    else (1, Nat.pow 2 (-x.exponent).toNat)
  let value := 4 * n * parts
  let low := (4 * x.mantissa - below) * unit * d
  let high := (4 * x.mantissa + 2) * unit * d
  if x.mantissa % 2 = 0 then low ≤ value && value ≤ high else low < value && value < high

/-- The power of ten that is the first one above the number. -/
def point (x : Binary64) : Int :=
  let (n, d) := x.ratio
  (Nat.toDigits 10 (n * Nat.pow 10 330 / d)).length - 330

/-- The nearest multiple of `10 ^ place` that rounds to the number, as a count of units,
when one of its two neighbours among them does. -/
def onGrid? (x : Binary64) (place : Int) : Option Nat :=
  let (n, d) := x.ratio
  let (n, d) := if 0 ≤ place then (n, d * Nat.pow 10 place.toNat)
    else (n * Nat.pow 10 (-place).toNat, d)
  let down := n / d
  let fits (k : Nat) : Bool :=
    if 0 ≤ place then x.roundsFrom (k * Nat.pow 10 place.toNat) 1
    else x.roundsFrom k (Nat.pow 10 (-place).toNat)
  let near := nearest n d
  let far := if near = down then down + 1 else down
  if fits near then some near else if fits far then some far else none

/-- The first grid with at most `count` more digits that holds a decimal of the number. -/
def search (x : Binary64) (point : Int) : (count : Nat) → (length : Nat) → Nat × Int
  | 0, length => (nearest x.ratio.1 x.ratio.2, length)
  | count + 1, length =>
    match x.onGrid? (point - length) with
    | some k => (k, point - length)
    | none => search x point count (length + 1)

/-- The shortest decimal of a number that is not zero. -/
def shortest (x : Binary64) : Decimal :=
  let (k, place) := search x x.point 17 1
  let all := Nat.toDigits 10 k
  ⟨(all.reverse.dropWhile (· == '0')).reverse, place + all.length⟩

end Binary64

namespace Decimal

/-- How a number is written: with a point when its first digit stands at most sixteen
places before and at most five places after the point, else with an exponent. -/
def print (x : Decimal) : Text :=
  let size : Int := x.digits.length
  if -5 < x.point ∧ x.point ≤ 0 then
    "0.".toList ++ List.replicate (-x.point).toNat '0' ++ x.digits
  else if 0 < x.point ∧ x.point ≤ 16 then
    if size ≤ x.point then
      x.digits ++ List.replicate (x.point - size).toNat '0' ++ ".0".toList
    else x.digits.take x.point.toNat ++ '.' :: x.digits.drop x.point.toNat
  else
    let fraction := if size = 1 then [] else '.' :: x.digits.drop 1
    let exponent := x.point - 1
    let sign := if 0 ≤ exponent then '+' else '-'
    x.digits.take 1 ++ fraction ++ ['e', sign] ++ Text.ofNat exponent.natAbs

end Decimal

end HtmlTemplate
