import RelQuery.Number.Binary64

/-!
# Decimal text of doubles

`shortest` writes the fewest digits that read back as the same double, the nearest such number
when there are several, and never an exponent. `fixed` writes the exact value rounded to a number
of places, a half going to the even neighbour.
-/

namespace RelQuery.Decimal

/-! ## Positional notation -/

def zeros (n : Nat) : String := String.ofList (List.replicate n '0')

def positional (digits : Nat) (exponent : Int) : String :=
  let text := toString digits
  if 0 ≤ exponent then text ++ zeros exponent.toNat
  else
    let places := (-exponent).toNat
    let padded := zeros (places + 1 - text.length) ++ text
    let point := padded.length - places
    String.ofList (padded.toList.take point) ++ "." ++ String.ofList (padded.toList.drop point)

/-! ## Shortest digits -/

/-- The reals that round to one double: `low ≤ r ≤ high`, in units of `2 ^ exponent`, the ends
included when `closed`. -/
structure Interval where
  low : Nat
  value : Nat
  high : Nat
  exponent : Int
  closed : Bool

/-- The interval of a finite nonzero magnitude. Below a power of two the neighbour is nearer. -/
def interval (x : Binary64) : Interval :=
  let m := x.significand
  let narrow := x.fraction = 0 ∧ 1 < x.biasedExponent
  { low := 4 * m - (if narrow then 1 else 2)
    value := 4 * m
    high := 4 * m + 2
    exponent := x.exponent - 2
    closed := m % 2 == 0 }

def ratio (two ten : Int) : Nat × Nat :=
  (Nat.pow 2 two.toNat * Nat.pow 10 (-ten).toNat, Nat.pow 2 (-two).toNat * Nat.pow 10 ten.toNat)

/-- The multiple of `10 ^ ten` nearest to the interval's value among the two around it that lie in
the interval; of two equally near the upper. -/
def onGrid? (r : Interval) (ten : Int) : Option Nat :=
  let (num, den) := ratio r.exponent ten
  let below := r.value * num / den
  let inside (d : Nat) : Bool :=
    if r.closed then r.low * num ≤ d * den && d * den ≤ r.high * num
    else r.low * num < d * den && d * den < r.high * num
  let nearBelow : Bool := 2 * (r.value * num) < (2 * below + 1) * den
  if inside below && (nearBelow || !inside (below + 1)) then some below
  else if inside (below + 1) then some (below + 1)
  else none

def coarsest (r : Interval) : Nat → Int → Nat × Int
  | 0, ten => (0, ten)
  | tries + 1, ten =>
    match onGrid? r ten with
    | some d => (d, ten)
    | none => coarsest r tries (ten - 1)

/-- The fewest digits that lie in the interval, as `(d, e)` for `d * 10 ^ e`. Twenty-four grids
from the first power of ten above the value always suffice. -/
def shortestDigits (x : Binary64) : Nat × Int :=
  let r := interval x
  let bits : Int := r.value.log2 + 1 + r.exponent
  coarsest r 24 (bits * 30103 / 100000 + 2)

def shortest (x : Binary64) : String :=
  if x.isNaN then "NaN"
  else
    let sign := if x.negative then "-" else ""
    if x.isInfinite then sign ++ "inf"
    else if x.isZero then sign ++ "0"
    else
      let (digits, exponent) := shortestDigits x
      sign ++ positional digits exponent

/-! ## Fixed places -/

/-- `num / den` rounded to a natural number, a half going to the even neighbour. -/
def roundHalfEven (num den : Nat) : Nat :=
  let quotient := num / den
  let twice := 2 * (num % den)
  if den < twice || (twice == den && quotient % 2 == 1) then quotient + 1 else quotient

def fixed (places : Nat) (x : Binary64) : String :=
  if x.isNaN then "NaN"
  else
    let sign := if x.negative then "-" else ""
    if x.isInfinite then sign ++ "inf"
    else
      let num := x.significand * Nat.pow 2 x.exponent.toNat * Nat.pow 10 places
      sign ++ positional (roundHalfEven num (Nat.pow 2 (-x.exponent).toNat)) (-(places : Int))

end RelQuery.Decimal
