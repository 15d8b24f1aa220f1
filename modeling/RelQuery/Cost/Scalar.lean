/-!
# Numbers for costs

The operations that the cost formulas use. Plans are costed in doubles; over any other numbers with
these operations the formulas are the same.
-/

namespace RelQuery

class CostScalar (κ : Type) extends Add κ, Mul κ, Div κ, OfScientific κ where
  larger : κ → κ → κ
  smaller : κ → κ → κ
  less : κ → κ → Bool
  atMost : κ → κ → Bool
  same : κ → κ → Bool
  log : κ → κ
  ofCount : Nat → κ

/-- Of a number and a NaN, the number is both the larger and the smaller one. -/
instance : CostScalar Float where
  larger x y := if x.isNaN then y else if y.isNaN then x else if y < x then x else y
  smaller x y := if x.isNaN then y else if y.isNaN then x else if x < y then x else y
  less x y := x < y
  atMost x y := x ≤ y
  same x y := x == y
  log := Float.log
  ofCount n := n.toUInt64.toFloat

end RelQuery
