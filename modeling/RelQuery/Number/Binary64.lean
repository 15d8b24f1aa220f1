/-!
# Double-precision numbers by their bits

A `Binary64` is the 64-bit word of an IEEE 754 double, NaN payloads and signed zeros included.
Every question about its value is answered in integers: a finite number is
`± significand * 2 ^ exponent`. Arithmetic alone goes through the machine's doubles.
-/

namespace RelQuery

structure Binary64 where
  bits : UInt64
deriving DecidableEq, Repr, Inhabited

namespace Binary64

/-! ## Fields -/

def negative (x : Binary64) : Bool := Nat.pow 2 63 ≤ x.bits.toNat

def magnitude (x : Binary64) : Nat := x.bits.toNat % Nat.pow 2 63

def biasedExponent (x : Binary64) : Nat := x.magnitude / Nat.pow 2 52

def fraction (x : Binary64) : Nat := x.magnitude % Nat.pow 2 52

def isNaN (x : Binary64) : Bool := x.biasedExponent == 2047 && x.fraction != 0

def isInfinite (x : Binary64) : Bool := x.biasedExponent == 2047 && x.fraction == 0

def isFinite (x : Binary64) : Bool := x.biasedExponent != 2047

def isZero (x : Binary64) : Bool := x.magnitude == 0

def significand (x : Binary64) : Nat :=
  if x.biasedExponent = 0 then x.fraction else x.fraction + Nat.pow 2 52

def exponent (x : Binary64) : Int :=
  if x.biasedExponent = 0 then -1074 else (x.biasedExponent : Int) - 1075

/-! ## Integral part -/

/-- The magnitude of a finite number, rounded toward zero. -/
def wholeMagnitude (x : Binary64) : Nat :=
  if 0 ≤ x.exponent then x.significand * Nat.pow 2 x.exponent.toNat
  else x.significand / Nat.pow 2 (-x.exponent).toNat

def whole (x : Binary64) : Int :=
  if x.negative then -(x.wholeMagnitude : Int) else x.wholeMagnitude

def hasFraction (x : Binary64) : Bool :=
  x.exponent < 0 && x.significand % Nat.pow 2 (-x.exponent).toNat != 0

def inInt64Range (x : Binary64) : Bool :=
  x.isFinite && -(Int.pow 2 63) ≤ x.whole && x.whole < Int.pow 2 63

def toInteger? (x : Binary64) : Option Int :=
  if x.inInt64Range && !x.hasFraction then some x.whole else none

/-! ## From integers -/

/-- The double nearest to `n`, a tie going to the even significand; `n` must be below `2 ^ 1023`. -/
def nearestNat (n : Nat) : Nat :=
  if n = 0 then 0
  else
    let top := n.log2
    if top ≤ 52 then (top + 1022) * Nat.pow 2 52 + n * Nat.pow 2 (52 - top)
    else
      let unit := Nat.pow 2 (top - 52)
      let quotient := n / unit
      let twice := 2 * (n % unit)
      let up := unit < twice || (twice == unit && quotient % 2 == 1)
      (top + 1022) * Nat.pow 2 52 + quotient + (if up then 1 else 0)

def ofInt (i : Int) : Binary64 :=
  ⟨UInt64.ofNat ((if i < 0 then Nat.pow 2 63 else 0) + nearestNat i.natAbs)⟩

/-! ## Comparison -/

/-- Numeric equality: no NaN equals anything, and the two zeros are equal. -/
def eqv (x y : Binary64) : Bool :=
  !x.isNaN && !y.isNaN && (x.bits == y.bits || (x.isZero && y.isZero))

/-- Increases along `-NaN, -∞, …, -0, +0, …, +∞, +NaN`. -/
def rank (x : Binary64) : Int :=
  if x.negative then -1 - (x.magnitude : Int) else x.magnitude

def compareTotal (x y : Binary64) : Ordering := compare x.rank y.rank

/-- Compares an integer with a double by exact value. A double whose whole part is no 64-bit
integer is compared with the double nearest to `i` instead. -/
def compareInt (i : Int) (x : Binary64) : Ordering :=
  if x.inInt64Range then
    (compare i x.whole).then
      (if x.hasFraction then (if x.negative then .gt else .lt) else .eq)
  else compareTotal (ofInt i) x

/-! ## Machine arithmetic -/

def toFloat (x : Binary64) : Float := Float.ofBits x.bits

def ofFloat (x : Float) : Binary64 := ⟨x.toBits⟩

instance : Add Binary64 := ⟨fun x y => ofFloat (x.toFloat + y.toFloat)⟩

instance : Sub Binary64 := ⟨fun x y => ofFloat (x.toFloat - y.toFloat)⟩

instance : Mul Binary64 := ⟨fun x y => ofFloat (x.toFloat * y.toFloat)⟩

instance : Div Binary64 := ⟨fun x y => ofFloat (x.toFloat / y.toFloat)⟩

def zero : Binary64 := ⟨0⟩

/-- The quiet NaN with a clear sign bit. -/
def nan : Binary64 := ⟨0x7ff8000000000000⟩

end Binary64

end RelQuery
