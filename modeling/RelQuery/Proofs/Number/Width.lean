import RelQuery.Data.Value
import RelQuery.Number.Checked

/-!
# Widths of integers

The integers among the values have 32 or 64 bits. A number is that of a value of a width exactly if it
fits the width.
-/

namespace RelQuery

inductive IntWidth
  | bits32
  | bits64
deriving DecidableEq, Repr

namespace IntWidth

def bits : IntWidth → Nat
  | bits32 => 32
  | bits64 => 64

def common : IntWidth → IntWidth → IntWidth
  | bits32, bits32 => bits32
  | _, _ => bits64

/-- Whether the number fits, in two's complement. -/
def Holds (w : IntWidth) (x : Int) : Prop :=
  -(Int.pow 2 (w.bits - 1)) ≤ x ∧ x < Int.pow 2 (w.bits - 1)

instance (w : IntWidth) (x : Int) : Decidable (w.Holds x) := inferInstanceAs (Decidable (_ ∧ _))

end IntWidth

namespace Value

inductive IsInteger : Value → IntWidth → Int → Prop
  | int (i : Int32) : IsInteger (.int i) .bits32 i.toInt
  | bigint (i : Int64) : IsInteger (.bigint i) .bits64 i.toInt

def intWidth : Value → IntWidth
  | int _ => .bits32
  | _ => .bits64

variable {v : Value} {w : IntWidth} {x : Int}

theorem IsInteger.toInt? (h : v.IsInteger w x) : v.toInt? = some x := by
  cases h <;> rfl

theorem IsInteger.intWidth (h : v.IsInteger w x) : v.intWidth = w := by
  cases h <;> rfl

theorem IsInteger.isNull (h : v.IsInteger w x) : v.isNull = false := by
  cases h <;> rfl

theorem IsInteger.holds (h : v.IsInteger w x) : w.Holds x := by
  cases h with
  | int i => exact ⟨i.le_toInt, i.toInt_lt⟩
  | bigint i => exact ⟨i.le_toInt, i.toInt_lt⟩

end Value

/-! ## Fitting -/

theorem toInt_of_int32? {i : Int} {n : Int32} (h : int32? i = some n) : n.toInt = i := by
  rw [int32?, Option.ite_none_right_eq_some] at h
  obtain ⟨⟨hle, hlt⟩, h⟩ := h
  cases h
  exact Int32.toInt_ofInt_of_le hle hlt

theorem toInt_of_int64? {i : Int} {n : Int64} (h : int64? i = some n) : n.toInt = i := by
  rw [int64?, Option.ite_none_right_eq_some] at h
  obtain ⟨⟨hle, hlt⟩, h⟩ := h
  cases h
  exact Int64.toInt_ofInt_of_le hle hlt

namespace IntWidth

def fit : IntWidth → Int → Option Value
  | bits32, x => (int32? x).map .int
  | bits64, x => (int64? x).map .bigint

variable {w : IntWidth} {x : Int}

theorem exists_fit (h : w.Holds x) : ∃ v, w.fit x = some v ∧ v.IsInteger w x := by
  cases w with
  | bits32 =>
    have hx : int32? x = some (Int32.ofInt x) := if_pos h
    have hv := Value.IsInteger.int (Int32.ofInt x)
    rw [toInt_of_int32? hx] at hv
    exact ⟨_, by rw [fit, hx]; rfl, hv⟩
  | bits64 =>
    have hx : int64? x = some (Int64.ofInt x) := if_pos h
    have hv := Value.IsInteger.bigint (Int64.ofInt x)
    rw [toInt_of_int64? hx] at hv
    exact ⟨_, by rw [fit, hx]; rfl, hv⟩

theorem fit_eq_none (h : ¬ w.Holds x) : w.fit x = none := by
  cases w with
  | bits32 => exact congrArg (Option.map Value.int) (if_neg h)
  | bits64 => exact congrArg (Option.map Value.bigint) (if_neg h)

end IntWidth

end RelQuery
