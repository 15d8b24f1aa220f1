import RelQuery.Proofs.Data.Order
import RelQuery.Proofs.Number.Units

/-!
# How far the order of values is transitive

Sorting asks for a total order up to equality. The order of values is one but for two bridges: an
integer zero is equal to both zeros among the doubles, though the negative one is less, and `2 ^ 63`
as a double is equal to every integer whose nearest double it is, though these differ. Any three
values that are not such a bridge between its two ends are ordered transitively.
-/

namespace RelQuery

namespace Number

/-- The integers among numbers have 64 bits. -/
def Fits : Number → Prop
  | integer i => -2 ^ 63 ≤ i ∧ i < 2 ^ 63
  | float _ => True

/-- The middle number is equal to both ends, though the last is less than the first. -/
inductive Bridges : Number → Number → Number → Prop
  | zero : Bridges (float .zero) (integer 0) (float .negativeZero)
  | last {i j : Int} : 2 ^ 63 - 512 ≤ j → j < i → Bridges (integer i) (float .int64End) (integer j)

/-! ## Not greater -/

section

open Binary64 (unit int_unit_pos)

variable {i j : Int} {x y : Binary64}

theorem integer_integer : (integer i).compare (integer j) ≠ .gt ↔ i ≤ j := by
  show Ord.compare i j ≠ .gt ↔ _
  rw [ne_eq, compare_gt_iff_gt]
  exact Int.not_lt

theorem integer_float (hi : (integer i).Fits) :
    (integer i).compare (float y) ≠ .gt ↔ i * unit ≤ y.units := by
  show Binary64.compareInt i y ≠ .gt ↔ _
  rw [Binary64.compareInt_eq hi.1 hi.2]
  split
  · rename_i h
    have hlt : i * unit < 2 ^ 63 * (unit : Int) := Int.mul_lt_mul_of_pos_right hi.2 int_unit_pos
    rw [h.1, Binary64.units_int64End]
    exact iff_of_true nofun hlt.le
  · rw [ne_eq, compare_gt_iff_gt]
    exact Int.not_lt

theorem float_integer (hj : (integer j).Fits) :
    (float x).compare (integer j) ≠ .gt ↔ x.units ≤ j * unit ∨ x.Swallows j := by
  show (Binary64.compareInt j x).swap ≠ .gt ↔ _
  rw [Binary64.compareInt_eq hj.1 hj.2]
  split
  · rename_i h
    exact iff_of_true nofun (.inr h)
  · rename_i h
    rw [← Std.OrientedOrd.eq_swap, ne_eq, compare_gt_iff_gt]
    exact Int.not_lt.trans (or_iff_left h).symm

theorem float_float : (float x).compare (float y) ≠ .gt ↔ x.rank ≤ y.rank := by
  show Ord.compare x.rank y.rank ≠ .gt ↔ _
  rw [ne_eq, compare_gt_iff_gt]
  exact Int.not_lt

theorem units_mono (h : x.rank ≤ y.rank) : x.units ≤ y.units := by
  rcases Binary64.rank_le_iff.mp h with h | h
  · exact h.le
  · exact h.1.le

/-- No double lies between the integers swallowed by `2 ^ 63` and `2 ^ 63` itself. -/
theorem endWord_le_rank (hi : 2 ^ 63 - 512 ≤ i) (h : i * unit ≤ y.units) :
    (Binary64.endWord : Int) ≤ y.rank := by
  by_contra hlt
  have hle := Binary64.units_le_of_rank_lt (Int.not_le.mp hlt)
  have hmul : (2 ^ 63 - 512) * (unit : Int) ≤ i * unit :=
    Int.mul_le_mul_of_nonneg_right hi int_unit_pos.le
  have hpos := int_unit_pos
  omega

/-! ## Transitivity -/

/-- Between two integers only `2 ^ 63` can fail. -/
theorem trans_integer_float_integer (hix : i * unit ≤ x.units) (hxj : x.units ≤ j * unit ∨ x.Swallows j) :
    i ≤ j ↔ ¬ Bridges (integer i) (float x) (integer j) := by
  rcases hxj with hxj | ⟨rfl, hj512⟩
  · have hle : i ≤ j := Int.le_of_mul_le_mul_right (hix.trans hxj) int_unit_pos
    refine iff_of_true hle ?_
    rintro ⟨⟩
    omega
  · constructor
    · rintro hle ⟨⟩
      omega
    · intro hne
      by_contra hlt
      exact hne (.last hj512 (Int.not_le.mp hlt))

/-- Between two doubles only an integer zero can fail. -/
theorem trans_float_integer_float (hxj : x.units ≤ j * unit ∨ x.Swallows j) (hjy : j * unit ≤ y.units) :
    x.rank ≤ y.rank ↔ ¬ Bridges (float x) (integer j) (float y) := by
  constructor
  · rintro hle ⟨⟩
    exact absurd hle (by decide)
  · intro hne
    rcases hxj with hxj | ⟨rfl, hj512⟩
    · by_contra hlt
      rw [Int.not_le] at hlt
      have hunits : x.units = y.units := Int.le_antisymm (hxj.trans hjy) (units_mono hlt.le)
      rcases Binary64.eq_or_isZero_of_units_eq hunits with rfl | ⟨hx, hy⟩
      · exact absurd hlt (Int.lt_irrefl _)
      · -- both zeros, and the integer lies between their counts
        obtain ⟨rfl, rfl⟩ := Binary64.eq_zeros hx hy hlt
        have hj0 : j * unit = 0 := by
          rw [Binary64.isZero_iff] at hx hy
          omega
        have hunit := int_unit_pos
        obtain rfl : j = 0 := (Int.mul_eq_zero.mp hj0).resolve_right (by omega)
        exact hne .zero
    · rw [Binary64.rank_eq_end_iff.mpr rfl]
      exact endWord_le_rank hj512 hjy

theorem trans_float_float_integer (hxy : x.rank ≤ y.rank)
    (hyj : y.units ≤ j * unit ∨ y.Swallows j) : x.units ≤ j * unit ∨ x.Swallows j := by
  rcases hyj with hyj | ⟨rfl, hj512⟩
  · exact .inl ((units_mono hxy).trans hyj)
  · rw [Binary64.rank_eq_end_iff.mpr rfl] at hxy
    rcases Int.lt_or_eq_of_le hxy with hlt | heq
    · have hle := Binary64.units_le_of_rank_lt hlt
      have hmul : (2 ^ 63 - 512) * (unit : Int) ≤ j * unit :=
        Int.mul_le_mul_of_nonneg_right hj512 int_unit_pos.le
      have hpos := int_unit_pos
      exact .inl (by omega)
    · exact .inr ⟨Binary64.rank_eq_end_iff.mp heq, hj512⟩

theorem trans_float_integer_integer (hxi : x.units ≤ i * unit ∨ x.Swallows i) (hij : i ≤ j) :
    x.units ≤ j * unit ∨ x.Swallows j := by
  rcases hxi with hxi | ⟨rfl, hi512⟩
  · exact .inl (hxi.trans (Int.mul_le_mul_of_nonneg_right hij int_unit_pos.le))
  · exact .inr ⟨rfl, hi512.trans hij⟩

end

theorem trans_iff {a b c : Number} (ha : a.Fits) (hb : b.Fits) (hc : c.Fits)
    (hab : a.compare b ≠ .gt) (hbc : b.compare c ≠ .gt) :
    a.compare c ≠ .gt ↔ ¬ Bridges a b c := by
  cases a with
  | integer i =>
    cases b with
    | integer j =>
      rw [integer_integer] at hab
      have hmul := Int.mul_le_mul_of_nonneg_right hab Binary64.int_unit_pos.le
      cases c with
      | integer k =>
        rw [integer_integer] at hbc ⊢
        exact iff_of_true (hab.trans hbc) nofun
      | float z =>
        rw [integer_float hb] at hbc
        rw [integer_float ha]
        exact iff_of_true (hmul.trans hbc) nofun
    | float y =>
      rw [integer_float ha] at hab
      cases c with
      | integer k =>
        rw [float_integer hc] at hbc
        rw [integer_integer]
        exact trans_integer_float_integer hab hbc
      | float z =>
        rw [float_float] at hbc
        rw [integer_float ha]
        exact iff_of_true (hab.trans (units_mono hbc)) nofun
  | float x =>
    cases b with
    | integer j =>
      rw [float_integer hb] at hab
      cases c with
      | integer k =>
        rw [integer_integer] at hbc
        rw [float_integer hc]
        exact iff_of_true (trans_float_integer_integer hab hbc) nofun
      | float z =>
        rw [integer_float hb] at hbc
        rw [float_float]
        exact trans_float_integer_float hab hbc
    | float y =>
      rw [float_float] at hab
      cases c with
      | integer k =>
        rw [float_integer hc] at hbc ⊢
        exact iff_of_true (trans_float_float_integer hab hbc) nofun
      | float z =>
        rw [float_float] at hbc ⊢
        exact iff_of_true (hab.trans hbc) nofun

end Number

namespace Value

/-! ## Values -/

theorem fits_of_number? {v : Value} {a : Number} (h : v.number? = some a) : a.Fits := by
  cases v with
  | int i =>
    cases h
    have hlow := i.le_toInt
    have hhigh := i.toInt_lt
    exact ⟨by omega, by omega⟩
  | bigint i =>
    cases h
    exact ⟨i.le_toInt, i.toInt_lt⟩
  | float x =>
    cases h
    trivial
  | null | bool | string => cases h

theorem order_of_number? {v w : Value} {a b : Number} (hv : v.number? = some a)
    (hw : w.number? = some b) : v.order w = a.compare b := by
  cases v <;> cases hv <;> cases w <;> cases hw <;> rfl

/-- The middle value is equal to both ends, though the last is less than the first. -/
def Bridges (u v w : Value) : Prop :=
  ∃ a b c, u.number? = some a ∧ v.number? = some b ∧ w.number? = some c ∧ Number.Bridges a b c

theorem kindRank_of_number? {v : Value} {a : Number} (h : v.number? = some a) : v.kindRank = 2 := by
  cases v <;> cases h <;> rfl

theorem exists_number? {v : Value} (h : v.kindRank = 2) : ∃ a, v.number? = some a := by
  cases v <;> cases h <;> exact ⟨_, rfl⟩

theorem isFloat_of_kindRank_ne {v : Value} (h : v.kindRank ≠ 2) : v.isFloat = false := by
  cases v <;> first | rfl | exact absurd rfl h

/-- Three values in order are in order at their ends too, unless they are a bridge. -/
theorem atMost_iff_not_bridges {u v w : Value} (huv : u.AtMost v) (hvw : v.AtMost w) :
    u.AtMost w ↔ ¬ u.Bridges v w := by
  have hu := kindRank_le_of_atMost huv
  have hw := kindRank_le_of_atMost hvw
  by_cases hnumbers : u.kindRank = 2 ∧ v.kindRank = 2 ∧ w.kindRank = 2
  · obtain ⟨a, ha⟩ := exists_number? hnumbers.1
    obtain ⟨b, hb⟩ := exists_number? hnumbers.2.1
    obtain ⟨c, hc⟩ := exists_number? hnumbers.2.2
    unfold AtMost at huv hvw ⊢
    rw [order_of_number? ha hb] at huv
    rw [order_of_number? hb hc] at hvw
    rw [order_of_number? ha hc, Number.trans_iff (fits_of_number? ha) (fits_of_number? hb)
      (fits_of_number? hc) huv hvw]
    refine not_congr ⟨fun h => ⟨a, b, c, ha, hb, hc, h⟩, ?_⟩
    rintro ⟨a', b', c', ha', hb', hc', h⟩
    cases ha.symm.trans ha'
    cases hb.symm.trans hb'
    cases hc.symm.trans hc'
    exact h
  · have hbridge : ¬ u.Bridges v w := by
      rintro ⟨a, b, c, ha, hb, hc, -⟩
      exact hnumbers ⟨kindRank_of_number? ha, kindRank_of_number? hb, kindRank_of_number? hc⟩
    refine iff_of_true ?_ hbridge
    by_cases hlt : u.kindRank < w.kindRank
    · exact atMost_of_kindRank_lt hlt
    · exact atMost_trans (isFloat_of_kindRank_ne (by omega)) (isFloat_of_kindRank_ne (by omega))
        (isFloat_of_kindRank_ne (by omega)) huv hvw

/-- The order of values is total up to equality but for the bridges: turned around it is reversed,
three values in order are in order at their ends exactly if they are no bridge, and three equal ones
exactly if they are no bridge either way. -/
theorem order_transitive_iff_not_bridges (u v w : Value) :
    v.order u = (u.order v).swap ∧
      (u.order v ≠ .gt → v.order w ≠ .gt → (u.order w ≠ .gt ↔ ¬ u.Bridges v w)) ∧
      (u.order v = .eq → v.order w = .eq →
        (u.order w = .eq ↔ ¬ u.Bridges v w ∧ ¬ w.Bridges v u)) := by
  refine ⟨order_swap u v, atMost_iff_not_bridges, fun huv hvw => ?_⟩
  obtain ⟨huv, hvu⟩ := order_eq_iff_atMost.mp huv
  obtain ⟨hvw, hwv⟩ := order_eq_iff_atMost.mp hvw
  rw [order_eq_iff_atMost, atMost_iff_not_bridges huv hvw, atMost_iff_not_bridges hwv hvu]

/-- `2 ^ 53 + 1`, `2 ^ 53 + 2` as a double and `2 ^ 63 - 513`; three values that are seven. -/
theorem order_transitive_iff_not_bridges_of_sevens :
    (bigint 9007199254740993).order (float ⟨0x4340000000000001⟩) ≠ .gt ∧
      (float ⟨0x4340000000000001⟩).order (bigint 9223372036854775295) ≠ .gt ∧
      ((bigint 9007199254740993).order (bigint 9223372036854775295) ≠ .gt ↔
        ¬ (bigint 9007199254740993).Bridges (float ⟨0x4340000000000001⟩)
          (bigint 9223372036854775295)) ∧
      (int 7).order (float ⟨0x401c000000000000⟩) = .eq ∧
      (float ⟨0x401c000000000000⟩).order (bigint 7) = .eq ∧
      ((int 7).order (bigint 7) = .eq ↔
        ¬ (int 7).Bridges (float ⟨0x401c000000000000⟩) (bigint 7) ∧
          ¬ (bigint 7).Bridges (float ⟨0x401c000000000000⟩) (int 7)) :=
  ⟨by decide, by decide,
    (order_transitive_iff_not_bridges _ _ _).2.1 (by decide) (by decide),
    by decide, by decide,
    (order_transitive_iff_not_bridges _ _ _).2.2 (by decide) (by decide)⟩

/-- The double `2 ^ 63` is equal to the last two integers, and an integer zero to both zeros among the
doubles; of either pair one is less than the other. -/
theorem order_not_transitive :
    (bigint 9223372036854775807).order (float .int64End) = .eq ∧
      (float .int64End).order (bigint 9223372036854775806) = .eq ∧
      (bigint 9223372036854775807).order (bigint 9223372036854775806) = .gt ∧
      (float .zero).order (int 0) = .eq ∧
      (int 0).order (float .negativeZero) = .eq ∧
      (float .zero).order (float .negativeZero) = .gt := by
  decide +kernel

end Value

end RelQuery
