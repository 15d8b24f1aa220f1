import RelQuery.Data.Compare

/-!
# The order of values

Swapping two values swaps how they are ordered, and every value is equal to itself. The order need
not be transitive, since integers far from zero are compared with doubles inexactly, so sorting asks
for that of the values that it sorts. Without floats it is transitive.
-/

namespace RelQuery

namespace Number

theorem compare_swap (a b : Number) : b.compare a = (a.compare b).swap := by
  cases a with
  | integer i =>
    cases b with
    | integer j => exact Std.OrientedOrd.eq_swap
    | float y => rfl
  | float x =>
    cases b with
    | integer j => exact Ordering.swap_swap.symm
    | float y => exact Std.OrientedOrd.eq_swap

theorem compare_self (a : Number) : a.compare a = .eq := by
  cases a with
  | integer i => exact Std.compare_self
  | float x => exact Std.compare_self

end Number

namespace Value

theorem compare_swap {v w : Value} {o : Ordering} (h : v.compare w = .ok o) :
    w.compare v = .ok o.swap := by
  unfold compare at h ⊢
  cases v <;> cases w <;> cases h <;>
    first
    | exact congrArg Except.ok (Number.compare_swap _ _)
    | exact congrArg Except.ok Std.OrientedOrd.eq_swap

theorem order_swap (v w : Value) : w.order v = (v.order w).swap := by
  unfold order compare
  cases v <;> cases w <;>
    first
    | rfl
    | exact Number.compare_swap _ _
    | exact Std.OrientedOrd.eq_swap

theorem order_self (v : Value) : v.order v = .eq := by
  unfold order compare
  cases v <;>
    first
    | rfl
    | exact Number.compare_self _
    | exact Std.compare_self

/-- Among values that are not null, sorting takes for equal what comparison does. -/
theorem order_eq_iff {v w : Value} (hv : v.isNull = false) :
    v.order w = .eq ↔ v.compare w = .ok .eq := by
  unfold order
  cases v <;> cases w <;> simp_all [compare, number?, isNull, kindRank]

def AtMost (v w : Value) : Prop := v.order w ≠ .gt

instance (v w : Value) : Decidable (v.AtMost w) := inferInstanceAs (Decidable (_ ≠ _))

theorem atMost_total (v w : Value) : v.AtMost w ∨ w.AtMost v := by
  unfold AtMost
  rw [order_swap v w]
  cases v.order w <;> simp

theorem order_eq_iff_atMost {v w : Value} : v.order w = .eq ↔ v.AtMost w ∧ w.AtMost v := by
  unfold AtMost
  rw [order_swap v w]
  cases v.order w <;> simp

theorem atMost_refl (v : Value) : v.AtMost v := (order_eq_iff_atMost.mp (order_self v)).1

theorem order_eq_symm {v w : Value} (h : v.order w = .eq) : w.order v = .eq :=
  order_eq_iff_atMost.mpr (order_eq_iff_atMost.mp h).symm

theorem order_lt_iff {v w : Value} : v.order w = .lt ↔ ¬ w.AtMost v := by
  unfold AtMost
  rw [order_swap v w]
  cases v.order w <;> simp

theorem order_gt_iff {v w : Value} : v.order w = .gt ↔ ¬ v.AtMost w := by
  unfold AtMost
  cases v.order w <;> simp

/-- Unless one of them is null, they can be compared. -/
def Comparable (v w : Value) : Prop :=
  v.isNull = false → w.isNull = false → ∃ o, v.compare w = .ok o

/-! ## Kinds -/

theorem kindRank_eq_of_compare {v w : Value} {o : Ordering} (h : v.compare w = .ok o) :
    v.kindRank = w.kindRank := by
  cases v <;> cases w <;> first | rfl | cases h

theorem order_eq_of_kindRank_ne {v w : Value} (h : v.kindRank ≠ w.kindRank) :
    v.order w = Ord.compare v.kindRank w.kindRank := by
  unfold order
  cases hc : v.compare w with
  | ok o => exact absurd (kindRank_eq_of_compare hc) h
  | error e => rfl

theorem kindRank_le_of_atMost {v w : Value} (h : v.AtMost w) : v.kindRank ≤ w.kindRank := by
  by_cases hrank : v.kindRank = w.kindRank
  · exact Nat.le_of_eq hrank
  · rw [AtMost, order_eq_of_kindRank_ne hrank] at h
    exact Nat.compare_ne_gt.mp h

theorem atMost_of_kindRank_lt {v w : Value} (h : v.kindRank < w.kindRank) : v.AtMost w := by
  rw [AtMost, order_eq_of_kindRank_ne (Nat.ne_of_lt h)]
  exact Nat.compare_ne_gt.mpr (Nat.le_of_lt h)

def isFloat : Value → Bool
  | float _ => true
  | _ => false

theorem atMost_trans {u v w : Value} (hu : u.isFloat = false) (hv : v.isFloat = false)
    (hw : w.isFloat = false) (huv : u.AtMost v) (hvw : v.AtMost w) : u.AtMost w := by
  by_cases hlt : u.kindRank < w.kindRank
  · exact atMost_of_kindRank_lt hlt
  -- the kinds ascend from `u` over `v` to `w`, so all three are of one kind
  have hrank : u.kindRank = v.kindRank ∧ v.kindRank = w.kindRank := by
    have := kindRank_le_of_atMost huv
    have := kindRank_le_of_atMost hvw
    omega
  unfold AtMost at huv hvw ⊢
  rw [Ne, Ordering.ne_gt_iff_isLE] at huv hvw ⊢
  cases u with
  | null =>
    cases v <;> cases hrank.1
    cases w <;> cases hrank.2
    rfl
  | bool =>
    cases v <;> cases hrank.1
    cases w <;> cases hrank.2
    exact @Std.TransCmp.isLE_trans Bool Ord.compare _ _ _ _ huv hvw
  | int | bigint =>
    cases v <;> cases hrank.1 <;> cases hv <;> cases w <;> cases hrank.2 <;> cases hw <;>
      exact @Std.TransCmp.isLE_trans Int Ord.compare _ _ _ _ huv hvw
  | float => cases hu
  | string =>
    cases v <;> cases hrank.1
    cases w <;> cases hrank.2
    exact @Std.TransCmp.isLE_trans String Ord.compare _ _ _ _ huv hvw

end Value

end RelQuery
