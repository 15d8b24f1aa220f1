import RelQuery.Expr.Eval
import RelQuery.Proofs.Data.Lists
import RelQuery.Proofs.Data.Order

/-!
# Equality

Two values meet when neither is null and they compare as equal. The operator `=` is true of values
that meet, null if one of the two is, and does not care which comes first.
-/

namespace RelQuery

namespace Value

/-- Neither is null, and they compare as equal. -/
def meets (v w : Value) : Bool :=
  !v.isNull && !w.isNull && (v.compare w).toOption == some .eq

theorem meets_iff {v w : Value} :
    v.meets w = true ↔ v.isNull = false ∧ w.isNull = false ∧ v.compare w = .ok .eq := by
  unfold meets
  cases v.compare w <;> simp [Except.toOption, and_assoc]

theorem meets_eq (v w : Value) : v.meets w = (!v.isNull && !w.isNull && v.order w == .eq) := by
  rw [Bool.eq_iff_iff, meets_iff, Bool.and_eq_true, Bool.and_eq_true, Bool.not_eq_true',
    Bool.not_eq_true', beq_iff_eq, and_assoc]
  exact and_congr_right fun hv => and_congr_right fun _ => (order_eq_iff hv).symm

end Value

namespace BinaryOp

variable {v w u : Value}

theorem apply_compare (op : CompareOp) (v w : Value) :
    (BinaryOp.compare op).apply v w =
      v.strictly w (do return .bool (op.holds (← v.compare w))) := rfl

theorem apply_eq_null (h : v.isNull = true ∨ w.isNull = true) :
    (BinaryOp.compare .eq).apply v w = .ok .null := by
  rw [← Bool.or_eq_true] at h
  rw [apply_compare, Value.strictly, if_pos h]

theorem apply_eq_of_compare {o : Ordering} (hv : v.isNull = false) (hw : w.isNull = false)
    (h : v.compare w = .ok o) :
    (BinaryOp.compare .eq).apply v w = .ok (.bool (CompareOp.eq.holds o)) := by
  rw [apply_compare, Value.strictly, hv, hw, h]
  rfl

/-- Where it has a value, `=` is true of the values that meet and of no others. -/
theorem apply_eq (h : v.Comparable w) :
    ∃ x, (BinaryOp.compare .eq).apply v w = .ok x ∧ x.isTrue = v.meets w := by
  by_cases hnull : v.isNull = true ∨ w.isNull = true
  · refine ⟨.null, apply_eq_null hnull, ?_⟩
    rcases hnull with hnull | hnull <;> simp [Value.meets, hnull, Value.isTrue]
  · rw [not_or, Bool.not_eq_true, Bool.not_eq_true] at hnull
    obtain ⟨hv, hw⟩ := hnull
    obtain ⟨o, ho⟩ := h hv hw
    refine ⟨_, apply_eq_of_compare hv hw ho, ?_⟩
    rw [Value.meets, hv, hw, ho]
    cases o <;> rfl

theorem apply_eq_swap (h : (BinaryOp.compare .eq).apply v w = .ok u) :
    (BinaryOp.compare .eq).apply w v = .ok u := by
  by_cases hnull : v.isNull = true ∨ w.isNull = true
  · rwa [apply_eq_null hnull.symm, ← apply_eq_null hnull]
  · rw [not_or, Bool.not_eq_true, Bool.not_eq_true] at hnull
    obtain ⟨hv, hw⟩ := hnull
    rw [apply_compare, Value.strictly, hv, hw] at h
    obtain ⟨o, ho, hu⟩ := bind_eq_ok_iff.mp h
    rw [apply_eq_of_compare hw hv (Value.compare_swap ho), ← hu]
    cases o <;> rfl

end BinaryOp

end RelQuery
