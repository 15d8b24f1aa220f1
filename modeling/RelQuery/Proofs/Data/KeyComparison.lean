import RelQuery.Proofs.Data.Keys
import RelQuery.Proofs.Data.Transitivity

/-!
# Keys beside comparison

Two values that can be compared are equal exactly if their keys are, but for three kinds of pairs of
which one is a double: the two zeros and any two NaNs have one key and differ, and `2 ^ 63` as a double
is equal to integers whose keys it does not have.
-/

namespace RelQuery

/-! ## Keys of doubles -/

namespace Binary64

theorem toInteger?_of_isNaN {x : Binary64} (h : x.isNaN = true) : x.toInteger? = none := by
  unfold isNaN at h
  rw [Bool.and_eq_true, beq_iff_eq] at h
  unfold toInteger? inInt64Range isFinite
  rw [h.1]
  rfl

theorem toInteger?_of_isZero {x : Binary64} (h : x.isZero = true) : x.toInteger? = some 0 := by
  rw [isZero_iff] at h
  exact toInteger?_eq_some_iff.mpr ⟨by rw [h, Int.zero_mul], by decide, by decide⟩

end Binary64

namespace KeyPart

theorem int64_ofInt_inj {i j : Int} (hi : -2 ^ 63 ≤ i ∧ i < 2 ^ 63) (hj : -2 ^ 63 ≤ j ∧ j < 2 ^ 63) :
    Int64.ofInt i = Int64.ofInt j ↔ i = j := by
  refine ⟨fun h => ?_, congrArg Int64.ofInt⟩
  have := congrArg Int64.toInt h
  rwa [Int64.toInt_ofInt_of_le hi.1 hi.2, Int64.toInt_ofInt_of_le hj.1 hj.2] at this

theorem integer_eq_ofFloat_iff {i : Int} {y : Binary64} (hi : -2 ^ 63 ≤ i ∧ i < 2 ^ 63) :
    integer (Int64.ofInt i) = ofFloat y ↔ y.units = i * Binary64.unit := by
  have hy (j : Int) := Binary64.toInteger?_eq_some_iff (x := y) (i := j)
  unfold ofFloat
  cases hinteger : y.toInteger? with
  | some j =>
    obtain ⟨hunits, hj⟩ := (hy j).mp hinteger
    have hpos := Binary64.int_unit_pos
    rw [KeyPart.integer.injEq, int64_ofInt_inj hi hj, hunits]
    refine ⟨fun h => by rw [h], fun h => ?_⟩
    exact (Int.eq_of_mul_eq_mul_right (by omega) h).symm
  | none =>
    refine iff_of_false nofun fun h => ?_
    rw [(hy i).mpr ⟨h, hi⟩] at hinteger
    cases hinteger

/-- Doubles share a key if they are zeros or NaNs. -/
theorem ofFloat_eq_iff {x y : Binary64} :
    ofFloat x = ofFloat y ↔
      x = y ∨ (x.isZero = true ∧ y.isZero = true) ∨ (x.isNaN = true ∧ y.isNaN = true) := by
  constructor
  · intro h
    unfold ofFloat at h
    cases hx : x.toInteger? with
    | some i =>
      rw [hx] at h
      obtain ⟨hunits, hi⟩ := Binary64.toInteger?_eq_some_iff.mp hx
      have hy := (integer_eq_ofFloat_iff hi).mp h
      rcases Binary64.eq_or_isZero_of_units_eq (hunits.trans hy.symm) with heq | hzero
      · exact .inl heq
      · exact .inr (.inl hzero)
    | none =>
      cases hy : y.toInteger? with
      | some j =>
        rw [hx, hy] at h
        cases h
      | none =>
        rw [hx, hy] at h
        have hword := KeyPart.float.inj h
        have hnan : Binary64.nan.isNaN = true := by decide
        by_cases hxn : x.isNaN = true <;> by_cases hyn : y.isNaN = true
        · exact .inr (.inr ⟨hxn, hyn⟩)
        · rw [if_pos hxn, if_neg hyn] at hword
          exact absurd (hword ▸ hnan) hyn
        · rw [if_neg hxn, if_pos hyn] at hword
          exact absurd (hword ▸ hnan) hxn
        · rw [if_neg hxn, if_neg hyn] at hword
          exact .inl hword
  · rintro (rfl | ⟨hx, hy⟩ | ⟨hx, hy⟩)
    · rfl
    · unfold ofFloat
      rw [Binary64.toInteger?_of_isZero hx, Binary64.toInteger?_of_isZero hy]
    · unfold ofFloat
      rw [Binary64.toInteger?_of_isNaN hx, Binary64.toInteger?_of_isNaN hy]
      simp only [hx, hy, if_true]

end KeyPart

namespace Value

/-- Two values whose keys do not tell what comparison tells: different zeros and different NaNs with one
key, and `2 ^ 63` with an integer that is nearest to it. -/
inductive Strays : Value → Value → Prop
  | zeros {x y : Binary64} : x ≠ y → x.isZero = true → y.isZero = true → Strays (float x) (float y)
  | nans {x y : Binary64} : x ≠ y → x.isNaN = true → y.isNaN = true → Strays (float x) (float y)
  | left {v : Value} {i : Int} : v.toInt? = some i → 2 ^ 63 - 512 ≤ i → Strays v (float .int64End)
  | right {v : Value} {i : Int} : v.toInt? = some i → 2 ^ 63 - 512 ≤ i → Strays (float .int64End) v

theorem Strays.symm {v w : Value} (h : v.Strays w) : w.Strays v := by
  cases h with
  | zeros hne hx hy => exact .zeros hne.symm hy hx
  | nans hne hx hy => exact .nans hne.symm hy hx
  | left hi h => exact .right hi h
  | right hi h => exact .left hi h

theorem not_strays {v w : Value} (hv : v.isFloat = false) (hw : w.isFloat = false) :
    ¬ v.Strays w := by
  rintro (_ | _ | _ | _)
  · cases hv
  · cases hv
  · cases hw
  · cases hv

theorem compare_float_iff {x y : Binary64} :
    ((float x).compare (float y) = .ok .eq ↔
      Key.forJoin (float x) = Key.forJoin (float y)) ↔ ¬ (float x).Strays (float y) := by
  have hcompare : (float x).compare (float y) = .ok .eq ↔ x = y := by
    show Except.ok (Ord.compare x.rank y.rank) = .ok .eq ↔ _
    rw [Except.ok.injEq, compare_eq_iff_eq]
    exact ⟨Binary64.rank_inj, congrArg Binary64.rank⟩
  rw [hcompare, forJoin_eq_iff rfl rfl]
  show (_ ↔ KeyPart.ofFloat x = KeyPart.ofFloat y) ↔ _
  rw [KeyPart.ofFloat_eq_iff]
  constructor
  · rintro h (⟨hne, hx, hy⟩ | ⟨hne, hx, hy⟩ | ⟨⟨⟩⟩ | ⟨⟨⟩⟩)
    · exact hne (h.mpr (.inr (.inl ⟨hx, hy⟩)))
    · exact hne (h.mpr (.inr (.inr ⟨hx, hy⟩)))
  · intro h
    refine ⟨.inl, ?_⟩
    rintro (heq | ⟨hx, hy⟩ | ⟨hx, hy⟩)
    · exact heq
    · by_contra hne
      exact h (.zeros hne hx hy)
    · by_contra hne
      exact h (.nans hne hx hy)

theorem compare_integer_float_iff {v : Value} {i : Int} {y : Binary64} (hv : v.toInt? = some i) :
    (v.compare (float y) = .ok .eq ↔ Key.forJoin v = Key.forJoin (float y)) ↔
      ¬ v.Strays (float y) := by
  obtain ⟨hnull, hnumber, hkey, -⟩ := of_toInt? hv
  obtain ⟨hlow, hhigh⟩ := fits_of_number? hnumber
  have hcompare : v.compare (float y) = .ok (Binary64.compareInt i y) := by
    cases v <;> cases hnumber <;> rfl
  have hstrays : v.Strays (float y) ↔ y.Swallows i := by
    constructor
    · rintro (_ | _ | ⟨hi, hlast⟩ | ⟨⟨⟩⟩)
      · cases hv
      · cases hv
      · cases hv.symm.trans hi
        exact ⟨rfl, hlast⟩
    · rintro ⟨rfl, hlast⟩
      exact .left hv hlast
  rw [hcompare, forJoin_eq_iff hnull rfl, hkey, hstrays, Binary64.compareInt_eq hlow hhigh,
    Except.ok.injEq]
  show (_ ↔ KeyPart.integer (Int64.ofInt i) = KeyPart.ofFloat y) ↔ _
  rw [KeyPart.integer_eq_ofFloat_iff ⟨hlow, hhigh⟩]
  split
  · rename_i h
    -- the key of `2 ^ 63` is not that of an integer
    refine iff_of_false (fun heq => ?_) (not_not.mpr h)
    have hunits := heq.mp rfl
    rw [h.1, Binary64.units_int64End] at hunits
    have hpos := Binary64.int_unit_pos
    have := Int.eq_of_mul_eq_mul_right (by omega) hunits
    omega
  · rename_i h
    rw [compare_eq_iff_eq]
    exact iff_of_true eq_comm h

theorem isNull_of_compare {v w : Value} {o : Ordering} (h : v.compare w = .ok o) :
    v.isNull = false ∧ w.isNull = false := by
  cases v <;> cases w <;> first | exact ⟨rfl, rfl⟩ | cases h

theorem float_or_toInt? {v : Value} {x : Binary64} {o : Ordering} (h : v.compare (float x) = .ok o) :
    (∃ y, v = float y) ∨ ∃ i, v.toInt? = some i := by
  cases v with
  | int i | bigint i => exact .inr ⟨_, rfl⟩
  | float y => exact .inl ⟨y, rfl⟩
  | null | bool | string => cases h

theorem compare_eq_iff_of_float {v : Value} {x : Binary64} {o : Ordering}
    (h : v.compare (float x) = .ok o) :
    (o = .eq ↔ Key.forJoin v = Key.forJoin (float x)) ↔ ¬ v.Strays (float x) := by
  have ho : o = .eq ↔ v.compare (float x) = .ok .eq := by rw [h, Except.ok.injEq]
  rw [ho]
  rcases float_or_toInt? h with ⟨y, rfl⟩ | ⟨i, hi⟩
  · exact compare_float_iff
  · exact compare_integer_float_iff hi

/-- Two values that can be compared are equal exactly if they have one key, unless they stray. -/
theorem compare_eq_iff_forJoin_eq (v w : Value) {o : Ordering} (h : v.compare w = .ok o) :
    (o = .eq ↔ Key.forJoin v = Key.forJoin w) ↔ ¬ v.Strays w := by
  by_cases hw : w.isFloat = true
  · cases w with
    | float y => exact compare_eq_iff_of_float h
    | null | bool | int | bigint | string => cases hw
  by_cases hv : v.isFloat = true
  · cases v with
    | float x =>
      have hturned := compare_eq_iff_of_float (compare_swap h)
      rw [Ordering.swap_eq_eq, eq_comm (a := Key.forJoin w)] at hturned
      exact hturned.trans (not_congr ⟨Strays.symm, Strays.symm⟩)
    | null | bool | int | bigint | string => cases hv
  · -- no double on either side
    rw [Bool.not_eq_true] at hv hw
    obtain ⟨hnull, hnull'⟩ := isNull_of_compare h
    obtain ⟨o', ho', hkey⟩ := keyedAlike hv hw (kindRank_eq_of_compare h) hnull hnull'
    cases h.symm.trans ho'
    exact iff_of_true hkey (not_strays hv hw)

/-- `2 ^ 63 - 1` and the greatest double below `2 ^ 63`. -/
theorem compare_eq_iff_forJoin_eq_before_end :
    (bigint 9223372036854775807).compare (float ⟨0x43dfffffffffffff⟩) = .ok .gt ∧
      ((Ordering.gt = .eq ↔ Key.forJoin (bigint 9223372036854775807) =
          Key.forJoin (float ⟨0x43dfffffffffffff⟩)) ↔
        ¬ (bigint 9223372036854775807).Strays (float ⟨0x43dfffffffffffff⟩)) :=
  ⟨rfl, compare_eq_iff_forJoin_eq _ _ rfl⟩

/-- Comparison takes `2 ^ 63 - 1` for equal to `2 ^ 63`, and tells the two zeros apart. -/
theorem forJoin_not_compare :
    ((bigint 9223372036854775807).compare (float .int64End) = .ok .eq ∧
        Key.forJoin (bigint 9223372036854775807) ≠ Key.forJoin (float .int64End)) ∧
      (float .zero).compare (float .negativeZero) = .ok .gt ∧
      Key.forJoin (float .zero) = Key.forJoin (float .negativeZero) := by
  decide +kernel

end Value

end RelQuery
