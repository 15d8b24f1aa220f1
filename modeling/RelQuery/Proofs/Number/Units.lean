import Mathlib.Algebra.Order.Ring.Int
import RelQuery.Number.Binary64

/-!
# Doubles counted in units

A finite double is a whole number of units of `2 ^ -1074`. The count grows with the word, so that two
doubles, or a double and an integer, are ordered as their counts are; infinities and NaNs are counted
on by the same rule and come out beyond all finite numbers.
-/

namespace RelQuery

namespace Binary64

/-! ## Words -/

theorem negative_iff {x : Binary64} : x.negative = true ↔ 2 ^ 63 ≤ x.bits.toNat := by
  unfold negative
  exact decide_eq_true_iff

theorem toNat_bits (x : Binary64) :
    x.bits.toNat = (if x.negative = true then 2 ^ 63 else 0) + x.magnitude := by
  have hlt : x.bits.toNat < 2 ^ 64 := x.bits.toNat_lt
  have hmod : x.magnitude = x.bits.toNat % 2 ^ 63 := rfl
  by_cases h : x.negative = true
  · rw [if_pos h]
    have := negative_iff.mp h
    omega
  · rw [if_neg h]
    have := mt negative_iff.mpr h
    omega

theorem eq_of_magnitude {x y : Binary64} (hs : x.negative = y.negative)
    (hm : x.magnitude = y.magnitude) : x = y := by
  obtain ⟨a⟩ := x
  obtain ⟨b⟩ := y
  refine congrArg mk (UInt64.toNat_inj.mp ?_)
  have ha := toNat_bits ⟨a⟩
  have hb := toNat_bits ⟨b⟩
  rw [hs, hm] at ha
  exact ha.trans hb.symm

theorem rank_inj {x y : Binary64} (h : x.rank = y.rank) : x = y := by
  unfold rank at h
  by_cases hx : x.negative = true <;> by_cases hy : y.negative = true <;>
    simp only [hx, hy, if_true, if_false, Bool.false_eq_true] at h
  · exact eq_of_magnitude (hx.trans hy.symm) (by omega)
  · omega
  · omega
  · rw [Bool.not_eq_true] at hx hy
    exact eq_of_magnitude (hx.trans hy.symm) (by omega)

/-! ## Units -/

/-- The count of a word without sign: its significand, doubled once for every exponent above the
least. -/
def unitsOf (m : Nat) : Nat :=
  (if m / 2 ^ 52 = 0 then m % 2 ^ 52 else m % 2 ^ 52 + 2 ^ 52) * 2 ^ (m / 2 ^ 52 - 1)

theorem unitsOf_lt_succ (m : Nat) : unitsOf m < unitsOf (m + 1) := by
  by_cases hlast : m % 2 ^ 52 + 1 < 2 ^ 52
  · -- the exponent stays
    have hdiv : (m + 1) / 2 ^ 52 = m / 2 ^ 52 := by omega
    have hmod : (m + 1) % 2 ^ 52 = m % 2 ^ 52 + 1 := by omega
    unfold unitsOf
    rw [hdiv, hmod]
    refine Nat.mul_lt_mul_of_pos_right ?_ (Nat.two_pow_pos _)
    split <;> omega
  · have hdiv : (m + 1) / 2 ^ 52 = m / 2 ^ 52 + 1 := by omega
    have hmod : (m + 1) % 2 ^ 52 = 0 := by omega
    have hfull : m % 2 ^ 52 = 2 ^ 52 - 1 := by omega
    unfold unitsOf
    rw [hdiv, hmod, hfull, if_neg (Nat.succ_ne_zero _), Nat.add_sub_cancel]
    by_cases h : m / 2 ^ 52 = 0
    · rw [if_pos h, h]
      decide
    · obtain ⟨e, he⟩ := Nat.exists_eq_succ_of_ne_zero h
      rw [if_neg h, he, Nat.succ_eq_add_one, Nat.add_sub_cancel, Nat.pow_succ]
      have := Nat.two_pow_pos e
      omega

theorem unitsOf_strictMono : StrictMono unitsOf := strictMono_nat_of_lt_succ unitsOf_lt_succ

theorem unitsOf_eq (x : Binary64) :
    unitsOf x.magnitude = x.significand * 2 ^ (x.biasedExponent - 1) := rfl

/-- The least exponent, without its sign. -/
@[irreducible]
def depth : Nat := 1074

theorem depth_eq : depth = 1074 := by unfold depth; rfl

def unit : Nat := 2 ^ depth

theorem unit_pos : 0 < unit := Nat.two_pow_pos depth

theorem int_unit_pos : (0 : Int) < unit := Int.natCast_pos.mpr unit_pos

/-- A double with digits behind the point has only part of a unit's twos in its count. -/
theorem unit_eq {e : Nat} (h : e ≤ depth) : unit = 2 ^ (depth - e) * 2 ^ e := by
  rw [unit, ← Nat.pow_add, Nat.sub_add_cancel h]

theorem exponent_of_small {x : Binary64} (h : x.biasedExponent ≤ depth) :
    x.exponent < 0 ∧ (-x.exponent).toNat = depth - (x.biasedExponent - 1) := by
  rw [depth_eq] at h ⊢
  unfold exponent
  split <;> omega

theorem of_large {x : Binary64} (h : depth < x.biasedExponent) :
    ∃ e : Nat, x.exponent = e ∧ unitsOf x.magnitude = x.significand * 2 ^ e * unit := by
  refine ⟨x.biasedExponent - 1 - depth, ?_, ?_⟩
  · rw [depth_eq] at h ⊢
    unfold exponent
    split <;> omega
  · rw [unitsOf_eq, unit, Nat.mul_assoc, ← Nat.pow_add, Nat.sub_add_cancel (by omega)]

theorem wholeMagnitude_eq (x : Binary64) : x.wholeMagnitude = unitsOf x.magnitude / unit := by
  unfold wholeMagnitude
  rcases Nat.lt_or_ge depth x.biasedExponent with h | h
  · obtain ⟨e, hexp, hunits⟩ := of_large h
    rw [hexp, hunits, if_pos (Int.natCast_nonneg e), Int.toNat_natCast]
    exact (Nat.mul_div_cancel _ unit_pos).symm
  · obtain ⟨hneg, hexp⟩ := exponent_of_small h
    rw [if_neg (Int.not_le.mpr hneg), hexp, unitsOf_eq, unit_eq (e := x.biasedExponent - 1) (by omega)]
    exact (Nat.mul_div_mul_right _ _ (Nat.two_pow_pos _)).symm

theorem hasFraction_iff (x : Binary64) :
    x.hasFraction = true ↔ unitsOf x.magnitude % unit ≠ 0 := by
  unfold hasFraction
  rcases Nat.lt_or_ge depth x.biasedExponent with h | h
  · obtain ⟨e, hexp, hunits⟩ := of_large h
    rw [hexp, hunits, Nat.mul_mod_left]
    simp
  · obtain ⟨hneg, hexp⟩ := exponent_of_small h
    rw [hexp, unitsOf_eq, unit_eq (e := x.biasedExponent - 1) (by omega), Nat.mul_mod_mul_right]
    simp [hneg]

def units (x : Binary64) : Int :=
  if x.negative = true then -(unitsOf x.magnitude : Int) else unitsOf x.magnitude

/-! ## Integers among doubles -/

/-- An integer against a number given by its whole part and the rest. -/
theorem compare_mul_add {i w u r : Int} (hr : 0 ≤ r) (hu : r < u) :
    compare (i * u) (w * u + r) = (compare i w).then (if r = 0 then .eq else .lt) := by
  have hpos : 0 ≤ u := by omega
  rcases lt_trichotomy i w with h | rfl | h
  · have hmul : (i + 1) * u ≤ w * u := Int.mul_le_mul_of_nonneg_right h hpos
    rw [compare_lt_iff_lt.mpr h, compare_lt_iff_lt.mpr (by rw [Int.add_mul] at hmul; omega)]
    rfl
  · rw [Std.compare_self]
    split
    · rename_i h0
      rw [h0, Int.add_zero, Std.compare_self]
      rfl
    · rw [compare_lt_iff_lt.mpr (by omega)]
      rfl
  · have hmul : (w + 1) * u ≤ i * u := Int.mul_le_mul_of_nonneg_right h hpos
    rw [compare_gt_iff_gt.mpr h, compare_gt_iff_gt.mpr (by rw [Int.add_mul] at hmul; omega)]
    rfl

theorem compare_neg_right (a b : Int) : compare a (-b) = compare b (-a) := by
  rcases lt_trichotomy a (-b) with h | h | h
  · rw [compare_lt_iff_lt.mpr h, compare_lt_iff_lt.mpr (by omega)]
  · rw [compare_eq_iff_eq.mpr h, compare_eq_iff_eq.mpr (by omega)]
  · rw [compare_gt_iff_gt.mpr h, compare_gt_iff_gt.mpr (by omega)]

def restUnits (x : Binary64) : Int := (unitsOf x.magnitude % unit : Nat)

theorem magnitude_units (x : Binary64) :
    (unitsOf x.magnitude : Int) = x.wholeMagnitude * unit + x.restUnits := by
  rw [wholeMagnitude_eq, restUnits, ← Int.natCast_mul, ← Int.natCast_add, Nat.mul_comm,
    Nat.div_add_mod]

theorem restUnits_nonneg (x : Binary64) : 0 ≤ x.restUnits := Int.natCast_nonneg _

theorem restUnits_lt (x : Binary64) : x.restUnits < unit :=
  Int.ofNat_lt.mpr (Nat.mod_lt _ unit_pos)

theorem restUnits_eq_zero_iff (x : Binary64) : x.restUnits = 0 ↔ x.hasFraction = false := by
  rw [← Bool.not_eq_true, hasFraction_iff, restUnits, not_not, Int.natCast_eq_zero]

/-- Comparing with the whole part first and then asking for digits behind the point is comparing with
the count. -/
theorem compare_whole (i : Int) (x : Binary64) :
    (compare i x.whole).then
      (if x.hasFraction then (if x.negative then .gt else .lt) else .eq) =
      compare (i * unit) x.units := by
  have hcount := magnitude_units x
  have hrest (i : Int) :=
    compare_mul_add (i := i) (w := x.wholeMagnitude) x.restUnits_nonneg x.restUnits_lt
  simp only [restUnits_eq_zero_iff, ← hcount] at hrest
  by_cases hneg : x.negative = true
  · -- both sides are turned around
    have hturn := congrArg Ordering.swap (hrest (-i))
    rw [Ordering.swap_then, ← Std.OrientedOrd.eq_swap, ← Std.OrientedOrd.eq_swap, Int.neg_mul,
      compare_neg_right, compare_neg_right x.wholeMagnitude] at hturn
    rw [units, whole, if_pos hneg, if_pos hneg, if_pos hneg, hturn]
    cases x.hasFraction <;> rfl
  · rw [units, whole, if_neg hneg, if_neg hneg, if_neg hneg, hrest]
    cases x.hasFraction <;> rfl

/-! ## The end of the range

The first double beyond the integers of 64 bits is `2 ^ 63`. It stands `1024` above its predecessor, so
that the nearest double of the last `512` integers is `2 ^ 63` itself. -/

def int64End : Binary64 := ⟨0x43e0000000000000⟩

/-- The word of `int64End`. -/
def endWord : Nat := 1086 * 2 ^ 52

theorem magnitude_int64End : int64End.magnitude = endWord := by decide

theorem unitsOf_large (k : Nat) {f : Nat} (hf : f < 2 ^ 52) :
    unitsOf ((depth + 1 + k) * 2 ^ 52 + f) = (f + 2 ^ 52) * 2 ^ k * unit := by
  have hdiv : ((depth + 1 + k) * 2 ^ 52 + f) / 2 ^ 52 = depth + 1 + k := by omega
  have hmod : ((depth + 1 + k) * 2 ^ 52 + f) % 2 ^ 52 = f := by omega
  unfold unitsOf
  rw [hdiv, hmod, if_neg (by omega), unit, Nat.mul_assoc, ← Nat.pow_add]
  congr 2
  omega

theorem unitsOf_before_end : unitsOf (endWord - 1) = (2 ^ 63 - 1024) * unit := by
  have h := unitsOf_large 10 (f := 2 ^ 52 - 1) (by decide)
  rw [depth_eq] at h
  exact h

theorem unitsOf_end : unitsOf endWord = 2 ^ 63 * unit := by
  have h := unitsOf_large 11 (f := 0) (by decide)
  rw [depth_eq] at h
  exact h

theorem unitsOf_behind_end : unitsOf (endWord + 1) = (2 ^ 63 + 2048) * unit := by
  have h := unitsOf_large 11 (f := 1) (by decide)
  rw [depth_eq] at h
  exact h

theorem wholeMagnitude_lt_iff {x : Binary64} : x.wholeMagnitude < 2 ^ 63 ↔ x.magnitude < endWord := by
  rw [wholeMagnitude_eq, Nat.div_lt_iff_lt_mul unit_pos, ← unitsOf_end]
  exact unitsOf_strictMono.lt_iff_lt

theorem wholeMagnitude_le_iff {x : Binary64} :
    x.wholeMagnitude ≤ 2 ^ 63 ↔ x.magnitude ≤ endWord := by
  rw [wholeMagnitude_eq, ← Nat.lt_succ_iff, Nat.div_lt_iff_lt_mul unit_pos]
  constructor
  · intro h
    -- the next double is already further away than the next integer
    by_contra hgt
    have hnext := unitsOf_strictMono.monotone (Nat.succ_le_of_lt (Nat.not_le.mp hgt))
    rw [Nat.succ_eq_add_one, unitsOf_behind_end] at hnext
    have hmul : (2 ^ 63 + 1) * unit ≤ (2 ^ 63 + 2048) * unit := Nat.mul_le_mul_right _ (by decide)
    omega
  · intro h
    have hle := unitsOf_strictMono.monotone h
    rw [unitsOf_end] at hle
    have hmul : 2 ^ 63 * unit < (2 ^ 63 + 1) * unit :=
      Nat.mul_lt_mul_of_pos_right (by decide) unit_pos
    exact Nat.lt_of_le_of_lt hle hmul

theorem isFinite_of_magnitude {x : Binary64} (h : x.magnitude ≤ endWord) : x.isFinite = true := by
  have : x.biasedExponent = x.magnitude / 2 ^ 52 := rfl
  have : endWord = 1086 * 2 ^ 52 := rfl
  unfold isFinite
  rw [bne_iff_ne]
  omega

theorem inInt64Range_iff (x : Binary64) :
    x.inInt64Range = true ↔
      if x.negative = true then x.magnitude ≤ endWord else x.magnitude < endWord := by
  have hpow : Int.pow 2 63 = 2 ^ 63 := rfl
  have hfinite := isFinite_of_magnitude (x := x)
  have hlt := wholeMagnitude_lt_iff (x := x)
  have hle := wholeMagnitude_le_iff (x := x)
  unfold inInt64Range whole
  rw [hpow, Bool.and_eq_true, Bool.and_eq_true, decide_eq_true_eq, decide_eq_true_eq]
  split
  · rw [← hle]
    exact ⟨fun h => by omega, fun h => ⟨⟨hfinite (hle.mp h), by omega⟩, by omega⟩⟩
  · rw [← hlt]
    exact ⟨fun h => by omega, fun h => ⟨⟨hfinite (hlt.mp h).le, by omega⟩, by omega⟩⟩

/-! ## Nearest doubles -/

/-- At most the least double of the next exponent. -/
theorem nearestNat_le_of_log2 {n : Nat} (h0 : n ≠ 0) :
    nearestNat n ≤ (n.log2 + 1024) * 2 ^ 52 := by
  have hn : n < 2 ^ (n.log2 + 1) := Nat.lt_log2_self
  unfold nearestNat
  rw [if_neg h0]
  dsimp only
  split
  · rename_i htop
    have hpow : 2 ^ (n.log2 + 1) * 2 ^ (52 - n.log2) = 2 ^ 53 := by
      rw [← Nat.pow_add]
      congr 1
      omega
    have hmul : n * 2 ^ (52 - n.log2) < 2 ^ (n.log2 + 1) * 2 ^ (52 - n.log2) :=
      Nat.mul_lt_mul_of_pos_right hn (Nat.two_pow_pos _)
    rw [hpow] at hmul
    simp only [Nat.pow_eq]
    omega
  · rename_i htop
    have hpow : 2 ^ (n.log2 + 1) = 2 ^ 53 * 2 ^ (n.log2 - 52) := by
      rw [← Nat.pow_add]
      congr 1
      omega
    have hquotient : n / 2 ^ (n.log2 - 52) < 2 ^ 53 :=
      (Nat.div_lt_iff_lt_mul (Nat.two_pow_pos _)).mpr (hpow ▸ hn)
    simp only [Nat.pow_eq]
    split <;> omega

theorem nearestNat_lt {n : Nat} (h : n < 2 ^ 62) : nearestNat n < endWord := by
  have hend : endWord = 1086 * 2 ^ 52 := rfl
  by_cases h0 : n = 0
  · rw [h0]
    decide
  · have hlog : n.log2 < 62 := (Nat.log2_lt h0).mpr h
    have := nearestNat_le_of_log2 h0
    omega

/-- The last integers are a multiple of `1024` and a rest that decides. -/
theorem nearestNat_of_last {n : Nat} (hlow : 2 ^ 62 ≤ n) (hhigh : n < 2 ^ 63) :
    nearestNat n ≤ endWord ∧ (nearestNat n = endWord ↔ 2 ^ 63 - 512 ≤ n) := by
  have h0 : n ≠ 0 := by omega
  have hlog : n.log2 = 62 := by
    have := (Nat.log2_lt h0).mpr hhigh
    have := (Nat.le_log2 h0).mpr hlow
    omega
  have hend : endWord = 1086 * 2 ^ 52 := rfl
  unfold nearestNat
  rw [if_neg h0, hlog]
  simp only [Nat.pow_eq, Bool.or_eq_true, Bool.and_eq_true, decide_eq_true_eq, beq_iff_eq]
  rw [if_neg (by decide)]
  split <;> omega

theorem nearestNat_le {n : Nat} (h : n ≤ 2 ^ 63) : nearestNat n ≤ endWord := by
  rcases Nat.lt_or_ge n (2 ^ 62) with hlow | hlow
  · exact (nearestNat_lt hlow).le
  · rcases Nat.lt_or_eq_of_le h with h | rfl
    · exact (nearestNat_of_last hlow h).1
    · decide

theorem nearestNat_eq_end_iff {n : Nat} (h : n < 2 ^ 63) :
    nearestNat n = endWord ↔ 2 ^ 63 - 512 ≤ n := by
  rcases Nat.lt_or_ge n (2 ^ 62) with hlow | hlow
  · have := nearestNat_lt hlow
    omega
  · exact (nearestNat_of_last hlow h).2

theorem rank_ofInt {i : Int} (hlow : -2 ^ 63 ≤ i) (hhigh : i < 2 ^ 63) :
    (ofInt i).rank = if i < 0 then -1 - (nearestNat i.natAbs : Int) else nearestNat i.natAbs := by
  have hend : endWord = 1086 * 2 ^ 52 := rfl
  have hle : nearestNat i.natAbs ≤ endWord := nearestNat_le (by omega)
  have hbits : (ofInt i).bits.toNat = (if i < 0 then 2 ^ 63 else 0) + nearestNat i.natAbs := by
    unfold ofInt
    simp only [Nat.pow_eq]
    rw [UInt64.toNat_ofNat', Nat.mod_eq_of_lt]
    split <;> omega
  have hmagnitude : (ofInt i).magnitude = nearestNat i.natAbs := by
    have : (ofInt i).magnitude = (ofInt i).bits.toNat % 2 ^ 63 := rfl
    rw [this, hbits]
    split <;> omega
  have hnegative : (ofInt i).negative = true ↔ i < 0 := by
    rw [negative_iff, hbits]
    split <;> omega
  unfold rank
  rw [hmagnitude]
  simp only [hnegative]

theorem rank_ofInt_bounds {i : Int} (hlow : -2 ^ 63 ≤ i) (hhigh : i < 2 ^ 63) :
    -1 - (endWord : Int) ≤ (ofInt i).rank ∧ (ofInt i).rank ≤ endWord := by
  have hle : nearestNat i.natAbs ≤ endWord := nearestNat_le (by omega)
  rw [rank_ofInt hlow hhigh]
  split <;> omega

theorem rank_ofInt_eq_end_iff {i : Int} (hlow : -2 ^ 63 ≤ i) (hhigh : i < 2 ^ 63) :
    (ofInt i).rank = endWord ↔ 2 ^ 63 - 512 ≤ i := by
  rw [rank_ofInt hlow hhigh]
  split
  · omega
  · have := nearestNat_eq_end_iff (n := i.natAbs) (by omega)
    omega

/-! ## Comparison -/

/-- `int64End` is compared with the integers nearest to it as if it were each of them. -/
def Swallows (x : Binary64) (i : Int) : Prop := x = int64End ∧ 2 ^ 63 - 512 ≤ i

instance (x : Binary64) (i : Int) : Decidable (x.Swallows i) := inferInstanceAs (Decidable (_ ∧ _))

theorem rank_eq_end_iff {x : Binary64} : x.rank = endWord ↔ x = int64End := by
  have hrank : int64End.rank = endWord := by decide
  rw [← hrank]
  exact ⟨rank_inj, congrArg rank⟩

theorem units_int64End : int64End.units = 2 ^ 63 * unit := by
  unfold units
  rw [if_neg (by decide), magnitude_int64End, unitsOf_end]
  rfl

/-- A double beyond the integers is beyond them by its word and by its count. -/
theorem of_not_inInt64Range {x : Binary64} (h : ¬ x.inInt64Range = true) :
    (x.rank < -1 - (endWord : Int) ∧ x.units < -2 ^ 63 * unit) ∨
      ((endWord : Int) ≤ x.rank ∧ 2 ^ 63 * unit ≤ x.units) := by
  rw [inInt64Range_iff] at h
  unfold rank units
  split at h <;> rename_i hneg
  · have hlt := unitsOf_strictMono (Nat.not_le.mp h)
    rw [unitsOf_end] at hlt
    rw [if_pos hneg, if_pos hneg]
    omega
  · have hle := unitsOf_strictMono.monotone (Nat.not_lt.mp h)
    rw [unitsOf_end] at hle
    rw [if_neg hneg, if_neg hneg]
    omega

/-- Apart from the integers that `int64End` swallows, an integer and a double are compared by exact
value, also where the double is beyond all integers of 64 bits. -/
theorem compareInt_eq {i : Int} {x : Binary64} (hlow : -2 ^ 63 ≤ i) (hhigh : i < 2 ^ 63) :
    compareInt i x = if x.Swallows i then .eq else compare (i * unit) x.units := by
  have hpos := int_unit_pos
  obtain ⟨hleast, hmost⟩ := rank_ofInt_bounds hlow hhigh
  have hend := rank_ofInt_eq_end_iff hlow hhigh
  unfold compareInt
  by_cases hrange : x.inInt64Range = true
  · have hne : ¬ x.Swallows i := by
      rintro ⟨rfl, -⟩
      exact absurd hrange (by decide)
    rw [if_pos hrange, if_neg hne]
    exact compare_whole i x
  rw [if_neg hrange, compareTotal]
  rcases of_not_inInt64Range hrange with ⟨hrank, hunits⟩ | ⟨hrank, hunits⟩
  · -- below all integers
    have hmul : -2 ^ 63 * (unit : Int) ≤ i * unit := Int.mul_le_mul_of_nonneg_right hlow hpos.le
    have hne : ¬ x.Swallows i := by
      rintro ⟨rfl, -⟩
      exact absurd (rank_eq_end_iff.mpr rfl) (by omega)
    rw [if_neg hne, compare_gt_iff_gt.mpr (by omega), compare_gt_iff_gt.mpr (by omega)]
  · have hmul : i * unit < 2 ^ 63 * (unit : Int) := Int.mul_lt_mul_of_pos_right hhigh hpos
    by_cases hswallows : x.Swallows i
    · have hx := rank_eq_end_iff.mpr hswallows.1
      rw [if_pos hswallows, hx, hend.mpr hswallows.2, Std.compare_self]
    · -- only the integers swallowed come up to the end, and only `int64End` stands there
      have hlt : (ofInt i).rank < x.rank := by
        rcases Int.lt_or_eq_of_le hrank with hlt | heq
        · omega
        · have hi := mt (fun hi => ⟨rank_eq_end_iff.mp heq.symm, hend.mp hi⟩) hswallows
          omega
      rw [if_neg hswallows, compare_lt_iff_lt.mpr hlt, compare_lt_iff_lt.mpr (by omega)]

/-- Two doubles are ordered by their counts, the zeros by their signs. -/
theorem rank_le_iff {x y : Binary64} :
    x.rank ≤ y.rank ↔
      x.units < y.units ∨ (x.units = y.units ∧ (x.negative = true ∨ y.negative = false)) := by
  have hlt : unitsOf x.magnitude < unitsOf y.magnitude ↔ x.magnitude < y.magnitude :=
    unitsOf_strictMono.lt_iff_lt
  have hgt : unitsOf y.magnitude < unitsOf x.magnitude ↔ y.magnitude < x.magnitude :=
    unitsOf_strictMono.lt_iff_lt
  unfold rank units
  cases hx : x.negative <;> cases hy : y.negative <;> simp
  all_goals omega

/-- There is no double among the last integers below `int64End`. -/
theorem units_le_of_rank_lt {x : Binary64} (h : x.rank < endWord) :
    x.units ≤ (2 ^ 63 - 1024) * unit := by
  have hpos := int_unit_pos
  unfold rank units at *
  split <;> rename_i hneg
  · omega
  · rw [if_neg hneg] at h
    have hle := unitsOf_strictMono.monotone (show x.magnitude ≤ endWord - 1 by omega)
    rw [unitsOf_before_end] at hle
    have hcast : (((2 ^ 63 - 1024) * unit : Nat) : Int) = (2 ^ 63 - 1024) * unit := rfl
    omega

theorem isZero_iff {x : Binary64} : x.isZero = true ↔ x.units = 0 := by
  have hzero : unitsOf x.magnitude = 0 ↔ x.magnitude = 0 := by
    rw [← unitsOf_strictMono.injective.eq_iff (a := x.magnitude)]
    rfl
  unfold isZero units
  rw [beq_iff_eq]
  split <;> omega

theorem eq_or_isZero_of_units_eq {x y : Binary64} (h : x.units = y.units) :
    x = y ∨ (x.isZero = true ∧ y.isZero = true) := by
  rw [isZero_iff, isZero_iff]
  by_cases hs : x.negative = y.negative
  · refine .inl (eq_of_magnitude hs (unitsOf_strictMono.injective ?_))
    unfold units at h
    rw [hs] at h
    split at h <;> omega
  · -- a count and its opposite
    refine .inr ?_
    unfold units at h ⊢
    cases hx : x.negative <;> cases hy : y.negative <;> simp [hx, hy] at h hs ⊢ <;> omega

def negativeZero : Binary64 := ⟨0x8000000000000000⟩

theorem eq_zeros {x y : Binary64} (hx : x.isZero = true) (hy : y.isZero = true)
    (h : y.rank < x.rank) : x = zero ∧ y = negativeZero := by
  unfold isZero at hx hy
  rw [beq_iff_eq] at hx hy
  unfold rank at h
  rw [hx, hy] at h
  have hsign : x.negative = false ∧ y.negative = true := by
    cases hnx : x.negative <;> cases hny : y.negative <;> simp [hnx, hny] at h ⊢
  exact ⟨eq_of_magnitude (hsign.1.trans (by decide)) (hx.trans (by decide)),
    eq_of_magnitude (hsign.2.trans (by decide)) (hy.trans (by decide))⟩

/-! ## Doubles that are integers -/

theorem toInteger?_eq_some_iff {x : Binary64} {i : Int} :
    x.toInteger? = some i ↔ x.units = i * unit ∧ -2 ^ 63 ≤ i ∧ i < 2 ^ 63 := by
  have hpos := int_unit_pos
  have hwhole := compare_whole i x
  unfold toInteger?
  constructor
  · intro h
    split at h
    · rename_i hx
      rw [Bool.and_eq_true, Bool.not_eq_true'] at hx
      cases h
      rw [hx.2, Std.compare_self] at hwhole
      refine ⟨(compare_eq_iff_eq.mp hwhole.symm).symm, ?_⟩
      have hrange := hx.1
      unfold inInt64Range at hrange
      rw [Bool.and_eq_true, Bool.and_eq_true, decide_eq_true_eq, decide_eq_true_eq] at hrange
      exact ⟨hrange.1.2, hrange.2⟩
    · cases h
  · rintro ⟨hunits, hlow, hhigh⟩
    have hrange : x.inInt64Range = true := by
      by_contra hrange
      have hleast : -2 ^ 63 * (unit : Int) ≤ i * unit := Int.mul_le_mul_of_nonneg_right hlow hpos.le
      have hmost : i * unit < 2 ^ 63 * (unit : Int) := Int.mul_lt_mul_of_pos_right hhigh hpos
      rcases of_not_inInt64Range hrange with ⟨-, h⟩ | ⟨-, h⟩ <;> omega
    rw [hunits, Std.compare_self, Ordering.then_eq_eq, compare_eq_iff_eq] at hwhole
    obtain ⟨hi, hfraction⟩ := hwhole
    have hexact : x.hasFraction = false := by
      by_contra hf
      rw [Bool.not_eq_false] at hf
      rw [if_pos hf] at hfraction
      split at hfraction <;> cases hfraction
    rw [hrange, hexact, hi]
    rfl

end Binary64

end RelQuery
