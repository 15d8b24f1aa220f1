import Mathlib.Algebra.Group.Nat.Defs
import RelQuery.Data.Key
import RelQuery.Proofs.Data.Order

/-!
# Keys and comparison

The bytes of a key tell which part of a value it keeps, and of a value that is no float this part
forgets nothing but the width of an integer. So two such values of one kind have the same key exactly
if they compare as equal. Floats are left out: a zero and its negative have one key, but differ.
-/

namespace RelQuery

namespace KeyPart

/-! ## Bytes -/

/-- The lowest `count` bytes tell a number modulo `256 ^ count`. -/
theorem mod_eq_of_bytesOf_eq {n m : Nat} : ∀ {count : Nat}, bytesOf count n = bytesOf count m →
    n % 256 ^ count = m % 256 ^ count
  | 0, _ => by rw [Nat.pow_zero, Nat.mod_one, Nat.mod_one]
  | count + 1, h => by
    unfold bytesOf at h
    rw [List.range_succ, List.map_append, List.map_append] at h
    obtain ⟨hlow, htop⟩ := List.append_inj h (by rw [List.length_map, List.length_map])
    have hbyte : n / 256 ^ count % 256 = m / 256 ^ count % 256 := by
      have := congrArg UInt8.toNat (List.cons.inj htop).1
      rwa [UInt8.toNat_ofNat', UInt8.toNat_ofNat'] at this
    rw [Nat.mod_pow_succ, Nat.mod_pow_succ, mod_eq_of_bytesOf_eq hlow, hbyte]

theorem length_bytesOf (count n : Nat) : (bytesOf count n).length = count := by
  rw [bytesOf, List.length_map, List.length_range]

theorem word_eq_of_bytesOf_eq {x y : UInt64} (h : bytesOf 8 x.toNat = bytesOf 8 y.toNat) :
    x = y := by
  have hmod := mod_eq_of_bytesOf_eq h
  have hx : x.toNat < 256 ^ 8 := x.toNat_lt
  have hy : y.toNat < 256 ^ 8 := y.toNat_lt
  rw [Nat.mod_eq_of_lt hx, Nat.mod_eq_of_lt hy] at hmod
  exact UInt64.toNat_inj.mp hmod

theorem bytes_inj {p q : KeyPart} (h : p.bytes = q.bytes) : p = q := by
  have hpayload := congrArg List.tail h
  -- parts of different sorts have different tags
  cases p <;> cases q <;> try exact absurd (List.cons.inj h).1 (by decide)
  case null.null => rfl
  case bool.bool a b => cases a <;> cases b <;> first | rfl | cases hpayload
  case integer.integer i j =>
    have hword := congrArg UInt64.toInt64 (word_eq_of_bytesOf_eq hpayload)
    rw [Int64.toInt64_toUInt64, Int64.toInt64_toUInt64] at hword
    rw [hword]
  case float.float x y => exact congrArg (fun w => float ⟨w⟩) (word_eq_of_bytesOf_eq hpayload)
  case string.string s t =>
    -- eight bytes tell the length, so the texts begin at the same place
    have htext := (List.append_inj hpayload (by rw [length_bytesOf, length_bytesOf])).2
    have hbytes : s.toByteArray = t.toByteArray := ByteArray.ext (Array.toList_inj.mp htext)
    rw [String.toByteArray_inj.mp hbytes]

end KeyPart

namespace Value

/-! ## Integers -/

/-- The width of an integer shows neither in its key nor in comparison. -/
theorem of_toInt? {v : Value} {n : Int} (h : v.toInt? = some n) :
    v.isNull = false ∧ v.number? = some (.integer n) ∧ KeyPart.of v = .integer (Int64.ofInt n) ∧
      (Int64.ofInt n).toInt = n := by
  cases v with
  | int i =>
    cases h
    have hlow := i.le_toInt
    have hhigh := i.toInt_lt
    exact ⟨rfl, rfl, rfl, Int64.toInt_ofInt_of_le (by omega) (by omega)⟩
  | bigint i =>
    cases h
    exact ⟨rfl, rfl, by rw [Int64.ofInt_toInt]; rfl, by rw [Int64.ofInt_toInt]⟩
  | null | bool | float | string => cases h

/-! ## Equal keys -/

/-- Unless one of them is null, they are compared, and are equal exactly if their keys are. -/
def KeyedAlike (v w : Value) : Prop :=
  v.isNull = false → w.isNull = false →
    ∃ o, v.compare w = .ok o ∧ (o = .eq ↔ Key.forJoin v = Key.forJoin w)

theorem KeyedAlike.comparable {v w : Value} (h : v.KeyedAlike w) : v.Comparable w := fun hv hw =>
  have ⟨o, ho, _⟩ := h hv hw
  ⟨o, ho⟩

theorem forJoin_eq_iff {v w : Value} (hv : v.isNull = false) (hw : w.isNull = false) :
    Key.forJoin v = Key.forJoin w ↔ KeyPart.of v = KeyPart.of w := by
  simp only [Key.forJoin, hv, hw, Bool.false_eq_true, if_false, Option.some.injEq]
  exact ⟨KeyPart.bytes_inj, congrArg KeyPart.bytes⟩

theorem keyedAlike_of_toInt? {v w : Value} {n m : Int} (hv : v.toInt? = some n)
    (hw : w.toInt? = some m) : v.KeyedAlike w := by
  obtain ⟨hv, hvn, hvk, hn⟩ := of_toInt? hv
  obtain ⟨hw, hwn, hwk, hm⟩ := of_toInt? hw
  have hcompare : v.compare w = .ok (Ord.compare n m) := by
    cases v <;> cases hvn <;> cases w <;> cases hwn <;> rfl
  refine fun _ _ => ⟨_, hcompare, ?_⟩
  rw [Std.compare_eq_iff_eq, forJoin_eq_iff hv hw, hvk, hwk, KeyPart.integer.injEq]
  refine ⟨fun h => by rw [h], fun h => ?_⟩
  rw [← hn, h, hm]

theorem keyedAlike {v w : Value} (hfloat : v.isFloat = false) (hfloat' : w.isFloat = false)
    (h : v.kindRank = w.kindRank) : v.KeyedAlike w := by
  cases v with
  | null => exact fun hv => nomatch hv
  | float => cases hfloat
  | int | bigint =>
    cases w with
    | int | bigint => exact keyedAlike_of_toInt? rfl rfl
    | float => cases hfloat'
    | null | bool | string => cases h
  | bool a =>
    cases w with
    | bool b =>
      refine fun _ _ => ⟨_, rfl, ?_⟩
      rw [Std.compare_eq_iff_eq, forJoin_eq_iff rfl rfl]
      simp [KeyPart.of]
    | null | int | bigint | string => cases h
    | float => cases hfloat'
  | string s =>
    cases w with
    | string t =>
      refine fun _ _ => ⟨_, rfl, ?_⟩
      rw [Std.compare_eq_iff_eq, forJoin_eq_iff rfl rfl]
      simp [KeyPart.of]
    | null | bool | int | bigint => cases h
    | float => cases hfloat'

end Value

end RelQuery
