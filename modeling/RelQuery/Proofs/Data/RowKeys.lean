import Mathlib.Data.List.Forall2
import RelQuery.Proofs.Data.KeyComparison

/-!
# Keys of rows

The bytes of a key part never begin those of another one, so the key of a row tells how many values
the row has and which part of each it keeps. `Value.normal` says on its own what that part is: of a
double that is an integer of 64 bits it is this integer, and all NaNs are one.
-/

namespace RelQuery

/-! ## Values up to their keys -/

inductive NormalValue
  | null
  | bool (b : Bool)
  | integer (i : Int)
  | nan
  | word (bits : UInt64)
  | string (s : String)
deriving DecidableEq

/-- A whole number from `-2 ^ 63` on and below `2 ^ 63`. -/
def Binary64.IsInt64 (x : Binary64) : Prop :=
  (unit : Int) ∣ x.units ∧ -2 ^ 63 * unit ≤ x.units ∧ x.units < 2 ^ 63 * unit

instance (x : Binary64) : Decidable x.IsInt64 := inferInstanceAs (Decidable (_ ∧ _ ∧ _))

def Value.normal : Value → NormalValue
  | null => .null
  | bool b => .bool b
  | int i => .integer i.toInt
  | bigint i => .integer i.toInt
  | float x =>
    if x.isNaN then .nan
    else if x.IsInt64 then .integer (x.units / Binary64.unit)
    else .word x.bits
  | string s => .string s

theorem Binary64.isInt64_iff {x : Binary64} : x.IsInt64 ↔ ∃ i, x.toInteger? = some i := by
  simp only [toInteger?_eq_some_iff]
  constructor
  · rintro ⟨⟨i, hi⟩, hlow, hhigh⟩
    rw [Int.mul_comm] at hi
    rw [hi] at hlow hhigh
    exact ⟨i, hi, Int.le_of_mul_le_mul_right hlow int_unit_pos,
      Int.lt_of_mul_lt_mul_right hhigh (Int.le_of_lt int_unit_pos)⟩
  · rintro ⟨i, hi, hlow, hhigh⟩
    rw [IsInt64, hi]
    exact ⟨Int.dvd_mul_left _ _, Int.mul_le_mul_of_nonneg_right hlow (Int.le_of_lt int_unit_pos),
      Int.mul_lt_mul_of_pos_right hhigh int_unit_pos⟩

namespace KeyPart

def normal : KeyPart → NormalValue
  | null => .null
  | bool b => .bool b
  | integer i => .integer i.toInt
  | float x => if x.isNaN then .nan else .word x.bits
  | string s => .string s

theorem normal_ofFloat (x : Binary64) : (ofFloat x).normal = (Value.float x).normal := by
  unfold ofFloat
  simp only [Value.normal]
  cases hx : x.toInteger? with
  | some i =>
    obtain ⟨hunits, hlow, hhigh⟩ := Binary64.toInteger?_eq_some_iff.mp hx
    have hnan : ¬ x.isNaN = true := fun h => by
      rw [Binary64.toInteger?_of_isNaN h] at hx
      cases hx
    have hdiv : x.units / Binary64.unit = i := by
      rw [hunits, Int.mul_ediv_cancel _ (Int.ne_of_gt Binary64.int_unit_pos)]
    dsimp only
    rw [if_neg hnan, if_pos (Binary64.isInt64_iff.mpr ⟨i, hx⟩), hdiv]
    exact congrArg NormalValue.integer (Int64.toInt_ofInt_of_le hlow hhigh)
  | none =>
    have hint : ¬ x.IsInt64 := fun h => by
      obtain ⟨i, hi⟩ := Binary64.isInt64_iff.mp h
      rw [hx] at hi
      cases hi
    rw [if_neg hint]
    by_cases hnan : x.isNaN = true
    · simp [normal, hnan, show Binary64.nan.isNaN = true by decide]
    · simp [normal, hnan]

theorem normal_of (v : Value) : (of v).normal = v.normal := by
  cases v with
  | int i =>
    have hlow := i.le_toInt
    have hhigh := i.toInt_lt
    exact congrArg NormalValue.integer (Int64.toInt_ofInt_of_le (by omega) (by omega))
  | float x => exact normal_ofFloat x
  | null | bool | bigint | string => rfl

theorem eq_nan_of_of {v : Value} {x : Binary64} (h : of v = float x) (hx : x.isNaN = true) :
    x = .nan := by
  cases v with
  | float y =>
    simp only [of, ofFloat] at h
    split at h
    · cases h
    · rw [float.injEq] at h
      split at h
      · exact h.symm
      · rename_i hy
        rw [h] at hy
        exact absurd hx hy
  | null | bool | int | bigint | string => cases h

theorem of_eq_iff {v w : Value} : of v = of w ↔ v.normal = w.normal := by
  rw [← normal_of v, ← normal_of w]
  refine ⟨congrArg normal, fun h => ?_⟩
  cases hv : of v <;> cases hw : of w <;> rw [hv, hw] at h <;> simp only [normal] at h
  case integer.integer i j => rw [Int64.toInt_inj.mp (NormalValue.integer.inj h)]
  case float.float x y =>
    by_cases hx : x.isNaN = true <;> by_cases hy : y.isNaN = true <;>
      simp only [hx, hy, if_true, if_false, Bool.false_eq_true] at h
    · rw [eq_nan_of_of hv hx, eq_nan_of_of hw hy]
    · cases h
    · cases h
    · exact congrArg (fun b => float ⟨b⟩) (NormalValue.word.inj h)
  all_goals first | (cases h; rfl) | cases h | (split at h <;> cases h)

/-! ## Bytes in front of bytes -/

/-- The length of a text fits the eight bytes in front of it. -/
def IsShort : KeyPart → Prop
  | string s => s.utf8ByteSize < 2 ^ 64
  | _ => True

/-- The tag tells how long a part is, and for a text the eight bytes behind the tag do. -/
theorem length_eq_of_append_eq {p q : KeyPart} (hp : p.IsShort) (hq : q.IsShort) {bs cs : List UInt8}
    (h : p.bytes ++ bs = q.bytes ++ cs) : p.bytes.length = q.bytes.length := by
  cases p <;> cases q <;> try exact absurd (List.cons.inj h).1 (by decide)
  case null.null | bool.bool => rfl
  case integer.integer | float.float => simp [bytes, length_bytesOf]
  case string.string s t =>
    unfold bytes at h ⊢
    simp only [List.cons_append, List.append_assoc] at h
    have hlength := (List.append_inj (List.cons.inj h).2 (by rw [length_bytesOf, length_bytesOf])).1
    have hmod := mod_eq_of_bytesOf_eq hlength
    have hsize (u : String) : u.toUTF8.data.toList.length = u.utf8ByteSize := by simp
    have hpow : 256 ^ 8 = 2 ^ 64 := by decide
    rw [hsize, hsize, hpow, Nat.mod_eq_of_lt hp, Nat.mod_eq_of_lt hq] at hmod
    simp [length_bytesOf, hmod]

theorem append_inj {p q : KeyPart} (hp : p.IsShort) (hq : q.IsShort) {bs cs : List UInt8}
    (h : p.bytes ++ bs = q.bytes ++ cs) : p = q ∧ bs = cs := by
  obtain ⟨hbytes, hrest⟩ := List.append_inj h (length_eq_of_append_eq hp hq h)
  exact ⟨bytes_inj hbytes, hrest⟩

theorem bytes_ne_nil (p : KeyPart) : p.bytes ≠ [] := by
  cases p <;> simp [bytes]

theorem flatMap_bytes_inj : ∀ {ps qs : List KeyPart}, (∀ p ∈ ps, p.IsShort) → (∀ q ∈ qs, q.IsShort) →
    ps.flatMap bytes = qs.flatMap bytes → ps = qs
  | [], [], _, _, _ => rfl
  | [], q :: qs, _, _, h => by
    rw [List.flatMap_cons] at h
    exact absurd (List.append_eq_nil_iff.mp h.symm).1 q.bytes_ne_nil
  | p :: ps, [], _, _, h => by
    rw [List.flatMap_cons] at h
    exact absurd (List.append_eq_nil_iff.mp h).1 p.bytes_ne_nil
  | p :: ps, q :: qs, hps, hqs, h => by
    rw [List.forall_mem_cons] at hps hqs
    rw [List.flatMap_cons, List.flatMap_cons] at h
    obtain ⟨rfl, hrest⟩ := append_inj hps.1 hqs.1 h
    rw [flatMap_bytes_inj hps.2 hqs.2 hrest]

end KeyPart

/-! ## Rows -/

/-- The key tells the length of a text in eight bytes; no text in memory is longer than that. -/
def Value.FitsKey : Value → Prop
  | string s => s.utf8ByteSize < 2 ^ 64
  | _ => True

instance : ∀ v : Value, Decidable v.FitsKey
  | .string _ => inferInstanceAs (Decidable (_ < _))
  | .null | .bool _ | .int _ | .bigint _ | .float _ => inferInstanceAs (Decidable True)

theorem Value.FitsKey.isShort {v : Value} (h : v.FitsKey) : (KeyPart.of v).IsShort := by
  cases v with
  | string s => exact h
  | float x =>
    simp only [KeyPart.of, KeyPart.ofFloat]
    cases x.toInteger? <;> trivial
  | null | bool | int | bigint => trivial

namespace Key

theorem ofRow_eq (row : Row) : ofRow row = (row.map KeyPart.of).flatMap KeyPart.bytes := by
  rw [List.flatMap_map]
  rfl

/-- Two rows have one key exactly if they are equally long and have the same normal values. -/
theorem ofRow_eq_iff {vs ws : Row} (hvs : ∀ v ∈ vs, v.FitsKey) (hws : ∀ w ∈ ws, w.FitsKey) :
    ofRow vs = ofRow ws ↔ vs.map Value.normal = ws.map Value.normal := by
  have hnormal : Value.normal = KeyPart.normal ∘ KeyPart.of := funext fun v => (KeyPart.normal_of v).symm
  rw [ofRow_eq, ofRow_eq]
  constructor
  · intro h
    have hparts := KeyPart.flatMap_bytes_inj
      (List.forall_mem_map.mpr fun v hv => (hvs v hv).isShort)
      (List.forall_mem_map.mpr fun w hw => (hws w hw).isShort) h
    rw [hnormal, ← List.map_map, ← List.map_map, hparts]
  · intro h
    -- equal normal values come from equal parts, place by place
    have hparts : vs.map KeyPart.of = ws.map KeyPart.of := by
      rw [← List.forall₂_eq_eq_eq, List.forall₂_map_left_iff, List.forall₂_map_right_iff] at h ⊢
      exact h.imp fun v w => KeyPart.of_eq_iff.mpr
    rw [hparts]

/-- A text split elsewhere, and a one of another type. -/
theorem ofRow_eq_iff_of_labels :
    (∀ v ∈ [Value.string "ab", .string "c", .int 1], v.FitsKey) ∧
      (∀ v ∈ [Value.string "a", .string "bc", .int 1], v.FitsKey) ∧
      (∀ v ∈ [Value.string "ab", .string "c", .float ⟨0x3ff0000000000000⟩], v.FitsKey) ∧
      ofRow [.string "ab", .string "c", .int 1] ≠ ofRow [.string "a", .string "bc", .int 1] ∧
      [Value.string "ab", .string "c", .int 1].map Value.normal =
        [Value.string "ab", .string "c", .float ⟨0x3ff0000000000000⟩].map Value.normal := by
  have hab : ∀ v ∈ [Value.string "ab", .string "c", .int 1], v.FitsKey := by decide
  have ha : ∀ v ∈ [Value.string "a", .string "bc", .int 1], v.FitsKey := by decide
  have hone : ∀ v ∈ [Value.string "ab", .string "c", .float ⟨0x3ff0000000000000⟩], v.FitsKey := by
    decide
  refine ⟨hab, ha, hone, fun h => ?_, (ofRow_eq_iff hab hone).mp (by decide +kernel)⟩
  exact absurd ((ofRow_eq_iff hab ha).mp h) (by decide)

end Key

end RelQuery
