import RelQuery.Data.Schema
import RelQuery.Proofs.Data.Lists

/-!
# Rows that fit a schema

A schema's check of a row accepts exactly the rows that have one value per column, each of its
column's type, and leaves them as they are.
-/

namespace RelQuery

/-- The values that may stand in a column of a type. No type has `null`. -/
inductive Value.HasType : Value → DataType → Prop
  | int (i : Int32) : HasType (.int i) .int
  | bigint (i : Int64) : HasType (.bigint i) .bigint
  | bool (b : Bool) : HasType (.bool b) .boolean
  | float (x : Binary64) : HasType (.float x) .float
  | string (s : String) : HasType (.string s) .string
  | varchar {s : String} {max : UInt32} : s.length ≤ max.toNat → HasType (.string s) (.varchar max)

theorem Value.HasType.exists_toInt? {v : Value} {t : DataType} (h : v.HasType t)
    (ht : t = .int ∨ t = .bigint) : ∃ n, v.toInt? = some n := by
  cases h with
  | int i | bigint i => exact ⟨_, rfl⟩
  | _ => simp at ht

namespace Schema

def Admits (s : Schema) (row : Row) : Prop :=
  List.Forall₂ (fun c v => Value.HasType v c.type) s.columns row

theorem faultOf_eq_none_iff {c : Column} {v : Value} : faultOf c v = none ↔ v.HasType c.type := by
  obtain ⟨name, t⟩ := c
  constructor
  · intro h
    cases t with
    | varchar max =>
      cases v with
      | string s =>
        simp only [faultOf, ite_eq_left_iff, reduceCtorEq, imp_false, not_not] at h
        exact .varchar h
      | _ => simp [faultOf, Value.fits] at h
    | _ =>
      cases v <;> simp [faultOf, Value.fits] at h
      constructor
  · intro h
    cases h with
    | varchar h => simp [faultOf, h]
    | _ => simp [faultOf, Value.fits]

theorem admits_iff {s : Schema} {row : Row} :
    s.Admits row ↔ row.length = s.width ∧
      (s.columns.zip row).findSome? (fun (c, v) => faultOf c v) = none := by
  rw [Admits, List.forall₂_iff_zip, List.findSome?_eq_none_iff, width, eq_comm]
  refine and_congr_right fun _ => ⟨fun h x hx => faultOf_eq_none_iff.mpr (h hx), fun h a b hab => ?_⟩
  exact faultOf_eq_none_iff.mp (h (a, b) hab)

theorem checkRow_eq_ok_iff {s : Schema} {row row' : Row} :
    s.checkRow row = .ok row' ↔ row' = row ∧ s.Admits row := by
  rw [checkRow, admits_iff]
  split
  · rename_i hw
    exact iff_of_false (fun h => nomatch h) fun h => hw h.2.1
  · rename_i hw
    rw [not_not] at hw
    split <;> rename_i e
    · simp [e]
    · simp [e, hw, eq_comm]

end Schema

end RelQuery
