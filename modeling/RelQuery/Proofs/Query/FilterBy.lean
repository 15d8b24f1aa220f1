import RelQuery.Proofs.Expr.OriginLook
import RelQuery.Proofs.Query.Rows
import RelQuery.Query.Pushdown

/-!
# Filters by many conjuncts

The passes take filters apart into conjuncts and filter by them again elsewhere. A filter by some
conjuncts has the names of its input, and the rows in which all of them hold.
-/

namespace RelQuery

namespace Query

theorem schema_filterBy (es : List Expr) (q : Query) : (filterBy es q).schema = q.schema := by
  unfold filterBy; split <;> rfl

theorem qualifiers_filterBy (es : List Expr) (q : Query) :
    (filterBy es q).qualifiers = q.qualifiers := by
  unfold filterBy; split <;> rfl

/-! ## Looking up columns -/

theorem lookIn_congr {q q' : Query} (hs : q'.schema = q.schema)
    (hq : q'.qualifiers = q.qualifiers) : q'.lookIn = q.lookIn := by
  funext row
  rw [lookIn, lookIn, hs, hq]

theorem lookIn_congr_of_mem {q q' : Query} (hs : q'.schema = q.schema)
    (hq : ∀ x, x ∈ q'.qualifiers ↔ x ∈ q.qualifiers) : q'.lookIn = q.lookIn := by
  funext row x n
  unfold lookIn
  rw [hs]
  cases x with
  | none => rw [Source.look_unqualified, Source.look_unqualified]
  | some x =>
    have howns : (⟨row, q.schema, some q'.qualifiers⟩ : Source).owns (Text.lower x) =
        (⟨row, q.schema, some q.qualifiers⟩ : Source).owns (Text.lower x) := by
      have hcontains : q'.qualifiers.contains (Text.lower x) =
          q.qualifiers.contains (Text.lower x) := by
        rw [Bool.eq_iff_iff, List.contains_iff_mem, List.contains_iff_mem]
        exact hq _
      rw [Source.owns, Source.owns, Option.any_some, Option.any_some, hcontains]
    rw [Source.look_qualified, Source.look_qualified, howns]

/-! ## Rows -/

theorem isReadOnly_filterBy (es : List Expr) (q : Query) :
    (filterBy es q).isReadOnly = q.isReadOnly := by
  unfold filterBy; split <;> rfl

def allHold (q : Query) (es : List Expr) (row : Row) : Bool := es.all (·.holdsIn (q.lookIn row))

theorem allHold_congr {q q' : Query} (hs : q'.schema = q.schema)
    (hq : q'.qualifiers = q.qualifiers) : q'.allHold = q.allHold := by
  funext es row
  rw [allHold, allHold, lookIn_congr hs hq]

theorem filter_allHold_nil (q : Query) (rs : List Row) : rs.filter (q.allHold []) = rs :=
  List.filter_eq_self.mpr fun _ _ => rfl

theorem rows_filterBy (c : Catalog) (es : List Expr) (q : Query) :
    (filterBy es q).rows c = (q.rows c).filter (q.allHold es) := by
  cases es with
  | nil => exact (filter_allHold_nil q _).symm
  | cons e es =>
    refine List.filter_congr fun row _ => ?_
    rw [Expr.holdsIn_conjoin]
    rfl

end Query

end RelQuery
