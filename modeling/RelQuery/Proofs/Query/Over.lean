import RelQuery.Proofs.Data.Lists
import RelQuery.Proofs.Query.Rows
import RelQuery.Proofs.Store.Catalog

/-!
# Queries over a catalog

Queries that the builders make over the tables of a catalog: scans carry their tables' schemas, the
other nodes the schemas computed from their inputs'. Every row of such a query has one cell per
column.
-/

namespace RelQuery

namespace Query

/-- Scans carry the schemas of their tables, other nodes those made from their inputs'. -/
def IsOver (c : Catalog) : Query → Prop
  | scan t _ s => ∃ table, c.find? t = some table ∧ s = table.schema
  | insert .. => False
  | filter _ q => q.IsOver c
  | project is s q => itemSchema q.schema is = .ok s ∧ q.IsOver c
  | aggregate _ os s q => itemSchema q.schema os = .ok s ∧ q.IsOver c
  | join _ _ s l r => s = l.schema.join r.schema r.qualifier ∧ l.IsOver c ∧ r.IsOver c

instance decidableIsOver (c : Catalog) : ∀ q : Query, Decidable (q.IsOver c)
  | scan t _ s =>
    match h : c.find? t with
    | none => isFalse fun ⟨_, ht, _⟩ => by rw [h] at ht; cases ht
    | some table =>
      decidable_of_iff (s = table.schema)
        ⟨fun e => ⟨table, h, e⟩, fun ⟨_, ht, e⟩ => by rw [h] at ht; cases ht; exact e⟩
  | insert .. => inferInstanceAs (Decidable False)
  | filter _ q => decidableIsOver c q
  | project is s q =>
    have := decidableIsOver c q
    decidable_of_iff ((itemSchema q.schema is).toOption = some s ∧ q.IsOver c)
      (and_congr_left' (by cases itemSchema q.schema is <;> simp [Except.toOption]))
  | aggregate _ os s q =>
    have := decidableIsOver c q
    decidable_of_iff ((itemSchema q.schema os).toOption = some s ∧ q.IsOver c)
      (and_congr_left' (by cases itemSchema q.schema os <;> simp [Except.toOption]))
  | join _ _ _ l r =>
    have := decidableIsOver c l
    have := decidableIsOver c r
    inferInstanceAs (Decidable (_ ∧ _ ∧ _))

/-! ## Output items -/

theorem forall₂_itemSchema {input s : Schema} {is : List Item} (h : itemSchema input is = .ok s) :
    List.Forall₂ (fun i c => c.name = i.name ∧ i.expr.typeIn input = .ok c.type) is s.columns := by
  rw [itemSchema] at h
  cases hcs : is.mapM (m := Except QueryError)
      fun i => do return (⟨i.name, ← i.expr.typeIn input⟩ : Column) with
  | error e => rw [hcs] at h; cases h
  | ok cs =>
    rw [hcs] at h
    cases h
    refine (mapM_eq_ok_iff.mp hcs).imp fun i c hic => ?_
    cases ht : i.expr.typeIn input with
    | error e => rw [ht] at hic; cases hic
    | ok t => rw [ht] at hic; cases hic; exact ⟨rfl, rfl⟩

theorem width_itemSchema {input s : Schema} {is : List Item} (h : itemSchema input is = .ok s) :
    s.width = is.length := (forall₂_itemSchema h).length_eq.symm

end Query

/-! ## Rows of joins -/

namespace JoinKind

variable {k : JoinKind} {wl wr : Nat} {meets : Row → Row → Bool} {ls rs : List Row}

/-- A row of a join is made of two rows, or of one row and nulls. -/
theorem mem_joinRows {row : Row} (h : row ∈ k.joinRows wl wr meets ls rs) :
    ∃ a b, row = a ++ b ∧
      ((a ∈ ls ∧ b ∈ rs) ∨ (a ∈ ls ∧ b = Row.nulls wr ∧ k.keepsLeft) ∨
        (a = Row.nulls wl ∧ b ∈ rs ∧ k.keepsRight)) := by
  rw [joinRows, List.mem_append, List.mem_flatMap] at h
  rcases h with ⟨a, ha, h⟩ | h
  · rw [rowsOf, List.mem_append, List.mem_map] at h
    rcases h with ⟨b, hb, rfl⟩ | h
    · exact ⟨a, b, rfl, .inl ⟨ha, (List.mem_filter.mp hb).1⟩⟩
    · split at h
      · rename_i hk
        rw [Bool.and_eq_true] at hk
        exact ⟨a, _, List.mem_singleton.mp h, .inr (.inl ⟨ha, rfl, hk.1⟩)⟩
      · cases h
  · rw [leftovers] at h
    split at h
    · rename_i hk
      obtain ⟨b, hb, rfl⟩ := List.mem_map.mp h
      exact ⟨_, b, rfl, .inr (.inr ⟨rfl, (List.mem_filter.mp hb).1, hk⟩)⟩
    · cases h

end JoinKind

/-! ## Widths -/

theorem Grouping.length_outputRow {g : Grouping} {results : List Value} {row out : Row}
    (h : g.outputRow results row = .ok out) : out.length = g.outputs.length :=
  (mapM_eq_ok_iff.mp h).length_eq.symm

theorem Grouping.length_rowsOf {g : Grouping} {rows : List Row} :
    ∀ row ∈ g.rowsOf rows, row.length = g.outputs.length := by
  intro row hrow
  rw [rowsOf, answer] at hrow
  cases hgroups : rows.foldlM g.take [] with
  | error e => rw [hgroups] at hrow; cases hrow
  | ok groups =>
    rw [hgroups] at hrow
    simp only [bind, Except.bind, outputRows] at hrow
    split at hrow
    · rename_i out hout
      split at hout
      · cases he : g.emptyRow with
        | error e => rw [he] at hout; cases hout
        | ok r =>
          rw [he] at hout
          cases hout
          rw [List.mem_singleton.mp hrow]
          exact length_outputRow he
      · obtain ⟨x, -, hx⟩ := exists_left_of_forall₂ (mapM_eq_ok_iff.mp hout) row hrow
        exact length_outputRow hx
    · cases hrow

namespace Query

variable {c : Catalog}

/-- Every node has as many columns as what it computes. -/
def IsRectangular (c : Catalog) : Query → Prop
  | scan t _ s => ∃ table, c.find? t = some table ∧ s = table.schema
  | insert .. => False
  | filter _ q => q.IsRectangular c
  | project is s q => s.width = is.length ∧ q.IsRectangular c
  | aggregate _ os s q => s.width = os.length ∧ q.IsRectangular c
  | join _ _ s l r =>
    s.width = l.schema.width + r.schema.width ∧ l.IsRectangular c ∧ r.IsRectangular c

theorem width_join (s s' : Schema) (x : String) : (s.join s' x).width = s.width + s'.width := by
  rw [Schema.width, Schema.join, List.length_append, List.length_map]
  rfl

theorem IsOver.isRectangular : ∀ {q : Query}, q.IsOver c → q.IsRectangular c
  | scan .., h => h
  | filter _ q, h => IsOver.isRectangular (q := q) h
  | project .., h => ⟨width_itemSchema h.1, h.2.isRectangular⟩
  | aggregate .., h => ⟨width_itemSchema h.1, h.2.isRectangular⟩
  | join _ _ _ l r, ⟨hs, hl, hr⟩ =>
    ⟨by rw [hs, width_join], hl.isRectangular, hr.isRectangular⟩

theorem IsRectangular.isReadOnly : ∀ {q : Query}, q.IsRectangular c → q.isReadOnly = true
  | scan .., _ => rfl
  | filter _ q, h => IsRectangular.isReadOnly (q := q) h
  | project _ _ q, h | aggregate _ _ _ q, h => IsRectangular.isReadOnly (q := q) h.2
  | join _ _ _ l r, h => by
    rw [Query.isReadOnly, IsRectangular.isReadOnly h.2.1, IsRectangular.isReadOnly h.2.2]
    rfl

theorem IsOver.isReadOnly {q : Query} (h : q.IsOver c) : q.isReadOnly = true :=
  h.isRectangular.isReadOnly

theorem length_joinRows {k : JoinKind} {wl wr : Nat} {meets : Row → Row → Bool} {ls rs : List Row}
    (hl : ∀ a ∈ ls, a.length = wl) (hr : ∀ b ∈ rs, b.length = wr) :
    ∀ row ∈ k.joinRows wl wr meets ls rs, row.length = wl + wr := by
  intro row hrow
  obtain ⟨a, b, rfl, ⟨ha, hb⟩ | ⟨ha, rfl, -⟩ | ⟨rfl, hb, -⟩⟩ := JoinKind.mem_joinRows hrow
  · rw [List.length_append, hl a ha, hr b hb]
  · rw [List.length_append, hl a ha, Row.nulls, List.length_replicate]
  · rw [List.length_append, hr b hb, Row.nulls, List.length_replicate]

theorem IsRectangular.length_rows (hc : c.IsRectangular) : ∀ {q : Query}, q.IsRectangular c →
    ∀ row ∈ q.rows c, row.length = q.schema.width
  | scan t _ s, ⟨table, ht, hs⟩, row, hrow => by
    rw [rows, ht] at hrow
    rw [schema, hs]
    exact hc table (List.mem_of_find?_eq_some ht) row hrow
  | filter _ q, h, row, hrow =>
    IsRectangular.length_rows hc (q := q) h row (List.mem_filter.mp hrow).1
  | project is s q, h, row, hrow => by
    obtain ⟨r, -, rfl⟩ := List.mem_map.mp hrow
    rw [List.length_map, schema, h.1]
  | aggregate gs os s q, h, row, hrow => by
    rw [schema, h.1]
    exact Grouping.length_rowsOf row hrow
  | join k e s l r, ⟨hs, hl, hr⟩, row, hrow => by
    rw [schema, hs]
    exact length_joinRows (IsRectangular.length_rows hc hl) (IsRectangular.length_rows hc hr) row hrow

theorem IsOver.length_rows (hc : c.IsRectangular) {q : Query} (h : q.IsOver c) :
    ∀ row ∈ q.rows c, row.length = q.schema.width := h.isRectangular.length_rows hc

end Query

end RelQuery
