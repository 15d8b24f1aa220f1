import Mathlib.Data.List.Nodup
import RelQuery.Store.Catalog

/-!
# Catalogs that come about

A catalog comes about from the empty one by creating tables and inserting rows. Its tables are
numbered apart, so that a row gets into one table only, and each row has one cell per column.
-/

namespace RelQuery

namespace Catalog

theorem find?_name {c : Catalog} {name : String} {t : Table} (h : c.find? name = some t) :
    c.find? t.name = some t := by
  have hname := List.find?_some h
  rw [find?] at h ⊢
  rw [beq_iff_eq] at hname
  rw [hname]
  exact h

theorem insert_eq_ok_iff {c c' : Catalog} {t : Table} {row : Row} {id : RowId} :
    c.insert t row = .ok (id, c') ↔ row.length = t.schema.width ∧
      id = ⟨t.id, ((c.withId? t.id).map (·.rows.length)).getD 0⟩ ∧ c' = c.append t.id row := by
  rw [insert]
  split
  · rename_i hw
    exact iff_of_false (fun h => nomatch h) fun h => hw h.1
  · rename_i hw
    rw [not_not] at hw
    simp [hw, eq_comm]

/-- Catalogs made by `create` and `insert`. The table that a row is inserted into may have been
looked up earlier. -/
inductive Reachable : Catalog → Prop
  | empty : Reachable .empty
  | create {c c' : Catalog} {name : String} {s : Schema} : Reachable c → c.create name s = .ok c' →
    Reachable c'
  | insert {c c' : Catalog} {t : Table} {row : Row} {id : RowId} : Reachable c →
    (∃ t' ∈ c.tables, t'.id = t.id ∧ t'.schema = t.schema) → c.insert t row = .ok (id, c') →
    Reachable c'

def IsRectangular (c : Catalog) : Prop := ∀ t ∈ c.tables, ∀ row ∈ t.rows, row.length = t.schema.width

/-- The tables are numbered from one on. -/
def IsNumbered (c : Catalog) : Prop := c.tables.map (·.id) = List.range' 1 c.tables.length

theorem IsNumbered.concat {c c' : Catalog} {t : Table} (h : c.IsNumbered)
    (ht : c'.tables = c.tables ++ [t]) (hid : t.id = c.tables.length + 1) : c'.IsNumbered := by
  rw [IsNumbered] at h ⊢
  rw [ht, List.map_append, h, List.length_append, List.length_singleton, List.range'_concat]
  simp [hid, Nat.add_comm]

theorem IsNumbered.create {c c' : Catalog} {name : String} {s : Schema} (h : c.IsNumbered)
    (hc : c.create name s = .ok c') : c'.IsNumbered := by
  rw [Catalog.create] at hc
  split at hc
  · cases hc
  · cases hc
    exact h.concat rfl rfl

theorem IsNumbered.append {c : Catalog} (h : c.IsNumbered) (id : Nat) (row : Row) :
    (c.append id row).IsNumbered := by
  rw [IsNumbered] at h ⊢
  rw [Catalog.append, List.length_map, ← h, List.map_map]
  refine List.map_congr_left fun t _ => ?_
  rw [Function.comp]
  split <;> rfl

theorem Reachable.isNumbered {c : Catalog} (h : c.Reachable) : c.IsNumbered := by
  induction h with
  | empty => rfl
  | create _ hc ih => exact ih.create hc
  | insert _ _ hi ih =>
    obtain ⟨-, -, rfl⟩ := insert_eq_ok_iff.mp hi
    exact ih.append ..

theorem IsNumbered.eq_of_id {c : Catalog} (h : c.IsNumbered) {t t' : Table} (ht : t ∈ c.tables)
    (ht' : t' ∈ c.tables) (e : t.id = t'.id) : t = t' := by
  have hnodup : (c.tables.map (·.id)).Nodup := by
    rw [h]; exact List.nodup_range'
  exact List.inj_on_of_nodup_map hnodup ht ht' e

theorem Reachable.isRectangular {c : Catalog} (h : c.Reachable) : c.IsRectangular := by
  induction h with
  | empty => intro t ht; cases ht
  | create _ hc ih =>
    rw [Catalog.create] at hc
    split at hc
    · cases hc
    · cases hc
      intro t ht row hrow
      rcases List.mem_append.mp ht with ht | ht
      · exact ih t ht row hrow
      · rw [List.mem_singleton.mp ht] at hrow
        cases hrow
  | @insert c c' t row id hc hmem hi ih =>
    obtain ⟨t', ht', hid, hs⟩ := hmem
    obtain ⟨hw, -, rfl⟩ := insert_eq_ok_iff.mp hi
    intro u hu r hr
    obtain ⟨v, hv, rfl⟩ := List.mem_map.mp hu
    split at hr
    · rename_i e
      -- the row goes into the one table of that number, whose schema was checked
      have hvt : v = t' := hc.isNumbered.eq_of_id hv ht' (e.trans hid.symm)
      rw [if_pos e]
      rcases List.mem_append.mp hr with hr | hr
      · exact ih v hv r hr
      · rw [List.mem_singleton.mp hr]
        simpa [hvt, hs] using hw
    · rename_i e
      rw [if_neg e]
      exact ih v hv r hr

/-! ## Creating filled tables -/

theorem reachable_insertAll {accept : Row → Except StoreError Row} {t : Table} :
    ∀ {rows : List Row} {c : Catalog}, c.Reachable →
      (∃ t' ∈ c.tables, t'.id = t.id ∧ t'.schema = t.schema) →
      (insertAll accept t c rows).2.Reachable
  | [], _, hc, _ => hc
  | row :: rows, c, hc, ht => by
    rw [insertAll]
    cases accept row with
    | error e => exact hc
    | ok row =>
      cases hi : c.insert t row with
      | error e => simpa only [hi] using hc
      | ok x =>
        simp only [hi]
        refine reachable_insertAll (.insert hc ht hi) ?_
        -- an insertion leaves the numbers and the schemas of the tables
        obtain ⟨t', ht', hid, hs⟩ := ht
        obtain ⟨-, -, hi⟩ := insert_eq_ok_iff.mp hi
        rw [hi]
        refine ⟨_, List.mem_map_of_mem ht', ?_⟩
        split <;> exact ⟨hid, hs⟩

theorem reachable_createFilled {c : Catalog} (hc : c.Reachable) (name : String) (s : Schema)
    (accept : Row → Except StoreError Row) (rows : List Row) :
    (c.createFilled name s accept rows).2.Reachable := by
  rw [createFilled]
  cases h : c.create name s with
  | error e => exact hc
  | ok c' =>
    have hc' : c'.Reachable := .create hc h
    simp only
    cases hf : c'.find? name with
    | none => exact hc'
    | some t => exact reachable_insertAll hc' ⟨t, List.mem_of_find?_eq_some hf, rfl, rfl⟩

end Catalog

end RelQuery
