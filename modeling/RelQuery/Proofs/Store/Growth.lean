import RelQuery.Proofs.Data.Typed
import RelQuery.Proofs.Store.Catalog

/-!
# Catalogs that grow

A catalog grows: tables stay under their numbers, names and schemas, and rows are only put behind
the rows that are there. Tables are created and filled by storing rows up to the first that is
refused.
-/

namespace RelQuery

/-- The same table, with rows put behind its rows. -/
structure Table.Grows (t t' : Table) : Prop where
  id : t'.id = t.id
  name : t'.name = t.name
  schema : t'.schema = t.schema
  rows : t.rows <+: t'.rows

theorem Table.Grows.refl (t : Table) : t.Grows t := ⟨rfl, rfl, rfl, List.prefix_rfl⟩

theorem Table.Grows.trans {t t' t'' : Table} (h : t.Grows t') (h' : t'.Grows t'') : t.Grows t'' :=
  ⟨h'.id.trans h.id, h'.name.trans h.name, h'.schema.trans h.schema, h.rows.trans h'.rows⟩

def Table.extend (t : Table) (rows : List Row) : Table := { t with rows := t.rows ++ rows }

theorem Table.extend_nil (t : Table) : t.extend [] = t := by rw [extend, List.append_nil]

theorem Table.extend_extend (t : Table) (rows rows' : List Row) :
    (t.extend rows).extend rows' = t.extend (rows ++ rows') := by
  rw [extend, extend, extend, List.append_assoc]

theorem Table.grows_extend (t : Table) (rows : List Row) : t.Grows (t.extend rows) :=
  ⟨rfl, rfl, rfl, List.prefix_append ..⟩

namespace Catalog

/-- Every table is still in its place, with rows put behind its rows. -/
def Grows (c c' : Catalog) : Prop :=
  ∀ (i : Nat) (t : Table), c.tables[i]? = some t → ∃ t', c'.tables[i]? = some t' ∧ t.Grows t'

variable {c c' c'' : Catalog}

theorem Grows.refl (c : Catalog) : c.Grows c := fun _ t h => ⟨t, h, .refl t⟩

theorem Grows.trans (h : c.Grows c') (h' : c'.Grows c'') : c.Grows c'' := by
  intro i t ht
  obtain ⟨t', ht', hg⟩ := h i t ht
  obtain ⟨t'', ht'', hg'⟩ := h' i t' ht'
  exact ⟨t'', ht'', hg.trans hg'⟩

theorem Grows.exists_mem (h : c.Grows c') {t : Table} (ht : t ∈ c.tables) :
    ∃ t' ∈ c'.tables, t.Grows t' := by
  obtain ⟨i, hi⟩ := List.mem_iff_getElem?.mp ht
  obtain ⟨t', ht', hg⟩ := h i t hi
  exact ⟨t', List.mem_of_getElem? ht', hg⟩

/-- A table that is found by its name is found by it later on, whatever has been stored since. -/
theorem Grows.find? (h : c.Grows c') {name : String} {t : Table} (ht : c.find? name = some t) :
    ∃ t', c'.find? name = some t' ∧ t.Grows t' := by
  obtain ⟨hname, i, hi, rfl, hfirst⟩ := List.find?_eq_some_iff_getElem.mp ht
  obtain ⟨t', ht', hg⟩ := h i _ (List.getElem?_eq_getElem hi)
  obtain ⟨hi', rfl⟩ := List.getElem?_eq_some_iff.mp ht'
  refine ⟨_, List.find?_eq_some_iff_getElem.mpr ⟨hg.name ▸ hname, i, hi', rfl, fun j hj => ?_⟩, hg⟩
  -- the tables before it keep their names too
  obtain ⟨u, hu, hgu⟩ := h j _ (List.getElem?_eq_getElem (Nat.lt_trans hj hi))
  obtain ⟨_, rfl⟩ := List.getElem?_eq_some_iff.mp hu
  exact hgu.name ▸ hfirst j hj

def Holds (c : Catalog) (id : RowId) (row : Row) : Prop :=
  ∃ t ∈ c.tables, t.id = id.table ∧ t.rows[id.slot]? = some row

theorem Grows.holds (h : c.Grows c') {id : RowId} {row : Row} (hrow : c.Holds id row) :
    c'.Holds id row := by
  obtain ⟨t, ht, htable, hrow⟩ := hrow
  obtain ⟨t', ht', hg⟩ := h.exists_mem ht
  exact ⟨t', ht', hg.id.trans htable, getElem?_of_prefix hg.rows hrow⟩

/-! ## Rows behind the rows of a table -/

def appendAll (c : Catalog) (id : Nat) (rows : List Row) : Catalog :=
  ⟨c.tables.map fun t => if t.id = id then t.extend rows else t⟩

theorem appendAll_nil (c : Catalog) (id : Nat) : c.appendAll id [] = c := by
  simp [appendAll, Table.extend]

theorem appendAll_append (c : Catalog) (id : Nat) (row : Row) (rows : List Row) :
    (c.append id row).appendAll id rows = c.appendAll id (row :: rows) := by
  rw [appendAll, append, appendAll, List.map_map]
  congr 2
  funext t
  by_cases h : t.id = id <;> simp [h, Table.extend]

theorem grows_appendAll (c : Catalog) (id : Nat) (rows : List Row) :
    c.Grows (c.appendAll id rows) := by
  intro i t ht
  refine ⟨if t.id = id then t.extend rows else t, by rw [appendAll, List.getElem?_map, ht]; rfl, ?_⟩
  split
  · exact t.grows_extend rows
  · exact .refl t

theorem grows_insert {t : Table} {row : Row} {id : RowId} (h : c.insert t row = .ok (id, c')) :
    c.Grows c' := by
  obtain ⟨-, -, rfl⟩ := insert_eq_ok_iff.mp h
  exact grows_appendAll c t.id [row]

theorem mem_appendAll {id : Nat} {rows : List Row} {t : Table} :
    t ∈ (c.appendAll id rows).tables ↔
      (t ∈ c.tables ∧ t.id ≠ id) ∨ ∃ t' ∈ c.tables, t'.id = id ∧ t = t'.extend rows := by
  rw [appendAll, List.mem_map]
  constructor
  · rintro ⟨t', ht', rfl⟩
    split
    · rename_i h
      exact .inr ⟨t', ht', h, rfl⟩
    · rename_i h
      exact .inl ⟨ht', h⟩
  · rintro (⟨ht, h⟩ | ⟨t', ht', h, rfl⟩)
    · exact ⟨t, ht, if_neg h⟩
    · exact ⟨t', ht', if_pos h⟩

theorem IsNumbered.appendAll (h : c.IsNumbered) (id : Nat) (rows : List Row) :
    (c.appendAll id rows).IsNumbered := by
  induction rows generalizing c with
  | nil => rwa [appendAll_nil]
  | cons row rows ih =>
    rw [← appendAll_append]
    exact ih (h.append id row)

theorem IsNumbered.withId? (h : c.IsNumbered) {t : Table} (ht : t ∈ c.tables) :
    c.withId? t.id = some t := by
  rw [Catalog.withId?]
  cases hf : c.tables.find? (·.id == t.id) with
  | none => simpa using List.find?_eq_none.mp hf t ht
  | some t' =>
    have hid : t'.id = t.id := by simpa using List.find?_some hf
    rw [h.eq_of_id (List.mem_of_find?_eq_some hf) ht hid]

/-- Of tables numbered apart, only one gets the rows. -/
theorem IsNumbered.tables_appendAll (h : c.IsNumbered) {before after : List Table} {t : Table}
    (ht : c.tables = before ++ t :: after) (rows : List Row) :
    (c.appendAll t.id rows).tables = before ++ t.extend rows :: after := by
  have hnodup : (c.tables.map (·.id)).Nodup := by
    rw [h]; exact List.nodup_range'
  rw [ht, List.map_append, List.map_cons, List.nodup_middle, List.nodup_cons, List.mem_append]
    at hnodup
  rw [Catalog.appendAll, ht, List.map_append, List.map_cons, if_pos rfl]
  have hkeep : ∀ ts : List Table, (∀ u ∈ ts, u ∈ before ∨ u ∈ after) →
      ts.map (fun u => if u.id = t.id then u.extend rows else u) = ts := by
    intro ts hts
    refine (List.map_congr_left fun u hu => if_neg fun e => hnodup.1 ?_).trans (List.map_id _)
    rw [← e]
    exact (hts u hu).imp (List.mem_map_of_mem (f := Table.id)) (List.mem_map_of_mem (f := Table.id))
  rw [hkeep before fun u => .inl, hkeep after fun u => .inr]

/-! ## New tables -/

def HasName (c : Catalog) (name : String) : Prop :=
  ∃ t ∈ c.tables, Text.lower t.name = Text.lower name

/-- The names of no two tables differ only in case. -/
def IsNamedApart (c : Catalog) : Prop := (c.tables.map fun t => Text.lower t.name).Nodup

variable {name : String}

theorem find?_eq_none_iff : c.find? name = none ↔ ¬ c.HasName name := by
  rw [find?, List.find?_eq_none, HasName]
  simp

def addTable (c : Catalog) (name : String) (s : Schema) (rows : List Row) : Catalog :=
  ⟨c.tables ++ [⟨c.tables.length + 1, name, s, rows⟩]⟩

theorem IsNumbered.addTable (h : c.IsNumbered) (name : String) (s : Schema) (rows : List Row) :
    (c.addTable name s rows).IsNumbered :=
  h.concat rfl rfl

theorem IsNamedApart.addTable (h : c.IsNamedApart) (hname : ¬ c.HasName name) (s : Schema)
    (rows : List Row) : (c.addTable name s rows).IsNamedApart := by
  rw [IsNamedApart] at h ⊢
  rw [Catalog.addTable, List.map_append, List.map_singleton, List.nodup_append]
  refine ⟨h, List.nodup_singleton _, fun a ha b hb hab => hname ?_⟩
  obtain ⟨t, ht, rfl⟩ := List.mem_map.mp ha
  rw [List.mem_singleton.mp hb] at hab
  exact ⟨t, ht, hab⟩

theorem IsNamedApart.append (h : c.IsNamedApart) (id : Nat) (row : Row) :
    (c.append id row).IsNamedApart := by
  rw [IsNamedApart] at h ⊢
  rw [Catalog.append, List.map_map]
  refine (List.map_congr_left fun t _ => ?_).symm ▸ h
  rw [Function.comp]
  split <;> rfl

theorem create_of_hasName (h : c.HasName name) (s : Schema) :
    c.create name s = .error (.tableExists name) := by
  cases hfind : c.find? name with
  | none => exact absurd h (find?_eq_none_iff.mp hfind)
  | some t => rw [create, hfind]

theorem create_of_not_hasName (h : ¬ c.HasName name) (s : Schema) :
    c.create name s = .ok (c.addTable name s []) := by
  rw [create, find?_eq_none_iff.mpr h]
  rfl

theorem find?_addTable (h : ¬ c.HasName name) (s : Schema) (rows : List Row) :
    (c.addTable name s rows).find? name = some ⟨c.tables.length + 1, name, s, rows⟩ := by
  have hnone := find?_eq_none_iff.mpr h
  rw [find?] at hnone ⊢
  rw [addTable, List.find?_append, hnone]
  simp

theorem find?_create {s : Schema} (h : c.create name s = .ok c') :
    c'.tables = c.tables ++ [⟨c.tables.length + 1, name, s, []⟩] ∧
      c'.find? name = some ⟨c.tables.length + 1, name, s, []⟩ := by
  by_cases hname : c.HasName name
  · rw [create_of_hasName hname] at h
    cases h
  · rw [create_of_not_hasName hname] at h
    cases h
    exact ⟨rfl, find?_addTable hname s []⟩

/-! ## Filling a table -/

/-- Rows that are checked are stored as they are given, up to the first that does not fit. -/
theorem insertAll_checkRow (t : Table) : ∀ (rows : List Row) (c : Catalog),
    ∃ stored rest, rows = stored ++ rest ∧ (∀ row ∈ stored, t.schema.Admits row) ∧
      (∀ row ∈ rest.head?, ¬ t.schema.Admits row) ∧
      ((insertAll t.schema.checkRow t c rows).1 = .ok () ↔ rest = []) ∧
      (insertAll t.schema.checkRow t c rows).2 = c.appendAll t.id stored
  | [], c => ⟨[], [], rfl, by simp, by simp, iff_of_true rfl rfl, (c.appendAll_nil t.id).symm⟩
  | row :: rows, c => by
    rw [insertAll]
    cases hrow : t.schema.checkRow row with
    | error e =>
      refine ⟨[], row :: rows, rfl, by simp, fun r hr hadmits => ?_, by simp,
        (c.appendAll_nil t.id).symm⟩
      cases hr
      rw [Schema.checkRow_eq_ok_iff.mpr ⟨rfl, hadmits⟩] at hrow
      cases hrow
    | ok row' =>
      obtain ⟨rfl, hadmits⟩ := Schema.checkRow_eq_ok_iff.mp hrow
      -- a row that was checked has the width that the table asks for
      have hinsert : c.insert t row' = .ok (_, c.append t.id row') :=
        insert_eq_ok_iff.mpr ⟨(Schema.admits_iff.mp hadmits).1, rfl, rfl⟩
      obtain ⟨stored, rest, rfl, hall, hrest, hdone, hcatalog⟩ :=
        insertAll_checkRow t rows (c.append t.id row')
      simp only [hinsert]
      refine ⟨row' :: stored, rest, rfl, List.forall_mem_cons.mpr ⟨hadmits, hall⟩, hrest, hdone, ?_⟩
      rw [hcatalog, appendAll_append]

/-- A new table gets the rows given before the first that does not fit. -/
theorem IsNumbered.createWithRows_of_not_hasName (h : c.IsNumbered) (hname : ¬ c.HasName name)
    (s : Schema) (rows : List Row) :
    ∃ stored rest, rows = stored ++ rest ∧ (∀ row ∈ stored, s.Admits row) ∧
      (∀ row ∈ rest.head?, ¬ s.Admits row) ∧
      ((c.createWithRows name s rows).1 = .ok () ↔ rest = []) ∧
      (c.createWithRows name s rows).2 = c.addTable name s stored := by
  obtain ⟨stored, rest, hrows, hall, hrest, hdone, hcatalog⟩ :=
    insertAll_checkRow ⟨c.tables.length + 1, name, s, []⟩ rows (c.addTable name s [])
  rw [Catalog.createWithRows, createFilled, create_of_not_hasName hname]
  simp only [find?_addTable hname]
  refine ⟨stored, rest, hrows, hall, hrest, hdone, hcatalog.trans ?_⟩
  exact congrArg Catalog.mk ((h.addTable name s []).tables_appendAll rfl stored)

theorem createWithRows_of_hasName (h : c.HasName name) (s : Schema) (rows : List Row) :
    c.createWithRows name s rows = (.error (.tableExists name), c) := by
  rw [Catalog.createWithRows, createFilled, create_of_hasName h]

/-- A table created with rows holds those given before the first that does not fit, and the other
tables stay as they are. -/
theorem IsNumbered.createWithRows (h : c.IsNumbered) (name : String) (s : Schema)
    (rows : List Row) :
    (c.createWithRows name s rows = (.error (.tableExists name), c)) ∨
      ∃ stored, stored <+: rows ∧ (∀ row ∈ stored, s.Admits row) ∧
        (c.createWithRows name s rows).2.tables =
          c.tables ++ [⟨c.tables.length + 1, name, s, stored⟩] ∧
        ((c.createWithRows name s rows).1 = .ok () → stored = rows) := by
  by_cases hname : c.HasName name
  · exact .inl (createWithRows_of_hasName hname s rows)
  · obtain ⟨stored, rest, hrows, hall, -, hdone, hcatalog⟩ :=
      h.createWithRows_of_not_hasName hname s rows
    refine .inr ⟨stored, ⟨rest, hrows.symm⟩, hall, congrArg tables hcatalog, fun hok => ?_⟩
    rw [hrows, hdone.mp hok, List.append_nil]

end Catalog

end RelQuery
