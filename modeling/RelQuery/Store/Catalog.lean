import RelQuery.Data.Schema

/-!
# Tables

A catalog holds tables under names that differ in more than case. Tables are never dropped and rows
never removed: a table's number is its place in the order of creation, counted from one, and a
row's slot is its place among the table's rows. A scan sees the rows stored when it began.
-/

namespace RelQuery

structure Table where
  id : Nat
  name : String
  schema : Schema
  rows : List Row
deriving Inhabited

structure RowId where
  table : Nat
  slot : Nat
deriving DecidableEq, Repr

/-! ## Scans -/

/-- A scan under way: of the rows stored when it began, those yet to come. -/
structure Cursor where
  rows : List Row
deriving Inhabited

def Table.scan (t : Table) : Cursor := ⟨t.rows⟩

def Cursor.next (c : Cursor) : Option Row × Cursor :=
  match c.rows with
  | [] => (none, c)
  | row :: rows => (some row, ⟨rows⟩)

/-! ## Catalogs -/

structure Catalog where
  tables : List Table
deriving Inhabited

namespace Catalog

def empty : Catalog := ⟨[]⟩

def find? (c : Catalog) (name : String) : Option Table :=
  let folded := Text.lower name
  c.tables.find? fun t => Text.lower t.name == folded

def table (c : Catalog) (name : String) : Except StoreError Table :=
  match c.find? name with
  | some t => .ok t
  | none => .error (.tableNotFound name)

def withId? (c : Catalog) (id : Nat) : Option Table := c.tables.find? (·.id == id)

def names (c : Catalog) : List String := (c.tables.map (·.name)).mergeSort fun a b => a ≤ b

/-! ## Changes -/

def create (c : Catalog) (name : String) (schema : Schema) : Except StoreError Catalog :=
  match c.find? name with
  | some _ => .error (.tableExists name)
  | none => .ok ⟨c.tables ++ [⟨c.tables.length + 1, name, schema, []⟩]⟩

def append (c : Catalog) (id : Nat) (row : Row) : Catalog :=
  ⟨c.tables.map fun t => if t.id = id then { t with rows := t.rows ++ [row] } else t⟩

/-- Stores a row of the right width; its values are not looked at. -/
def insert (c : Catalog) (t : Table) (row : Row) : Except StoreError (RowId × Catalog) :=
  if row.length ≠ t.schema.width then
    .error (.wrongInsertWidth t.name t.schema.width row.length)
  else
    let slot := ((c.withId? t.id).map (·.rows.length)).getD 0
    .ok (⟨t.id, slot⟩, c.append t.id row)

/-- Stores rows up to the first that `accept` or the table refuses; the rows before it stay. -/
def insertAll (accept : Row → Except StoreError Row) (t : Table) :
    Catalog → List Row → Except StoreError Unit × Catalog
  | c, [] => (.ok (), c)
  | c, row :: rows =>
    match accept row with
    | .error e => (.error e, c)
    | .ok row =>
      match c.insert t row with
      | .error e => (.error e, c)
      | .ok (_, c) => insertAll accept t c rows

/-- Adds a table and stores rows in it. A row that is refused ends this, and the table stays. -/
def createFilled (c : Catalog) (name : String) (schema : Schema)
    (accept : Row → Except StoreError Row) (rows : List Row) : Except StoreError Unit × Catalog :=
  match c.create name schema with
  | .error e => (.error e, c)
  | .ok c =>
    match c.find? name with
    | some t => insertAll accept t c rows
    | none => (.ok (), c)

def createWithRows (c : Catalog) (name : String) (schema : Schema) (rows : List Row) :
    Except StoreError Unit × Catalog :=
  c.createFilled name schema schema.checkRow rows

def createWithRawRows (c : Catalog) (name : String) (schema : Schema) (rows : List Row) :
    Except StoreError Unit × Catalog :=
  c.createFilled name schema .ok rows

end Catalog

end RelQuery
