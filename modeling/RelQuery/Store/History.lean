import RelQuery.Store.Catalog

/-!
# Histories of a store

A store is a catalog in use: tables are created, looked up, filled and scanned in any order, any number
of scans being under way at once. `Store.step` answers one call, `Store.log` a list of them.
-/

namespace RelQuery

namespace Store

/-- Tables that were looked up and scans that were opened are numbered, each from zero on. -/
inductive Call
  | create (name : String) (schema : Schema)
  | createWithRows (name : String) (schema : Schema) (rows : List Row)
  | lookUp (name : String)
  | insert (handle : Nat) (row : Row)
  | scan (handle : Nat)
  | next (cursor : Nat)

inductive Reply
  | created (result : Except StoreError Unit)
  | found (result : Except StoreError Nat)
  | stored (result : Except StoreError RowId)
  | opened (cursor : Nat)
  | handed (row : Option Row)
  | unknown

end Store

structure Store where
  catalog : Catalog
  /-- The tables as they were when they were looked up. -/
  handles : List Table
  cursors : List Cursor

namespace Store

def empty : Store := ⟨.empty, [], []⟩

/-- The table behind a handle, with all that has been stored in it since it was looked up. -/
def table? (s : Store) (handle : Nat) : Option Table :=
  s.handles[handle]?.bind fun t => s.catalog.withId? t.id

def step (s : Store) : Call → Reply × Store
  | .create name schema =>
    match s.catalog.create name schema with
    | .error e => (.created (.error e), s)
    | .ok catalog => (.created (.ok ()), { s with catalog })
  | .createWithRows name schema rows =>
    let (result, catalog) := s.catalog.createWithRows name schema rows
    (.created result, { s with catalog })
  | .lookUp name =>
    match s.catalog.table name with
    | .error e => (.found (.error e), s)
    | .ok t => (.found (.ok s.handles.length), { s with handles := s.handles ++ [t] })
  | .insert handle row =>
    match s.handles[handle]? with
    | none => (.unknown, s)
    | some t =>
      match s.catalog.insert t row with
      | .error e => (.stored (.error e), s)
      | .ok (id, catalog) => (.stored (.ok id), { s with catalog })
  | .scan handle =>
    match s.table? handle with
    | none => (.unknown, s)
    | some t => (.opened s.cursors.length, { s with cursors := s.cursors ++ [t.scan] })
  | .next cursor =>
    match s.cursors[cursor]? with
    | none => (.unknown, s)
    | some c =>
      let (row, c) := c.next
      (.handed row, { s with cursors := s.cursors.set cursor c })

def after (s : Store) (calls : List Call) : Store := calls.foldl (fun s call => (s.step call).2) s

def log : Store → List Call → List (Call × Reply)
  | _, [] => []
  | s, call :: calls => (call, (s.step call).1) :: (s.step call).2.log calls

end Store

end RelQuery
