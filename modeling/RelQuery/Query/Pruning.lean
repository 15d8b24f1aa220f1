import RelQuery.Query.Basic

/-!
# Dropping unread columns

Every node is told which columns are read above it; projections drop the other items, and scans of
which only some columns are read are narrowed by a projection. The columns of the whole query stay.
-/

namespace RelQuery

/-! ## Matching names -/

def nameBehindDot (name : String) : String :=
  match Text.splitDot name with
  | some (_, rest) => rest
  | none => name

namespace ColumnRef

/-- Whether an output item of this name may be meant. -/
def meansItem (r : ColumnRef) (item : String) : Bool :=
  let name := Text.lower item
  name == r.name || name == r.fullName || nameBehindDot name == r.name

def meansColumn (r : ColumnRef) (qualifiers : List String) (column : String) : Bool :=
  let name := Text.lower column
  r.fullName == name ||
    ((r.name == name || r.name == nameBehindDot name) && r.qualifier.all qualifiers.contains)

end ColumnRef

/-! ## The pass -/

def itemRefs (items : List Item) : List ColumnRef := items.flatMap fun i => i.expr.columnRefs

namespace Query

def positions {α : Type} (keep : α → Bool) (xs : List α) : List Nat :=
  (xs.zipIdx.filter fun (x, _) => keep x).map (·.2)

/-- Narrows a scan to the columns that are read, and to its first if none is. -/
def narrow (required : List ColumnRef) (table : String) (asName : Option String) (s : Schema) :
    Query :=
  let names := (scan table asName s).qualifiers
  let read := positions (fun c => required.any (·.meansColumn names c.name)) s.columns
  let kept := if read.isEmpty then [0] else read
  if s.columns.isEmpty || kept.length == s.width then scan table asName s
  else
    let narrowed := s.select kept
    project (narrowed.columns.map fun c => ⟨.column none c.name, c.name⟩) narrowed
      (scan table asName s)

/-- The items that are read; all of them if none is, or if `all`. -/
def keptItems (required : List ColumnRef) (all : Bool) (items : List Item) : Item → Bool :=
  let read (i : Item) := required.any (·.meansItem i.name)
  if all || !items.any read then fun _ => true else read

def prune (required : List ColumnRef) (root : Bool) : Query → Query
  | project items s q =>
    let keep := keptItems required root items
    let kept := items.filter keep
    let input := q.prune (itemRefs kept) false
    if items.all keep then project items s input
    else project kept (s.select (positions keep items)) input
  | filter e q => filter e (q.prune (required ++ e.columnRefs) false)
  | aggregate gs os s q =>
    let read := required ++ gs.flatMap (·.columnRefs) ++ itemRefs os
    aggregate gs os s (q.prune read false)
  | join k c _ l r =>
    let ofCondition := (c.map (·.columnRefs)).getD []
    let leftRead := required.filter fun x => l.binds x || !r.binds x
    let rightRead := required.filter fun x => r.binds x || !l.binds x
    joinOf k c (l.prune (leftRead ++ ofCondition) false) (r.prune (rightRead ++ ofCondition) false)
  | scan t a s => narrow required t a s
  | insert t cs rows s => insert t cs rows s

def rootRefs : Query → List ColumnRef
  | project items _ _ => itemRefs items
  | q => q.schema.columns.map fun c => ColumnRef.ofColumnName c.name

/-- Drops the columns that neither the query's answer nor any operator reads. -/
def pruneColumns (q : Query) : Query := q.prune q.rootRefs true

end Query

end RelQuery
