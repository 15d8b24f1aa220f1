import RelQuery.Expr.ColumnRef
import RelQuery.Expr.Typing
import RelQuery.Store.Catalog

/-!
# Queries

A query is a tree of relational operators. Every node has a schema: a scan carries its table's, a
projection and an aggregation that of their items, a join the two inputs' columns with the right
input's qualified. The builders `Query.scanTable`, `project`, `aggregate` and `join` compute it.
-/

namespace RelQuery

structure Item where
  expr : Expr
  name : String
deriving DecidableEq, Repr, Inhabited

namespace Item

def unnamed (e : Expr) : Item := ⟨e, e.columnName?.getD e.render⟩

def eqv (i j : Item) : Bool := i.expr.eqv j.expr && i.name == j.name

def render (i : Item) : String :=
  let text := i.expr.render
  if text = i.name then text else text ++ " AS " ++ i.name

end Item

inductive JoinKind
  | inner | left | right | full
deriving DecidableEq, Repr

namespace JoinKind

def keepsLeft : JoinKind → Bool
  | left | full => true
  | _ => false

def keepsRight : JoinKind → Bool
  | right | full => true
  | _ => false

def render : JoinKind → String
  | inner => "INNER"
  | left => "LEFT OUTER"
  | right => "RIGHT OUTER"
  | full => "FULL OUTER"

end JoinKind

inductive Query
  | scan (table : String) (asName : Option String) (schema : Schema)
  | insert (table : String) (columns : List Column) (rows : List (List Expr))
      (tableSchema : Schema)
  | filter (predicate : Expr) (input : Query)
  | project (items : List Item) (schema : Schema) (input : Query)
  | aggregate (groupBy : List Expr) (outputs : List Item) (schema : Schema) (input : Query)
  | join (kind : JoinKind) (condition : Option Expr) (schema : Schema) (left right : Query)
deriving DecidableEq, Repr, Inhabited

namespace Query

/-! ## Attributes -/

def insertedCount : Schema := ⟨[⟨"inserted_count", .bigint⟩]⟩

def schema : Query → Schema
  | scan _ _ s => s
  | insert .. => insertedCount
  | filter _ q => q.schema
  | project _ s _ => s
  | aggregate _ _ s _ => s
  | join _ _ s _ _ => s

def children : Query → List Query
  | scan .. | insert .. => []
  | filter _ q | project _ _ q | aggregate _ _ _ q => [q]
  | join _ _ _ l r => [l, r]

def isLeaf : Query → Bool
  | scan .. | insert .. => true
  | _ => false

def nodeType : Query → String
  | scan .. => "Scan"
  | insert .. => "Insert"
  | filter .. => "Filter"
  | project .. => "Project"
  | aggregate .. => "Aggregate"
  | join .. => "Join"

def nodeCount : Query → Nat
  | scan .. | insert .. => 1
  | filter _ q | project _ _ q | aggregate _ _ _ q => q.nodeCount + 1
  | join _ _ _ l r => l.nodeCount + r.nodeCount + 1

def referenceName (table : String) (asName : Option String) : String := asName.getD table

/-- The name of the leftmost leaf, with which a join qualifies its right input's columns. -/
def qualifier : Query → String
  | scan t a _ => referenceName t a
  | insert t .. => t
  | filter _ q | project _ _ q | aggregate _ _ _ q => q.qualifier
  | join _ _ _ l _ => l.qualifier

def qualifiers : Query → List String
  | scan t a _ => [Text.lower (referenceName t a)]
  | insert t .. => [Text.lower t]
  | filter _ q | project _ _ q | aggregate _ _ _ q => q.qualifiers
  | join _ _ _ l r => l.qualifiers ++ r.qualifiers

def binds (q : Query) (r : ColumnRef) : Bool := r.boundBy q.schema q.qualifiers

def bindsAll (q : Query) (e : Expr) : Bool := e.columnRefs.all q.binds

/-! ## Equality -/

def eqvExprs (es fs : List Expr) : Bool :=
  es.length == fs.length && (es.zip fs).all fun (e, f) => e.eqv f

def eqvItems (is js : List Item) : Bool :=
  is.length == js.length && (is.zip js).all fun (i, j) => i.eqv j

def eqvCondition : Option Expr → Option Expr → Bool
  | none, none => true
  | some e, some f => e.eqv f
  | _, _ => false

/-- Equality of trees whose literals are equal as values. -/
def eqv : Query → Query → Bool
  | scan t a s, scan t' a' s' => t == t' && a == a' && s == s'
  | insert t cs rows s, insert t' cs' rows' s' =>
    t == t' && cs == cs' && s == s' && rows.length == rows'.length &&
      (rows.zip rows').all fun (r, r') => eqvExprs r r'
  | filter e q, filter e' q' => e.eqv e' && q.eqv q'
  | project is s q, project is' s' q' => eqvItems is is' && s == s' && q.eqv q'
  | aggregate gs os s q, aggregate gs' os' s' q' =>
    eqvExprs gs gs' && eqvItems os os' && s == s' && q.eqv q'
  | join k c s l r, join k' c' s' l' r' =>
    k == k' && eqvCondition c c' && s == s' && l.eqv l' && r.eqv r'
  | _, _ => false

/-! ## Building queries -/

/-- A scan of a table in the catalog, under the name that the table was created with. -/
def scanTable (c : Catalog) (name : String) (asName : Option String) : Except QueryError Query :=
  match c.table name with
  | .ok t => .ok (scan t.name asName t.schema)
  | .error e => .error (.store e)

def itemSchema (input : Schema) (items : List Item) : Except QueryError Schema := do
  let columns ← items.mapM fun i => return (⟨i.name, ← i.expr.typeIn input⟩ : Column)
  return ⟨columns⟩

def projectOf (items : List Item) (input : Query) : Except QueryError Query := do
  return project items (← itemSchema input.schema items) input

def aggregateOf (groupBy : List Expr) (outputs : List Item) (input : Query) :
    Except QueryError Query := do
  return aggregate groupBy outputs (← itemSchema input.schema outputs) input

def joinOf (kind : JoinKind) (condition : Option Expr) (left right : Query) : Query :=
  join kind condition (left.schema.join right.schema right.qualifier) left right

end Query

end RelQuery
