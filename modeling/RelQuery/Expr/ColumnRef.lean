import RelQuery.Expr.Basic

/-!
# Column references

The references an expression makes, lower-cased so that equal ones are the same. `boundBy` says
which relation provides a reference: its schema holds the full name, or the qualifier names one of
its scans and the column is found.
-/

namespace RelQuery

structure ColumnRef where
  qualifier : Option String
  name : String
deriving DecidableEq, Repr

namespace ColumnRef

def of (qualifier : Option String) (name : String) : ColumnRef :=
  ⟨qualifier.map Text.lower, Text.lower name⟩

/-- Reads the name of a schema's column; an empty qualifier is no qualifier. -/
def ofColumnName (name : String) : ColumnRef :=
  match Text.splitDot name with
  | some (q, rest) => if q.isEmpty then of none name else of (some q) rest
  | none => of none name

def fullName (r : ColumnRef) : String := qualifiedName r.qualifier r.name

def toExpr (r : ColumnRef) : Expr := .column r.qualifier r.name

def isIn (r : ColumnRef) (s : Schema) : Bool := s.provides r.qualifier r.name

def boundBy (r : ColumnRef) (s : Schema) (qualifiers : List String) : Bool :=
  match r.qualifier with
  | none => s.provides none r.name
  | some q =>
    (s.indexOf? r.fullName).isSome || (qualifiers.contains q && s.provides (some q) r.name)

end ColumnRef

namespace Expr

def references : Expr → List ColumnRef
  | literal _ => []
  | column q n => [ColumnRef.of q n]
  | binary _ l r => l.references ++ r.references
  | not e => e.references
  | aggregate _ e => e.references
  | aggregateRows _ => []

def columnRefs (e : Expr) : List ColumnRef :=
  e.references.foldl (fun seen r => if seen.contains r then seen else seen ++ [r]) []

def isBoundBy (e : Expr) (s : Schema) : Bool := e.columnRefs.all (·.isIn s)

end Expr

end RelQuery
