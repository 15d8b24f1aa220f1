import RelQuery.Error
import RelQuery.Text.Case

/-!
# Schemas

A schema is the ordered list of a relation's columns. A column's name may carry a qualifier before
its first dot. `Schema.resolve` finds the column that a reference means, and `Schema.provides` is
the looser test by which references are assigned to the inputs of a join.
-/

namespace RelQuery

structure Column where
  name : String
  type : DataType
deriving DecidableEq, Repr, Inhabited

namespace Column

/-- The qualifier in front of the first dot, unless it is empty. -/
def qualifier? (c : Column) : Option String :=
  match Text.splitDot c.name with
  | some (q, _) => if q.isEmpty then none else some q
  | none => none

def bareName (c : Column) : String :=
  match Text.splitDot c.name with
  | some (q, rest) => if q.isEmpty then c.name else rest
  | none => c.name

/-- Puts a qualifier in front of a name that has no dot. -/
def qualifiedWith (q : String) (c : Column) : Column :=
  if c.name.toList.contains '.' || q.isEmpty then c else { c with name := q ++ "." ++ c.name }

def render (c : Column) : String := c.name ++ " " ++ c.type.render

end Column

/-- The columns of a relation in order. Two may have the same name. -/
structure Schema where
  columns : List Column
deriving DecidableEq, Repr, Inhabited

namespace Schema

def empty : Schema := ⟨[]⟩

def width (s : Schema) : Nat := s.columns.length

def names (s : Schema) : List String := s.columns.map (·.name)

def foldedNames (s : Schema) : List String := s.columns.map fun c => Text.lower c.name

/-- A schema for a table that is to be created: at least one column, no name twice. -/
def checked (columns : List Column) : Except StoreError Schema :=
  let schema : Schema := ⟨columns⟩
  if columns.isEmpty then .error .noColumns
  else if schema.foldedNames.Nodup then .ok schema
  else .error .repeatedColumn

/-! ## Finding columns -/

def indexOf? (s : Schema) (name : String) : Option Nat :=
  let folded := Text.lower name
  s.columns.findIdx? fun c => Text.lower c.name == folded

/-- The first column whose name without its qualifier is `name`, in any ASCII case. -/
def indexOfBare? (s : Schema) (name : String) : Option Nat :=
  s.columns.findIdx? fun c => Text.eqIgnoringAsciiCase c.bareName name

def hasQualifier (s : Schema) (q : String) : Bool :=
  s.columns.any fun c => c.qualifier?.any (Text.eqIgnoringAsciiCase · q)

def hasQualifiedColumns (s : Schema) : Bool := s.columns.any (·.qualifier?.isSome)

/-- The column a reference means. A qualified reference must match in full; only where no column
carries its qualifier does the bare name do. An unqualified one matches in full or behind a
qualifier. -/
def resolve (s : Schema) (qualifier : Option String) (name : String) : Option Nat :=
  match qualifier with
  | some q =>
    (s.indexOf? (q ++ "." ++ name)).or (if s.hasQualifier q then none else s.indexOf? name)
  | none => (s.indexOf? name).or (s.indexOfBare? name)

/-- Whether the reference resolves, or is qualified and some column has its bare name. -/
def provides (s : Schema) (qualifier : Option String) (name : String) : Bool :=
  (s.resolve qualifier name).isSome ||
    (qualifier.isSome && (s.indexOfBare? name).isSome)

/-! ## Building schemas -/

/-- The columns of a join: the right input's get its qualifier, unless they have one. -/
def join (left right : Schema) (rightQualifier : String) : Schema :=
  ⟨left.columns ++ right.columns.map (Column.qualifiedWith rightQualifier)⟩

def select (s : Schema) (positions : List Nat) : Schema :=
  ⟨positions.filterMap (s.columns[·]?)⟩

def render (s : Schema) : String :=
  "(" ++ Text.joinWith ", " (s.columns.map (·.render)) ++ ")"

/-! ## Rows of a schema -/

def faultOf (c : Column) (v : Value) : Option StoreError :=
  match c.type, v with
  | _, .null => some (.nullValue c.name)
  | .varchar max, .string s => if s.length ≤ max.toNat then none else some (.tooLong c.name max)
  | t, v => if v.fits t then none else some (.wrongType t v)

def checkRow (s : Schema) (row : Row) : Except StoreError Row :=
  if row.length ≠ s.width then .error (.wrongWidth row.length s.width)
  else
    match (s.columns.zip row).findSome? fun (c, v) => faultOf c v with
    | some fault => .error fault
    | none => .ok row

end Schema

end RelQuery
