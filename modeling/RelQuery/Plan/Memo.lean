import RelQuery.Plan.Search

/-!
# Remembering plans

A memo records the plan found for each node of one query. A node is known by its path from the
root, so that equal subtrees at different places are different nodes.
-/

namespace RelQuery

/-- The way from the root of a query to a node, as positions among the children. -/
abbrev Path := List Nat

def Query.at? : Query → Path → Option Query
  | q, [] => some q
  | .filter _ q, 0 :: path | .project _ _ q, 0 :: path | .aggregate _ _ _ q, 0 :: path =>
    q.at? path
  | .join _ _ _ l _, 0 :: path => l.at? path
  | .join _ _ _ _ r, 1 :: path => r.at? path
  | _, _ :: _ => none

/-- The recorded plans in the order of recording, numbered from zero. -/
structure Memo (κ : Type) where
  /-- The latest group of each node, the latest record first. -/
  index : List (Path × Nat)
  groups : List (Plan κ)
  hits : Nat

namespace Memo

variable {κ : Type}

def empty : Memo κ := ⟨[], [], 0⟩

def group? (m : Memo κ) (id : Nat) : Option (Plan κ) := m.groups[id]?

def lookup (m : Memo κ) (path : Path) : Option (Plan κ) × Memo κ :=
  match m.index.lookup path with
  | some id => (m.group? id, { m with hits := m.hits + 1 })
  | none => (none, m)

def insert (m : Memo κ) (path : Path) (p : Plan κ) : Memo κ :=
  { m with index := (path, m.groups.length) :: m.index, groups := m.groups ++ [p] }

end Memo

variable {κ : Type} [CostScalar κ]

def Memo.orElse (path : Path) (compute : Memo κ → Except QueryError (Plan κ) × Memo κ)
    (m : Memo κ) : Except QueryError (Plan κ) × Memo κ :=
  match m.lookup path with
  | (some p, m) => (.ok p, m)
  | (none, m) =>
    match compute m with
    | (.ok p, m) => (.ok p, m.insert path p)
    | (.error e, m) => (.error e, m)

/-- Searches as `search` does, taking and recording plans in a memo of the same query. -/
def searchMemo (rules : List (Rule κ)) (model : CostModel κ) :
    Query → Path → Memo κ → Except QueryError (Plan κ) × Memo κ
  | .scan t a s, path => Memo.orElse path fun m => (choose rules model (.scan t a s) [], m)
  | .insert t cs rows s, path =>
    Memo.orElse path fun m => (choose rules model (.insert t cs rows s) [], m)
  | .filter e q, path => Memo.orElse path fun m =>
    match searchMemo rules model q (path ++ [0]) m with
    | (.ok p, m) => (choose rules model (.filter e q) [p], m)
    | (.error e, m) => (.error e, m)
  | .project is s q, path => Memo.orElse path fun m =>
    match searchMemo rules model q (path ++ [0]) m with
    | (.ok p, m) => (choose rules model (.project is s q) [p], m)
    | (.error e, m) => (.error e, m)
  | .aggregate gs os s q, path => Memo.orElse path fun m =>
    match searchMemo rules model q (path ++ [0]) m with
    | (.ok p, m) => (choose rules model (.aggregate gs os s q) [p], m)
    | (.error e, m) => (.error e, m)
  | .join k c s l r, path => Memo.orElse path fun m =>
    match searchMemo rules model l (path ++ [0]) m with
    | (.error e, m) => (.error e, m)
    | (.ok pl, m) =>
      match searchMemo rules model r (path ++ [1]) m with
      | (.error e, m) => (.error e, m)
      | (.ok pr, m) => (choose rules model (.join k c s l r) [pl, pr], m)

end RelQuery
