import RelQuery.Plan.Basic

/-!
# Planning rules

A rule offers the ways to carry out one kind of node, given plans for its inputs. The join rule
offers all three ways for an inner join whose condition equates a column of each input, and nested
loops for every join.
-/

namespace RelQuery

structure Rule (κ : Type) where
  name : String
  matchesNode : Query → Bool
  apply : Query → List (Plan κ) → CostModel κ → Except QueryError (List (Plan κ))

/-! ## Keys of joins -/

namespace Query

def bindsOnly (q other : Query) (r : ColumnRef) : Bool := q.binds r && !other.binds r

end Query

def Expr.columnRef? : Expr → Option ColumnRef
  | column q n => some (ColumnRef.of q n)
  | _ => none

/-- The key of the left and the key of the right input, where the condition equates two columns
each of which only one input provides. -/
def equiJoinKeys? (condition : Expr) (left right : Query) : Option (Expr × Expr) := do
  let (a, b) ← condition.columnEquality?
  let ra ← a.columnRef?
  let rb ← b.columnRef?
  if left.bindsOnly right ra && right.bindsOnly left rb then some (a, b)
  else if left.bindsOnly right rb && right.bindsOnly left ra then some (b, a)
  else none

namespace Rule

variable {κ : Type} [CostScalar κ]

def unsupported {α : Type} (rule : String) (q : Query) : Except QueryError α :=
  .error (.unsupportedNode rule q.nodeType)

/-! ## The rules -/

def scan : Rule κ where
  name := "ScanRule"
  matchesNode q := match q with | .scan .. => true | _ => false
  apply q _ m :=
    match q with
    | .scan t a s => .ok [.scan t a s (m.scan t)]
    | q => unsupported "ScanRule" q

def insert : Rule κ where
  name := "InsertRule"
  matchesNode q := match q with | .insert .. => true | _ => false
  apply q _ _ :=
    match q with
    | .insert t cs rows _ => .ok [.insert t cs rows (CostModel.insert rows.length)]
    | q => unsupported "InsertRule" q

def filter : Rule κ where
  name := "FilterRule"
  matchesNode q := match q with | .filter .. => true | _ => false
  apply q inputs m :=
    match q, inputs with
    | .filter e _, [p] => .ok [.filter e (m.filter p.cost) p]
    | q, _ => unsupported "FilterRule" q

def project : Rule κ where
  name := "ProjectRule"
  matchesNode q := match q with | .project .. => true | _ => false
  apply q inputs _ :=
    match q, inputs with
    | .project is s _, [p] => .ok [.project is s (CostModel.project p.cost) p]
    | q, _ => unsupported "ProjectRule" q

def aggregate : Rule κ where
  name := "AggregateRule"
  matchesNode q := match q with | .aggregate .. => true | _ => false
  apply q inputs _ :=
    match q, inputs with
    | .aggregate gs os s _, [p] => .ok [.aggregate gs os s (CostModel.aggregate p.cost) p]
    | q, _ => unsupported "AggregateRule" q

def joinAlternatives (byKeys : Bool) (m : CostModel κ) (kind : JoinKind) (condition : Option Expr)
    (schema : Schema) (left right : Query) (l r : Plan κ) : List (Plan κ) :=
  let keys :=
    if byKeys && kind == .inner then condition.bind (equiJoinKeys? · left right) else none
  let equi (a b : Expr) (cost : Cost κ) : EquiJoin κ :=
    ⟨a, b, schema, left.qualifiers, right.qualifiers, cost⟩
  let byKey :=
    match keys with
    | some (a, b) =>
      [.hashJoin (equi a b (m.hashJoin l.cost r.cost)) l r,
        .mergeJoin (equi a b (m.mergeJoin l.cost r.cost)) l r]
    | none => []
  byKey ++
    [.loopJoin ⟨kind, condition, schema, left.qualifiers, right.qualifiers,
      m.loopJoin l.cost r.cost⟩ l r]

def joinOf (byKeys : Bool) : Rule κ where
  name := "JoinRule"
  matchesNode q := match q with | .join .. => true | _ => false
  apply q inputs m :=
    match q, inputs with
    | .join k c s left right, [l, r] => .ok (joinAlternatives byKeys m k c s left right l r)
    | q, _ => unsupported "JoinRule" q

def join : Rule κ := joinOf true

def nestedLoop : Rule κ := joinOf false

def defaults : List (Rule κ) := [scan, insert, filter, project, aggregate, join]

def baseline : List (Rule κ) := [scan, insert, filter, project, aggregate, nestedLoop]

end Rule

end RelQuery
