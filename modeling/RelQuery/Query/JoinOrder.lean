import RelQuery.Cost.Model
import RelQuery.Expr.Conjunct
import RelQuery.Query.Pushdown

/-!
# Ordering joins

A chain of inner joins is taken apart into its inputs and the conjuncts of its conditions. From
three inputs on it is built anew from the left: first the input of fewest estimated rows, then in
each step the one whose join with the tree so far is cheapest. Conjuncts that no join used filter
the result, and a projection puts the columns back into their order. Where that would need a name
that two columns share, the chain stays as written.
-/

namespace RelQuery

/-! ## Chains -/

/-- A chain of inner joins, its inputs already reordered inside. -/
structure Chain where
  inputs : List Query
  conjuncts : List Expr
  written : Query

namespace Chain

def single (q : Query) : Chain := ⟨[q], [], q⟩

def join (l r : Chain) (condition : Option Expr) (schema : Schema) : Chain :=
  { inputs := l.inputs ++ r.inputs
    conjuncts := l.conjuncts ++ r.conjuncts ++ (condition.map Expr.conjuncts).getD []
    written := .join .inner condition schema l.written r.written }

end Chain

/-! ## Growing the tree -/

structure ChainInput (κ : Type) where
  place : Nat
  query : Query
  rows : κ

structure Growth (κ : Type) where
  tree : Query
  rows : κ
  order : List Nat
  conjuncts : List Expr
  remaining : List (ChainInput κ)

structure NextInput (κ : Type) where
  position : Nat
  conjunct : Option Nat
  estimate : Cost κ

def equates (left right : Query) : Expr → Bool
  | .binary (.compare .eq) a b =>
    !a.columnRefs.isEmpty && !b.columnRefs.isEmpty &&
      ((left.bindsAll a && right.bindsAll b) || (left.bindsAll b && right.bindsAll a))
  | _ => false

def Query.leftmostTable? : Query → Option String
  | .scan t _ _ => some t
  | .insert .. => none
  | .filter _ q | .project _ _ q | .aggregate _ _ _ q => q.leftmostTable?
  | .join _ _ _ l _ => l.leftmostTable?

section

variable {κ : Type} [CostScalar κ]

/-- The rows of a query, taken to be those of its leftmost table. -/
def CostModel.queryRows (m : CostModel κ) (q : Query) : κ :=
  match q.leftmostTable? with
  | some t => m.tableRows t
  | none => m.parameters.defaultRowCount

namespace Growth

def offer (m : CostModel κ) (g : Growth κ) (position : Nat) (i : ChainInput κ) : NextInput κ :=
  let conjunct := g.conjuncts.findIdx? (equates g.tree i.query)
  let treeCost := Cost.of g.rows 0.0 0.0
  let inputCost := Cost.of i.rows 0.0 0.0
  let estimate :=
    if conjunct.isSome then m.hashJoin treeCost inputCost else m.loopJoin treeCost inputCost
  ⟨position, conjunct, estimate⟩

/-- The first of the cheapest offers. -/
def cheapest? : List (NextInput κ) → Option (NextInput κ)
  | [] => none
  | o :: offers =>
    some (offers.foldl (fun best o => if o.estimate.isLess best.estimate then o else best) o)

def join (g : Growth κ) (n : NextInput κ) : Growth κ :=
  match g.remaining[n.position]? with
  | none => g
  | some i =>
    { tree := Query.joinOf .inner (n.conjunct.bind (g.conjuncts[·]?)) g.tree i.query
      rows := (Cost.of n.estimate.rows 0.0 0.0).rows
      order := g.order ++ [i.place]
      conjuncts := (n.conjunct.map g.conjuncts.eraseIdx).getD g.conjuncts
      remaining := g.remaining.eraseIdx n.position }

def grow (m : CostModel κ) : Nat → Growth κ → Growth κ
  | 0, g => g
  | steps + 1, g =>
    match cheapest? (g.remaining.zipIdx.map fun (i, position) => g.offer m position i) with
    | none => g
    | some n => grow m steps (g.join n)

/-- Starts from the first of the inputs with the fewest rows. -/
def start? (inputs : List (ChainInput κ)) (conjuncts : List Expr) : Option (Growth κ) :=
  match inputs with
  | [] => none
  | i :: rest =>
    let first := rest.foldl (fun best i => if CostScalar.less i.rows best.rows then i else best) i
    some
      { tree := first.query
        rows := (Cost.of first.rows 0.0 0.0).rows
        order := [first.place]
        conjuncts
        remaining := inputs.eraseIdx first.place }

end Growth

/-! ## Putting the columns back -/

def offsetIn (widths : List Nat) (order : List Nat) (place : Nat) : Nat :=
  ((order.takeWhile (· != place)).map fun p => widths[p]?.getD 0).foldr (· + ·) 0

/-- The position, in the reordered columns, of every column of the chain as written. -/
def newPositions (widths : List Nat) (order : List Nat) : List Nat :=
  widths.zipIdx.flatMap fun (width, place) =>
    (List.range width).map (offsetIn widths order place + ·)

def restoreColumns (tree : Query) (wanted : Schema) (widths order : List Nat) : Option Query :=
  let current := tree.schema
  if current.names = wanted.names then some tree
  else if ¬ current.foldedNames.Nodup then none
  else do
    let items ← (newPositions widths order).zipIdx.mapM fun (position, i) => do
      let new ← current.columns[position]?
      let old ← wanted.columns[i]?
      return (⟨.column none new.name, old.name⟩ : Item)
    return .project items wanted tree

/-! ## The pass -/

/-- The chain built anew, unless its columns could not be put back. -/
def Chain.reordered? (m : CostModel κ) (c : Chain) : Option Query := do
  let inputs := c.inputs.zipIdx.map fun (q, place) => (⟨place, q, m.queryRows q⟩ : ChainInput κ)
  let g := (← Growth.start? inputs c.conjuncts).grow m inputs.length
  restoreColumns (Query.filterBy g.conjuncts g.tree) c.written.schema
    (c.inputs.map (·.schema.width)) g.order

def Chain.finish (m : CostModel κ) (c : Chain) : Query :=
  if c.inputs.length ≤ 2 then c.written else (c.reordered? m).getD c.written

/-- The chain of inner joins at the root of a query; one input where there is no inner join. -/
def Query.chain (m : CostModel κ) : Query → Chain
  | .join .inner c s l r => (l.chain m).join (r.chain m) c s
  | .join k c s l r => .single (.join k c s ((l.chain m).finish m) ((r.chain m).finish m))
  | .filter e q => .single (.filter e ((q.chain m).finish m))
  | .project is s q => .single (.project is s ((q.chain m).finish m))
  | .aggregate gs os s q => .single (.aggregate gs os s ((q.chain m).finish m))
  | .scan t a s => .single (.scan t a s)
  | .insert t cs rows s => .single (.insert t cs rows s)

def Query.reorderJoins (m : CostModel κ) (q : Query) : Query := (q.chain m).finish m

end

end RelQuery
