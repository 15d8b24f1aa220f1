import RelQuery.Plan.Rule

/-!
# Choosing plans

A query is planned from the leaves up: of all alternatives that the rules offer for a node over its
inputs' plans, the one with the least total cost is taken; among equal ones a hash join before a
sort-merge join before nested loops before anything else, and then the first.
-/

namespace RelQuery

variable {κ : Type}

namespace Plan

/-- Which of two equally costly plans is taken: the lower rank. -/
def rank : Plan κ → Nat
  | hashJoin .. => 0
  | mergeJoin .. => 1
  | loopJoin .. => 2
  | _ => 3

variable [CostScalar κ]

def isBetter (new old : Plan κ) : Bool :=
  CostScalar.less new.cost.total old.cost.total ||
    (CostScalar.same new.cost.total old.cost.total && new.rank < old.rank)

/-- The first plan that no later one betters. -/
def best? : List (Plan κ) → Option (Plan κ)
  | [] => none
  | p :: ps => some (ps.foldl (fun best p => if p.isBetter best then p else best) p)

end Plan

section

variable [CostScalar κ]

def choose (rules : List (Rule κ)) (m : CostModel κ) (q : Query) (inputs : List (Plan κ)) :
    Except QueryError (Plan κ) := do
  let offers ← (rules.filter (·.matchesNode q)).mapM fun rule => rule.apply q inputs m
  match Plan.best? offers.flatten with
  | some p => .ok p
  | none => .error (.noAlternative q.nodeType)

def search (rules : List (Rule κ)) (m : CostModel κ) : Query → Except QueryError (Plan κ)
  | .scan t a s => choose rules m (.scan t a s) []
  | .insert t cs rows s => choose rules m (.insert t cs rows s) []
  | .filter e q => do choose rules m (.filter e q) [← search rules m q]
  | .project is s q => do choose rules m (.project is s q) [← search rules m q]
  | .aggregate gs os s q => do choose rules m (.aggregate gs os s q) [← search rules m q]
  | .join k c s l r => do
    let pl ← search rules m l
    let pr ← search rules m r
    choose rules m (.join k c s l r) [pl, pr]

end

end RelQuery
