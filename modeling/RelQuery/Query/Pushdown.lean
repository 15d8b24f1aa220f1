import RelQuery.Expr.Conjunct
import RelQuery.Query.Basic

/-!
# Pushing predicates down

Filters move toward the scans. A conjunct passes a join into the one input that provides all its
columns, unless the join keeps that input's partner rows without a match; it never passes a
projection or an aggregation.
-/

namespace RelQuery

namespace Query

def filterBy (conjuncts : List Expr) (q : Query) : Query :=
  if conjuncts.isEmpty then q else filter (Expr.conjoin conjuncts) q

end Query

inductive Descent
  | intoLeft
  | intoRight
  | stays
deriving DecidableEq, Repr

def JoinKind.descent (kind : JoinKind) (left right : Query) (e : Expr) : Descent :=
  let inLeft := left.bindsAll e
  let inRight := right.bindsAll e
  if inLeft && !inRight && !kind.keepsRight then .intoLeft
  else if inRight && !inLeft && !kind.keepsLeft then .intoRight
  else .stays

namespace Query

/-- Pushes the filters of a query, and `carried` conjuncts from above it. -/
def pushDownFrom (carried : List Expr) : Query → Query
  | filter e q => q.pushDownFrom (carried ++ e.conjuncts)
  | join k c s l r =>
    let going (d : Descent) := carried.filter fun e => k.descent l r e == d
    filterBy (going .stays)
      (join k c s (l.pushDownFrom (going .intoLeft)) (r.pushDownFrom (going .intoRight)))
  | project is s q => filterBy carried (project is s (q.pushDownFrom []))
  | aggregate gs os s q => filterBy carried (aggregate gs os s (q.pushDownFrom []))
  | scan t a s => filterBy carried (scan t a s)
  | insert t cs rows s => filterBy carried (insert t cs rows s)

def pushDown (q : Query) : Query := q.pushDownFrom []

end Query

end RelQuery
