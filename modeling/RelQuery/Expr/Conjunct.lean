import RelQuery.Expr.Basic

/-!
# Conjunctions

A predicate is a conjunction of conjuncts, none of which is an `AND`. `conjuncts` takes it apart
from left to right, `conjoin` puts it together, associated to the left.
-/

namespace RelQuery.Expr

def conjuncts : Expr → List Expr
  | binary (.logic .and) l r => l.conjuncts ++ r.conjuncts
  | e => [e]

/-- The conjunction of a list; the empty one is `TRUE`. -/
def conjoin : List Expr → Expr
  | [] => literal (.bool true)
  | e :: es => es.foldl Expr.and e

end RelQuery.Expr
