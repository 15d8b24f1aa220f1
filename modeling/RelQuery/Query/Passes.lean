import RelQuery.Query.JoinOrder
import RelQuery.Query.Pruning

/-!
# Passes over queries

Before it is planned, a query goes through three passes: predicates are pushed down until nothing
changes or the allowed number of rounds is over, unread columns are dropped, inner joins are
reordered.
-/

namespace RelQuery

structure Passes (κ : Type) where
  pushes : Bool
  prunes : Bool
  reorders : Bool
  maxPushRounds : Nat
  model : CostModel κ

namespace Passes

variable {κ : Type}

def pushRounds : Nat → Query → Query
  | 0, q => q
  | rounds + 1, q =>
    let pushed := q.pushDown
    if pushed.eqv q then q else pushRounds rounds pushed

variable [CostScalar κ]

def default : Passes κ := ⟨true, true, true, 4, ⟨.default, none⟩⟩

def apply (passes : Passes κ) (q : Query) : Query :=
  let q := if passes.pushes then pushRounds passes.maxPushRounds q else q
  let q := if passes.prunes then q.pruneColumns else q
  if passes.reorders then q.reorderJoins passes.model else q

end Passes

end RelQuery
