import RelQuery.Plan.Memo
import RelQuery.Query.Passes
import RelQuery.Run.Executor

/-!
# The engine

From a query to its rows: it goes through the passes, is planned and run, as the configuration says.
-/

namespace RelQuery

structure Config (κ : Type) where
  useMemo : Bool
  /-- Whether plans are chosen by cost; otherwise all joins are nested loops. -/
  costBased : Bool
  maxPushRounds : Nat
  cost : CostParameters κ

def Config.default {κ : Type} [OfScientific κ] : Config κ := ⟨false, true, 4, .default⟩

structure Setup (κ : Type) where
  config : Config κ
  statistics : Option Statistics

namespace Setup

variable {κ : Type} [CostScalar κ]

def model (s : Setup κ) : CostModel κ := ⟨s.config.cost, s.statistics⟩

def passes (s : Setup κ) : Passes κ := ⟨true, true, true, s.config.maxPushRounds, s.model⟩

def planBy (s : Setup κ) (rules : List (Rule κ)) (useMemo : Bool) (q : Query) :
    Except QueryError (Plan κ) :=
  if useMemo then (searchMemo rules s.model q [] .empty).1 else search rules s.model q

def plan (s : Setup κ) (q : Query) : Except QueryError (Plan κ) :=
  if s.config.costBased then s.planBy Rule.defaults s.config.useMemo q
  else s.planBy Rule.baseline false q

def run (s : Setup κ) (q : Query) (c : Catalog) : Except QueryError (List Row) × Catalog :=
  match s.plan (s.passes.apply q) with
  | .error e => (.error e, c)
  | .ok p => p.execute c

end Setup

end RelQuery
