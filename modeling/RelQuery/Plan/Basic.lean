import RelQuery.Cost.Model
import RelQuery.Query.Basic

/-!
# Plans

A plan is a query with a way to carry out every node and the estimated cost of each. Joins are
carried out in three ways: by nested loops under any condition, by hashing or by sort and merge on
a pair of keys.
-/

namespace RelQuery

structure LoopJoin (κ : Type) where
  kind : JoinKind
  condition : Option Expr
  schema : Schema
  leftQualifiers : List String
  rightQualifiers : List String
  cost : Cost κ

structure EquiJoin (κ : Type) where
  leftKey : Expr
  rightKey : Expr
  schema : Schema
  leftQualifiers : List String
  rightQualifiers : List String
  cost : Cost κ

inductive Plan (κ : Type)
  | scan (table : String) (asName : Option String) (schema : Schema) (cost : Cost κ)
  | insert (table : String) (columns : List Column) (rows : List (List Expr)) (cost : Cost κ)
  | filter (predicate : Expr) (cost : Cost κ) (input : Plan κ)
  | project (items : List Item) (schema : Schema) (cost : Cost κ) (input : Plan κ)
  | aggregate (groupBy : List Expr) (outputs : List Item) (schema : Schema) (cost : Cost κ)
      (input : Plan κ)
  | loopJoin (join : LoopJoin κ) (left right : Plan κ)
  | hashJoin (join : EquiJoin κ) (left right : Plan κ)
  | mergeJoin (join : EquiJoin κ) (left right : Plan κ)

namespace Plan

variable {κ : Type}

/-! ## Attributes -/

def schema : Plan κ → Schema
  | scan _ _ s _ => s
  | insert .. => Query.insertedCount
  | filter _ _ p => p.schema
  | project _ s _ _ => s
  | aggregate _ _ s _ _ => s
  | loopJoin j _ _ => j.schema
  | hashJoin j _ _ | mergeJoin j _ _ => j.schema

def cost : Plan κ → Cost κ
  | scan _ _ _ c | insert _ _ _ c | filter _ c _ | project _ _ c _ | aggregate _ _ _ c _ => c
  | loopJoin j _ _ => j.cost
  | hashJoin j _ _ | mergeJoin j _ _ => j.cost

def children : Plan κ → List (Plan κ)
  | scan .. | insert .. => []
  | filter _ _ p | project _ _ _ p | aggregate _ _ _ _ p => [p]
  | loopJoin _ l r | hashJoin _ l r | mergeJoin _ l r => [l, r]

def isLeaf : Plan κ → Bool
  | scan .. | insert .. => true
  | _ => false

def nodeType : Plan κ → String
  | scan .. => "SeqScan"
  | insert .. => "Insert"
  | filter .. => "Filter"
  | project .. => "Project"
  | aggregate .. => "Aggregate"
  | loopJoin .. => "NestedLoopJoin"
  | hashJoin .. => "HashJoin"
  | mergeJoin .. => "SortMergeJoin"

def nodeCount : Plan κ → Nat
  | scan .. | insert .. => 1
  | filter _ _ p | project _ _ _ p | aggregate _ _ _ _ p => p.nodeCount + 1
  | loopJoin _ l r | hashJoin _ l r | mergeJoin _ l r => l.nodeCount + r.nodeCount + 1

def qualifiers : Plan κ → List String
  | scan t a _ _ => [Text.lower (Query.referenceName t a)]
  | insert t _ _ _ => [Text.lower t]
  | filter _ _ p | project _ _ _ p | aggregate _ _ _ _ p => p.qualifiers
  | loopJoin _ l r | hashJoin _ l r | mergeJoin _ l r => l.qualifiers ++ r.qualifiers

def nodes : Plan κ → List (Plan κ)
  | scan t a s c => [scan t a s c]
  | insert t cs rows c => [insert t cs rows c]
  | filter e c p => filter e c p :: p.nodes
  | project is s c p => project is s c p :: p.nodes
  | aggregate gs os s c p => aggregate gs os s c p :: p.nodes
  | loopJoin j l r => loopJoin j l r :: (l.nodes ++ r.nodes)
  | hashJoin j l r => hashJoin j l r :: (l.nodes ++ r.nodes)
  | mergeJoin j l r => mergeJoin j l r :: (l.nodes ++ r.nodes)

/-- The cost computed from the leaves up, whatever costs the nodes carry. -/
def estimate [CostScalar κ] (m : CostModel κ) : Plan κ → Cost κ
  | scan t _ _ _ => m.scan t
  | insert _ _ rows _ => CostModel.insert rows.length
  | filter _ _ p => m.filter (p.estimate m)
  | project _ _ _ p => CostModel.project (p.estimate m)
  | aggregate _ _ _ _ p => CostModel.aggregate (p.estimate m)
  | loopJoin _ l r => m.loopJoin (l.estimate m) (r.estimate m)
  | hashJoin _ l r => m.hashJoin (l.estimate m) (r.estimate m)
  | mergeJoin _ l r => m.mergeJoin (l.estimate m) (r.estimate m)

end Plan

end RelQuery
