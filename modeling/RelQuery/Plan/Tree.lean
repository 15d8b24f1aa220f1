import RelQuery.Plan.Basic
import RelQuery.Query.Tree

/-!
# Drawing plans

The drawing of a plan has one line per node, each with the total of its cost.
-/

namespace RelQuery.Plan

def label : Plan Float → String
  | scan t a _ _ => "SeqScan: " ++ scanText t a
  | insert t _ rows _ => "Insert: " ++ insertText t rows
  | filter e _ _ => "Filter: " ++ e.render
  | project is _ _ _ => "Project: " ++ itemsText is
  | aggregate gs os _ _ _ => "Aggregate: " ++ groupByText gs ++ "[" ++ itemsText os ++ "]"
  | loopJoin j _ _ => "NestedLoopJoin: " ++ joinText j.kind j.condition
  | hashJoin j _ _ => "HashJoin: " ++ j.leftKey.render ++ " = " ++ j.rightKey.render
  | mergeJoin j _ _ => "SortMergeJoin: " ++ j.leftKey.render ++ " = " ++ j.rightKey.render

def drawAt (margin : String) (last : Bool) (p : Plan Float) : String :=
  Text.branch margin last (p.label ++ " (cost: " ++ Cost.fixed 2 p.cost.total ++ ")") ++
    match p with
    | scan .. | insert .. => ""
    | filter _ _ q | project _ _ _ q | aggregate _ _ _ _ q =>
      q.drawAt (Text.childMargin margin last) true
    | loopJoin _ l r | hashJoin _ l r | mergeJoin _ l r =>
      l.drawAt (Text.childMargin margin last) false ++ r.drawAt (Text.childMargin margin last) true

def draw (p : Plan Float) : String := p.drawAt "" true

end RelQuery.Plan
