import RelQuery.Query.Basic
import RelQuery.Text.Tree

/-!
# Drawing queries

The drawing of a query has one line per node.
-/

namespace RelQuery

def groupByText (groupBy : List Expr) : String :=
  if groupBy.isEmpty then "" else "GROUP BY " ++ Text.joinWith ", " (groupBy.map (·.render)) ++ " "

def itemsText (items : List Item) : String := Text.joinWith ", " (items.map (·.render))

def scanText (table : String) (asName : Option String) : String :=
  match asName with
  | some a => table ++ " AS " ++ a
  | none => table

def insertText (table : String) (rows : List (List Expr)) : String :=
  table ++ " (" ++ toString rows.length ++ " rows)"

def joinText (kind : JoinKind) (condition : Option Expr) : String :=
  kind.render ++ " JOIN" ++
    match condition with
    | some e => " ON " ++ e.render
    | none => ""

namespace Query

def label : Query → String
  | scan t a _ => "Scan: " ++ scanText t a
  | insert t _ rows _ => "Insert: " ++ insertText t rows
  | filter e _ => "Filter: " ++ e.render
  | project is _ _ => "Project: " ++ itemsText is
  | aggregate gs os _ _ => "Aggregate: " ++ groupByText gs ++ itemsText os
  | join k c _ _ _ => "Join: " ++ joinText k c

def drawAt (margin : String) (last : Bool) (q : Query) : String :=
  Text.branch margin last q.label ++
    match q with
    | scan .. | insert .. => ""
    | filter _ q | project _ _ q | aggregate _ _ _ q =>
      q.drawAt (Text.childMargin margin last) true
    | join _ _ _ l r =>
      l.drawAt (Text.childMargin margin last) false ++ r.drawAt (Text.childMargin margin last) true

def draw (q : Query) : String := q.drawAt "" true

def schemas : Query → List Schema
  | scan _ _ s => [s]
  | insert .. => [insertedCount]
  | filter _ q => q.schema :: q.schemas
  | project _ s q => s :: q.schemas
  | aggregate _ _ s q => s :: q.schemas
  | join _ _ s l r => s :: (l.schemas ++ r.schemas)

end Query

end RelQuery
