import RelQuery.Text.Case

/-!
# Statistics

What is known of the tables' sizes. A source of statistics answers by a table's name, and what it does
not know is no error. The source held in memory is filled record by record, under names in any case.
-/

namespace RelQuery

structure ColumnStatistics where
  distinctCount : UInt64
  nullFraction : Float

/-- Brings the fraction of nulls into `[0, 1]`. A NaN stays as it is. -/
def ColumnStatistics.clamped (distinctCount : UInt64) (nullFraction : Float) : ColumnStatistics :=
  { distinctCount
    nullFraction :=
      if nullFraction < 0 then 0 else if 1 < nullFraction then 1 else nullFraction }

/-- Any source of statistics, by the answers that it gives. -/
structure Statistics where
  rowCount? : String → Option UInt64
  column? : String → String → Option ColumnStatistics

namespace Statistics

/-! ## Statistics in memory -/

def empty : Statistics := ⟨fun _ => none, fun _ _ => none⟩

def putTable (s : Statistics) (table : String) (rows : UInt64) : Statistics :=
  { s with
    rowCount? := fun t => if Text.lower t = Text.lower table then some rows else s.rowCount? t }

def putColumn (s : Statistics) (table column : String) (c : ColumnStatistics) : Statistics :=
  { s with
    column? := fun t x =>
      if Text.lower t = Text.lower table ∧ Text.lower x = Text.lower column then some c
      else s.column? t x }

end Statistics

end RelQuery
