import RelQuery.Cost.Scalar
import RelQuery.Number.Decimal
import RelQuery.Store.Statistics

/-!
# Cost estimates

The cost of a plan has three components, none negative: the rows it answers with, the work of the
processor and that of the disk. A `CostModel` estimates an operator's cost from its inputs' costs
and from what is known of the tables.
-/

namespace RelQuery

/-! ## Costs -/

structure Cost (κ : Type) where
  rows : κ
  cpu : κ
  io : κ

namespace Cost

variable {κ : Type} [CostScalar κ]

/-- Negative components are raised to zero. -/
def of (rows cpu io : κ) : Cost κ :=
  ⟨CostScalar.larger rows 0.0, CostScalar.larger cpu 0.0, CostScalar.larger io 0.0⟩

def zero : Cost κ := ⟨0.0, 0.0, 0.0⟩

def total (c : Cost κ) : κ := c.rows + c.cpu + c.io

def isLess (c d : Cost κ) : Bool := CostScalar.less c.total d.total

end Cost

def Cost.infinite : Cost Float := ⟨1.0 / 0.0, 1.0 / 0.0, 1.0 / 0.0⟩

def Cost.isInfinite (c : Cost Float) : Bool := c.total.isInf

def Cost.fixed (places : Nat) (x : Float) : String := Decimal.fixed places (Binary64.ofFloat x)

def Cost.render (c : Cost Float) : String :=
  "rows=" ++ fixed 1 c.rows ++ " cpu=" ++ fixed 1 c.cpu ++ " io=" ++ fixed 1 c.io

/-! ## The model -/

structure CostParameters (κ : Type) where
  defaultRowCount : κ
  filterSelectivity : κ
  joinSelectivity : κ

def CostParameters.default {κ : Type} [OfScientific κ] : CostParameters κ := ⟨1000.0, 0.1, 0.25⟩

structure CostModel (κ : Type) where
  parameters : CostParameters κ
  statistics : Option Statistics

namespace CostModel

variable {κ : Type} [CostScalar κ]

open CostScalar

def tableRows (m : CostModel κ) (table : String) : κ :=
  match m.statistics.bind (·.rowCount? table) with
  | some n => if n = 0 then m.parameters.defaultRowCount else ofCount n.toNat
  | none => m.parameters.defaultRowCount

/-- Reading or writing `rows` rows, a hundred to a page. -/
def pages (rows : κ) : Cost κ := Cost.of rows rows (larger (rows / 100.0) 1.0)

def scan (m : CostModel κ) (table : String) : Cost κ := pages (m.tableRows table)

def insert (rows : Nat) : Cost κ := pages (ofCount rows)

def filter (m : CostModel κ) (c : Cost κ) : Cost κ :=
  Cost.of (c.rows * m.parameters.filterSelectivity) (c.cpu + c.rows * 0.1) c.io

def project (c : Cost κ) : Cost κ := Cost.of c.rows (c.cpu + c.rows * 0.1) c.io

def aggregate (c : Cost κ) : Cost κ := Cost.of (larger (c.rows * 0.1) 1.0) (c.cpu + c.rows) c.io

def nLogN (x : κ) : κ := if atMost x 1.0 then 0.0 else x * log x

def hashJoin (m : CostModel κ) (l r : Cost κ) : Cost κ :=
  Cost.of (smaller l.rows r.rows * m.parameters.joinSelectivity) (l.rows + r.rows) (l.io + r.io)

def mergeJoin (m : CostModel κ) (l r : Cost κ) : Cost κ :=
  Cost.of (smaller l.rows r.rows * m.parameters.joinSelectivity)
    (nLogN l.rows + nLogN r.rows + l.rows + r.rows) (l.io + r.io)

/-- Never below a sort-merge join of the same inputs. -/
def loopJoin (m : CostModel κ) (l r : Cost κ) : Cost κ :=
  let pairs := l.rows * r.rows
  let merge := m.mergeJoin l r
  Cost.of (larger (pairs * m.parameters.joinSelectivity) merge.rows) (larger pairs merge.cpu)
    (l.io + r.io)

end CostModel

end RelQuery
