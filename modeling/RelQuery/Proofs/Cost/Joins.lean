import Mathlib.Algebra.Order.Field.Basic
import Mathlib.Algebra.Order.Field.Rat
import Mathlib.Tactic.Linarith
import Mathlib.Tactic.NormNum.OfScientific
import RelQuery.Cost.Model

/-!
# The ways to join, by cost

Over the numbers of an ordered field, hashing the inputs of a join costs no more than sorting and
merging them, and this no more than nested loops: in rows and in work of the processor, the work of the
disk being the same. Of the logarithm it matters only that it is not negative above one. No estimate has
a negative component.
-/

namespace RelQuery

/-- The numbers of a field, to be used for costs with any function for the logarithm. -/
def WithLog {κ : Type} (_ : κ → κ) : Type := κ

namespace WithLog

variable {κ : Type} [Field κ] [LinearOrder κ] {log : κ → κ}

instance : Field (WithLog log) := inferInstanceAs (Field κ)

instance : LinearOrder (WithLog log) := inferInstanceAs (LinearOrder κ)

instance [IsStrictOrderedRing κ] : IsStrictOrderedRing (WithLog log) :=
  inferInstanceAs (IsStrictOrderedRing κ)

instance : CostScalar (WithLog log) where
  larger x y := max x y
  smaller x y := min x y
  less x y := decide (x < y)
  atMost x y := decide (x ≤ y)
  same x y := decide (x = y)
  log := log
  ofCount n := (n : WithLog log)

end WithLog

/-- The same work of the disk, and no more rows or work of the processor. -/
structure Cost.Undercuts {κ : Type} [LE κ] (c d : Cost κ) : Prop where
  rows : c.rows ≤ d.rows
  cpu : c.cpu ≤ d.cpu
  io : c.io = d.io

/-- The estimates of a cost model, over inputs of any cost. -/
inductive CostModel.Gives {κ : Type} [CostScalar κ] (m : CostModel κ) : Cost κ → Prop
  | scan (table : String) : Gives m (m.scan table)
  | insert (rows : Nat) : Gives m (CostModel.insert rows)
  | filter (c : Cost κ) : Gives m (m.filter c)
  | project (c : Cost κ) : Gives m (CostModel.project c)
  | aggregate (c : Cost κ) : Gives m (CostModel.aggregate c)
  | hashJoin (l r : Cost κ) : Gives m (m.hashJoin l r)
  | mergeJoin (l r : Cost κ) : Gives m (m.mergeJoin l r)
  | loopJoin (l r : Cost κ) : Gives m (m.loopJoin l r)

namespace WithLog

variable {κ : Type} [Field κ] [LinearOrder κ] [IsStrictOrderedRing κ] {log : κ → κ}
  (m : CostModel (WithLog log))

theorem total_le {c d : Cost (WithLog log)} (h : c.Undercuts d) : c.total ≤ d.total := by
  show c.rows + c.cpu + c.io ≤ d.rows + d.cpu + d.io
  rw [h.io]
  exact add_le_add (add_le_add h.rows h.cpu) le_rfl

theorem of_eq (rows cpu io : WithLog log) :
    Cost.of rows cpu io = ⟨max rows 0, max cpu 0, max io 0⟩ := by
  have h0 : (0.0 : WithLog log) = 0 := by norm_num
  show (⟨max rows 0.0, max cpu 0.0, max io 0.0⟩ : Cost (WithLog log)) = _
  rw [h0]

theorem nonneg_of (rows cpu io : WithLog log) :
    0 ≤ (Cost.of rows cpu io).rows ∧ 0 ≤ (Cost.of rows cpu io).cpu ∧
      0 ≤ (Cost.of rows cpu io).io := by
  rw [of_eq]
  exact ⟨le_max_right _ _, le_max_right _ _, le_max_right _ _⟩

theorem nLogN_eq (x : WithLog log) :
    CostModel.nLogN x = if x ≤ 1 then 0 else x * CostScalar.log x := by
  have h0 : (0.0 : WithLog log) = 0 := by norm_num
  have h1 : (1.0 : WithLog log) = 1 := by norm_num
  show (if decide (x ≤ 1.0) = true then (0.0 : WithLog log) else x * CostScalar.log x) = _
  rw [h0, h1]
  simp only [decide_eq_true_eq]

theorem nLogN_nonneg (hlog : ∀ x, 1 < x → 0 ≤ log x) (x : WithLog log) :
    0 ≤ CostModel.nLogN x := by
  rw [nLogN_eq]
  split
  · exact le_rfl
  · rename_i h
    rw [not_le] at h
    exact mul_nonneg (zero_le_one.trans h.le) (hlog x h)

theorem undercuts_of {rows cpu rows' cpu' io : WithLog log} (hrows : rows ≤ rows')
    (hcpu : cpu ≤ cpu') : (Cost.of rows cpu io).Undercuts (Cost.of rows' cpu' io) := by
  rw [of_eq, of_eq]
  exact ⟨max_le_max_right 0 hrows, max_le_max_right 0 hcpu, rfl⟩

/-- By hashing the inputs need not be sorted. -/
theorem hashJoin_undercuts_mergeJoin (hlog : ∀ x, 1 < x → 0 ≤ log x) (l r : Cost (WithLog log)) :
    (m.hashJoin l r).Undercuts (m.mergeJoin l r) := by
  unfold CostModel.hashJoin CostModel.mergeJoin
  refine undercuts_of le_rfl ?_
  have hl := nLogN_nonneg hlog l.rows
  have hr := nLogN_nonneg hlog r.rows
  linarith

/-- Nested loops are charged at least what a sort-merge join of their inputs is. -/
theorem mergeJoin_undercuts_loopJoin (l r : Cost (WithLog log)) :
    (m.mergeJoin l r).Undercuts (m.loopJoin l r) := by
  have hio : (m.mergeJoin l r).io = max (l.io + r.io) 0 := by
    unfold CostModel.mergeJoin
    rw [of_eq]
  unfold CostModel.loopJoin
  rw [of_eq]
  exact ⟨(le_max_right _ _).trans (le_max_left _ _), (le_max_right _ _).trans (le_max_left _ _), hio⟩

theorem nonneg_of_gives {c : Cost (WithLog log)} (h : m.Gives c) :
    0 ≤ c.rows ∧ 0 ≤ c.cpu ∧ 0 ≤ c.io := by
  cases h <;> exact nonneg_of _ _ _

/-- Whatever the inputs cost and whatever the parameters are, a join is estimated lowest by hashing and
highest by nested loops, in each component and in total, with the same work of the disk. No estimate has
a negative component. -/
theorem joins_undercut_in_order (hlog : ∀ x, 1 < x → 0 ≤ log x) (m : CostModel (WithLog log)) :
    (∀ l r : Cost (WithLog log),
      (m.hashJoin l r).Undercuts (m.mergeJoin l r) ∧
      (m.mergeJoin l r).Undercuts (m.loopJoin l r) ∧
      (m.hashJoin l r).total ≤ (m.mergeJoin l r).total ∧
      (m.mergeJoin l r).total ≤ (m.loopJoin l r).total) ∧
    ∀ c, m.Gives c → 0 ≤ c.rows ∧ 0 ≤ c.cpu ∧ 0 ≤ c.io := by
  refine ⟨fun l r => ?_, fun c => nonneg_of_gives m⟩
  have hmerge := hashJoin_undercuts_mergeJoin m hlog l r
  have hloop := mergeJoin_undercuts_loopJoin m l r
  exact ⟨hmerge, hloop, total_le hmerge, total_le hloop⟩

def dipping (x : ℚ) : ℚ := if x < 10 then 7 else 1

/-- Twenty rows against half a row, of whose pairs fewer than none are expected to pass. -/
theorem joins_undercut_in_order_of_few :
    let m : CostModel (WithLog dipping) := ⟨⟨1000, 1 / 10, -1 / 2⟩, none⟩
    let l : Cost (WithLog dipping) := Cost.of 20 3 1
    let r : Cost (WithLog dipping) := Cost.of (1 / 2) (-4) 0
    (∀ x, 1 < x → 0 ≤ dipping x) ∧
      (m.hashJoin l r).Undercuts (m.mergeJoin l r) ∧
      (m.mergeJoin l r).Undercuts (m.loopJoin l r) ∧
      (m.hashJoin l r).total = 43 / 2 ∧ (m.mergeJoin l r).total = 83 / 2 ∧
      (m.loopJoin l r).total = 83 / 2 ∧ 0 ≤ (m.loopJoin l r).rows := by
  intro m l r
  have hlog : ∀ x, 1 < x → 0 ≤ dipping x := by
    intro x _
    unfold dipping
    split <;> norm_num
  obtain ⟨hjoins, hnonneg⟩ := joins_undercut_in_order hlog m
  obtain ⟨hmerge, hloop, -, -⟩ := hjoins l r
  refine ⟨hlog, hmerge, hloop, ?_, ?_, ?_, (hnonneg _ (.loopJoin l r)).1⟩
  · decide +kernel
  · decide +kernel
  · decide +kernel

end WithLog

end RelQuery
