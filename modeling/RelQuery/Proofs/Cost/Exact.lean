import RelQuery.Proofs.Cost.Joins

/-!
# Costs over exact numbers

Over the numbers of an ordered field, with any function for the logarithm that grows and is not negative
above one, every cost formula grows with each component of its inputs' costs, and of the three ways to
join the same inputs hashing costs least and nested loops most in each component.
-/

namespace RelQuery

/-- What the formulas use of a logarithm. -/
structure Logarithm (κ : Type) [Field κ] [LinearOrder κ] where
  log : κ → κ
  monotoneOn : MonotoneOn log (Set.Ioi 1)
  nonneg : ∀ x, 1 < x → 0 ≤ log x

/-- The numbers of a field, to be used for costs with this logarithm. -/
def Exact {κ : Type} [Field κ] [LinearOrder κ] (_ : Logarithm κ) : Type := κ

namespace Exact

variable {κ : Type} [Field κ] [LinearOrder κ] {L : Logarithm κ}

def log (x : Exact L) : Exact L := L.log x

instance : Field (Exact L) := inferInstanceAs (Field κ)

instance : LinearOrder (Exact L) := inferInstanceAs (LinearOrder κ)

instance [IsStrictOrderedRing κ] : IsStrictOrderedRing (Exact L) :=
  inferInstanceAs (IsStrictOrderedRing κ)

instance : CostScalar (Exact L) where
  larger x y := max x y
  smaller x y := min x y
  less x y := decide (x < y)
  atMost x y := decide (x ≤ y)
  same x y := decide (x = y)
  log := log
  ofCount n := (n : Exact L)

theorem log_mono {x y : Exact L} (hx : 1 < x) (h : x ≤ y) : log x ≤ log y :=
  L.monotoneOn hx (lt_of_lt_of_le hx h) h

theorem log_nonneg {x : Exact L} (h : 1 < x) : 0 ≤ log x := L.nonneg x h

end Exact

namespace Cost

variable {κ : Type} [Field κ] [LinearOrder κ] [IsStrictOrderedRing κ] {L : Logarithm κ}

structure IsNonneg (c : Cost (Exact L)) : Prop where
  rows : 0 ≤ c.rows
  cpu : 0 ≤ c.cpu
  io : 0 ≤ c.io

structure Within (c d : Cost (Exact L)) : Prop where
  rows : c.rows ≤ d.rows
  cpu : c.cpu ≤ d.cpu
  io : c.io ≤ d.io

-- Among the numbers with any logarithm are those with one that grows, operation for operation, so what
-- is proved of the former is taken over as it is.
theorem of_eq (rows cpu io : Exact L) : Cost.of rows cpu io = ⟨max rows 0, max cpu 0, max io 0⟩ :=
  @WithLog.of_eq κ _ _ _ L.log rows cpu io

omit [IsStrictOrderedRing κ] in
theorem total_eq (c : Cost (Exact L)) : c.total = c.rows + c.cpu + c.io := rfl

theorem isNonneg_of (rows cpu io : Exact L) : (Cost.of rows cpu io).IsNonneg := by
  rw [of_eq]
  exact ⟨le_max_right _ _, le_max_right _ _, le_max_right _ _⟩

theorem within_of {rows cpu io rows' cpu' io' : Exact L} (hrows : rows ≤ max rows' 0)
    (hcpu : cpu ≤ cpu') (hio : io ≤ io') :
    (Cost.of rows cpu io).Within (Cost.of rows' cpu' io') := by
  rw [of_eq, of_eq]
  exact ⟨max_le hrows (le_max_right _ _), max_le_max_right 0 hcpu, max_le_max_right 0 hio⟩

omit [IsStrictOrderedRing κ] in
theorem Within.refl (c : Cost (Exact L)) : c.Within c := ⟨le_rfl, le_rfl, le_rfl⟩

omit [IsStrictOrderedRing κ] in
theorem Within.trans {c d e : Cost (Exact L)} (h : c.Within d) (h' : d.Within e) : c.Within e :=
  ⟨h.rows.trans h'.rows, h.cpu.trans h'.cpu, h.io.trans h'.io⟩

theorem Within.total {c d : Cost (Exact L)} (h : c.Within d) : c.total ≤ d.total := by
  rw [total_eq, total_eq]
  exact add_le_add (add_le_add h.rows h.cpu) h.io

end Cost

namespace CostModel

variable {κ : Type} [Field κ] [LinearOrder κ] [IsStrictOrderedRing κ] {L : Logarithm κ}
  (m : CostModel (Exact L)) {c c' l l' r r' : Cost (Exact L)}

/-- A share of more rows is not less, once negative numbers are raised to zero. -/
theorem share_mono {x y : Exact L} (share : Exact L) (hx : 0 ≤ x) (h : x ≤ y) :
    x * share ≤ max (y * share) 0 := by
  rcases le_total 0 share with hs | hs
  · exact (mul_le_mul_of_nonneg_right h hs).trans (le_max_left _ _)
  · exact (mul_nonpos_of_nonneg_of_nonpos hx hs).trans (le_max_right _ _)

theorem nLogN_eq (x : Exact L) : nLogN x = if x ≤ 1 then 0 else x * Exact.log x :=
  @WithLog.nLogN_eq κ _ _ _ L.log x

theorem nLogN_nonneg (x : Exact L) : 0 ≤ nLogN x :=
  @WithLog.nLogN_nonneg κ _ _ _ L.log L.nonneg x

theorem nLogN_mono {x y : Exact L} (h : x ≤ y) : nLogN x ≤ nLogN y := by
  by_cases hx : x ≤ 1
  · rw [nLogN_eq x, if_pos hx]
    exact nLogN_nonneg y
  · rw [not_le] at hx
    have hy : 1 < y := hx.trans_le h
    rw [nLogN_eq, nLogN_eq, if_neg (not_le.mpr hx), if_neg (not_le.mpr hy)]
    exact mul_le_mul h (Exact.log_mono hx h) (Exact.log_nonneg hx) (zero_le_one.trans hy.le)

/-! ## One input -/

theorem tenth_nonneg : (0 : Exact L) ≤ 0.1 := by norm_num

theorem filter_mono (hc : c.IsNonneg) (h : c.Within c') : (m.filter c).Within (m.filter c') := by
  unfold filter
  refine Cost.within_of (share_mono _ hc.rows h.rows) ?_ h.io
  exact add_le_add h.cpu (mul_le_mul_of_nonneg_right h.rows tenth_nonneg)

theorem project_mono (h : c.Within c') : (project c).Within (project c') := by
  unfold project
  refine Cost.within_of (h.rows.trans (le_max_left _ _)) ?_ h.io
  exact add_le_add h.cpu (mul_le_mul_of_nonneg_right h.rows tenth_nonneg)

theorem aggregate_mono (h : c.Within c') : (aggregate c).Within (aggregate c') := by
  unfold aggregate
  refine Cost.within_of ?_ (add_le_add h.cpu h.rows) h.io
  exact (max_le_max_right _ (mul_le_mul_of_nonneg_right h.rows tenth_nonneg)).trans
    (le_max_left _ _)

/-! ## Joins -/

theorem hashJoin_mono (hl : l.IsNonneg) (hr : r.IsNonneg) (h : l.Within l') (h' : r.Within r') :
    (m.hashJoin l r).Within (m.hashJoin l' r') := by
  unfold hashJoin
  refine Cost.within_of ?_ (add_le_add h.rows h'.rows) (add_le_add h.io h'.io)
  exact share_mono _ (le_min hl.rows hr.rows) (min_le_min h.rows h'.rows)

theorem mergeJoin_mono (hl : l.IsNonneg) (hr : r.IsNonneg) (h : l.Within l') (h' : r.Within r') :
    (m.mergeJoin l r).Within (m.mergeJoin l' r') := by
  unfold mergeJoin
  refine Cost.within_of ?_ ?_ (add_le_add h.io h'.io)
  · exact share_mono _ (le_min hl.rows hr.rows) (min_le_min h.rows h'.rows)
  · exact add_le_add (add_le_add (add_le_add (nLogN_mono h.rows) (nLogN_mono h'.rows)) h.rows)
      h'.rows

theorem loopJoin_mono (hl : l.IsNonneg) (hr : r.IsNonneg) (h : l.Within l') (h' : r.Within r') :
    (m.loopJoin l r).Within (m.loopJoin l' r') := by
  have hmerge := m.mergeJoin_mono hl hr h h'
  have hpairs : l.rows * r.rows ≤ l'.rows * r'.rows :=
    mul_le_mul h.rows h'.rows hr.rows (hl.rows.trans h.rows)
  unfold loopJoin
  refine Cost.within_of (max_le ?_ ?_) (max_le_max hpairs hmerge.cpu) (add_le_add h.io h'.io)
  · refine (share_mono _ (mul_nonneg hl.rows hr.rows) hpairs).trans ?_
    exact max_le_max_right 0 (le_max_left _ _)
  · exact hmerge.rows.trans ((le_max_right _ _).trans (le_max_left _ _))

theorem hashJoin_within_mergeJoin (l r : Cost (Exact L)) :
    (m.hashJoin l r).Within (m.mergeJoin l r) := by
  have h := @WithLog.hashJoin_undercuts_mergeJoin κ _ _ _ L.log m L.nonneg l r
  exact ⟨h.rows, h.cpu, h.io.le⟩

theorem mergeJoin_within_loopJoin (l r : Cost (Exact L)) :
    (m.mergeJoin l r).Within (m.loopJoin l r) := by
  have h := @WithLog.mergeJoin_undercuts_loopJoin κ _ _ _ L.log m l r
  exact ⟨h.rows, h.cpu, h.io.le⟩

end CostModel

end RelQuery
