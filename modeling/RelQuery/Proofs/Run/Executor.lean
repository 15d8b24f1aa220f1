import RelQuery.Proofs.Run.Operator
import RelQuery.Run.Executor

/-!
# Running a tree to its end

Taking all rows of a tree folds them in the order in which the plan answers with them, whatever state
the tree was in, and leaves every operator of it closed, also when something failed.
-/

namespace RelQuery

variable {κ : Type}

namespace Operator

/-! ## Closed trees -/

def lives : (p : Plan κ) → Operator p → List Lifecycle
  | .scan .., scan life _ => [life]
  | .insert .., insert life _ _ => [life]
  | .filter _ _ p, filter life input => life :: lives p input
  | .project _ _ _ p, project life input => life :: lives p input
  | .aggregate _ _ _ _ p, aggregate life _ input => life :: lives p input
  | .loopJoin _ l r, loopJoin life _ left right => life :: (lives l left ++ lives r right)
  | .hashJoin _ l r, hashJoin life _ left right => life :: (lives l left ++ lives r right)
  | .mergeJoin _ l r, mergeJoin life _ left right => life :: (lives l left ++ lives r right)

def AllClosed {p : Plan κ} (op : Operator p) : Prop := ∀ life ∈ lives p op, life.phase = .closed

theorem allClosed_close : ∀ {p : Plan κ} (op : Operator p), (close p op).AllClosed
  | .scan .., scan _ _ => List.forall_mem_singleton.mpr rfl
  | .insert .., insert _ _ _ => List.forall_mem_singleton.mpr rfl
  | .filter _ _ _, filter _ input => List.forall_mem_cons.mpr ⟨rfl, allClosed_close input⟩
  | .project _ _ _ _, project _ input => List.forall_mem_cons.mpr ⟨rfl, allClosed_close input⟩
  | .aggregate _ _ _ _ _, aggregate _ _ input =>
    List.forall_mem_cons.mpr ⟨rfl, allClosed_close input⟩
  | .loopJoin _ _ _, loopJoin _ _ left right =>
    List.forall_mem_cons.mpr
      ⟨rfl, List.forall_mem_append.mpr ⟨allClosed_close left, allClosed_close right⟩⟩
  | .hashJoin _ _ _, hashJoin _ _ left right =>
    List.forall_mem_cons.mpr
      ⟨rfl, List.forall_mem_append.mpr ⟨allClosed_close left, allClosed_close right⟩⟩
  | .mergeJoin _ _ _, mergeJoin _ _ left right =>
    List.forall_mem_cons.mpr
      ⟨rfl, List.forall_mem_append.mpr ⟨allClosed_close left, allClosed_close right⟩⟩

theorem allClosed_foldRows {β : Type} (take : β → Row → β) {p : Plan κ} (b : β) (op : Operator p)
    (c : Catalog) : (foldRows take p b op c).state.AllClosed := by
  unfold foldRows
  split
  · exact allClosed_close _
  · exact allClosed_close _

theorem allClosed_collect {p : Plan κ} (op : Operator p) (c : Catalog) :
    (collect p op c).state.AllClosed := allClosed_foldRows _ [] op c

theorem allClosed_count {p : Plan κ} (op : Operator p) (c : Catalog) :
    (count p op c).state.AllClosed := allClosed_foldRows _ 0 op c

end Operator

/-! ## All rows of a tree -/

namespace Plan

variable {c : Catalog} {p : Plan κ} {succeeds : Prop} {rows : List Row}

theorem Runs.foldRows {β : Type} (h : Runs c p succeeds rows) (take : β → Row → β) (b : β)
    (op : Operator p) (b' : β) :
    (op.foldRows take p b c).result = .ok b' ↔ succeeds ∧ b' = rows.foldl take b := by
  obtain ⟨x, hstart, hx⟩ := h
  have hnot : (¬ ∃ rs, x = .ok (.ofRows rs)) → ¬ succeeds := fun hne hs =>
    hne ⟨rows, (hx rows).mpr ⟨hs, rfl⟩⟩
  have hfold : ∀ rs : List Row,
      (Supply.ofRows rs).fold (fun b row => (.ok (take b row) : Except QueryError β)) b =
        .ok (rs.foldl take b) := fun rs => by
    rw [Supply.fold_ofRows]
    exact List.foldlM_pure
  rw [Operator.foldRows]
  cases x with
  | error e =>
    obtain ⟨op', e'⟩ := hstart op
    rw [e']
    simp [hnot (by simp)]
  | ok st =>
    obtain ⟨op', e', hs⟩ := hstart op
    rw [e']
    simp only
    have hfuel : st.length < Operator.rowsLeft p op' + 1 := Nat.lt_succ_of_le hs.length_le
    cases hst : st.fold (fun b row => (.ok (take b row) : Except QueryError β)) b with
    | error err =>
      obtain ⟨b₁, s', e''⟩ := drain_error hs hfuel hst
      have hfails : ¬ succeeds := hnot (by
        rintro ⟨rs, hrs⟩
        rw [Except.ok.inj hrs, hfold] at hst
        cases hst)
      simp [e'', Except.map, hfails]
    | ok b₁ =>
      obtain ⟨s', e''⟩ := drain_ok hs hfuel hst
      obtain ⟨rs, rfl, -⟩ := Supply.fold_eq_ok hst
      obtain ⟨hsucc, rfl⟩ := (hx rs).mp rfl
      rw [hfold, Except.ok.injEq] at hst
      simp [e'', Except.map, ← hst, hsucc, eq_comm]

theorem Runs.collect (h : Runs c p succeeds rows) (op : Operator p) {out : List Row} :
    (op.collect p c).result = .ok out ↔ succeeds ∧ out = rows := by
  have hreverse : rows.foldl (fun rows row => row :: rows) [] = rows.reverse := by simp
  have hrows := h.foldRows (fun rows row => row :: rows) [] op
  rw [hreverse] at hrows
  unfold Operator.collect
  cases hr : (op.foldRows (fun rows row => row :: rows) p [] c).result with
  | error e =>
    have hfails : ¬ succeeds := fun hs => by
      rw [(hrows _).mpr ⟨hs, rfl⟩] at hr
      cases hr
    simp only [hr]
    simp [Except.map, hfails]
  | ok rs =>
    obtain ⟨hs, rfl⟩ := (hrows rs).mp hr
    simp only [hr]
    simp [Except.map, hs, eq_comm]

theorem Runs.count (h : Runs c p succeeds rows) (op : Operator p) {n : Nat} :
    (op.count p c).result = .ok n ↔ succeeds ∧ n = rows.length := by
  have hlength : ∀ (rs : List Row) (k : Nat), rs.foldl (fun n _ => n + 1) k = k + rs.length := by
    intro rs k
    induction rs generalizing k with
    | nil => rfl
    | cons r rs ih => rw [List.foldl_cons, ih, List.length_cons]; omega
  have := h.foldRows (fun n _ => n + 1) 0 op n
  rwa [hlength, Nat.zero_add] at this

theorem Runs.execute (h : Runs c p succeeds rows) (out : List Row) :
    (p.execute c).1 = .ok out ↔ succeeds ∧ out = rows := h.collect (.created p)

end Plan

end RelQuery
