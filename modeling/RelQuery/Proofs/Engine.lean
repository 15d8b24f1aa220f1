import RelQuery.Proofs.Plan.Accord
import RelQuery.Proofs.Query.HandedOn

/-!
# The engine and the baseline

A query that goes through all passes, is planned by cost and run gives the rows that it gives as it
stands, joined by nested loops: pushing keeps the rows and their order, pruning does, reordering keeps
the rows, and so do joins on keys. Each step has its own condition, under which no reference changes its
meaning and no two values that are compared go by one key although they are different.
-/

namespace RelQuery

variable {κ : Type} {c : Catalog}

theorem Plan.Carries.isReadOnly {p : Plan κ} {q : Query} (h : p.Carries q) :
    p.isReadOnly = q.isReadOnly := by
  induction h with
  | scan | insert => rfl
  | filter _ _ _ ih => exact ih
  | project _ _ _ _ ih => exact ih
  | aggregate _ _ _ _ _ ih => exact ih
  | loopJoin _ _ _ _ _ _ ihl ihr => rw [Plan.isReadOnly, Query.isReadOnly, ihl, ihr]
  | hashJoin _ _ _ _ _ ihl ihr => rw [Plan.isReadOnly, Query.isReadOnly, ihl, ihr]
  | mergeJoin _ _ _ _ _ ihl ihr => rw [Plan.isReadOnly, Query.isReadOnly, ihl, ihr]

namespace Setup

variable [CostScalar κ] {s : Setup κ} {q : Query}

theorem exists_plan (s : Setup κ) (q : Query) : ∃ p, s.plan q = .ok p ∧ p.Carries q := by
  rw [plan_eq]
  split
  · obtain ⟨p, hp⟩ := exists_search s.model q
    exact ⟨p, hp, carries_search hp⟩
  · exact ⟨q.baseline s.model, rfl, Plan.carries_baseline q⟩

theorem of_run_eq_ok {rs : List Row} (hread : (s.passes.apply q).isReadOnly = true)
    (h : (s.run q c).1 = .ok rs) :
    ∃ p : Plan κ, p.Carries (s.passes.apply q) ∧ p.Succeeds c ∧ rs = p.rows c := by
  obtain ⟨p, hp, hcarries⟩ := s.exists_plan (s.passes.apply q)
  rw [run, hp] at h
  obtain ⟨hok, hrows⟩ := (Plan.execute_eq_ok (hcarries.isReadOnly.trans hread)).mp h
  exact ⟨p, hcarries, hok, hrows⟩

def prepared (s : Setup κ) (q : Query) : Query :=
  (Passes.pushRounds s.config.maxPushRounds q).pruneColumns

/-- Where the baseline answers and the engine does, they answer with the same rows up to their order,
for every configuration and all statistics: if an input of a join that is no join itself narrows one
scan, no conjunct is sent below a join where it means another column, no reference in the conditions of
a chain that is built anew may mean columns of two inputs, and the columns that are equated store no two
values which comparison tells apart and keys do not. -/
theorem run_answers_as_baseline {κ' : Type} [CostScalar κ'] (s : Setup κ) (m : CostModel κ')
    (hc : c.Reachable) (ho : q.IsOver c) (hn : q.Neat) (hg : q.groupsNothing = true)
    (hclear : q.StaysClear []) (hsteady : (s.prepared q).Steady s.model)
    (hkeys : q.KeysClear (q.joinedCells c)) :
    ∀ rs rs', q.runBaseline m c = .ok rs → (s.run q c).1 = .ok rs' → rs'.Perm rs := by
  intro rs rs' h h'
  have hrect := hc.isRectangular
  obtain ⟨hok, rfl⟩ := (Query.runBaseline_eq_ok ho.isReadOnly).mp h
  have hpushed := Query.handsOn_pushRounds hrect ho hn hclear s.config.maxPushRounds
  have hrows : (s.prepared q).rows c = q.rows c :=
    (Query.rows_pruneColumns hrect hpushed.isOver hpushed.neat (hpushed.settled hok)).trans
      hpushed.rows
  have htraced : (s.prepared q).Traced c (q.joinedCells c) := by
    rw [← hpushed.joinedCells]
    refine Query.traced_pruneColumns hrect hpushed.isOver hpushed.neat
      (hpushed.groupsNothing.trans hg) (hpushed.conditionsAnswer hok) ?_
    rw [Query.KeysClear, hpushed.joinedCells, hpushed.innerConjuncts]
    exact hkeys
  have hreorders := Query.reorders_reorderJoins hrect htraced.scopedJoins htraced.isRectangular
    htraced.groupsNothing hsteady
  have hjoins := Query.clearJoins_reorderJoins hrect htraced hsteady
  obtain ⟨p, hcarries, hsucceeds, rfl⟩ := of_run_eq_ok hreorders.isReadOnly h'
  have hplanned : (p.rows c).Perm (((s.prepared q).reorderJoins s.model).rows c) :=
    hcarries.perm_rows hsucceeds hreorders.apartJoins hjoins
  rw [← hrows]
  exact hplanned.trans (hreorders.rows htraced.conditionsAnswer)

/-! ## Two queries -/

/-- The numbers of `b`, by another name, that are connected with the first of `a`. -/
def linkedNumbers : Query :=
  .project [⟨.column none "m", "m"⟩] ⟨[⟨"m", .int⟩]⟩
    (.filter (.binary (.compare .lt) (.column (some "a") "id") (.literal (.int 2)))
      (Query.joinOf .inner
        (some ((Expr.binary (.compare .eq) (.column (some "a") "id") (.column (some "c") "id")).and
          (.binary (.compare .eq) (.column (some "b") "m") (.column (some "c") "n"))))
        (Query.joinOf .inner none (.scan "a" none ⟨[⟨"id", .int⟩]⟩)
          (.project [⟨.column none "n", "m"⟩] ⟨[⟨"m", .int⟩]⟩ (.scan "b" none ⟨[⟨"n", .int⟩]⟩)))
        (.scan "c" none ⟨[⟨"id", .int⟩, ⟨"n", .int⟩]⟩)))

/-- The filter goes into a scan, the third input is joined before the second on a key, and the rows come
in another order. -/
theorem run_answers_as_baseline_on_linkedNumbers :
    let s : Setup Nat := ⟨⟨true, true, 4, .default⟩, none⟩
    Query.network.Reachable ∧ linkedNumbers.IsOver Query.network ∧ linkedNumbers.Neat ∧
      linkedNumbers.groupsNothing = true ∧ linkedNumbers.StaysClear [] ∧
      (s.prepared linkedNumbers).Steady s.model ∧
      linkedNumbers.KeysClear (linkedNumbers.joinedCells Query.network) ∧
      linkedNumbers.runBaseline .uninformed Query.network = .ok [[.int 7], [.int 8]] ∧
      (s.run linkedNumbers Query.network).1 = .ok [[.int 8], [.int 7]] ∧
      [[Value.int 8], [.int 7]].Perm [[Value.int 7], [.int 8]] := by
  intro s
  have ho : linkedNumbers.IsOver Query.network := by decide +kernel
  have hn : linkedNumbers.Neat := by decide +kernel
  have hclear : linkedNumbers.StaysClear [] := by decide +kernel
  have hsteady : (s.prepared linkedNumbers).Steady s.model := by decide +kernel
  have hkeys : linkedNumbers.KeysClear (linkedNumbers.joinedCells Query.network) :=
    Query.keysClear_of_isFloat (by decide +kernel)
  have hbase : linkedNumbers.runBaseline .uninformed Query.network = .ok [[.int 7], [.int 8]] :=
    (Query.runBaseline_eq_ok ho.isReadOnly).mpr (by decide +kernel)
  have hrun : (s.run linkedNumbers Query.network).1 = .ok [[.int 8], [.int 7]] := by
    decide +kernel
  have hsame := run_answers_as_baseline s .uninformed Query.reachable_network ho hn rfl hclear
    hsteady hkeys _ _ hbase hrun
  exact ⟨Query.reachable_network, ho, hn, rfl, hclear, hsteady, hkeys, hbase, hrun, hsame⟩

/-- The conjunct is sent to where `id` means the column of `g`, and the engine loses the row. -/
theorem run_loses_row :
    let s : Setup Nat := ⟨⟨false, true, 4, .default⟩, none⟩
    Query.sameNames.Reachable ∧ (Query.comparedWithId "id").WellScoped Query.sameNames ∧
      (Query.comparedWithId "id").runBaseline .uninformed Query.sameNames =
        .ok [[.int 2, .int 3, .int 1]] ∧
      (s.run (Query.comparedWithId "id") Query.sameNames).1 = .ok [] := by
  intro s
  have hq : (Query.comparedWithId "id").WellScoped Query.sameNames := by decide +kernel
  refine ⟨Query.reachable_sameNames, hq, ?_, by decide +kernel⟩
  exact (Query.runBaseline_eq_ok hq.isOver.isReadOnly).mpr (by decide +kernel)

end Setup

end RelQuery
