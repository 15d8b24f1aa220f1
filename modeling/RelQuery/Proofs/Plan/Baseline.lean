import RelQuery.Plan.Search
import RelQuery.Proofs.Run.Executor

/-!
# The baseline

The baseline rules offer one plan for every query, the one that joins by nested loops only. Run over
the tables, it answers with the query's rows if the query succeeds, and fails otherwise.
-/

namespace RelQuery

variable {κ : Type} [CostScalar κ]

def CostModel.uninformed : CostModel Float := ⟨.default, none⟩

namespace Query

def baseline (m : CostModel κ) : Query → Plan κ
  | scan t a s => .scan t a s (m.scan t)
  | insert t cs rows _ => .insert t cs rows (CostModel.insert rows.length)
  | filter e q => .filter e (m.filter (q.baseline m).cost) (q.baseline m)
  | project is s q => .project is s (CostModel.project (q.baseline m).cost) (q.baseline m)
  | aggregate gs os s q =>
    .aggregate gs os s (CostModel.aggregate (q.baseline m).cost) (q.baseline m)
  | join k e s l r =>
    .loopJoin
      ⟨k, e, s, l.qualifiers, r.qualifiers, m.loopJoin (l.baseline m).cost (r.baseline m).cost⟩
      (l.baseline m) (r.baseline m)

def runBaseline (m : CostModel κ) (q : Query) (c : Catalog) : Except QueryError (List Row) :=
  match search Rule.baseline m q with
  | .error e => .error e
  | .ok p => (p.execute c).1

variable {m : CostModel κ} {c : Catalog}

theorem schema_baseline : ∀ q : Query, (q.baseline m).schema = q.schema
  | scan .. | insert .. | project .. | aggregate .. | join .. => rfl
  | filter _ q => schema_baseline q

theorem qualifiers_baseline : ∀ q : Query, (q.baseline m).qualifiers = q.qualifiers
  | scan .. | insert .. => rfl
  | filter _ q | project _ _ q | aggregate _ _ _ q => qualifiers_baseline q
  | join _ _ _ l r => by
    rw [baseline, Plan.qualifiers, qualifiers_baseline l, qualifiers_baseline r]
    rfl

theorem search_baseline (m : CostModel κ) :
    ∀ q : Query, search Rule.baseline m q = .ok (q.baseline m)
  | scan .. | insert .. => rfl
  | filter _ q | project _ _ q | aggregate _ _ _ q => by
    rw [search, search_baseline m q]
    rfl
  | join _ _ _ l r => by
    rw [search, search_baseline m l, search_baseline m r]
    rfl

theorem lookIn_baseline (q : Query) : (q.baseline m).lookIn = q.lookIn := by
  funext row
  rw [Plan.lookIn, schema_baseline, qualifiers_baseline, lookIn]

theorem grouping_baseline (gs : List Expr) (os : List Item) (q : Query) :
    (q.baseline m).grouping gs os = q.groupingOf gs os := by
  rw [Plan.grouping, schema_baseline, qualifiers_baseline, groupingOf]

theorem baseline_runs (m : CostModel κ) (c : Catalog) : ∀ {q : Query}, q.isReadOnly = true →
    (q.baseline m).Runs c (q.Succeeds c) (q.rows c)
  | scan .., _ => Plan.scan_runs
  | filter e q, h => by
    have := (baseline_runs m c (q := q) h).filter e (m.filter (q.baseline m).cost)
    rwa [lookIn_baseline] at this
  | project is s q, h => by
    have := (baseline_runs m c (q := q) h).project is s (CostModel.project (q.baseline m).cost)
    rwa [lookIn_baseline] at this
  | aggregate gs os s q, h => by
    have := (baseline_runs m c (q := q) h).aggregate gs os s
      (CostModel.aggregate (q.baseline m).cost)
    rwa [grouping_baseline] at this
  | join k e s l r, h => by
    rw [isReadOnly, Bool.and_eq_true] at h
    have := (baseline_runs m c h.1).loopJoin (baseline_runs m c h.2)
      ⟨k, e, s, l.qualifiers, r.qualifiers, m.loopJoin (l.baseline m).cost (r.baseline m).cost⟩
    simp only [Plan.lookBoth, schema_baseline] at this
    exact this

theorem runBaseline_eq_ok {q : Query} (h : q.isReadOnly = true) {out : List Row} :
    q.runBaseline m c = .ok out ↔ q.Succeeds c ∧ out = q.rows c := by
  rw [runBaseline, search_baseline]
  exact (baseline_runs m c h).execute out

end Query

end RelQuery
