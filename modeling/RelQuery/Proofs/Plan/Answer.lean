import RelQuery.Proofs.Data.Yields
import RelQuery.Proofs.Run.EquiJoin
import RelQuery.Proofs.Run.Executor

/-!
# The rows of a plan

What a plan answers with over the tables, from the leaves up and without any operator: every input is
a list of rows, and a node makes of it another list or fails. Running a plan without insertions gives
just that. `Plan.rows` and `Plan.Succeeds` take the two sides of it apart, as `Query.rows` and
`Query.Succeeds` do for queries.
-/

namespace RelQuery

variable {κ : Type}

namespace Plan

/-! ## The answer of a plan -/

def isReadOnly : Plan κ → Bool
  | scan .. => true
  | insert .. => false
  | filter _ _ p | project _ _ _ p | aggregate _ _ _ _ p => p.isReadOnly
  | loopJoin _ l r | hashJoin _ l r | mergeJoin _ l r => l.isReadOnly && r.isReadOnly

def keyed (keyOf : Row → Except QueryError Value) (rs : List Row) : Except QueryError (List Keyed) :=
  rs.mapM fun row => do return (← keyOf row, row)

/-- The answer over lists of rows. A join by nested loops first compares all pairs; a join on keys
first finds the keys of all rows. -/
def answer (c : Catalog) : Plan κ → Except QueryError (List Row)
  | scan t _ _ _ =>
    match c.table t with
    | .ok table => .ok table.rows
    | .error e => .error (.store e)
  | insert .. => .error (.invalidState .noTable)
  | filter e _ p => do (← p.answer c).filterM (p.test e)
  | project is _ _ p => do (← p.answer c).mapM (p.output is)
  | aggregate gs os _ _ p => do (p.grouping gs os).answer (← p.answer c)
  | loopJoin j l r => do
    let ls ← l.answer c
    let rs ← r.answer c
    let _ ← ls.mapM fun a => rs.mapM (pairTest j l r a)
    return j.kind.joinRows l.schema.width r.schema.width
      (fun a b => (pairTest j l r a b).toOption == some true) ls rs
  | hashJoin j l r => do
    let ls ← keyed (leftKeyOf j l) (← l.answer c)
    let rs ← keyed (rightKeyOf j r) (← r.answer c)
    return ls.flatMap fun a => (rs.filter fun b => Key.joins a.1 b.1).map a.pair
  | mergeJoin j l r => do
    let ls ← keyed (leftKeyOf j l) (← l.answer c)
    let rs ← keyed (rightKeyOf j r) (← r.answer c)
    return mergeRows (sortKeyed (ls.filter (!·.1.isNull))) (sortKeyed (rs.filter (!·.1.isNull)))

/-! ## Rows and success -/

def rows (c : Catalog) : Plan κ → List Row
  | scan t _ _ _ => ((c.find? t).map (·.rows)).getD []
  | insert .. => []
  | filter e _ p => (p.rows c).filter fun row => e.holdsIn (p.lookIn row)
  | project is _ _ p => (p.rows c).map fun row => is.map (·.valueIn (p.lookIn row))
  | aggregate gs os _ _ p => (p.grouping gs os).rowsOf (p.rows c)
  | loopJoin j l r =>
    j.kind.joinRows l.schema.width r.schema.width
      (fun a b => conditionHolds j.condition (lookBoth j l r a b)) (l.rows c) (r.rows c)
  | hashJoin j l r =>
    (l.rows c).flatMap fun a => ((r.rows c).filter (sameKeys j l r a)).map (a ++ ·)
  | mergeJoin j l r =>
    mergeRows (sortKeyed (keyedRows (leftKeyIn j l) (l.rows c)))
      (sortKeyed (keyedRows (rightKeyIn j r) (r.rows c)))

def Succeeds (c : Catalog) : Plan κ → Prop
  | scan t _ _ _ => (c.find? t).isSome
  | insert .. => False
  | filter e _ p => p.Succeeds c ∧ ∀ row ∈ p.rows c, (e.evalWith (p.lookIn row)).isOk
  | project is _ _ p =>
    p.Succeeds c ∧ ∀ row ∈ p.rows c, ∀ i ∈ is, (i.expr.evalWith (p.lookIn row)).isOk
  | aggregate gs os _ _ p => p.Succeeds c ∧ ((p.grouping gs os).answer (p.rows c)).isOk
  | loopJoin j l r =>
    l.Succeeds c ∧ r.Succeeds c ∧ ∀ a ∈ l.rows c, ∀ b ∈ r.rows c, ∀ e ∈ j.condition,
      (e.evalWith (lookBoth j l r a b)).isOk
  | hashJoin j l r | mergeJoin j l r =>
    l.Succeeds c ∧ r.Succeeds c ∧ HaveKeys j l r (l.rows c) (r.rows c)

variable {c : Catalog}

theorem yields_test (p : Plan κ) (e : Expr) (row : Row) :
    Yields (p.test e row) (e.evalWith (p.lookIn row)).isOk (e.holdsIn (p.lookIn row)) :=
  .intro test_of_isOk fun _ => isOk_of_test

theorem yields_output (p : Plan κ) (is : List Item) (row : Row) :
    Yields (p.output is row) (∀ i ∈ is, (i.expr.evalWith (p.lookIn row)).isOk)
      (is.map (·.valueIn (p.lookIn row))) :=
  .intro output_of_isOk fun _ => isOk_of_output

theorem yields_pairTest (j : LoopJoin κ) (l r : Plan κ) (a b : Row) :
    Yields (pairTest j l r a b) (∀ e ∈ j.condition, (e.evalWith (lookBoth j l r a b)).isOk)
      (conditionHolds j.condition (lookBoth j l r a b)) :=
  .intro pairTest_of_isOk fun _ => isOk_of_pairTest

/-- A comparison that fails counts as not true. -/
theorem toOption_pairTest (j : LoopJoin κ) (l r : Plan κ) (a b : Row) :
    ((pairTest j l r a b).toOption == some true) = conditionHolds j.condition (lookBoth j l r a b) := by
  cases ht : pairTest j l r a b with
  | ok t =>
    rw [(((yields_pairTest j l r a b) t).mp ht).2]
    cases conditionHolds j.condition (lookBoth j l r a b) <;> rfl
  | error err =>
    cases hc : conditionHolds j.condition (lookBoth j l r a b) with
    | false => rfl
    | true =>
      have hok : ∀ e ∈ j.condition, (e.evalWith (lookBoth j l r a b)).isOk := by
        intro e he
        rw [conditionHolds, he, Option.all_some, Expr.holdsIn_iff] at hc
        rw [hc]
        rfl
      rw [(yields_pairTest j l r a b).eq_ok hok] at ht
      cases ht

theorem yields_keyed {p : Plan κ} {quals : List String} {e : Expr} (rs : List Row) :
    Yields (keyed (p.keyOf quals e) rs) (∀ row ∈ rs, (e.evalWith (p.lookAs quals row)).isOk)
      (rs.map fun row => (p.keyIn quals e row, row)) :=
  yields_mapM fun row _ =>
    (Yields.intro keyOf_of_isOk fun _ => isOk_of_keyOf : Yields (p.keyOf quals e row) _ _).map
      (·, row)

theorem yields_grouping (g : Grouping) (rs : List Row) :
    Yields (g.answer rs) (g.answer rs).isOk (g.rowsOf rs) := by
  unfold Grouping.rowsOf
  cases g.answer rs with
  | ok out => exact (Yields.ok out).congr ⟨fun _ => rfl, fun _ => trivial⟩ rfl
  | error e => exact (Yields.error e []).congr ⟨False.elim, nofun⟩ rfl

theorem filter_keyed (f : Row → Value) (rs : List Row) :
    (rs.map fun row => (f row, row)).filter (!·.1.isNull) = keyedRows f rs := by
  rw [List.filter_map]
  rfl

/-- A join on keys, whatever is made of the rows with their keys. -/
theorem yields_onKeys {x y : Except QueryError (List Row)} {s t : Prop} {ls rs : List Row}
    (hx : Yields x s ls) (hy : Yields y t rs) (j : EquiJoin κ) (l r : Plan κ)
    (f : List Keyed → List Keyed → List Row) :
    Yields
      (do
        let ks ← keyed (leftKeyOf j l) (← x)
        let ks' ← keyed (rightKeyOf j r) (← y)
        return f ks ks')
      (s ∧ t ∧ HaveKeys j l r ls rs)
      (f (ls.map fun a => (leftKeyIn j l a, a)) (rs.map fun b => (rightKeyIn j r b, b))) := by
  have hl : Yields (keyed (leftKeyOf j l) ls) _ _ := yields_keyed ls
  have hr : Yields (keyed (rightKeyOf j r) rs) _ _ := yields_keyed rs
  refine (hx.bind (hl.bind (hy.bind (hr.map (f _))))).congr ?_ rfl
  constructor
  · rintro ⟨hs, hleft, ht, hright⟩
    exact ⟨hs, ht, hleft, hright⟩
  · rintro ⟨hs, ht, hleft, hright⟩
    exact ⟨hs, hleft, ht, hright⟩

/-- A plan has an answer exactly if nothing fails in it, and then its rows are the answer. -/
theorem yields_answer : ∀ p : Plan κ, Yields (p.answer c) (p.Succeeds c) (p.rows c)
  | scan t a s k => by
    unfold answer Succeeds rows Catalog.table
    cases c.find? t with
    | none => exact (Yields.error _ []).congr (by simp) rfl
    | some table => exact (Yields.ok table.rows).congr (by simp) rfl
  | insert .. => .error _ []
  | filter e _ p => (yields_answer p).bind (yields_filterM fun row _ => yields_test p e row)
  | project is _ _ p => (yields_answer p).bind (yields_mapM fun row _ => yields_output p is row)
  | aggregate gs os _ _ p => (yields_answer p).bind (yields_grouping (p.grouping gs os) (p.rows c))
  | loopJoin j l r => by
    have hpairs : Yields ((l.rows c).mapM fun a => (r.rows c).mapM (pairTest j l r a)) _ _ :=
      yields_mapM fun a _ => yields_mapM fun b _ => yields_pairTest j l r a b
    have hmeets : (fun a b => (pairTest j l r a b).toOption == some true) =
        fun a b => conditionHolds j.condition (lookBoth j l r a b) :=
      funext fun a => funext fun b => toOption_pairTest j l r a b
    rw [answer, hmeets]
    exact (yields_answer l).bind ((yields_answer r).bind (hpairs.map fun _ => _))
  | hashJoin j l r => by
    have hkeyed := yields_onKeys (yields_answer l) (yields_answer r) j l r fun ks ks' =>
      ks.flatMap fun a => (ks'.filter fun b => Key.joins a.1 b.1).map a.pair
    simp only [List.flatMap_map, List.filter_map, List.map_map] at hkeyed
    exact hkeyed
  | mergeJoin j l r => by
    have hkeyed := yields_onKeys (yields_answer l) (yields_answer r) j l r fun ks ks' =>
      mergeRows (sortKeyed (ks.filter (!·.1.isNull))) (sortKeyed (ks'.filter (!·.1.isNull)))
    rw [filter_keyed, filter_keyed] at hkeyed
    exact hkeyed

/-! ## Running a plan -/

theorem runs : ∀ {p : Plan κ}, p.isReadOnly = true → p.Runs c (p.Succeeds c) (p.rows c)
  | scan .., _ => scan_runs
  | filter e k p, h => (runs (p := p) h).filter e k
  | project is s k p, h => (runs (p := p) h).project is s k
  | aggregate gs os s k p, h => (runs (p := p) h).aggregate gs os s k
  | loopJoin j l r, h => by
    unfold isReadOnly at h
    rw [Bool.and_eq_true] at h
    exact (runs h.1).loopJoin (runs h.2) j
  | hashJoin j l r, h => by
    unfold isReadOnly at h
    rw [Bool.and_eq_true] at h
    exact (runs h.1).hashJoin (runs h.2) j
  | mergeJoin j l r, h => by
    unfold isReadOnly at h
    rw [Bool.and_eq_true] at h
    exact (runs h.1).mergeJoin (runs h.2) j

theorem execute_eq_ok {p : Plan κ} (h : p.isReadOnly = true) {out : List Row} :
    (p.execute c).1 = .ok out ↔ p.Succeeds c ∧ out = p.rows c := (runs h).execute out

/-- Whatever state a tree is in, taking all its rows gives the answer of its plan, counting them gives
their number, and either way every operator is closed in the end. -/
theorem collect_iff_answer {p : Plan κ} (h : p.isReadOnly = true) (c : Catalog) (op : Operator p) :
    (∀ out, (op.collect p c).result = .ok out ↔ p.answer c = .ok out) ∧
      (∀ out, (p.execute c).1 = .ok out ↔ p.answer c = .ok out) ∧
      (∀ n, (op.count p c).result = .ok n ↔ ∃ out, p.answer c = .ok out ∧ n = out.length) ∧
      (op.collect p c).state.AllClosed ∧ (op.count p c).state.AllClosed := by
  have hanswer := yields_answer (c := c) p
  refine ⟨fun out => ?_, fun out => ?_, fun n => ?_, op.allClosed_collect c, op.allClosed_count c⟩
  · rw [(runs h).collect op, hanswer out]
  · rw [execute_eq_ok h, hanswer out]
  · rw [(runs h).count op]
    constructor
    · rintro ⟨hs, rfl⟩
      exact ⟨_, hanswer.eq_ok hs, rfl⟩
    · rintro ⟨out, hout, rfl⟩
      obtain ⟨hs, rfl⟩ := (hanswer out).mp hout
      exact ⟨hs, rfl⟩

def library : Catalog :=
  ((Catalog.empty.createWithRows "book" ⟨[⟨"id", .int⟩, ⟨"title", .varchar 8⟩]⟩
    [[.int 1, .string "Emma"], [.int 2, .string "Ulysses"]]).2.createWithRows "loan"
      ⟨[⟨"book", .int⟩, ⟨"days", .int⟩]⟩ [[.int 2, .int 90], [.int 3, .int 80], [.int 1, .int 5]]).2

/-- The books beside the long loans, those without the other included. -/
def longLoans : Plan Unit :=
  .project [⟨.column none "title", "title"⟩, ⟨.column none "days", "days"⟩]
    ⟨[⟨"title", .varchar 8⟩, ⟨"days", .int⟩]⟩ ⟨(), (), ()⟩
    (.loopJoin
      ⟨.full, some (.binary (.compare .eq) (.column none "id") (.column (some "loan") "book")),
        ⟨[⟨"id", .int⟩, ⟨"title", .varchar 8⟩, ⟨"loan.book", .int⟩, ⟨"loan.days", .int⟩]⟩,
        ["book"], ["loan"], ⟨(), (), ()⟩⟩
      (.scan "book" none ⟨[⟨"id", .int⟩, ⟨"title", .varchar 8⟩]⟩ ⟨(), (), ()⟩)
      (.filter (.binary (.compare .lt) (.literal (.int 30)) (.column none "days")) ⟨(), (), ()⟩
        (.scan "loan" none ⟨[⟨"book", .int⟩, ⟨"days", .int⟩]⟩ ⟨(), (), ()⟩)))

theorem collect_iff_answer_on_longLoans :
    longLoans.isReadOnly = true ∧
      longLoans.answer library =
        .ok [[.string "Emma", .null], [.string "Ulysses", .int 90], [.null, .int 80]] ∧
      (longLoans.execute library).1 =
        .ok [[.string "Emma", .null], [.string "Ulysses", .int 90], [.null, .int 80]] ∧
      ((Operator.created longLoans).count longLoans library).result = .ok 3 ∧
      ((Operator.created longLoans).collect longLoans library).state.AllClosed := by
  have hanswer : longLoans.answer library =
      .ok [[.string "Emma", .null], [.string "Ulysses", .int 90], [.null, .int 80]] :=
    eq_ok_of_toOption (by decide +kernel)
  obtain ⟨-, hexecute, hcount, hclosed, -⟩ := collect_iff_answer rfl library (.created longLoans)
  exact ⟨rfl, hanswer, (hexecute _).mpr hanswer, (hcount 3).mpr ⟨_, hanswer, rfl⟩, hclosed⟩

end Plan

end RelQuery
