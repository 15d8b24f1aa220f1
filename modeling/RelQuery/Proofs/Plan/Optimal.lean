import Mathlib.Analysis.SpecialFunctions.Log.Basic
import RelQuery.Proofs.Cost.Exact
import RelQuery.Proofs.Plan.Accord

/-!
# The search finds the cheapest plan

Of all plans that can be put together by taking, node for node, any of the plans that the rules offer,
none costs less than the one that the search finds: the plan that it keeps for an input is not above
any other in any component of its cost, and every formula grows with these components. Over exact
numbers a join is hashed where there are keys and done by nested loops elsewhere.
-/

namespace RelQuery

variable {κ : Type}

section

variable [CostScalar κ] (rules : List (Rule κ)) (m : CostModel κ)

/-- One of the rules offers the plan for the node over these plans for its inputs. -/
def Offers (q : Query) (inputs : List (Plan κ)) (p : Plan κ) : Prop :=
  ∃ rule ∈ rules, rule.matchesNode q = true ∧
    ∃ plans, rule.apply q inputs m = .ok plans ∧ p ∈ plans

/-- The plans that come about if any of those offered is taken for each node. -/
def Offered : Query → Plan κ → Prop
  | .scan t a s, p => Offers rules m (.scan t a s) [] p
  | .insert t cs rows s, p => Offers rules m (.insert t cs rows s) [] p
  | .filter e q, p => ∃ input, Offered q input ∧ Offers rules m (.filter e q) [input] p
  | .project is s q, p => ∃ input, Offered q input ∧ Offers rules m (.project is s q) [input] p
  | .aggregate gs os s q, p =>
    ∃ input, Offered q input ∧ Offers rules m (.aggregate gs os s q) [input] p
  | .join k e s l r, p =>
    ∃ pl pr, Offered l pl ∧ Offered r pr ∧ Offers rules m (.join k e s l r) [pl, pr] p

def Rule.ofNode : Query → Rule κ
  | .scan .. => .scan
  | .insert .. => .insert
  | .filter .. => .filter
  | .project .. => .project
  | .aggregate .. => .aggregate
  | .join .. => .join

variable {rules m} {q : Query} {inputs : List (Plan κ)} {p : Plan κ}

theorem offers_defaults_iff : Offers Rule.defaults m q inputs p ↔
    ∃ plans, (Rule.ofNode q).apply q inputs m = .ok plans ∧ p ∈ plans := by
  unfold Offers Rule.defaults Rule.ofNode
  cases q <;>
    simp [Rule.scan, Rule.insert, Rule.filter, Rule.project, Rule.aggregate, Rule.join, Rule.joinOf]

theorem offers_iff_of_apply {only : Plan κ} (h : (Rule.ofNode q).apply q inputs m = .ok [only]) :
    Offers Rule.defaults m q inputs p ↔ p = only := by
  rw [offers_defaults_iff]
  simp [h]

theorem offers_join_iff {k : JoinKind} {e : Option Expr} {s : Schema} {l r : Query}
    {pl pr : Plan κ} : Offers Rule.defaults m (.join k e s l r) [pl, pr] p ↔
      p ∈ Rule.joinAlternatives true m k e s l r pl pr := by
  rw [offers_defaults_iff]
  exact ⟨fun ⟨_, hplans, h⟩ => by cases hplans; exact h, fun h => ⟨_, rfl, h⟩⟩

theorem offered_priced : ∀ {q : Query} {p : Plan κ}, Offered Rule.defaults m q p → p.Priced m
  | .scan .., p, h | .insert .., p, h => by
    rw [(offers_iff_of_apply rfl).mp h]
    rfl
  | .filter .., p, h | .project .., p, h | .aggregate .., p, h => by
    obtain ⟨input, hinput, h⟩ := h
    rw [(offers_iff_of_apply rfl).mp h]
    exact ⟨rfl, offered_priced hinput⟩
  | .join .., p, h => by
    obtain ⟨pl, pr, hl, hr, h⟩ := h
    exact Plan.priced_of_mem_joinAlternatives (offered_priced hl) (offered_priced hr)
      (offers_join_iff.mp h)

theorem offered_search : ∀ {q : Query} {p : Plan κ}, search Rule.defaults m q = .ok p →
    Offered Rule.defaults m q p
  | .scan .., p, h | .insert .., p, h => by
    cases h
    exact (offers_iff_of_apply rfl).mpr rfl
  | .filter .., p, h | .project .., p, h | .aggregate .., p, h => by
    obtain ⟨input, hinput, h⟩ := bind_eq_ok_iff.mp h
    cases h
    exact ⟨input, offered_search hinput, (offers_iff_of_apply rfl).mpr rfl⟩
  | .join .., p, h => by
    obtain ⟨pl, hl, h⟩ := bind_eq_ok_iff.mp h
    obtain ⟨pr, hr, h⟩ := bind_eq_ok_iff.mp h
    exact ⟨pl, pr, offered_search hl, offered_search hr, offers_join_iff.mpr (mem_of_choose_join h)⟩

end

/-! ## Costs of plans -/

section

variable [Field κ] [LinearOrder κ] [IsStrictOrderedRing κ] {L : Logarithm κ}
  {m : CostModel (Exact L)} {p : Plan (Exact L)}

theorem Plan.isNonneg_estimate (m : CostModel (Exact L)) (p : Plan (Exact L)) :
    (p.estimate m).IsNonneg := by
  cases p <;> exact Cost.isNonneg_of _ _ _

theorem isNonneg_search {q : Query} (h : search Rule.defaults m q = .ok p) : p.cost.IsNonneg := by
  rw [(Plan.priced_search h).cost_eq]
  exact p.isNonneg_estimate m

/-! ## The best way to join -/

theorem Plan.not_isBetter {p best : Plan (Exact L)} (hcost : best.cost.Within p.cost)
    (hrank : best.rank ≤ p.rank) : p.isBetter best = false := by
  have htotal := hcost.total
  show (decide (p.cost.total < best.cost.total) ||
    (decide (p.cost.total = best.cost.total) && decide (p.rank < best.rank))) = false
  rw [decide_eq_false (not_lt.mpr htotal), decide_eq_false (Nat.not_lt.mpr hrank), Bool.and_false]
  rfl

/-- A first plan that no other is cheaper than, in any component, or ranks before is taken. -/
theorem Plan.best?_cons {best : Plan (Exact L)} : ∀ {ps : List (Plan (Exact L))},
    (∀ p ∈ ps, best.cost.Within p.cost ∧ best.rank ≤ p.rank) → best? (best :: ps) = some best
  | [], _ => rfl
  | p :: ps, h => by
    obtain ⟨⟨hcost, hrank⟩, hps⟩ := List.forall_mem_cons.mp h
    have hbest := best?_cons hps
    rw [best?] at hbest ⊢
    rw [List.foldl_cons, not_isBetter hcost hrank]
    exact hbest

def Query.joinKeys? (k : JoinKind) (e : Option Expr) (l r : Query) : Option (Expr × Expr) :=
  if k = .inner then e.bind (equiJoinKeys? · l r) else none

variable {k : JoinKind} {e : Option Expr} {s : Schema} {l r : Query} {pl pr : Plan (Exact L)}

omit [IsStrictOrderedRing κ] in
theorem joinAlternatives_of_keys {a b : Expr} (h : Query.joinKeys? k e l r = some (a, b)) :
    Rule.joinAlternatives true m k e s l r pl pr =
      [.hashJoin ⟨a, b, s, l.qualifiers, r.qualifiers, m.hashJoin pl.cost pr.cost⟩ pl pr,
        .mergeJoin ⟨a, b, s, l.qualifiers, r.qualifiers, m.mergeJoin pl.cost pr.cost⟩ pl pr,
        .loopJoin ⟨k, e, s, l.qualifiers, r.qualifiers, m.loopJoin pl.cost pr.cost⟩ pl pr] := by
  unfold Query.joinKeys? at h
  simp [Rule.joinAlternatives, h]

omit [IsStrictOrderedRing κ] in
theorem joinAlternatives_of_no_keys (h : Query.joinKeys? k e l r = none) :
    Rule.joinAlternatives true m k e s l r pl pr =
      [.loopJoin ⟨k, e, s, l.qualifiers, r.qualifiers, m.loopJoin pl.cost pr.cost⟩ pl pr] := by
  unfold Query.joinKeys? at h
  simp [Rule.joinAlternatives, h]

theorem choose_join_of_keys {a b : Expr} (h : Query.joinKeys? k e l r = some (a, b)) :
    choose Rule.defaults m (.join k e s l r) [pl, pr] =
      .ok (.hashJoin ⟨a, b, s, l.qualifiers, r.qualifiers, m.hashJoin pl.cost pr.cost⟩ pl pr) := by
  have hmerge := m.hashJoin_within_mergeJoin pl.cost pr.cost
  have hloop := hmerge.trans (m.mergeJoin_within_loopJoin pl.cost pr.cost)
  rw [choose_join, List.append_nil, joinAlternatives_of_keys h, Plan.best?_cons]
  simp only [List.forall_mem_cons]
  exact ⟨⟨hmerge, Nat.zero_le 1⟩, ⟨hloop, Nat.zero_le 2⟩, nofun⟩

omit [IsStrictOrderedRing κ] in
theorem choose_join_of_no_keys (h : Query.joinKeys? k e l r = none) :
    choose Rule.defaults m (.join k e s l r) [pl, pr] =
      .ok (.loopJoin ⟨k, e, s, l.qualifiers, r.qualifiers, m.loopJoin pl.cost pr.cost⟩ pl pr) := by
  rw [choose_join, List.append_nil, joinAlternatives_of_no_keys h]
  rfl

/-- How a join is done: by hashing where there are keys, and by nested loops elsewhere. -/
def Plan.JoinsAsCheapest (p : Plan κ) : Query → Prop
  | .join k e _ l r =>
    match Query.joinKeys? k e l r with
    | some (a, b) => ∃ j pl pr, p = .hashJoin j pl pr ∧ j.leftKey = a ∧ j.rightKey = b
    | none => ∃ j pl pr, p = .loopJoin j pl pr
  | _ => True

/-! ## All the plans that come about -/

/-- Of the ways to join, none over inputs that cost no less is below the one chosen. -/
theorem within_of_choose_join {pl' pr' other : Plan (Exact L)} (hl : pl.cost.IsNonneg)
    (hr : pr.cost.IsNonneg) (hwl : pl.cost.Within pl'.cost) (hwr : pr.cost.Within pr'.cost)
    (h : choose Rule.defaults m (.join k e s l r) [pl, pr] = .ok p)
    (hother : other ∈ Rule.joinAlternatives true m k e s l r pl' pr') :
    p.cost.Within other.cost := by
  cases hkeys : Query.joinKeys? k e l r with
  | none =>
    rw [choose_join_of_no_keys hkeys] at h
    rw [joinAlternatives_of_no_keys hkeys, List.mem_singleton] at hother
    cases h
    subst hother
    exact m.loopJoin_mono hl hr hwl hwr
  | some keys =>
    have hhash := m.hashJoin_mono hl hr hwl hwr
    have hmerge := hhash.trans (m.hashJoin_within_mergeJoin pl'.cost pr'.cost)
    have hloop := hmerge.trans (m.mergeJoin_within_loopJoin pl'.cost pr'.cost)
    rw [choose_join_of_keys hkeys] at h
    rw [joinAlternatives_of_keys hkeys] at hother
    cases h
    simp only [List.mem_cons, List.not_mem_nil, or_false] at hother
    rcases hother with rfl | rfl | rfl
    · exact hhash
    · exact hmerge
    · exact hloop

/-- The plan that the search finds is not above any other in any component of its cost. -/
theorem within_of_search : ∀ {q : Query} {p other : Plan (Exact L)},
    search Rule.defaults m q = .ok p → Offered Rule.defaults m q other →
    p.cost.Within other.cost
  | .scan .., p, other, h, hother | .insert .., p, other, h, hother => by
    cases h
    rw [(offers_iff_of_apply rfl).mp hother]
    exact .refl _
  | .filter .., p, other, h, hother => by
    obtain ⟨input, hinput, h⟩ := bind_eq_ok_iff.mp h
    obtain ⟨input', hinput', hother⟩ := hother
    cases h
    rw [(offers_iff_of_apply rfl).mp hother]
    exact m.filter_mono (isNonneg_search hinput) (within_of_search hinput hinput')
  | .project .., p, other, h, hother => by
    obtain ⟨input, hinput, h⟩ := bind_eq_ok_iff.mp h
    obtain ⟨input', hinput', hother⟩ := hother
    cases h
    rw [(offers_iff_of_apply rfl).mp hother]
    exact CostModel.project_mono (within_of_search hinput hinput')
  | .aggregate .., p, other, h, hother => by
    obtain ⟨input, hinput, h⟩ := bind_eq_ok_iff.mp h
    obtain ⟨input', hinput', hother⟩ := hother
    cases h
    rw [(offers_iff_of_apply rfl).mp hother]
    exact CostModel.aggregate_mono (within_of_search hinput hinput')
  | .join .., p, other, h, hother => by
    obtain ⟨pl, hl, h⟩ := bind_eq_ok_iff.mp h
    obtain ⟨pr, hr, h⟩ := bind_eq_ok_iff.mp h
    obtain ⟨pl', pr', hl', hr', hother⟩ := hother
    exact within_of_choose_join (isNonneg_search hl) (isNonneg_search hr) (within_of_search hl hl')
      (within_of_search hr hr') h (offers_join_iff.mp hother)

theorem joinsAsCheapest_of_search : ∀ {q : Query} {p : Plan (Exact L)},
    search Rule.defaults m q = .ok p → p.JoinsAsCheapest q
  | .scan .., _, _ | .insert .., _, _ | .filter .., _, _ | .project .., _, _
  | .aggregate .., _, _ => trivial
  | .join k e s l r, p, h => by
    obtain ⟨pl, hl, h⟩ := bind_eq_ok_iff.mp h
    obtain ⟨pr, hr, h⟩ := bind_eq_ok_iff.mp h
    cases hkeys : Query.joinKeys? k e l r with
    | none =>
      rw [choose_join_of_no_keys hkeys] at h
      cases h
      simp [Plan.JoinsAsCheapest, hkeys]
    | some keys =>
      rw [choose_join_of_keys hkeys] at h
      cases h
      simp [Plan.JoinsAsCheapest, hkeys]

theorem forall₂_children_of_search : ∀ {q : Query} {p : Plan (Exact L)},
    search Rule.defaults m q = .ok p →
    List.Forall₂ (fun p q => search Rule.defaults m q = .ok p) p.children q.children
  | .scan .., p, h | .insert .., p, h => by
    cases h
    exact .nil
  | .filter .., p, h | .project .., p, h | .aggregate .., p, h => by
    obtain ⟨input, hinput, h⟩ := bind_eq_ok_iff.mp h
    cases h
    exact .cons hinput .nil
  | .join k e s l r, p, h => by
    obtain ⟨pl, hl, h⟩ := bind_eq_ok_iff.mp h
    obtain ⟨pr, hr, h⟩ := bind_eq_ok_iff.mp h
    cases hkeys : Query.joinKeys? k e l r with
    | none =>
      rw [choose_join_of_no_keys hkeys] at h
      cases h
      exact .cons hl (.cons hr .nil)
    | some keys =>
      rw [choose_join_of_keys hkeys] at h
      cases h
      exact .cons hl (.cons hr .nil)

/-- With a memo or without, the search by the default rules finds a plan, which is one of those that
come about by taking any of the offered plans for each node. Estimated from the leaves up, none of these
has a lower total. Every join of the query is hashed if it is an inner one with keys, and is done by
nested loops otherwise. -/
theorem Setup.planBy_optimal (s : Setup (Exact L)) (useMemo : Bool) (q : Query) :
    ∃ p, s.planBy Rule.defaults useMemo q = .ok p ∧ Offered Rule.defaults s.model q p ∧
      (∀ other, Offered Rule.defaults s.model q other →
        p.cost.total ≤ (other.estimate s.model).total) ∧
      ∀ path, Option.Rel Plan.JoinsAsCheapest (p.at? path) (q.at? path) := by
  obtain ⟨p, hp⟩ := exists_search s.model q
  have hplanned : s.planBy Rule.defaults useMemo q = .ok p := by
    rw [planBy, ← hp]
    split
    · exact searchMemo_empty q
    · rfl
  refine ⟨p, hplanned, offered_search hp, fun other hother => ?_, fun path => ?_⟩
  · rw [← (offered_priced hother).cost_eq]
    exact (within_of_search hp hother).total
  · exact Plan.rel_at? (fun _ _ => joinsAsCheapest_of_search)
      (fun _ _ => forall₂_children_of_search) path hp

end

noncomputable def Logarithm.real : Logarithm ℝ where
  log := Real.log
  monotoneOn _ hx _ _ h := Real.log_le_log (zero_lt_one.trans hx) h
  nonneg _ hx := Real.log_nonneg hx.le

def clerks : Query := .scan "clerk" none ⟨[⟨"at", .int⟩]⟩

def departments : Query := .scan "department" none ⟨[⟨"no", .int⟩]⟩

def sameDepartment : Expr :=
  .binary (.compare .eq) (.column (some "department") "no") (.column none "at")

def staffing : Query :=
  .join .inner (some sameDepartment) ⟨[⟨"at", .int⟩, ⟨"no", .int⟩]⟩ clerks departments

theorem joinKeys?_staffing : Query.joinKeys? .inner (some sameDepartment) clerks departments =
    some (.column none "at", .column (some "department") "no") := by
  decide +kernel

/-- The search hashes the clerks' departments also where a join is expected to answer with fewer rows
than none. -/
theorem Setup.planBy_optimal_of_staffing :
    let s : Setup (Exact Logarithm.real) := ⟨⟨true, true, 4, ⟨1000, 0, -1⟩⟩, none⟩
    ∃ p, s.planBy Rule.defaults true staffing = .ok p ∧ (∃ j l r, p = .hashJoin j l r) ∧
      ∃ j l r, Offered Rule.defaults s.model staffing (.mergeJoin j l r) ∧
        p.cost.total ≤ (Plan.estimate s.model (.mergeJoin j l r)).total := by
  intro s
  obtain ⟨p, hp, -, hle, hat⟩ := s.planBy_optimal true staffing
  obtain ⟨pl, hl⟩ := exists_search s.model clerks
  obtain ⟨pr, hr⟩ := exists_search s.model departments
  have hoffered : Offered Rule.defaults s.model staffing (.mergeJoin ⟨.column none "at",
      .column (some "department") "no", staffing.schema, clerks.qualifiers, departments.qualifiers,
      s.model.mergeJoin pl.cost pr.cost⟩ pl pr) := by
    refine ⟨pl, pr, offered_search hl, offered_search hr, offers_join_iff.mpr ?_⟩
    rw [joinAlternatives_of_keys joinKeys?_staffing]
    exact List.mem_cons_of_mem _ List.mem_cons_self
  refine ⟨p, hp, ?_, _, pl, pr, hoffered, hle _ hoffered⟩
  have hroot := hat []
  rw [Plan.at?, Query.at?] at hroot
  cases hroot with
  | some h =>
    simp only [staffing, Plan.JoinsAsCheapest, joinKeys?_staffing] at h
    obtain ⟨j, l, r, h, -, -⟩ := h
    exact ⟨j, l, r, h⟩

end RelQuery
