import RelQuery.Plan.Search
import RelQuery.Proofs.Data.Lists

/-!
# Plans carry out queries

A plan carries out a query if it has its shape, node for node, and joins on keys only where the
query's join is an inner one whose condition gives these keys. All that the search finds by the
default rules does, whatever the costs are.
-/

namespace RelQuery

variable {κ : Type}

namespace Plan

inductive Carries : Plan κ → Query → Prop
  | scan (t : String) (a : Option String) (s : Schema) (k : Cost κ) :
    Carries (.scan t a s k) (.scan t a s)
  | insert (t : String) (cs : List Column) (rows : List (List Expr)) (s : Schema) (k : Cost κ) :
    Carries (.insert t cs rows k) (.insert t cs rows s)
  | filter {p : Plan κ} {q : Query} (e : Expr) (k : Cost κ) : Carries p q →
    Carries (.filter e k p) (.filter e q)
  | project {p : Plan κ} {q : Query} (is : List Item) (s : Schema) (k : Cost κ) : Carries p q →
    Carries (.project is s k p) (.project is s q)
  | aggregate {p : Plan κ} {q : Query} (gs : List Expr) (os : List Item) (s : Schema) (k : Cost κ) :
    Carries p q → Carries (.aggregate gs os s k p) (.aggregate gs os s q)
  | loopJoin {pl pr : Plan κ} {l r : Query} (k : JoinKind) (e : Option Expr) (s : Schema)
    (cost : Cost κ) : Carries pl l → Carries pr r →
    Carries (.loopJoin ⟨k, e, s, l.qualifiers, r.qualifiers, cost⟩ pl pr) (.join k e s l r)
  | hashJoin {pl pr : Plan κ} {l r : Query} {e a b : Expr} (s : Schema) (cost : Cost κ) :
    equiJoinKeys? e l r = some (a, b) → Carries pl l → Carries pr r →
    Carries (.hashJoin ⟨a, b, s, l.qualifiers, r.qualifiers, cost⟩ pl pr)
      (.join .inner (some e) s l r)
  | mergeJoin {pl pr : Plan κ} {l r : Query} {e a b : Expr} (s : Schema) (cost : Cost κ) :
    equiJoinKeys? e l r = some (a, b) → Carries pl l → Carries pr r →
    Carries (.mergeJoin ⟨a, b, s, l.qualifiers, r.qualifiers, cost⟩ pl pr)
      (.join .inner (some e) s l r)

theorem Carries.schema {p : Plan κ} {q : Query} (h : p.Carries q) : p.schema = q.schema := by
  induction h with
  | filter _ _ _ ih => exact ih
  | _ => rfl

theorem Carries.qualifiers {p : Plan κ} {q : Query} (h : p.Carries q) :
    p.qualifiers = q.qualifiers := by
  induction h with
  | scan => rfl
  | insert => rfl
  | filter _ _ _ ih => exact ih
  | project _ _ _ _ ih => exact ih
  | aggregate _ _ _ _ _ ih => exact ih
  | loopJoin _ _ _ _ _ _ ihl ihr => rw [Plan.qualifiers, ihl, ihr, Query.qualifiers]
  | hashJoin _ _ _ _ _ ihl ihr => rw [Plan.qualifiers, ihl, ihr, Query.qualifiers]
  | mergeJoin _ _ _ _ _ ihl ihr => rw [Plan.qualifiers, ihl, ihr, Query.qualifiers]

theorem mem_of_best? [CostScalar κ] {ps : List (Plan κ)} {p : Plan κ} (h : best? ps = some p) :
    p ∈ ps := by
  cases ps with
  | nil => cases h
  | cons first rest =>
    rw [best?, Option.some.injEq] at h
    rw [← h]
    exact mem_foldl_best Plan.isBetter first rest

theorem exists_best? [CostScalar κ] {ps : List (Plan κ)} (h : ps ≠ []) : ∃ p, best? ps = some p := by
  cases ps with
  | nil => exact absurd rfl h
  | cons => exact ⟨_, rfl⟩

end Plan

/-! ## What the search finds -/

section

variable [CostScalar κ] {m : CostModel κ} {k : JoinKind} {e : Option Expr} {s : Schema}
  {l r : Query} {pl pr p : Plan κ}

theorem choose_join (m : CostModel κ) (k : JoinKind) (e : Option Expr)
    (s : Schema) (l r : Query) (pl pr : Plan κ) :
    choose Rule.defaults m (.join k e s l r) [pl, pr] =
      match Plan.best? (Rule.joinAlternatives true m k e s l r pl pr ++ []) with
      | some p => .ok p
      | none => .error (.noAlternative "Join") := rfl

theorem carries_of_mem_joinAlternatives (hl : pl.Carries l) (hr : pr.Carries r)
    (h : p ∈ Rule.joinAlternatives true m k e s l r pl pr) : p.Carries (.join k e s l r) := by
  unfold Rule.joinAlternatives at h
  simp only at h
  rcases List.mem_append.mp h with hkeyed | hloop
  · cases hkeys : (if (true && k == .inner) = true then e.bind (equiJoinKeys? · l r) else none) with
    | none =>
      rw [hkeys] at hkeyed
      cases hkeyed
    | some keys =>
      obtain ⟨a, b⟩ := keys
      rw [hkeys] at hkeyed
      have hk : (k == .inner) = true := by
        by_cases hk : (k == .inner) = true
        · exact hk
        · simp [hk] at hkeys
      rw [beq_iff_eq] at hk
      subst hk
      obtain ⟨f, rfl, hf⟩ := Option.bind_eq_some_iff.mp hkeys
      simp only [List.mem_cons, List.not_mem_nil, or_false] at hkeyed
      rcases hkeyed with rfl | rfl
      · exact .hashJoin s _ hf hl hr
      · exact .mergeJoin s _ hf hl hr
  · rw [List.mem_singleton.mp hloop]
    exact .loopJoin k e s _ hl hr

/-- What holds of the plan chosen for a node, given that it holds of the plans for the node's inputs,
holds of all that the search finds. -/
theorem search_induction {rules : List (Rule κ)} {motive : Plan κ → Query → Prop}
    (hnode : ∀ q inputs p, List.Forall₂ motive inputs q.children →
      choose rules m q inputs = .ok p → motive p q) :
    ∀ {q : Query} {p : Plan κ}, search rules m q = .ok p → motive p q
  | .scan .., p, h | .insert .., p, h => hnode _ [] p .nil h
  | .filter _ q, p, h | .project _ _ q, p, h | .aggregate _ _ _ q, p, h => by
    rw [search] at h
    obtain ⟨input, hinput, h⟩ := bind_eq_ok_iff.mp h
    exact hnode _ [input] p (.cons (search_induction hnode hinput) .nil) h
  | .join _ _ _ l r, p, h => by
    rw [search] at h
    obtain ⟨pl, hl, h⟩ := bind_eq_ok_iff.mp h
    obtain ⟨pr, hr, h⟩ := bind_eq_ok_iff.mp h
    exact hnode _ [pl, pr] p
      (.cons (search_induction hnode hl) (.cons (search_induction hnode hr) .nil)) h

theorem mem_of_choose_join (h : choose Rule.defaults m (.join k e s l r) [pl, pr] = .ok p) :
    p ∈ Rule.joinAlternatives true m k e s l r pl pr := by
  rw [choose_join, List.append_nil] at h
  cases hbest : Plan.best? (Rule.joinAlternatives true m k e s l r pl pr) with
  | none =>
    rw [hbest] at h
    cases h
  | some best =>
    rw [hbest] at h
    cases h
    exact Plan.mem_of_best? hbest

theorem exists_search (m : CostModel κ) : ∀ q : Query, ∃ p, search Rule.defaults m q = .ok p
  | .scan .. | .insert .. => ⟨_, rfl⟩
  | .filter _ q | .project _ _ q | .aggregate _ _ _ q => by
    obtain ⟨input, hinput⟩ := exists_search m q
    rw [search, hinput]
    exact ⟨_, rfl⟩
  | .join k e s l r => by
    obtain ⟨pl, hl⟩ := exists_search m l
    obtain ⟨pr, hr⟩ := exists_search m r
    have hne : Rule.joinAlternatives true m k e s l r pl pr ++ [] ≠ [] := by
      simp [Rule.joinAlternatives]
    obtain ⟨p, hp⟩ := Plan.exists_best? hne
    have hchoose : choose Rule.defaults m (.join k e s l r) [pl, pr] = .ok p := by
      rw [choose_join, hp]
    rw [search, hl, hr]
    exact ⟨p, hchoose⟩

theorem carries_search {q : Query} {p : Plan κ} (h : search Rule.defaults m q = .ok p) :
    p.Carries q := by
  refine search_induction (fun q inputs p hinputs h => ?_) h
  match q, inputs, hinputs, h with
  | .scan t a s, _, .nil, h =>
    cases h
    exact .scan t a s _
  | .insert t cs rows s, _, .nil, h =>
    cases h
    exact .insert t cs rows s _
  | .filter e _, _, .cons hinput .nil, h =>
    cases h
    exact .filter e _ hinput
  | .project is s _, _, .cons hinput .nil, h =>
    cases h
    exact .project is s _ hinput
  | .aggregate gs os s _, _, .cons hinput .nil, h =>
    cases h
    exact .aggregate gs os s _ hinput
  | .join .., _, .cons hl (.cons hr .nil), h =>
    exact carries_of_mem_joinAlternatives hl hr (mem_of_choose_join h)

end

end RelQuery
