import RelQuery.Engine
import RelQuery.Proofs.Plan.Baseline
import RelQuery.Proofs.Plan.Carry
import RelQuery.Proofs.Plan.Memo

/-!
# Plans accord with queries and costs

Whichever way a query is planned, the plan has a node wherever the query has one and nowhere else. The
two carry the same schema and the same names, a join has recorded the names of its two inputs, and the
cost of every node is what estimating the tree below it comes to.
-/

namespace RelQuery

variable {κ : Type}

namespace Plan

def at? : Plan κ → Path → Option (Plan κ)
  | p, [] => some p
  | p, i :: path =>
    match p.children[i]? with
    | some child => child.at? path
    | none => none

def RecordsInputs : Plan κ → Prop
  | loopJoin j l r => j.leftQualifiers = l.qualifiers ∧ j.rightQualifiers = r.qualifiers
  | hashJoin j l r | mergeJoin j l r =>
    j.leftQualifiers = l.qualifiers ∧ j.rightQualifiers = r.qualifiers
  | _ => True

section

variable {p : Plan κ} {q : Query}

theorem Carries.recordsInputs (h : p.Carries q) : p.RecordsInputs := by
  cases h with
  | loopJoin _ _ _ _ hl hr => exact ⟨hl.qualifiers.symm, hr.qualifiers.symm⟩
  | hashJoin _ _ _ hl hr => exact ⟨hl.qualifiers.symm, hr.qualifiers.symm⟩
  | mergeJoin _ _ _ hl hr => exact ⟨hl.qualifiers.symm, hr.qualifiers.symm⟩
  | _ => trivial

theorem Carries.children (h : p.Carries q) : List.Forall₂ Carries p.children q.children := by
  cases h with
  | scan | insert => exact .nil
  | filter _ _ h => exact .cons h .nil
  | project _ _ _ h => exact .cons h .nil
  | aggregate _ _ _ _ h => exact .cons h .nil
  | loopJoin _ _ _ _ hl hr => exact .cons hl (.cons hr .nil)
  | hashJoin _ _ _ hl hr => exact .cons hl (.cons hr .nil)
  | mergeJoin _ _ _ hl hr => exact .cons hl (.cons hr .nil)

theorem getElem?_rel {α β : Type} {R : α → β → Prop} : ∀ {as : List α} {bs : List β},
    List.Forall₂ R as bs → ∀ i : Nat, Option.Rel R as[i]? bs[i]?
  | _, _, .nil, _ => .none
  | _, _, .cons h _, 0 => .some h
  | _, _, .cons _ hs, i + 1 => getElem?_rel hs i

/-- What passes from two nodes to their inputs, side by side, is so at all places below them. -/
theorem rel_at? {R S : Plan κ → Query → Prop} (hnode : ∀ p q, R p q → S p q)
    (hchildren : ∀ p q, R p q → List.Forall₂ R p.children q.children) :
    ∀ (path : Path) {p : Plan κ} {q : Query}, R p q → Option.Rel S (p.at? path) (q.at? path)
  | [], p, q, h => by
    rw [at?, Query.at?]
    exact .some (hnode p q h)
  | i :: path, p, q, h => by
    rw [at?, Query.at?_cons]
    have hi := getElem?_rel (hchildren p q h) i
    revert hi
    generalize p.children[i]? = a
    generalize q.children[i]? = b
    rintro (⟨hchild⟩ | _)
    · exact rel_at? hnode hchildren path hchild
    · exact .none

end

/-! ## Costs -/

section

variable [CostScalar κ] {m : CostModel κ}

def Priced (m : CostModel κ) : Plan κ → Prop
  | scan t _ _ k => k = m.scan t
  | insert _ _ rows k => k = CostModel.insert rows.length
  | filter _ k p => k = m.filter p.cost ∧ p.Priced m
  | project _ _ k p => k = CostModel.project p.cost ∧ p.Priced m
  | aggregate _ _ _ k p => k = CostModel.aggregate p.cost ∧ p.Priced m
  | loopJoin j l r => j.cost = m.loopJoin l.cost r.cost ∧ l.Priced m ∧ r.Priced m
  | hashJoin j l r => j.cost = m.hashJoin l.cost r.cost ∧ l.Priced m ∧ r.Priced m
  | mergeJoin j l r => j.cost = m.mergeJoin l.cost r.cost ∧ l.Priced m ∧ r.Priced m

theorem Priced.cost_eq : ∀ {p : Plan κ}, p.Priced m → p.cost = p.estimate m
  | scan .., h | insert .., h => h
  | filter .., ⟨h, hp⟩ | project .., ⟨h, hp⟩ | aggregate .., ⟨h, hp⟩ => by
    rw [estimate, ← hp.cost_eq]
    exact h
  | loopJoin .., ⟨h, hl, hr⟩ | hashJoin .., ⟨h, hl, hr⟩ | mergeJoin .., ⟨h, hl, hr⟩ => by
    rw [estimate, ← hl.cost_eq, ← hr.cost_eq]
    exact h

theorem Priced.children : ∀ {p : Plan κ}, p.Priced m → ∀ child ∈ p.children, child.Priced m
  | scan .., _ | insert .., _ => nofun
  | filter .., ⟨_, hp⟩ | project .., ⟨_, hp⟩ | aggregate .., ⟨_, hp⟩ =>
    List.forall_mem_singleton.mpr hp
  | loopJoin .., ⟨_, hl, hr⟩ | hashJoin .., ⟨_, hl, hr⟩ | mergeJoin .., ⟨_, hl, hr⟩ =>
    List.forall_mem_cons.mpr ⟨hl, List.forall_mem_singleton.mpr hr⟩

theorem priced_of_mem_joinAlternatives {k : JoinKind} {e : Option Expr} {s : Schema} {l r : Query}
    {pl pr p : Plan κ} (hl : pl.Priced m) (hr : pr.Priced m)
    (h : p ∈ Rule.joinAlternatives true m k e s l r pl pr) : p.Priced m := by
  unfold Rule.joinAlternatives at h
  simp only at h
  rcases List.mem_append.mp h with hkeyed | hloop
  · split at hkeyed
    · simp only [List.mem_cons, List.not_mem_nil, or_false] at hkeyed
      rcases hkeyed with rfl | rfl
      · exact ⟨rfl, hl, hr⟩
      · exact ⟨rfl, hl, hr⟩
    · cases hkeyed
  · rw [List.mem_singleton.mp hloop]
    exact ⟨rfl, hl, hr⟩

theorem priced_search {q : Query} {p : Plan κ} (h : search Rule.defaults m q = .ok p) :
    p.Priced m := by
  refine search_induction (motive := fun p _ => p.Priced m) (fun q inputs p hinputs h => ?_) h
  match q, inputs, hinputs, h with
  | .scan .., _, .nil, h | .insert .., _, .nil, h =>
    cases h
    exact rfl
  | .filter .., _, .cons hinput .nil, h | .project .., _, .cons hinput .nil, h
  | .aggregate .., _, .cons hinput .nil, h =>
    cases h
    exact ⟨rfl, hinput⟩
  | .join .., _, .cons hl (.cons hr .nil), h =>
    exact priced_of_mem_joinAlternatives hl hr (mem_of_choose_join h)

theorem priced_baseline : ∀ q : Query, (q.baseline m).Priced m
  | .scan .. | .insert .. => rfl
  | .filter _ q | .project _ _ q | .aggregate _ _ _ q => ⟨rfl, priced_baseline q⟩
  | .join _ _ _ l r => ⟨rfl, priced_baseline l, priced_baseline r⟩

theorem carries_baseline : ∀ q : Query, (q.baseline m).Carries q
  | .scan .. => .scan ..
  | .insert .. => .insert ..
  | .filter e q => .filter e _ (carries_baseline q)
  | .project is s q => .project is s _ (carries_baseline q)
  | .aggregate gs os s q => .aggregate gs os s _ (carries_baseline q)
  | .join k e s l r => .loopJoin k e s _ (carries_baseline l) (carries_baseline r)

/-! ## Planning by a configuration -/

/-- A node of a plan against the node of the query at its place. -/
structure Accords (m : CostModel κ) (p : Plan κ) (q : Query) : Prop where
  carries : p.Carries q
  schema : p.schema = q.schema
  qualifiers : p.qualifiers = q.qualifiers
  inputs : p.RecordsInputs
  cost : p.cost = p.estimate m

theorem Carries.accords {p : Plan κ} {q : Query} (h : p.Carries q) (hp : p.Priced m) (path : Path) :
    Option.Rel (Accords m) (p.at? path) (q.at? path) := by
  have hnode : ∀ (p : Plan κ) (q : Query), p.Priced m ∧ p.Carries q → p.Accords m q :=
    fun p q ⟨hp, h⟩ => ⟨h, h.schema, h.qualifiers, h.recordsInputs, hp.cost_eq⟩
  have hchildren : ∀ (p : Plan κ) (q : Query), p.Priced m ∧ p.Carries q →
      List.Forall₂ (fun p q => p.Priced m ∧ p.Carries q) p.children q.children :=
    fun p q ⟨hp, h⟩ => (List.forall₂_and_left _ _).mpr ⟨hp.children, h.children⟩
  exact rel_at? hnode hchildren path ⟨hp, h⟩

end

end Plan

namespace Setup

variable [CostScalar κ]

/-- With a memo or without, the search by the default rules decides, and otherwise the baseline. -/
theorem plan_eq (s : Setup κ) (q : Query) :
    s.plan q = if s.config.costBased then search Rule.defaults s.model q
      else .ok (q.baseline s.model) := by
  rw [plan]
  split
  · rw [planBy]
    split
    · exact searchMemo_empty q
    · rfl
  · exact Query.search_baseline s.model q

/-- However a query is planned, there is a plan for it. The plan has a node at the same paths as the
query, and each of them carries out the query's node there, has its schema and its names, has recorded
the names of its own inputs where it joins, and has the cost that estimating the tree below it comes
to. -/
theorem plan_accords_with_query (s : Setup κ) (q : Query) :
    ∃ p, s.plan q = .ok p ∧
      ∀ path, Option.Rel (Plan.Accords s.model) (p.at? path) (q.at? path) := by
  rw [plan_eq]
  split
  · obtain ⟨p, hp⟩ := exists_search s.model q
    exact ⟨p, hp, (carries_search hp).accords (Plan.priced_search hp)⟩
  · exact ⟨q.baseline s.model, rfl,
      (Plan.carries_baseline q).accords (Plan.priced_baseline q)⟩

end Setup

end RelQuery
