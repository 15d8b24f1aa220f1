import RelQuery.Proofs.Query.Chain

/-!
# Left-deep trees

A chain that is built anew becomes a left-deep tree: its inputs are joined one after the other, each
of them once. This is all there is to know of the search where columns are followed from the inputs
to the top. What is to hold of all reordered queries is then proved chain by chain, from the inputs
of a chain to the chain.
-/

namespace RelQuery

namespace Query

/-! ## Trees over inputs -/

/-- The inputs at these places were joined to the tree one after the other. -/
inductive LeftDeep (leaf : Nat → Query) : Query → List Nat → Prop
  | single (p : Nat) : LeftDeep leaf (leaf p) [p]
  | join {t : Query} {ps : List Nat} (e : Option Expr) (p : Nat) (h : LeftDeep leaf t ps) :
    LeftDeep leaf (joinOf .inner e t (leaf p)) (ps ++ [p])

/-- Inner joins and filters over the inputs at these places, which stand from left to right. -/
inductive Assembles (leaf : Nat → Query) : Query → List Nat → Prop
  | single (p : Nat) : Assembles leaf (leaf p) [p]
  | filter {t : Query} {ps : List Nat} (e : Expr) (h : Assembles leaf t ps) :
    Assembles leaf (.filter e t) ps
  | join {l r : Query} {ps qs : List Nat} (e : Option Expr) (s : Schema) (h : Assembles leaf l ps)
    (h' : Assembles leaf r qs) : Assembles leaf (.join .inner e s l r) (ps ++ qs)

section

variable {leaf : Nat → Query} {t : Query} {ps : List Nat}

theorem LeftDeep.assembles (h : LeftDeep leaf t ps) : Assembles leaf t ps := by
  induction h with
  | single p => exact .single p
  | join e p _ ih => exact .join e _ ih (.single p)

theorem Assembles.filterBy (h : Assembles leaf t ps) (es : List Expr) :
    Assembles leaf (filterBy es t) ps := by
  unfold Query.filterBy
  split
  · exact h
  · exact .filter _ h

theorem assembles_of_joinInputs : ∀ {t : Query} {ps : List Nat}, t.joinInputs = ps.map leaf →
    Assembles leaf t ps
  | .join k e s l r, ps, h => by
    cases k with
    | inner =>
      obtain ⟨ps, qs, rfl, hps, hqs⟩ := List.map_eq_append_iff.mp h.symm
      exact .join e s (assembles_of_joinInputs hps.symm) (assembles_of_joinInputs hqs.symm)
    | left | right | full =>
      obtain ⟨p, rfl, hp⟩ := List.map_eq_singleton_iff.mp h.symm
      exact hp ▸ .single p
  | .scan .., ps, h | .filter .., ps, h | .project .., ps, h | .aggregate .., ps, h
  | .insert .., ps, h => by
    obtain ⟨p, rfl, hp⟩ := List.map_eq_singleton_iff.mp h.symm
    exact hp ▸ .single p

theorem assembles_self (t : Query) : Assembles t.inputAt t t.places :=
  assembles_of_joinInputs (map_inputAt t).symm

end

/-! ## Grown trees -/

section

variable {κ : Type} [CostScalar κ]

def reorderedAt (m : CostModel κ) (t : Query) (p : Nat) : Query := (t.inputAt p).reorderJoins m

def grown? (m : CostModel κ) (t : Query) : Option (Growth κ) :=
  (Growth.start? (chainInputs m (t.joinInputs.map (·.reorderJoins m)))
    (t.joinConditions.flatMap Expr.conjuncts)).map (·.grow m t.joinInputs.length)

variable {m : CostModel κ} {t : Query} {g : Growth κ}

theorem map_reorderedAt (m : CostModel κ) (t : Query) :
    t.places.map (t.reorderedAt m) = t.joinInputs.map (·.reorderJoins m) := by
  conv_rhs => rw [← map_inputAt t]
  rw [List.map_map]
  rfl

theorem assembles_written (m : CostModel κ) (t : Query) :
    Assembles (t.reorderedAt m) (t.written m) t.places :=
  assembles_of_joinInputs (by rw [joinInputs_written, map_reorderedAt])

/-- What holds of a tree that is one of the inputs, and still holds after any other input is joined,
holds of the grown tree, which has joined every input once. -/
theorem grown_induction {P : Growth κ → Prop}
    (hstart : ∀ (g : Growth κ) (p : Nat), g.tree = t.reorderedAt m p → g.order = [p] →
      g.conjuncts = t.joinConditions.flatMap Expr.conjuncts → P g)
    (hjoin : ∀ (g : Growth κ) (position : Nat) (i : ChainInput κ), P g →
      g.remaining[position]? = some i → i.query = t.reorderedAt m i.place →
        P (g.join (g.offer m position i)))
    (h : t.grown? m = some g) : P g ∧ g.order.Perm t.places ∧ g.remaining = [] := by
  obtain ⟨start, hstarted, rfl⟩ := Option.map_eq_some_iff.mp h
  have hqueries : ∀ i ∈ chainInputs m (t.joinInputs.map (·.reorderJoins m)),
      i.query = t.reorderedAt m i.place := by
    intro i hi
    have hget := (of_mem_chainInputs hi).2
    rw [List.getElem?_map] at hget
    obtain ⟨l, hl, hq⟩ := Option.map_eq_some_iff.mp hget
    simp [reorderedAt, inputAt, hl, hq]
  obtain ⟨htracks, hlen, hconjuncts, p, -, htree, horder⟩ := Growth.tracks_start
    (places_chainInputs (m := m) (t.joinInputs.map (·.reorderJoins m)))
    (fun i hi => (of_mem_chainInputs hi).1) hqueries hstarted
  have hlen' : start.remaining.length ≤ t.joinInputs.length := by
    simpa [chainInputs] using hlen
  obtain ⟨htracks, hgrown⟩ := Growth.grow_induction
    (P := fun g => g.Tracks (t.reorderedAt m) (List.range _) ∧ P g) (m := m)
    (fun g position i hg hi => ⟨hg.1.join hi,
      hjoin g position i hg.2 hi (hg.1.queries i (List.mem_of_getElem? hi))⟩)
    t.joinInputs.length ⟨htracks, hstart start p htree horder hconjuncts⟩
  have hempty := Growth.remaining_grow (m := m) _ hlen'
  have hplaces := htracks.places
  rw [hempty, List.map_nil, List.append_nil, List.length_map] at hplaces
  exact ⟨hgrown, hplaces, hempty⟩

theorem leftDeep_grown (h : t.grown? m = some g) :
    LeftDeep (t.reorderedAt m) g.tree g.order ∧ g.order.Perm t.places := by
  obtain ⟨hdeep, hperm, -⟩ := grown_induction
    (P := fun g => LeftDeep (t.reorderedAt m) g.tree g.order)
    (fun g p htree horder _ => by
      rw [htree, horder]
      exact .single p)
    (fun g position i hg hi hquery => by
      rw [Growth.join_offer hi, hquery]
      exact hg.join _ i.place)
    h
  exact ⟨hdeep, hperm⟩

theorem assembles_grown (h : t.grown? m = some g) :
    Assembles (t.reorderedAt m) (filterBy g.conjuncts g.tree) g.order :=
  (leftDeep_grown h).1.assembles.filterBy _

theorem reordered?_chain (m : CostModel κ) (t : Query) :
    (t.chain m).reordered? m = (t.grown? m).bind fun g =>
      restoreColumns (filterBy g.conjuncts g.tree) (t.written m).schema
        (t.places.map fun p => (t.reorderedAt m p).schema.width) g.order := by
  have hinputs : (t.written m).asChain.inputs = t.joinInputs.map (·.reorderJoins m) :=
    joinInputs_written t
  have hwidths : (t.written m).asChain.inputs.map (·.schema.width) =
      t.places.map fun p => (t.reorderedAt m p).schema.width := by
    rw [hinputs, ← map_reorderedAt, List.map_map]
    rfl
  have hconjuncts : (t.written m).asChain.conjuncts =
      t.joinConditions.flatMap Expr.conjuncts := by
    rw [asChain, joinConditions_written]
  rw [chain_eq, Chain.reordered?, hwidths, hconjuncts, hinputs, grown?, Option.bind_map]
  simp only [List.length_map, List.length_zipIdx]
  rfl

/-- A chain stays as written, or it is grown anew and its columns are put back. -/
theorem reorderJoins_cases (m : CostModel κ) (t : Query) :
    t.reorderJoins m = t.written m ∨
      2 < t.joinInputs.length ∧ ∃ g, t.grown? m = some g ∧
        restoreColumns (filterBy g.conjuncts g.tree) (t.written m).schema
          (t.places.map fun p => (t.reorderedAt m p).schema.width) g.order =
            some (t.reorderJoins m) := by
  unfold reorderJoins Chain.finish
  rw [length_inputs_chain]
  split
  · exact .inl rfl
  · rename_i hlong
    cases hq : (t.chain m).reordered? m with
    | none => exact .inl rfl
    | some q =>
      obtain ⟨g, hg, hrestore⟩ := Option.bind_eq_some_iff.mp (reordered?_chain m t ▸ hq)
      exact .inr ⟨by omega, g, hg, hrestore⟩

/-! ## Chain by chain -/

/-- The queries below the chain at the root at which a chain begins. -/
def lowerChains : Query → List Query
  | scan .. | insert .. => []
  | filter _ q | project _ _ q | aggregate _ _ _ q => q :: q.lowerChains
  | join .inner _ _ l r => l.lowerChains ++ r.lowerChains
  | join _ _ _ l r => (l :: l.lowerChains) ++ (r :: r.lowerChains)

def chains (q : Query) : List Query := q :: q.lowerChains

theorem mem_lowerChains_of_mem_chains : ∀ {t : Query}, ∀ q ∈ t.joinInputs, ∀ u ∈ q.chains,
    u.joinInputs = [u] ∨ u ∈ t.lowerChains
  | join k e s l r, q, hq, u, hu => by
    cases k with
    | inner =>
      obtain hq | hq := List.mem_append.mp hq
      · exact (mem_lowerChains_of_mem_chains q hq u hu).imp_right (List.mem_append_left _)
      · exact (mem_lowerChains_of_mem_chains q hq u hu).imp_right (List.mem_append_right _)
    | left | right | full =>
      rw [List.mem_singleton.mp hq] at hu
      obtain rfl | hu := List.mem_cons.mp hu
      · exact .inl rfl
      · exact .inr hu
  | scan .., q, hq, u, hu | filter .., q, hq, u, hu | project .., q, hq, u, hu
  | aggregate .., q, hq, u, hu | insert .., q, hq, u, hu => by
    rw [List.mem_singleton.mp hq] at hu
    obtain rfl | hu := List.mem_cons.mp hu
    · exact .inl rfl
    · exact .inr hu

theorem mem_chains_of_mem_lowerChains : ∀ {t u : Query}, u ∈ t.lowerChains →
    ∃ q ∈ t.joinInputs, u ∈ q.chains
  | join k e s l r, u, hu => by
    cases k with
    | inner =>
      obtain hu | hu := List.mem_append.mp hu
      · obtain ⟨q, hq, hmem⟩ := mem_chains_of_mem_lowerChains hu
        exact ⟨q, List.mem_append_left _ hq, hmem⟩
      · obtain ⟨q, hq, hmem⟩ := mem_chains_of_mem_lowerChains hu
        exact ⟨q, List.mem_append_right _ hq, hmem⟩
    | left | right | full => exact ⟨_, List.mem_singleton_self _, List.mem_cons_of_mem _ hu⟩
  | scan .., _, hu | filter .., _, hu | project .., _, hu | aggregate .., _, hu
  | insert .., _, hu => ⟨_, List.mem_singleton_self _, List.mem_cons_of_mem _ hu⟩

section

variable {P : Query → Query → Prop} {C : Query → Prop}
  (scan : ∀ t a s, P (scan t a s) (scan t a s))
  (insert : ∀ t cs rows s, P (insert t cs rows s) (insert t cs rows s))
  (filter : ∀ e q q', P q q' → P (filter e q) (filter e q'))
  (project : ∀ is s q q', P q q' → P (project is s q) (project is s q'))
  (aggregate : ∀ gs os s q q', P q q' → P (aggregate gs os s q) (aggregate gs os s q'))
  (outer : ∀ k e s l l' r r', k ≠ .inner → P l l' → P r r' →
    P (join k e s l r) (join k e s l' r'))
  (chain : ∀ e s l r, C (join .inner e s l r) →
    (∀ x ∈ (join .inner e s l r).joinInputs, P x (x.reorderJoins m)) →
      P (join .inner e s l r) ((join .inner e s l r).reorderJoins m))
include chain

theorem reorderJoins_of_inputs {t : Query} (hc : C t)
    (h : ∀ x ∈ t.joinInputs, P x (x.reorderJoins m)) : P t (t.reorderJoins m) := by
  cases t with
  | join k e s l r =>
    cases k with
    | inner => exact chain e s l r hc h
    | left | right | full => exact h _ (List.mem_singleton_self _)
  | scan | insert | filter | project | aggregate => exact h _ (List.mem_singleton_self _)

include scan insert filter project aggregate outer

theorem joinInputs_induction : ∀ {q : Query}, (∀ t ∈ q.lowerChains, C t) →
    ∀ x ∈ q.joinInputs, P x (x.reorderJoins m)
  | .scan t a s, _, x, hx => List.mem_singleton.mp hx ▸ scan t a s
  | .insert t cs rows s, _, x, hx => List.mem_singleton.mp hx ▸ insert t cs rows s
  | .filter e q, h, x, hx => by
    have h' := List.forall_mem_cons.mp h
    rw [List.mem_singleton.mp hx]
    exact filter e q _ (reorderJoins_of_inputs chain h'.1 (joinInputs_induction h'.2))
  | .project is s q, h, x, hx => by
    have h' := List.forall_mem_cons.mp h
    rw [List.mem_singleton.mp hx]
    exact project is s q _ (reorderJoins_of_inputs chain h'.1 (joinInputs_induction h'.2))
  | .aggregate gs os s q, h, x, hx => by
    have h' := List.forall_mem_cons.mp h
    rw [List.mem_singleton.mp hx]
    exact aggregate gs os s q _ (reorderJoins_of_inputs chain h'.1 (joinInputs_induction h'.2))
  | .join k e s l r, h, x, hx => by
    cases k with
    | inner =>
      have h' := List.forall_mem_append.mp h
      obtain hx | hx := List.mem_append.mp hx
      · exact joinInputs_induction h'.1 x hx
      · exact joinInputs_induction h'.2 x hx
    | left | right | full =>
      have h' := List.forall_mem_append.mp h
      have hl := List.forall_mem_cons.mp h'.1
      have hr := List.forall_mem_cons.mp h'.2
      rw [List.mem_singleton.mp hx]
      exact outer _ e s l _ r _ (by decide)
        (reorderJoins_of_inputs chain hl.1 (joinInputs_induction hl.2))
        (reorderJoins_of_inputs chain hr.1 (joinInputs_induction hr.2))

/-- What holds of every node from its inputs, and of every chain from its inputs, holds of every
reordered query. -/
theorem reorderJoins_induction {q : Query} (h : ∀ t ∈ q.chains, C t) : P q (q.reorderJoins m) := by
  have h' := List.forall_mem_cons.mp h
  exact reorderJoins_of_inputs chain h'.1
    (joinInputs_induction scan insert filter project aggregate outer chain h'.2)

end

end

end Query

end RelQuery
