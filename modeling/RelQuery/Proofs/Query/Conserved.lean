import RelQuery.Proofs.Query.Filters
import RelQuery.Proofs.Query.LeftDeep
import RelQuery.Proofs.Query.Reorder

/-!
# What a chain is built anew of

Growing a tree loses nothing of the chain and makes nothing up, whatever the costs are: every input is
joined once, each on nothing or on one conjunct that equates something of it with something of the tree
so far, and the conjuncts that no join took filter the tree.
-/

namespace RelQuery

namespace Query

/-! ## Joins on conjuncts -/

/-- The conjunct equates something that one query provides with something that the other provides. -/
def Connects (l r : Query) (e : Expr) : Prop :=
  ∃ a b, e = .binary (.compare .eq) a b ∧ a.columnRefs ≠ [] ∧ b.columnRefs ≠ [] ∧
    (l.bindsAll a = true ∧ r.bindsAll b = true ∨ l.bindsAll b = true ∧ r.bindsAll a = true)

theorem connects_of_equates {l r : Query} {e : Expr} (h : equates l r e = true) :
    l.Connects r e := by
  unfold equates at h
  split at h
  · rename_i a b
    simp only [Bool.and_eq_true, Bool.or_eq_true, Bool.not_eq_true', List.isEmpty_eq_false_iff] at h
    obtain ⟨⟨ha, hb⟩, hsides⟩ := h
    exact ⟨a, b, rfl, ha, hb, hsides⟩
  · cases h

/-- The inputs at these places were joined one after the other, each on at most one conjunct, which
connects it with the tree so far. The conjuncts are listed. -/
inductive Connected (leaf : Nat → Query) : Query → List Nat → List Expr → Prop
  | single (p : Nat) : Connected leaf (leaf p) [p] []
  | join {t : Query} {ps : List Nat} {es : List Expr} (e : Option Expr) (p : Nat)
    (he : ∀ f ∈ e, t.Connects (leaf p) f) (h : Connected leaf t ps es) :
    Connected leaf (joinOf .inner e t (leaf p)) (ps ++ [p]) (es ++ e.toList)

/-! ## The grown tree -/

section

variable {κ : Type} [CostScalar κ] {m : CostModel κ} {t : Query} {g : Growth κ}

/-- The conjuncts that the joins of the tree took and those that are left are all conjuncts. -/
def Conserves (leaf : Nat → Query) (conjuncts : List Expr) (g : Growth κ) : Prop :=
  ∃ used, Connected leaf g.tree g.order used ∧ (used ++ g.conjuncts).Perm conjuncts

/-- A join takes a conjunct that equates the input with the tree, or it takes none. -/
theorem Conserves.join {leaf : Nat → Query} {conjuncts : List Expr} {position : Nat}
    {i : ChainInput κ} (h : Conserves leaf conjuncts g) (hi : g.remaining[position]? = some i)
    (hquery : i.query = leaf i.place) : Conserves leaf conjuncts (g.join (g.offer m position i)) := by
  obtain ⟨used, hconnected, hused⟩ := h
  obtain ⟨htaken, hequates⟩ := Growth.perm_takeOut (equates g.tree i.query) g.conjuncts
  rw [Growth.join_offer hi]
  generalize (g.conjuncts.findIdx? (equates g.tree i.query)).bind (g.conjuncts[·]?) = e
    at htaken hequates ⊢
  refine ⟨used ++ e.toList, ?_, ?_⟩
  · rw [hquery] at hequates ⊢
    exact hconnected.join e i.place fun f hf => connects_of_equates (hequates f hf).1
  · rw [List.append_assoc]
    exact (htaken.append_left used).trans hused

theorem conserves_grown (h : t.grown? m = some g) :
    Conserves (t.reorderedAt m) (t.joinConditions.flatMap Expr.conjuncts) g ∧
      g.order.Perm t.places ∧ g.remaining = [] := by
  refine grown_induction (fun g p htree horder hconjuncts => ⟨[], ?_, ?_⟩)
    (fun g position i hg hi hquery => hg.join hi hquery) h
  · rw [htree, horder]
    exact .single p
  · rw [hconjuncts]
    exact .refl _

theorem isSome_grown (m : CostModel κ) (h : t.joinInputs ≠ []) : (t.grown? m).isSome := by
  unfold grown? chainInputs
  cases hinputs : t.joinInputs with
  | nil => exact absurd hinputs h
  | cons q qs => rfl

theorem grow_of_remaining_nil (m : CostModel κ) (h : g.remaining = []) : ∀ steps, g.grow m steps = g
  | 0 => rfl
  | steps + 1 => by
    obtain ⟨-, hsame⟩ | ⟨position, i, hi, -⟩ := Growth.grow_succ m steps g
    · exact hsame
    · rw [h] at hi
      cases hi

theorem schema_written_of_joins (m : CostModel κ) (h : 1 < t.joinInputs.length) :
    (t.written m).schema = t.schema := by
  cases t with
  | join k =>
    cases k with
    | inner => rfl
    | left | right | full => simp [joinInputs] at h
  | scan | filter | project | aggregate | insert => simp [joinInputs] at h

/-- The search ends when every input of a chain is joined once. What is built anew of the chain is the
grown tree, its inputs reordered inside, under a filter by the conjuncts that no join took, and maybe a
projection; those that the joins took and those are together all conjuncts of the chain. -/
theorem reordered_conserves_chain (m : CostModel κ) (hlong : 2 < t.joinInputs.length) :
    ∃ g used, t.grown? m = some g ∧ g.remaining = [] ∧ (∀ steps, g.grow m steps = g) ∧
      g.order.Perm t.places ∧ Connected (t.reorderedAt m) g.tree g.order used ∧
      (used ++ g.conjuncts).Perm (t.joinConditions.flatMap Expr.conjuncts) ∧
      ∀ q, (t.chain m).reordered? m = some q → t.reorderJoins m = q ∧
        ∃ top, (g.conjuncts = [] ∧ top = g.tree ∨
            ∃ e, top = filter e g.tree ∧ e.conjuncts = g.conjuncts) ∧
          (q = top ∨ ∃ items, q = project items t.schema top) := by
  have hne : t.joinInputs ≠ [] := List.ne_nil_of_length_pos (by omega)
  obtain ⟨g, hg⟩ := Option.isSome_iff_exists.mp (isSome_grown m hne)
  obtain ⟨⟨used, hconnected, hused⟩, hperm, hempty⟩ := conserves_grown hg
  refine ⟨g, used, hg, hempty, grow_of_remaining_nil m hempty, hperm, hconnected, hused,
    fun q hq => ⟨?_, filterBy g.conjuncts g.tree, ?_, ?_⟩⟩
  · rw [reorderJoins, Chain.finish, length_inputs_chain, if_neg (by omega), hq, Option.getD_some]
  · have hatoms : ∀ e ∈ g.conjuncts, e.isAnd = false := by
      intro e he
      obtain ⟨f, -, hf⟩ := List.mem_flatMap.mp (hused.subset (List.mem_append_right _ he))
      exact Expr.not_isAnd_of_mem_conjuncts hf
    exact filterBy_cases hatoms g.tree
  · rw [reordered?_chain, hg, Option.bind_some] at hq
    rw [← schema_written_of_joins m (by omega)]
    obtain ⟨hsame, -⟩ | ⟨items, hproject, -⟩ := restoreColumns_cases hq
    · exact .inl hsame
    · exact .inr ⟨items, hproject⟩

end

/-! ## A conjunct that no join takes -/

def comparedIds : Expr :=
  .binary (.compare .lt) (.column (some "a") "id") (.column (some "c") "n")

def comparedConnections : Query :=
  joinOf .inner
    (some (comparedIds.and
      ((Expr.binary (.compare .eq) (.column (some "a") "id") (.column (some "c") "id")).and
        (.binary (.compare .eq) (.column (some "b") "n") (.column (some "c") "n")))))
    (joinOf .inner none (scan "a" none ⟨[⟨"id", .int⟩]⟩) (scan "b" none ⟨[⟨"n", .int⟩]⟩))
    (scan "c" none ⟨[⟨"id", .int⟩, ⟨"n", .int⟩]⟩)

/-- The joins take the equations, and the comparison filters the tree below a projection. -/
theorem reordered_conserves_comparedConnections :
    2 < comparedConnections.joinInputs.length ∧
      ∃ g used items e, comparedConnections.grown? wholeCosts = some g ∧ g.remaining = [] ∧
        g.order = [0, 2, 1] ∧
        Connected (comparedConnections.reorderedAt wholeCosts) g.tree g.order used ∧
        (used ++ [comparedIds]).Perm (comparedConnections.joinConditions.flatMap Expr.conjuncts) ∧
        comparedConnections.reorderJoins wholeCosts =
          project items comparedConnections.schema (filter e g.tree) ∧
        e.conjuncts = [comparedIds] := by
  have hlong : 2 < comparedConnections.joinInputs.length := by decide
  obtain ⟨g, used, hg, hempty, -, -, hconnected, hused, hbuilt⟩ :=
    reordered_conserves_chain wholeCosts hlong
  have hfound : (comparedConnections.grown? wholeCosts).map (fun g => (g.order, g.conjuncts)) =
      some ([0, 2, 1], [comparedIds]) := by decide +kernel
  rw [hg, Option.map_some, Option.some.injEq, Prod.mk.injEq] at hfound
  obtain ⟨horder, hleft⟩ := hfound
  have hre : (comparedConnections.chain wholeCosts).reordered? wholeCosts =
      some (comparedConnections.reorderJoins wholeCosts) := by decide +kernel
  rw [hleft] at hused hbuilt
  obtain ⟨-, top, hnone | ⟨e, rfl, he⟩, htop⟩ := hbuilt _ hre
  · cases hnone.1
  · have hproject : (comparedConnections.reorderJoins wholeCosts).isFilter = false := by
      decide +kernel
    obtain heq | ⟨items, hitems⟩ := htop
    · rw [heq] at hproject
      cases hproject
    · exact ⟨hlong, g, used, items, e, hg, hempty, horder, hconnected, hused, hitems, he⟩

end Query

end RelQuery
