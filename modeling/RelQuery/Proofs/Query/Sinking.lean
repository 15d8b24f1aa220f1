import Mathlib.Tactic.Abel
import RelQuery.Proofs.Query.Filters
import RelQuery.Proofs.Query.Pushdown

/-!
# Where pushing moves conjuncts

Pushing predicates changes the filters of a query and no other node. Of the conjuncts of all filters
none is lost, none is made twice, and each of them stands where it stood or has sunk through joins,
every time into the one input that provides all its references.
-/

namespace RelQuery

/-! ## Ways down -/

/-- The ways on which a conjunct may sink from over a node: through joins, at each of them into the input
that provides all its references while the other does not, unless the join keeps rows of the other
without a partner. -/
inductive Expr.Sinks (e : Expr) : Query → Path → Prop
  | stays (q : Query) : Sinks e q []
  | left {k : JoinKind} {l r : Query} {path : Path} (condition : Option Expr) (s : Schema)
    (hk : k = .inner ∨ k = .left) (hl : l.bindsAll e = true) (hr : r.bindsAll e = false)
    (h : Sinks e l path) : Sinks e (.join k condition s l r) (0 :: path)
  | right {k : JoinKind} {l r : Query} {path : Path} (condition : Option Expr) (s : Schema)
    (hk : k = .inner ∨ k = .right) (hl : l.bindsAll e = false) (hr : r.bindsAll e = true)
    (h : Sinks e r path) : Sinks e (.join k condition s l r) (1 :: path)

namespace Query

/-- In a tree without filters a conjunct has sunk from one location to the other, or it has stayed. -/
def SinksTo (tree : Query) (x y : Location) : Prop :=
  ∃ node path, tree.at? x.1 = some node ∧ x.2.Sinks node path ∧ y = (x.1 ++ path, x.2)

variable {k : JoinKind} {l r : Query} {e : Expr} {es : List Expr} {x y : Location}

theorem SinksTo.refl_root (tree : Query) (e : Expr) : tree.SinksTo ([], e) ([], e) :=
  ⟨tree, [], by rw [at?], .stays tree, rfl⟩

theorem SinksTo.expr_eq {tree : Query} (h : tree.SinksTo x y) : x.2 = y.2 := by
  obtain ⟨_, _, -, -, rfl⟩ := h
  rfl

theorem SinksTo.from {tree input : Query} {i : Nat}
    (hinput : ∀ path, tree.at? (i :: path) = input.at? path) (h : input.SinksTo x y) :
    tree.SinksTo (x.from i) (y.from i) := by
  obtain ⟨node, path, hnode, hsinks, rfl⟩ := h
  exact ⟨node, path, (hinput x.1).trans hnode, hsinks, rfl⟩

theorem sinksTo_left (condition : Option Expr) (s : Schema) (hgo : k.descent l r e = .intoLeft)
    (h : l.unfiltered.SinksTo ([], e) y) :
    (join k condition s l r).unfiltered.SinksTo ([], e) (y.from 0) := by
  obtain ⟨node, path, hnode, hsinks, rfl⟩ := h
  rw [at?, Option.some.injEq] at hnode
  subst hnode
  obtain ⟨hl, hr, hk⟩ := of_intoLeft hgo
  rw [← bindsAll_unfiltered] at hl hr
  have hkind : k = .inner ∨ k = .left := by cases k <;> simp [JoinKind.keepsRight] at hk ⊢
  exact ⟨_, 0 :: path, by rw [at?, unfiltered], .left condition s hkind hl hr hsinks, rfl⟩

theorem sinksTo_right (condition : Option Expr) (s : Schema) (hgo : k.descent l r e = .intoRight)
    (h : r.unfiltered.SinksTo ([], e) y) :
    (join k condition s l r).unfiltered.SinksTo ([], e) (y.from 1) := by
  obtain ⟨node, path, hnode, hsinks, rfl⟩ := h
  rw [at?, Option.some.injEq] at hnode
  subst hnode
  obtain ⟨hr, hl, hk⟩ := of_intoRight hgo
  rw [← bindsAll_unfiltered] at hl hr
  have hkind : k = .inner ∨ k = .right := by cases k <;> simp [JoinKind.keepsLeft] at hk ⊢
  exact ⟨_, 1 :: path, by rw [at?, unfiltered], .right condition s hkind hl hr hsinks, rfl⟩

/-! ## The pushed query -/

theorem pushDownFrom_join (k : JoinKind) (condition : Option Expr) (s : Schema) (l r : Query)
    (es : List Expr) : (join k condition s l r).pushDownFrom es =
      filterBy (going k l r es .stays) (join k condition s (l.pushDownFrom (going k l r es .intoLeft))
        (r.pushDownFrom (going k l r es .intoRight))) := rfl

theorem unfiltered_pushDownFrom : ∀ (q : Query) (es : List Expr),
    (q.pushDownFrom es).unfiltered = q.unfiltered
  | scan .., _ | insert .., _ => unfiltered_filterBy _ _
  | filter _ q, _ => unfiltered_pushDownFrom q _
  | project _ _ q, _ | aggregate _ _ _ q, _ => by
    rw [pushDownFrom, unfiltered_filterBy, unfiltered, unfiltered_pushDownFrom q, unfiltered]
  | join _ _ _ l r, _ => by
    rw [pushDownFrom_join, unfiltered_filterBy, unfiltered, unfiltered_pushDownFrom l,
      unfiltered_pushDownFrom r, unfiltered]

theorem filtersApart_pushDownFrom : ∀ (q : Query) (es : List Expr),
    (q.pushDownFrom es).FiltersApart
  | scan .., _ | insert .., _ => filtersApart_filterBy rfl trivial
  | filter _ q, _ => filtersApart_pushDownFrom q _
  | project _ _ q, _ | aggregate _ _ _ q, _ =>
    filtersApart_filterBy rfl (filtersApart_pushDownFrom q [])
  | join _ _ _ l r, _ =>
    filtersApart_filterBy rfl ⟨filtersApart_pushDownFrom l _, filtersApart_pushDownFrom r _⟩

/-! ## Conjuncts -/

theorem atRoot_going (k : JoinKind) (l r : Query) (es : List Expr) :
    atRoot es = atRoot (going k l r es .intoLeft) + atRoot (going k l r es .intoRight) +
      atRoot (going k l r es .stays) := by
  induction es with
  | nil => rfl
  | cons e es ih =>
    have hcons : ∀ d, atRoot (going k l r (e :: es) d) =
        (if k.descent l r e = d then atRoot [e] else 0) + atRoot (going k l r es d) := by
      intro d
      rw [going, List.filter_cons]
      by_cases hd : k.descent l r e = d
      · rw [if_pos hd, if_pos (beq_iff_eq.mpr hd), ← List.singleton_append, atRoot_append, going]
      · rw [if_neg hd, if_neg (by simpa using hd), zero_add, going]
    rw [hcons, hcons, hcons, ← List.singleton_append, atRoot_append, ih]
    cases k.descent l r e <;> simp only [reduceCtorEq, if_true, if_false] <;> abel

theorem isAnd_of_going {d : Descent} (h : ∀ e ∈ es, e.isAnd = false) :
    ∀ e ∈ going k l r es d, e.isAnd = false := fun e he => h e (mem_going.mp he).1

theorem rel_atRoot (tree : Query) (es : List Expr) :
    Multiset.Rel tree.SinksTo (atRoot es) (atRoot es) :=
  Multiset.rel_map.mpr (Multiset.rel_refl_of_refl_on fun e _ => .refl_root tree e)

section

variable {tree input : Query} {i : Nat} {xs ys : Multiset Location}

theorem rel_from (hinput : ∀ path, tree.at? (i :: path) = input.at? path)
    (h : Multiset.Rel input.SinksTo xs ys) :
    Multiset.Rel tree.SinksTo (xs.map (.from i)) (ys.map (.from i)) :=
  Multiset.rel_map.mpr (h.mono fun _ _ _ _ hxy => hxy.from hinput)

theorem rel_into (hsinks : ∀ e ∈ es, ∀ y, input.SinksTo ([], e) y → tree.SinksTo ([], e) (y.from i))
    (h : Multiset.Rel input.SinksTo (atRoot es) ys) :
    Multiset.Rel tree.SinksTo (atRoot es) (ys.map (.from i)) := by
  rw [Multiset.rel_map_right]
  refine h.mono fun x hx y _ hxy => ?_
  obtain ⟨e, he, rfl⟩ := Multiset.mem_map.mp hx
  exact hsinks e he y hxy

end

/-- Carried conjuncts stand over the root, and pushing them sinks them with the others. -/
theorem rel_located : ∀ (q : Query) (es : List Expr), (∀ e ∈ es, e.isAnd = false) →
    Multiset.Rel q.unfiltered.SinksTo (atRoot es + q.located) (q.pushDownFrom es).located
  | scan t a s, es, h | insert t cs rows s, es, h => by
    rw [pushDownFrom, located_filterBy h]
    exact (rel_atRoot _ es).add .zero
  | filter e q, es, h => by
    rw [pushDownFrom, located, ← add_assoc, ← atRoot_append]
    exact rel_located q _ (List.forall_mem_append.mpr ⟨h, fun _ => Expr.not_isAnd_of_mem_conjuncts⟩)
  | project is s q, es, h => by
    have ih := rel_located q [] (by simp)
    rw [atRoot_nil, zero_add] at ih
    rw [pushDownFrom, located_filterBy h]
    exact (rel_atRoot _ es).add (rel_from (fun _ => by rw [unfiltered, at?]) ih)
  | aggregate gs os s q, es, h => by
    have ih := rel_located q [] (by simp)
    rw [atRoot_nil, zero_add] at ih
    rw [pushDownFrom, located_filterBy h]
    exact (rel_atRoot _ es).add (rel_from (fun _ => by rw [unfiltered, at?]) ih)
  | join k condition s l r, es, h => by
    obtain ⟨ls, ls', hls, hls', hl⟩ := Multiset.rel_add_left.mp
      (rel_located l (going k l r es .intoLeft) (isAnd_of_going h))
    obtain ⟨rs, rs', hrs, hrs', hr⟩ := Multiset.rel_add_left.mp
      (rel_located r (going k l r es .intoRight) (isAnd_of_going h))
    have hleft := rel_into
      (fun e he y hy => sinksTo_left condition s (mem_going.mp he).2 hy) hls
    have hright := rel_into
      (fun e he y hy => sinksTo_right condition s (mem_going.mp he).2 hy) hrs
    have hat : ∀ path, (join k condition s l r).unfiltered.at? (0 :: path) = l.unfiltered.at? path :=
      fun _ => by rw [unfiltered, at?]
    have hat' : ∀ path, (join k condition s l r).unfiltered.at? (1 :: path) = r.unfiltered.at? path :=
      fun _ => by rw [unfiltered, at?]
    have hstay := rel_atRoot (join k condition s l r).unfiltered (going k l r es .stays)
    rw [pushDownFrom_join, located_filterBy (isAnd_of_going h), located, located, hl, hr,
      Multiset.map_add, Multiset.map_add, atRoot_going k l r es]
    convert hstay.add ((hleft.add (rel_from hat hls')).add (hright.add (rel_from hat' hrs'))) using 1
    abel

/-! ## All conjuncts -/

/-- Pushing keeps every node that is no filter, and every conjunct once; no filter ends up directly on
another; and every conjunct stays or sinks through joins into the input that alone provides it. -/
theorem pushDown_sinks_conjuncts (q : Query) :
    q.pushDown.unfiltered = q.unfiltered ∧
      q.pushDown.located.map (·.2) = q.located.map (·.2) ∧ q.pushDown.FiltersApart ∧
      Multiset.Rel q.unfiltered.SinksTo q.located q.pushDown.located := by
  have hrel := rel_located q [] (by simp)
  rw [atRoot_nil, zero_add] at hrel
  refine ⟨unfiltered_pushDownFrom q [], ?_, filtersApart_pushDownFrom q [], hrel⟩
  exact (Multiset.rel_eq.mp (Multiset.rel_map.mpr (hrel.mono fun _ _ _ _ h => h.expr_eq))).symm

end Query

end RelQuery
