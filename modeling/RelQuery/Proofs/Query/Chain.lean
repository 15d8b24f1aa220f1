import RelQuery.Proofs.Query.FilterBy
import RelQuery.Proofs.Query.Restore

/-!
# Chains built anew

A chain of inner joins in whose conditions no reference may mean columns of two inputs, and the chain
built anew, keep the same choices of rows of the inputs, whatever the costs are that the search goes
by. The projection on top puts the columns of every row back into their order.
-/

namespace RelQuery

namespace Query

variable {κ : Type} [CostScalar κ] {m : CostModel κ} {c : Catalog}

/-! ## Chains -/

/-- The tree of inner joins at the root, taken apart. -/
def asChain (t : Query) : Chain := ⟨t.joinInputs, t.joinConditions.flatMap Expr.conjuncts, t⟩

/-- The chain at the root in its written order, its inputs reordered inside. -/
def written (m : CostModel κ) (t : Query) : Query := (t.chain m).written

theorem chain_eq (m : CostModel κ) : ∀ t : Query, t.chain m = (t.written m).asChain
  | join k e s l r => by
    cases k with
    | inner =>
      have hwritten : (join .inner e s l r).written m =
          join .inner e s (l.written m) (r.written m) := rfl
      rw [hwritten, chain, chain_eq m l, chain_eq m r]
      cases e <;> simp [Chain.join, asChain, joinInputs, joinConditions]
    | left | right | full => rfl
  | scan .. | filter .. | project .. | aggregate .. | insert .. => rfl

theorem joinInputs_written : ∀ t : Query,
    (t.written m).joinInputs = t.joinInputs.map (·.reorderJoins m)
  | join k e s l r => by
    cases k with
    | inner =>
      show (l.written m).joinInputs ++ (r.written m).joinInputs = _
      rw [joinInputs_written l, joinInputs_written r, ← List.map_append]
      rfl
    | left | right | full => rfl
  | scan .. | filter .. | project .. | aggregate .. | insert .. => rfl

theorem length_inputs_chain (m : CostModel κ) (t : Query) :
    (t.chain m).inputs.length = t.joinInputs.length := by
  rw [chain_eq, asChain, joinInputs_written, List.length_map]

theorem joinConditions_written : ∀ t : Query, (t.written m).joinConditions = t.joinConditions
  | join k e s l r => by
    cases k with
    | inner =>
      show (l.written m).joinConditions ++ (r.written m).joinConditions ++ e.toList = _
      rw [joinConditions_written l, joinConditions_written r]
      rfl
    | left | right | full => rfl
  | scan .. | filter .. | project .. | aggregate .. | insert .. => rfl

theorem qualifier_written : ∀ {t : Query},
    (∀ l ∈ t.joinInputs, (l.reorderJoins m).qualifier = l.qualifier) →
      (t.written m).qualifier = t.qualifier
  | join k e s l r, h => by
    cases k with
    | inner => exact qualifier_written (t := l) (List.forall_mem_append.mp h).1
    | left => exact h (join .left e s l r) (List.mem_singleton_self _)
    | right => exact h (join .right e s l r) (List.mem_singleton_self _)
    | full => exact h (join .full e s l r) (List.mem_singleton_self _)
  | scan t a s, h => h (scan t a s) (List.mem_singleton_self _)
  | filter e q, h => h (filter e q) (List.mem_singleton_self _)
  | project is s q, h => h (project is s q) (List.mem_singleton_self _)
  | aggregate gs os s q, h => h (aggregate gs os s q) (List.mem_singleton_self _)
  | insert t cs rows s, h => h (insert t cs rows s) (List.mem_singleton_self _)

/-! ## The inputs of a chain -/

theorem of_mem_joinInputs {P : Query → Prop}
    (hjoin : ∀ e s l r, P (join .inner e s l r) → P l ∧ P r) :
    ∀ {t : Query}, P t → ∀ q ∈ t.joinInputs, P q
  | join k _ _ l r, h, q, hq => by
    cases k with
    | inner =>
      obtain ⟨hl, hr⟩ := hjoin _ _ _ _ h
      obtain hq | hq := List.mem_append.mp hq
      · exact of_mem_joinInputs hjoin hl q hq
      · exact of_mem_joinInputs hjoin hr q hq
    | left | right | full => exact List.mem_singleton.mp hq ▸ h
  | scan .., h, q, hq | filter .., h, q, hq | project .., h, q, hq | aggregate .., h, q, hq
  | insert .., h, q, hq => List.mem_singleton.mp hq ▸ h

theorem Scoped.of_mem_joinInputs {t : Query} (h : t.Scoped) : ∀ q ∈ t.joinInputs, q.Scoped :=
  Query.of_mem_joinInputs (fun _ _ _ _ h => ⟨h.2.1, h.2.2.1⟩) h

/-- What an inner join has of its inputs side by side, a tree of inner joins has of its own. -/
theorem flatMap_joinInputs {α : Type} {f : Query → List α}
    (hjoin : ∀ e s l r, f (join .inner e s l r) = f l ++ f r) :
    ∀ t : Query, t.joinInputs.flatMap f = f t
  | join k e s l r => by
    cases k with
    | inner =>
      rw [joinInputs, List.flatMap_append, flatMap_joinInputs hjoin l, flatMap_joinInputs hjoin r,
        hjoin]
    | left | right | full => exact List.flatMap_singleton ..
  | scan .. | filter .. | project .. | aggregate .. | insert .. => List.flatMap_singleton ..

theorem qualifiers_joinInputs (t : Query) : t.joinInputs.flatMap qualifiers = t.qualifiers :=
  flatMap_joinInputs (fun _ _ _ _ => rfl) t

theorem origins_joinInputs (t : Query) : t.joinInputs.flatMap origins = t.origins :=
  flatMap_joinInputs (fun _ _ _ _ => rfl) t

def inputAt (t : Query) (p : Nat) : Query := t.joinInputs.getD p default

def places (t : Query) : List Nat := List.range t.joinInputs.length

theorem nodup_places (t : Query) : t.places.Nodup := List.nodup_range

theorem map_inputAt (t : Query) : t.places.map t.inputAt = t.joinInputs := by
  refine List.ext_getElem (by simp [places]) fun i hi hi' => ?_
  simp [places, inputAt, hi']

theorem inputAt_mem {t : Query} {p : Nat} (hp : p ∈ t.places) : t.inputAt p ∈ t.joinInputs := by
  have hmem := List.mem_map_of_mem (f := t.inputAt) hp
  rwa [map_inputAt] at hmem

theorem disjoint_inputAt {t : Query} (hd : t.qualifiers.Nodup) {p q : Nat} (hp : p ∈ t.places)
    (hq : q ∈ t.places) (hpq : p ≠ q) : (t.inputAt p).qualifiers.Disjoint (t.inputAt q).qualifiers := by
  rw [← qualifiers_joinInputs, ← map_inputAt, List.flatMap_map, List.nodup_flatMap] at hd
  have hsymm : Std.Symm (Function.onFun List.Disjoint fun p => (t.inputAt p).qualifiers) :=
    ⟨fun _ _ h => List.disjoint_comm.mp h⟩
  exact hd.2.forall hp hq hpq

theorem flatMap_inputAt {α : Type} (t : Query) (f : Query → List α) :
    (t.places.flatMap fun p => f (t.inputAt p)) = t.joinInputs.flatMap f := by
  conv_rhs => rw [← map_inputAt t]
  rw [List.flatMap_map]

theorem originsAt_inputAt (t : Query) :
    originsAt (fun p => (t.inputAt p).origins) t.places = t.origins :=
  (flatMap_inputAt t origins).trans (origins_joinInputs t)

theorem qualifiersAt_inputAt (t : Query) : qualifiersAt t.inputAt t.places = t.qualifiers :=
  (flatMap_inputAt t qualifiers).trans (qualifiers_joinInputs t)

def chainInputs (m : CostModel κ) (qs : List Query) : List (ChainInput κ) :=
  qs.zipIdx.map fun (q, place) => ⟨place, q, m.queryRows q⟩

theorem places_chainInputs (qs : List Query) :
    (chainInputs m qs).map (·.place) = List.range qs.length := by
  rw [chainInputs, List.map_map, List.range_eq_range', ← List.zipIdx_map_snd]
  rfl

theorem of_mem_chainInputs {qs : List Query} {i : ChainInput κ} (hi : i ∈ chainInputs m qs) :
    (chainInputs m qs)[i.place]? = some i ∧ qs[i.place]? = some i.query := by
  obtain ⟨⟨q, place⟩, hmem, rfl⟩ := List.mem_map.mp hi
  have hget : qs[place]? = some q := List.mem_zipIdx_iff_getElem?.mp hmem
  refine ⟨?_, hget⟩
  simp [chainInputs, List.getElem?_zipIdx, hget]

/-! ## Choices that are kept -/

section

variable {leaf : Nat → Query} {os : Nat → List Origin} {all order : List Nat}
  {used used' rest : List Expr} {sat sat' : (Nat → Row) → Bool} {t t' : Query}
  (hin : Inputs c leaf os all) (h : Arranges c leaf os all used all sat t)
  (h' : Arranges c leaf os all used' order sat' t') (horder : order.Perm all)
  (hrest : (used' ++ rest).Perm used) (hq : ∀ e ∈ used, e.PinnedIn os all)
include hin h h' horder hrest hq

omit h in
/-- The conjuncts that were not used hold above the grown tree in the choices in which they hold. -/
theorem allHold_rest {σ : Nat → Row} (hσ : ∀ p ∈ order, σ p ∈ (leaf p).rows c) :
    t'.allHold rest (order.flatMap σ) = rest.all (·.holdsIn (leafLook os all σ)) := by
  refine all_congr_of_mem fun e he => Expr.holdsIn_congr fun x n hm => ?_
  have hused : e ∈ used := hrest.subset (List.mem_append_right _ he)
  exact h'.lookIn_eq hin hσ (hq e hused _ hm) fun p hp _ => horder.mem_iff.mpr hp

/-- The grown tree below the filter keeps the choices that the chain as written keeps. -/
theorem rows_grown (σ : Nat → Row) :
    ((filterBy rest t').rows c : Multiset Row) =
      ((choices (fun p => (leaf p).rows c) all σ).filter (sat · = true)).map
        (order.flatMap ·) := by
  rw [rows_filterBy, coe_filter, h'.rows σ, Multiset.filter_map, Multiset.filter_filter,
    choices_perm horder h'.nodup]
  congr 1
  refine Multiset.filter_congr fun τ hτ => ?_
  have hall := (of_mem_choices hτ).1
  have hτ' : ∀ p ∈ order, τ p ∈ (leaf p).rows c := fun p hp => hall p (horder.mem_iff.mp hp)
  simp only [Function.comp]
  rw [allHold_rest hin h' horder hrest hq hτ', h'.holds τ hτ', h.holds τ hall,
    ← hrest.all_eq, List.all_append, Bool.and_eq_true, and_comm]

end

/-! ## The chain built anew -/

section

variable {t q : Query} {os : Nat → List Origin} (hin : Inputs c t.inputAt os t.places)
  (hb : t.IsBuilt) (hq : ∀ e ∈ t.joinConditions, e.PinnedIn os t.places)

include hb hin in
theorem spans_root : Spans t.inputAt os t.places t.places t :=
  spans_tree hin hb (fun _ hp => hp) t.nodup_places (map_inputAt t).symm

include hq in
theorem pinnedIn_conjuncts :
    ∀ e ∈ t.joinConditions.flatMap Expr.conjuncts, e.PinnedIn os t.places := by
  intro e he m hm
  obtain ⟨f, hf, hef⟩ := List.mem_flatMap.mp he
  exact hq f hf m (Expr.mentions_conjuncts hef m hm)

include hin hq

/-- A chain built anew is a grown tree over its inputs, with the columns put back. -/
theorem grown_of_reordered (h : t.asChain.reordered? m = some q) :
    ∃ (g : Growth κ) (used : List Expr) (sat : (Nat → Row) → Bool),
      Arranges c t.inputAt os t.places used g.order sat g.tree ∧
        (used ++ g.conjuncts).Perm (t.joinConditions.flatMap Expr.conjuncts) ∧
        g.order.Perm t.places ∧
        restoreColumns (filterBy g.conjuncts g.tree) t.schema
          (t.joinInputs.map (·.schema.width)) g.order = some q := by
  obtain ⟨start, hstart, hrestore⟩ := Option.bind_eq_some_iff.mp h
  have hqueries : ∀ i ∈ chainInputs m t.joinInputs, i.query = t.inputAt i.place := by
    intro i hi
    simp [inputAt, (of_mem_chainInputs hi).2]
  obtain ⟨hsound, hlen⟩ := Growth.sound_start (places_chainInputs (m := m) t.joinInputs)
    (fun i hi => (of_mem_chainInputs hi).1) hqueries hin hstart
  obtain ⟨hgrown, hempty⟩ := hsound.grow (m := m) hin t.nodup_places (pinnedIn_conjuncts hq) _
    hlen
  obtain ⟨used, sat, harr, hused⟩ := hgrown.arranges
  have horder := hgrown.places
  rw [hempty, List.map_nil, List.append_nil] at horder
  exact ⟨_, used, sat, harr, hused, horder, hrestore⟩

theorem isReadOnly_reordered (h : t.asChain.reordered? m = some q) : q.isReadOnly = true := by
  obtain ⟨g, used, sat, harr, -, -, hrestore⟩ := grown_of_reordered hin hq h
  have hread : (filterBy g.conjuncts g.tree).isReadOnly = true :=
    (isReadOnly_filterBy _ _).trans harr.isReadOnly
  rcases restoreColumns_cases hrestore with ⟨rfl, -⟩ | ⟨items, rfl, -⟩
  · exact hread
  · exact hread

theorem apartJoins_reordered (h : t.asChain.reordered? m = some q) : q.ApartJoins := by
  obtain ⟨g, used, sat, harr, -, -, hrestore⟩ := grown_of_reordered hin hq h
  rcases restoreColumns_cases hrestore with ⟨rfl, -⟩ | ⟨items, rfl, -⟩
  · exact apartJoins_filterBy harr.apartJoins
  · exact apartJoins_filterBy harr.apartJoins

include hb

theorem schema_reordered (h : t.asChain.reordered? m = some q) : q.schema = t.schema := by
  obtain ⟨g, used, sat, harr, -, horder, hrestore⟩ := grown_of_reordered hin hq h
  rcases restoreColumns_cases hrestore with ⟨rfl, hnames⟩ | ⟨items, rfl, -⟩
  · rw [schema_filterBy] at hnames ⊢
    exact (harr.toSpans.eq_of_names hin (spans_root hin hb) horder hnames).2
  · rfl

theorem qualifiers_reordered (h : t.asChain.reordered? m = some q) (x : String) :
    x ∈ q.qualifiers ↔ x ∈ t.qualifiers := by
  obtain ⟨g, used, sat, harr, -, horder, hrestore⟩ := grown_of_reordered hin hq h
  have hquals : x ∈ (filterBy g.conjuncts g.tree).qualifiers ↔ x ∈ t.qualifiers := by
    rw [qualifiers_filterBy, harr.qualifiers, (spans_root hin hb).qualifiers]
    exact (horder.flatMap_right _).mem_iff
  rcases restoreColumns_cases hrestore with ⟨rfl, -⟩ | ⟨items, rfl, -⟩
  · exact hquals
  · exact hquals

omit [CostScalar κ] hq hb in
theorem restored_choice {g : Growth κ} {used : List Expr} {sat : (Nat → Row) → Bool}
    (harr : Arranges c t.inputAt os t.places used g.order sat g.tree)
    (horder : g.order.Perm t.places) {items : List Item}
    (hitems : Restores (filterBy g.conjuncts g.tree) t.schema (t.joinInputs.map (·.schema.width))
      g.order items)
    {σ : Nat → Row} (hσ : ∀ p ∈ t.places, σ p ∈ (t.inputAt p).rows c) :
    items.map (·.valueIn ((filterBy g.conjuncts g.tree).lookIn (g.order.flatMap σ))) =
      t.places.flatMap σ := by
  refine hitems.map_valueIn horder ?_ ?_
  · conv_lhs => rw [← map_inputAt t]
    rw [List.map_map]
    exact List.map_congr_left fun p hp => (hin.widths p hp _ (hσ p hp)).symm
  · rw [schema_filterBy, ← harr.named.length_origins]
    exact (hin.length_originsAt harr.sub fun p hp => hσ p (horder.mem_iff.mp hp)).symm

theorem widths_reordered (h : t.asChain.reordered? m = some q) :
    ∀ row ∈ q.rows c, row.length = q.schema.width := by
  obtain ⟨g, used, sat, harr, -, horder, hrestore⟩ := grown_of_reordered hin hq h
  have hgrown : ∀ row ∈ (filterBy g.conjuncts g.tree).rows c,
      ∃ τ, (∀ p ∈ g.order, τ p ∈ (t.inputAt p).rows c) ∧ row = g.order.flatMap τ := by
    intro row hrow
    rw [rows_filterBy] at hrow
    exact harr.exists_of_mem_rows (List.mem_filter.mp hrow).1 fun _ => []
  intro row hrow
  rcases restoreColumns_cases hrestore with ⟨rfl, -⟩ | ⟨items, rfl, hitems⟩
  · obtain ⟨τ, hτ, rfl⟩ := hgrown row hrow
    rw [schema_filterBy, ← harr.named.length_origins, ← hin.length_originsAt harr.sub hτ]
  · obtain ⟨r, hr, rfl⟩ := List.mem_map.mp hrow
    obtain ⟨τ, hτ, rfl⟩ := hgrown r hr
    have hτ' : ∀ p ∈ t.places, τ p ∈ (t.inputAt p).rows c :=
      fun p hp => hτ p (horder.mem_iff.mpr hp)
    rw [restored_choice hin harr horder hitems hτ', schema,
      ← (spans_root hin hb).named.length_origins, ← hin.length_originsAt (fun _ hp => hp) hτ']

theorem rows_reordered (ha : t.TreeAnswers c) (h : t.asChain.reordered? m = some q) :
    (q.rows c).Perm (t.rows c) := by
  obtain ⟨g, used, sat', harr, hused, horder, hrestore⟩ := grown_of_reordered hin hq h
  obtain ⟨sat, htree⟩ := arranges_tree hin hb ha hq (fun _ hp => hp) t.nodup_places
    (map_inputAt t).symm
  have hrows := rows_grown hin htree harr horder hused (pinnedIn_conjuncts hq) fun _ => []
  rw [← Multiset.coe_eq_coe]
  rcases restoreColumns_cases hrestore with ⟨rfl, hnames⟩ | ⟨items, rfl, hitems⟩
  · -- the inputs stand in the written order
    rw [schema_filterBy] at hnames
    have heq := (harr.toSpans.eq_of_names hin htree.toSpans horder hnames).1
    rw [hrows, htree.rows fun _ => [], heq]
  · rw [htree.rows fun _ => []]
    simp only [rows]
    rw [← Multiset.map_coe, hrows, Multiset.map_map]
    refine Multiset.map_congr rfl fun σ hσ => ?_
    exact restored_choice hin harr horder hitems
      (of_mem_choices (Multiset.mem_filter.mp hσ).1).1

end

end Query

end RelQuery
