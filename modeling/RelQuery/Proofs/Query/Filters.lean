import Mathlib.Algebra.Order.Group.Multiset
import RelQuery.Plan.Memo
import RelQuery.Proofs.Expr.Conjunct
import RelQuery.Proofs.Query.FilterBy

/-!
# Filters over the nodes of a query

What is left of a query without its filters are its other nodes, each at its path. So every conjunct of
a filter can be located: it stands over a node of that tree. Filtering by some conjuncts puts them over
the root.
-/

namespace RelQuery

namespace Query

/-! ## The tree without filters -/

def unfiltered : Query → Query
  | scan t a s => scan t a s
  | insert t cs rows s => insert t cs rows s
  | filter _ q => q.unfiltered
  | project is s q => project is s q.unfiltered
  | aggregate gs os s q => aggregate gs os s q.unfiltered
  | join k c s l r => join k c s l.unfiltered r.unfiltered

theorem schema_unfiltered : ∀ q : Query, q.unfiltered.schema = q.schema
  | filter _ q => schema_unfiltered q
  | scan .. | insert .. | project .. | aggregate .. | join .. => rfl

theorem qualifiers_unfiltered : ∀ q : Query, q.unfiltered.qualifiers = q.qualifiers
  | scan .. | insert .. => rfl
  | filter _ q | project _ _ q | aggregate _ _ _ q => qualifiers_unfiltered q
  | join _ _ _ l r => by
    rw [unfiltered, qualifiers, qualifiers_unfiltered l, qualifiers_unfiltered r, qualifiers]

theorem bindsAll_congr {q q' : Query} (hs : q'.schema = q.schema)
    (hq : q'.qualifiers = q.qualifiers) : q'.bindsAll = q.bindsAll := by
  have hbinds : q'.binds = q.binds := by
    funext r
    rw [binds, binds, hs, hq]
  funext e
  rw [bindsAll, bindsAll, hbinds]

theorem bindsAll_unfiltered (q : Query) : q.unfiltered.bindsAll = q.bindsAll :=
  bindsAll_congr (schema_unfiltered q) (qualifiers_unfiltered q)

theorem unfiltered_filterBy (es : List Expr) (q : Query) :
    (filterBy es q).unfiltered = q.unfiltered := by
  unfold filterBy
  split
  · rfl
  · rfl

/-! ## Stacked filters -/

def isFilter : Query → Bool
  | filter .. => true
  | _ => false

/-- No filter stands directly on another. -/
def FiltersApart : Query → Prop
  | scan .. | insert .. => True
  | filter _ q => q.isFilter = false ∧ q.FiltersApart
  | project _ _ q | aggregate _ _ _ q => q.FiltersApart
  | join _ _ _ l r => l.FiltersApart ∧ r.FiltersApart

theorem filtersApart_filterBy {es : List Expr} {q : Query} (hq : q.isFilter = false)
    (h : q.FiltersApart) : (filterBy es q).FiltersApart := by
  unfold filterBy
  split
  · exact h
  · exact ⟨hq, h⟩

/-! ## Located conjuncts -/

/-- A conjunct with the path to the node that it stands over, filters left out of the path. -/
abbrev Location := Path × Expr

/-- The location as seen from a node of which the tree is the input at this position. -/
def Location.from (i : Nat) (x : Location) : Location := (i :: x.1, x.2)

def atRoot (es : List Expr) : Multiset Location := (es : Multiset Expr).map fun e => ([], e)

def located : Query → Multiset Location
  | scan .. | insert .. => 0
  | filter e q => atRoot e.conjuncts + q.located
  | project _ _ q | aggregate _ _ _ q => q.located.map (Location.from 0)
  | join _ _ _ l r => l.located.map (Location.from 0) + r.located.map (Location.from 1)

theorem atRoot_nil : atRoot [] = 0 := rfl

theorem atRoot_append (es fs : List Expr) : atRoot (es ++ fs) = atRoot es + atRoot fs := by
  rw [atRoot, ← Multiset.coe_add, Multiset.map_add, atRoot, atRoot]

/-- A filter by some conjuncts has just these, or it is no filter and there are none. -/
theorem filterBy_cases {es : List Expr} (h : ∀ e ∈ es, e.isAnd = false) (q : Query) :
    (es = [] ∧ filterBy es q = q) ∨ ∃ e, filterBy es q = filter e q ∧ e.conjuncts = es := by
  cases es with
  | nil => exact .inl ⟨rfl, rfl⟩
  | cons e es => exact .inr ⟨_, rfl, Expr.conjuncts_conjoin (List.cons_ne_nil e es) h⟩

theorem located_filterBy {es : List Expr} (h : ∀ e ∈ es, e.isAnd = false) (q : Query) :
    (filterBy es q).located = atRoot es + q.located := by
  obtain ⟨rfl, hq⟩ | ⟨e, hq, he⟩ := filterBy_cases h q
  · rw [hq, atRoot_nil, zero_add]
  · rw [hq, located, he]

end Query

end RelQuery
