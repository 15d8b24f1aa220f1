import RelQuery.Proofs.Query.Coherent
import RelQuery.Proofs.Query.Scope

/-!
# Well-scoped queries

The queries for which names are no obstacle: scans of tables in the catalog under distinct plain
names, plain column names and references, and joins only of scans, filters and joins. Projections
and aggregations may stand above the joins. In such a query every join is scoped.
-/

namespace RelQuery

/-- The names of all references are plain; their qualifiers need not be. -/
def Expr.PlainRefs (e : Expr) : Prop := ∀ m ∈ e.mentions, Text.Plain m.2

theorem Expr.PlainRefs.conjuncts {e : Expr} (h : e.PlainRefs) : ∀ f ∈ e.conjuncts, f.PlainRefs :=
  fun _ hf m hm => h m (mentions_conjuncts hf m hm)

namespace Query

/-! ## What a query is made of -/

def exprs : Query → List Expr
  | scan .. | insert .. => []
  | filter e q => e :: q.exprs
  | project is _ q => is.map (·.expr) ++ q.exprs
  | aggregate gs os _ q => gs ++ os.map (·.expr) ++ q.exprs
  | join _ e _ l r => e.toList ++ l.exprs ++ r.exprs

def scans : Query → List (String × Schema)
  | scan t a s => [(referenceName t a, s)]
  | insert .. => []
  | filter _ q | project _ _ q | aggregate _ _ _ q => q.scans
  | join _ _ _ l r => l.scans ++ r.scans

def isJoinTree : Query → Bool
  | scan .. => true
  | filter _ q => q.isJoinTree
  | join _ _ _ l r => l.isJoinTree && r.isJoinTree
  | _ => false

/-- Every input of a join is made of scans, filters and joins. -/
def joinsTrees : Query → Bool
  | scan .. | insert .. => true
  | filter _ q | project _ _ q | aggregate _ _ _ q => q.joinsTrees
  | join _ _ _ l r => l.isJoinTree && r.isJoinTree

structure WellScoped (c : Catalog) (q : Query) : Prop where
  isOver : q.IsOver c
  distinct : q.qualifiers.Nodup
  scanNames : ∀ x ∈ q.scans, ScanName x.1
  tidy : ∀ x ∈ q.scans, x.2.Tidy
  references : ∀ e ∈ q.exprs, e.PlainRefs
  joins : q.joinsTrees = true

instance (e : Expr) : Decidable e.PlainRefs := inferInstanceAs (Decidable (∀ m ∈ e.mentions, _))

instance (c : Catalog) (q : Query) : Decidable (q.WellScoped c) :=
  decidable_of_iff
    (q.IsOver c ∧ q.qualifiers.Nodup ∧ (∀ x ∈ q.scans, ScanName x.1) ∧
      (∀ x ∈ q.scans, x.2.Tidy) ∧ (∀ e ∈ q.exprs, e.PlainRefs) ∧ q.joinsTrees = true)
    ⟨fun h => ⟨h.1, h.2.1, h.2.2.1, h.2.2.2.1, h.2.2.2.2.1, h.2.2.2.2.2⟩,
      fun h => ⟨h.isOver, h.distinct, h.scanNames, h.tidy, h.references, h.joins⟩⟩

def ScopedJoins : Query → Prop
  | scan .. | insert .. => True
  | filter _ q | project _ _ q | aggregate _ _ _ q => q.ScopedJoins
  | join k e s l r => (join k e s l r).Scoped

variable {c : Catalog}

theorem scoped_of_isJoinTree : ∀ {q : Query}, q.isJoinTree = true → q.Coherent →
    q.qualifiers.Nodup → (∀ x ∈ q.scans, ScanName x.1) → (∀ x ∈ q.scans, x.2.Tidy) → q.Scoped
  | scan t a s, _, _, _, hn, ht =>
    ⟨hn _ (List.mem_singleton_self _), ht _ (List.mem_singleton_self _)⟩
  | filter _ q, h, ho, hd, hn, ht => scoped_of_isJoinTree (q := q) h ho hd hn ht
  | join _ _ _ l r, h, ⟨hs, hl, hr⟩, hd, hn, ht => by
    rw [isJoinTree, Bool.and_eq_true] at h
    rw [qualifiers, List.nodup_append'] at hd
    have hn' := List.forall_mem_append.mp hn
    have ht' := List.forall_mem_append.mp ht
    exact ⟨hs, scoped_of_isJoinTree h.1 hl hd.1 hn'.1 ht'.1,
      scoped_of_isJoinTree h.2 hr hd.2.1 hn'.2 ht'.2, hd.2.2⟩

theorem scopedJoins_of_joinsTrees : ∀ {q : Query}, q.joinsTrees = true → q.IsOver c →
    q.qualifiers.Nodup → (∀ x ∈ q.scans, ScanName x.1) → (∀ x ∈ q.scans, x.2.Tidy) →
      q.ScopedJoins
  | scan .., _, _, _, _, _ => trivial
  | filter _ q, h, ho, hd, hn, ht => scopedJoins_of_joinsTrees (q := q) h ho hd hn ht
  | project _ _ q, h, ho, hd, hn, ht | aggregate _ _ _ q, h, ho, hd, hn, ht =>
    scopedJoins_of_joinsTrees (q := q) h ho.2 hd hn ht
  | join k e s l r, h, ho, hd, hn, ht =>
    scoped_of_isJoinTree (q := join k e s l r) h ho.coherent hd hn ht

theorem WellScoped.scopedJoins {q : Query} (h : q.WellScoped c) : q.ScopedJoins :=
  scopedJoins_of_joinsTrees h.joins h.isOver h.distinct h.scanNames h.tidy

section

variable {q : Query}

theorem WellScoped.ofFilter {e : Expr} (h : (filter e q).WellScoped c) : q.WellScoped c where
  isOver := h.isOver
  distinct := h.distinct
  scanNames := h.scanNames
  tidy := h.tidy
  references := (List.forall_mem_cons.mp h.references).2
  joins := h.joins

theorem WellScoped.ofProject {is : List Item} {s : Schema} (h : (project is s q).WellScoped c) :
    q.WellScoped c where
  isOver := h.isOver.2
  distinct := h.distinct
  scanNames := h.scanNames
  tidy := h.tidy
  references := (List.forall_mem_append.mp h.references).2
  joins := h.joins

theorem WellScoped.ofAggregate {gs : List Expr} {os : List Item} {s : Schema}
    (h : (aggregate gs os s q).WellScoped c) : q.WellScoped c where
  isOver := h.isOver.2
  distinct := h.distinct
  scanNames := h.scanNames
  tidy := h.tidy
  references := (List.forall_mem_append.mp h.references).2
  joins := h.joins

end

theorem scopedJoins_of_isOverOneScan : ∀ {q : Query}, q.isOverOneScan = true → q.ScopedJoins
  | scan .., _ => trivial
  | filter _ q, h => scopedJoins_of_isOverOneScan (q := q) h
  | project _ _ q, h => scopedJoins_of_isOverOneScan (q := q) h

theorem Scoped.scopedJoins : ∀ {q : Query}, q.Scoped → q.ScopedJoins
  | scan .., _ => trivial
  | filter _ q, h => Scoped.scopedJoins (q := q) h
  | project _ _ q, h => scopedJoins_of_isOverOneScan (q := q) h.1
  | join .., h => h

end Query

end RelQuery
