import RelQuery.Proofs.Query.WellScoped

/-!
# Neat queries

In a neat query the inputs of joins are again joins, or filters and projections over one scan each;
names are plain, and no two columns of one scan or projection differ in case only. Filters, projections
and aggregations above the joins need plain references and names without letters beyond ASCII. A
well-scoped query is neat, and one whose joins have projections of single tables as inputs may be.
-/

namespace RelQuery

namespace Query

/-! ## The class -/

/-- A tree of joins, its leaves filters and projections over one scan each. -/
def NeatTree : Query → Prop
  | scan t a s => ScanName (referenceName t a) ∧ s.Tidy
  | filter e q => e.PlainRefs ∧ q.NeatTree
  | project is s q =>
    (∀ i ∈ is, i.expr.PlainRefs) ∧ s.Tidy ∧ q.isOverOneScan = true ∧ q.NeatTree
  | join _ e _ l r =>
    (∀ f ∈ e, f.PlainRefs) ∧ l.qualifiers.Disjoint r.qualifiers ∧ l.NeatTree ∧ r.NeatTree
  | insert .. | aggregate .. => False

def Neat : Query → Prop
  | filter e q => e.PlainRefs ∧ q.Neat
  | project is _ q => (∀ i ∈ is, i.expr.PlainRefs ∧ Text.IsAscii i.name) ∧ q.Neat
  | aggregate gs os _ q =>
    (∀ e ∈ gs, e.PlainRefs) ∧ (∀ i ∈ os, i.expr.PlainRefs ∧ Text.IsAscii i.name) ∧ q.Neat
  | q => q.NeatTree

instance decidableNeatTree : ∀ q : Query, Decidable q.NeatTree
  | scan .. => inferInstanceAs (Decidable (_ ∧ _))
  | filter _ q =>
    have := decidableNeatTree q
    inferInstanceAs (Decidable (_ ∧ _))
  | project _ _ q =>
    have := decidableNeatTree q
    inferInstanceAs (Decidable (_ ∧ _ ∧ _ ∧ _))
  | join _ _ _ l r =>
    have := decidableNeatTree l
    have := decidableNeatTree r
    inferInstanceAs (Decidable (_ ∧ (∀ _ ∈ _, _ ∉ _) ∧ _ ∧ _))
  | insert .. | aggregate .. => inferInstanceAs (Decidable False)

instance decidableNeat : ∀ q : Query, Decidable q.Neat
  | filter _ q =>
    have := decidableNeat q
    inferInstanceAs (Decidable (_ ∧ _))
  | project _ _ q =>
    have := decidableNeat q
    inferInstanceAs (Decidable (_ ∧ _))
  | aggregate _ _ _ q =>
    have := decidableNeat q
    inferInstanceAs (Decidable (_ ∧ _ ∧ _))
  | scan t a s => decidableNeatTree (scan t a s)
  | insert t cs rows s => decidableNeatTree (insert t cs rows s)
  | join k e s l r => decidableNeatTree (join k e s l r)

variable {c : Catalog} {q : Query}

/-! ## Names and references -/

theorem NeatTree.scanName : ∀ {q : Query}, q.NeatTree → ScanName q.qualifier
  | scan .., h => h.1
  | filter _ q, h => NeatTree.scanName (q := q) h.2
  | project _ _ q, h => NeatTree.scanName (q := q) h.2.2.2
  | join _ _ _ l _, h => NeatTree.scanName (q := l) h.2.2.1

theorem NeatTree.scoped : ∀ {q : Query}, q.NeatTree → q.Coherent → q.Scoped
  | scan .., h, _ => h
  | filter _ q, h, hco => NeatTree.scoped (q := q) h.2 hco
  | project .., h, _ => ⟨h.2.2.1, h.2.2.2.scanName, h.2.1⟩
  | join .., h, hco => ⟨hco.1, h.2.2.1.scoped hco.2.1, h.2.2.2.scoped hco.2.2, h.2.1⟩

theorem NeatTree.references : ∀ {q : Query}, q.NeatTree → ∀ e ∈ q.exprs, e.PlainRefs
  | scan .., _ => nofun
  | filter _ q, h => List.forall_mem_cons.mpr ⟨h.1, NeatTree.references (q := q) h.2⟩
  | project .., h =>
    List.forall_mem_append.mpr ⟨List.forall_mem_map.mpr h.1, h.2.2.2.references⟩
  | join .., h => List.forall_mem_append.mpr ⟨List.forall_mem_append.mpr
      ⟨fun f hf => h.1 f (Option.mem_toList.mp hf), h.2.2.1.references⟩, h.2.2.2.references⟩

theorem NeatTree.scanNames : ∀ {q : Query}, q.NeatTree → ∀ x ∈ q.scans, ScanName x.1
  | scan .., h => List.forall_mem_singleton.mpr h.1
  | filter _ q, h => NeatTree.scanNames (q := q) h.2
  | project _ _ q, h => NeatTree.scanNames (q := q) h.2.2.2
  | join .., h => List.forall_mem_append.mpr ⟨h.2.2.1.scanNames, h.2.2.2.scanNames⟩

theorem Neat.scopedJoins : ∀ {q : Query}, q.Neat → q.Coherent → q.ScopedJoins
  | scan .., _, _ | insert .., _, _ => trivial
  | filter _ q, h, hco => Neat.scopedJoins (q := q) h.2 hco
  | project _ _ q, h, hco => Neat.scopedJoins (q := q) h.2 hco.2
  | aggregate _ _ _ q, h, hco => Neat.scopedJoins (q := q) h.2.2 hco
  | join k e s l r, h, hco => NeatTree.scoped (q := join k e s l r) h hco

theorem Neat.references : ∀ {q : Query}, q.Neat → ∀ e ∈ q.exprs, e.PlainRefs
  | scan .., _ | insert .., _ => nofun
  | filter _ q, h => List.forall_mem_cons.mpr ⟨h.1, Neat.references (q := q) h.2⟩
  | project .., h => List.forall_mem_append.mpr
      ⟨List.forall_mem_map.mpr fun i hi => (h.1 i hi).1, h.2.references⟩
  | aggregate .., h => List.forall_mem_append.mpr ⟨List.forall_mem_append.mpr
      ⟨h.1, List.forall_mem_map.mpr fun i hi => (h.2.1 i hi).1⟩, h.2.2.references⟩
  | join k e s l r, h => NeatTree.references (q := join k e s l r) h

theorem Neat.scanNames : ∀ {q : Query}, q.Neat → ∀ x ∈ q.scans, ScanName x.1
  | scan t a s, h => NeatTree.scanNames (q := scan t a s) h
  | filter _ q, h | project _ _ q, h => Neat.scanNames (q := q) h.2
  | aggregate _ _ _ q, h => Neat.scanNames (q := q) h.2.2
  | join k e s l r, h => NeatTree.scanNames (q := join k e s l r) h

/-! ## Filters over joins -/

def isFilteredTree : Query → Bool
  | scan .. | join .. => true
  | filter _ q => q.isFilteredTree
  | project .. | aggregate .. | insert .. => false

theorem Neat.neatTree : ∀ {q : Query}, q.Neat → q.isFilteredTree = true → q.NeatTree
  | scan .., h, _ | join .., h, _ => h
  | filter _ q, h, ht => ⟨h.1, Neat.neatTree (q := q) h.2 ht⟩

/-! ## Well-scoped queries -/

def itemNames : Query → List String
  | scan .. | insert .. => []
  | filter _ q => q.itemNames
  | project is _ q | aggregate _ is _ q => is.map (·.name) ++ q.itemNames
  | join _ _ _ l r => l.itemNames ++ r.itemNames

theorem neatTree_of_isJoinTree : ∀ {q : Query}, q.isJoinTree = true → q.qualifiers.Nodup →
    (∀ x ∈ q.scans, ScanName x.1) → (∀ x ∈ q.scans, x.2.Tidy) → (∀ e ∈ q.exprs, e.PlainRefs) →
      q.NeatTree
  | scan .., _, _, hn, ht, _ => ⟨hn _ (List.mem_singleton_self _), ht _ (List.mem_singleton_self _)⟩
  | filter _ q, h, hd, hn, ht, hp => by
    obtain ⟨he, hp'⟩ := List.forall_mem_cons.mp hp
    exact ⟨he, neatTree_of_isJoinTree (q := q) h hd hn ht hp'⟩
  | join .., h, hd, hn, ht, hp => by
    rw [isJoinTree, Bool.and_eq_true] at h
    rw [qualifiers, List.nodup_append'] at hd
    have hn' := List.forall_mem_append.mp hn
    have ht' := List.forall_mem_append.mp ht
    obtain ⟨hel, hpr⟩ := List.forall_mem_append.mp hp
    obtain ⟨he, hpl⟩ := List.forall_mem_append.mp hel
    exact ⟨fun f hf => he f (Option.mem_toList.mpr hf), hd.2.2,
      neatTree_of_isJoinTree h.1 hd.1 hn'.1 ht'.1 hpl,
      neatTree_of_isJoinTree h.2 hd.2.1 hn'.2 ht'.2 hpr⟩

theorem WellScoped.neat : ∀ {q : Query}, q.WellScoped c → (∀ n ∈ q.itemNames, Text.IsAscii n) →
    q.Neat
  | scan .., h, _ => neatTree_of_isJoinTree rfl h.distinct h.scanNames h.tidy h.references
  | join .., h, _ => neatTree_of_isJoinTree h.joins h.distinct h.scanNames h.tidy h.references
  | filter _ q, h, hn =>
    ⟨(List.forall_mem_cons.mp h.references).1, WellScoped.neat (q := q) h.ofFilter hn⟩
  | project is _ q, h, hn => by
    have hp := List.forall_mem_map.mp (List.forall_mem_append.mp h.references).1
    obtain ⟨his, hn'⟩ := List.forall_mem_append.mp hn
    have hascii := List.forall_mem_map.mp his
    exact ⟨fun i hi => ⟨hp i hi, hascii i hi⟩, WellScoped.neat h.ofProject hn'⟩
  | aggregate gs os _ q, h, hn => by
    obtain ⟨hgs, hos⟩ := List.forall_mem_append.mp (List.forall_mem_append.mp h.references).1
    have hp := List.forall_mem_map.mp hos
    obtain ⟨his, hn'⟩ := List.forall_mem_append.mp hn
    have hascii := List.forall_mem_map.mp his
    exact ⟨hgs, fun i hi => ⟨hp i hi, hascii i hi⟩, WellScoped.neat h.ofAggregate hn'⟩
  | insert .., h, _ => h.isOver.elim

end Query

end RelQuery
