import RelQuery.Proofs.Query.Pruning

/-!
# Where values are drawn from

Every value under the joins of a query is null or comes from one of the leaves, from the column in which
its own column originates. Filters, joins and the projections that narrow leaves draw no other values.
-/

namespace RelQuery

/-! ## Values beside origins -/

/-- Beside its origin, every value of these rows that is not null is among the cells. -/
def Draws (cells : List (Origin × Value)) (os : List Origin) (rows : List Row) : Prop :=
  ∀ row ∈ rows, ∀ z ∈ os.zip row, z.2.isNull = false → z ∈ cells

namespace Draws

variable {cells : List (Origin × Value)} {os os' : List Origin} {ls rs rows rows' : List Row}

theorem of_subset (h : Draws cells os rows) (hsub : ∀ row ∈ rows', row ∈ rows) :
    Draws cells os rows' := fun row hrow => h row (hsub row hrow)

theorem nulls (cells : List (Origin × Value)) (os : List Origin) (width : Nat) :
    ∀ z ∈ os.zip (Row.nulls width), z.2.isNull = false → z ∈ cells := by
  intro z hz hnull
  have hmem := (List.of_mem_zip hz).2
  rw [List.eq_of_mem_replicate hmem] at hnull
  cases hnull

theorem sift (h : Draws cells os rows) (mask : List Bool) :
    Draws cells (sift mask os) (rows.map (RelQuery.sift mask)) := by
  intro row' hrow' z hz
  obtain ⟨row, hrow, rfl⟩ := List.mem_map.mp hrow'
  rw [zip_sift] at hz
  exact h row hrow z (mem_of_mem_sift hz)

theorem joinRows {k : JoinKind} {wl wr : Nat} {meets : Row → Row → Bool}
    (h : Draws cells os ls) (h' : Draws cells os' rs) (hwidth : os.length = wl)
    (hlen : ∀ a ∈ ls, a.length = wl) :
    Draws cells (os ++ os') (k.joinRows wl wr meets ls rs) := by
  intro row hrow
  obtain ⟨a, b, rfl, hab⟩ := JoinKind.mem_joinRows hrow
  have hsides : os.length = a.length ∧
      (∀ z ∈ os.zip a, z.2.isNull = false → z ∈ cells) ∧
        ∀ z ∈ os'.zip b, z.2.isNull = false → z ∈ cells := by
    obtain ⟨ha, hb⟩ | ⟨ha, rfl, -⟩ | ⟨rfl, hb, -⟩ := hab
    · exact ⟨hwidth.trans (hlen a ha).symm, h a ha, h' b hb⟩
    · exact ⟨hwidth.trans (hlen a ha).symm, h a ha, nulls cells os' wr⟩
    · exact ⟨hwidth.trans List.length_replicate.symm, nulls cells os wl, h' b hb⟩
  rw [List.zip_append hsides.1]
  exact List.forall_mem_append.mpr hsides.2

end Draws

/-- What is looked up by origins is the value of a column that the reference means. -/
theorem Origin.exists_of_look {os : List Origin} {row : Row} {x : Option String} {n : String}
    {v : Value} (h : Origin.look os row x n = .ok v) :
    ∃ o, (o, v) ∈ os.zip row ∧ (ColumnRef.of x n).means o = true := by
  have hcell : ∀ {name : String} {p : Origin → Bool}, cellAt name row (os.findIdx? p) = .ok v →
      ∃ o, (o, v) ∈ os.zip row ∧ p o = true := by
    intro name p h
    unfold cellAt at h
    cases hi : os.findIdx? p with
    | none => simp [hi] at h
    | some i =>
      obtain ⟨hlt, hp, -⟩ := List.findIdx?_eq_some_iff_getElem.mp hi
      rw [hi, Option.bind_some] at h
      cases hget : row[i]? with
      | none => simp [hget] at h
      | some w =>
        rw [hget, Except.ok.injEq] at h
        subst h
        obtain ⟨hlt', hw⟩ := List.getElem?_eq_some_iff.mp hget
        refine ⟨os[i], ?_, hp⟩
        rw [← hw, ← List.getElem_zip (i := i) (h := by rw [List.length_zip]; omega)]
        exact List.getElem_mem _
  cases x with
  | some x =>
    rw [Origin.look] at h
    split at h
    · obtain ⟨o, ho, hmeans⟩ := hcell h
      exact ⟨o, ho, Origin.means_of_qualified hmeans⟩
    · cases h
  | none =>
    obtain ⟨o, ho, hmeans⟩ := hcell h
    exact ⟨o, ho, Origin.means_of_unqualified hmeans⟩

namespace Query

variable {c : Catalog} {cells : List (Origin × Value)}

/-! ## Values of leaves -/

/-- All values in the leaves of a tree of joins, each beside the origin of its column. -/
def leafCells (c : Catalog) : Query → List (Origin × Value)
  | filter _ q => q.leafCells c
  | join _ _ _ l r => l.leafCells c ++ r.leafCells c
  | q => (q.rows c).flatMap (q.origins.zip ·)

/-- Those of the joins in a query. -/
def joinedCells (c : Catalog) : Query → List (Origin × Value)
  | scan .. | insert .. => []
  | filter _ q | project _ _ q | aggregate _ _ _ q => q.joinedCells c
  | join _ _ _ l r => l.leafCells c ++ r.leafCells c

/-- The inputs of a tree of joins have drawn their values from the cells. -/
def Drawn (c : Catalog) (cells : List (Origin × Value)) : Query → Prop
  | filter _ q => q.Drawn c cells
  | join _ _ _ l r => l.Drawn c cells ∧ r.Drawn c cells
  | q => Draws cells q.origins (q.rows c)

def JoinsDrawn (c : Catalog) (cells : List (Origin × Value)) : Query → Prop
  | scan .. | insert .. => True
  | filter _ q | project _ _ q | aggregate _ _ _ q => q.JoinsDrawn c cells
  | join _ _ _ l r => l.Drawn c cells ∧ r.Drawn c cells

theorem Drawn.draws (hc : c.IsRectangular) : ∀ {q : Query}, q.Drawn c cells → q.Scoped →
    q.IsRectangular c → Draws cells q.origins (q.rows c)
  | scan .., h, _, _ | project .., h, _, _ => h
  | filter _ q, h, hs, hr =>
    (Drawn.draws hc (q := q) h hs hr).of_subset fun _ hrow => (List.mem_filter.mp hrow).1
  | join .., h, hs, hr =>
    (Drawn.draws hc h.1 hs.2.1 hr.2.1).joinRows (Drawn.draws hc h.2 hs.2.2.1 hr.2.2)
      hs.2.1.named.length_origins (hr.2.1.length_rows hc)

theorem joinsDrawn_of_isOverOneScan : ∀ {q : Query}, q.isOverOneScan = true →
    q.JoinsDrawn c cells
  | scan .., _ => trivial
  | filter _ q, h | project _ _ q, h => joinsDrawn_of_isOverOneScan (q := q) h

theorem Drawn.joinsDrawn : ∀ {q : Query}, q.Drawn c cells → q.Scoped → q.JoinsDrawn c cells
  | scan .., _, _ => trivial
  | filter _ q, h, hs => Drawn.joinsDrawn (q := q) h hs
  | project .., _, hs => joinsDrawn_of_isOverOneScan hs.1
  | join .., h, _ => h

/-! ## Pruned queries -/

theorem drawn_narrow {required : List ColumnRef} {t : String} {a : Option String} {s : Schema}
    (h : Draws cells (narrow required t a s).origins ((narrow required t a s).rows c)) :
    (narrow required t a s).Drawn c cells := by
  obtain heq | ⟨s', heq⟩ := narrow_cases required t a s
  · rw [heq] at h ⊢
    exact h
  · rw [heq] at h ⊢
    exact h

theorem Narrows.draws {required : List ColumnRef} {mask : List Bool} {q q' : Query}
    (h : Narrows c required mask q q')
    (hsub : ∀ z ∈ (q.rows c).flatMap (q.origins.zip ·), z ∈ cells) :
    Draws cells q'.origins (q'.rows c) := by
  rw [h.origins, h.rows]
  refine Draws.sift (fun row hrow z hz _ => hsub z ?_) _
  exact List.mem_flatMap.mpr ⟨row, hrow, hz⟩

/-- Narrowed leaves draw what the leaves have. -/
theorem drawn_prune (hc : c.IsRectangular) : ∀ {q : Query} (required : List ColumnRef)
    (root : Bool), q.NeatTree → q.IsOver c → (∀ z ∈ q.leafCells c, z ∈ cells) →
      (q.prune required root).Drawn c cells
  | scan t a s, required, _, hn, ho, hsub => drawn_narrow ((narrows_narrow hc hn ho required).draws hsub)
  | filter _ q, _, _, hn, ho, hsub => drawn_prune hc (q := q) _ false hn.2 ho hsub
  | project items s q, required, root, hn, ho, hsub => by
    obtain ⟨mask, h⟩ := narrows_prune hc (q := project items s q) required root hn ho
    have hdraws := h.draws hsub
    rw [prune_project items q (width_itemSchema ho.1).symm] at hdraws ⊢
    exact hdraws
  | join _ _ _ l r, _, _, hn, ho, hsub => by
    have hsub' := List.forall_mem_append.mp hsub
    exact ⟨drawn_prune hc _ false hn.2.2.1 ho.2.1 hsub'.1,
      drawn_prune hc _ false hn.2.2.2 ho.2.2 hsub'.2⟩

theorem joinsDrawn_prune (hc : c.IsRectangular) : ∀ {q : Query} (required : List ColumnRef)
    (root : Bool), q.Neat → q.IsOver c → (∀ z ∈ q.joinedCells c, z ∈ cells) →
      (q.prune required root).JoinsDrawn c cells
  | scan t a s, required, root, _, _, _ => by
    rw [prune]
    obtain heq | ⟨s', heq⟩ := narrow_cases required t a s
    · rw [heq]
      exact trivial
    · rw [heq]
      exact trivial
  | filter _ q, _, _, hn, ho, hsub => joinsDrawn_prune hc (q := q) _ false hn.2 ho hsub
  | project items s q, required, root, hn, ho, hsub => by
    rw [prune_project items q (width_itemSchema ho.1).symm]
    exact joinsDrawn_prune hc (q := q) _ false hn.2 ho.2 hsub
  | aggregate _ _ _ q, _, _, hn, ho, hsub => joinsDrawn_prune hc (q := q) _ false hn.2.2 ho.2 hsub
  | join k e s l r, required, root, hn, ho, hsub =>
    drawn_prune hc (q := join k e s l r) required root hn ho hsub
  | insert .., _, _, _, ho, _ => ho.elim

end Query

end RelQuery
