import RelQuery.Proofs.Plan.Baseline
import RelQuery.Proofs.Query.Chain
import RelQuery.Proofs.Query.WellScoped

/-!
# Reordering joins keeps the rows

Where no reference in the join conditions of a chain that is built anew may mean columns of two of its
inputs, and the inputs keep their leading scans, a query and the one with its joins reordered have the
same rows up to their order. Filters, projections and other joins above the chains see the same
columns. Qualified references that mean columns of the chain are of this kind.
-/

namespace RelQuery

namespace JoinKind

variable {k : JoinKind} {wl wr : Nat} {meets : Row → Row → Bool} {ls ls' rs rs' : List Row}

theorem joinRows_perm (hl : ls'.Perm ls) (hr : rs'.Perm rs) :
    (k.joinRows wl wr meets ls' rs').Perm (k.joinRows wl wr meets ls rs) := by
  have hrows : ∀ a, (k.rowsOf wr meets rs' a).Perm (k.rowsOf wr meets rs a) := by
    intro a
    unfold rowsOf
    rw [hr.any_eq]
    exact ((hr.filter _).map _).append_right _
  have hleft : (k.leftovers wl meets ls' rs').Perm (k.leftovers wl meets ls rs) := by
    unfold leftovers
    split
    · simp only [hl.any_eq]
      exact (hr.filter _).map _
    · exact List.Perm.refl _
  unfold joinRows
  refine List.Perm.append ?_ hleft
  exact (hl.flatMap_right _).trans (List.Perm.flatMap_left _ fun a _ => hrows a)

end JoinKind

namespace Query

variable {κ : Type} [CostScalar κ] {m : CostModel κ} {c : Catalog}

/-! ## What reordering keeps -/

/-- Same columns and scans, and the same rows in some order if the conditions have values. -/
structure Reorders (c : Catalog) (q q' : Query) : Prop where
  schema : q'.schema = q.schema
  qualifiers : ∀ x, x ∈ q'.qualifiers ↔ x ∈ q.qualifiers
  isReadOnly : q'.isReadOnly = true
  apartJoins : q'.ApartJoins
  widths : ∀ row ∈ q'.rows c, row.length = q'.schema.width
  rows : q.ConditionsAnswer c → (q'.rows c).Perm (q.rows c)

namespace Reorders

variable {q q' l l' r r' : Query}

theorem lookIn_eq (h : Reorders c q q') : q'.lookIn = q.lookIn :=
  lookIn_congr_of_mem h.schema h.qualifiers

theorem lookBoth_eq (hl : Reorders c l l') (hr : Reorders c r r') :
    l'.lookBoth r' = l.lookBoth r :=
  lookBoth_congr hl.schema hl.qualifiers hr.schema hr.qualifiers

theorem scan {t : String} {a : Option String} {s : Schema} (hc : c.IsRectangular)
    (h : (Query.scan t a s).IsRectangular c) : Reorders c (.scan t a s) (.scan t a s) :=
  ⟨rfl, fun _ => Iff.rfl, rfl, trivial, h.length_rows hc, fun _ => List.Perm.refl _⟩

theorem filter (h : Reorders c q q') (e : Expr) : Reorders c (.filter e q) (.filter e q') where
  schema := h.schema
  qualifiers := h.qualifiers
  isReadOnly := h.isReadOnly
  apartJoins := h.apartJoins
  widths row hrow := h.widths row (List.mem_filter.mp hrow).1
  rows ha := by
    simp only [Query.rows, h.lookIn_eq]
    exact (h.rows ha).filter _

theorem project (h : Reorders c q q') {items : List Item} {s : Schema}
    (hs : s.width = items.length) : Reorders c (.project items s q) (.project items s q') where
  schema := rfl
  qualifiers := h.qualifiers
  isReadOnly := h.isReadOnly
  apartJoins := h.apartJoins
  widths row hrow := by
    obtain ⟨r, -, rfl⟩ := List.mem_map.mp hrow
    rw [List.length_map, Query.schema, hs]
  rows ha := by
    simp only [Query.rows, h.lookIn_eq]
    exact (h.rows ha).map _

theorem join (hl : Reorders c l l') (hr : Reorders c r r') (k : JoinKind) (e : Option Expr)
    {s : Schema} (hs : s.width = l.schema.width + r.schema.width) (hapart : l.Apart r) :
    Reorders c (.join k e s l r) (.join k e s l' r') where
  schema := rfl
  qualifiers x := by
    simp only [Query.qualifiers, List.mem_append]
    rw [hl.qualifiers, hr.qualifiers]
  isReadOnly := by
    rw [Query.isReadOnly, hl.isReadOnly, hr.isReadOnly]
    rfl
  apartJoins := ⟨hl.apartJoins, hr.apartJoins,
    hapart.congr hl.schema hl.qualifiers hr.schema hr.qualifiers⟩
  widths row hrow := by
    rw [Query.schema, hs, ← hl.schema, ← hr.schema]
    exact length_joinRows hl.widths hr.widths row hrow
  rows ha := by
    simp only [Query.rows, hl.schema, hr.schema,
      meets_congr hl.schema hl.qualifiers hr.schema hr.qualifiers]
    exact JoinKind.joinRows_perm (hl.rows ha.1) (hr.rows ha.2.1)

end Reorders

/-! ## Chains over reordered inputs -/

/-- If the chain at the root is built anew, no reference in its conditions may mean columns of two
inputs, and reordering an input leaves it with the same leading scan. -/
def SteadyHere (m : CostModel κ) (t : Query) : Prop :=
  t.reorderJoins m = t.written m ∨
    ((∀ e ∈ t.joinConditions, e.PinnedIn (fun p => (t.inputAt p).origins) t.places) ∧
      ∀ l ∈ t.joinInputs, (l.reorderJoins m).qualifier = l.qualifier)

def SteadyBelow (m : CostModel κ) : Query → Prop
  | scan .. | insert .. => True
  | filter _ q | project _ _ q | aggregate _ _ _ q => q.SteadyHere m ∧ q.SteadyBelow m
  | join .inner _ _ l r => l.SteadyBelow m ∧ r.SteadyBelow m
  | join _ _ _ l r =>
    (l.SteadyHere m ∧ l.SteadyBelow m) ∧ r.SteadyHere m ∧ r.SteadyBelow m

def Steady (m : CostModel κ) (q : Query) : Prop := q.SteadyHere m ∧ q.SteadyBelow m

instance (m : CostModel κ) (t : Query) : Decidable (t.SteadyHere m) :=
  inferInstanceAs (Decidable (_ ∨ _ ∧ _))

instance decidableSteadyBelow (m : CostModel κ) : ∀ q : Query, Decidable (q.SteadyBelow m)
  | scan .. | insert .. => inferInstanceAs (Decidable True)
  | filter _ q | project _ _ q | aggregate _ _ _ q =>
    have := decidableSteadyBelow m q
    inferInstanceAs (Decidable (_ ∧ _))
  | join .inner _ _ l r =>
    have := decidableSteadyBelow m l
    have := decidableSteadyBelow m r
    inferInstanceAs (Decidable (_ ∧ _))
  | join .left _ _ l r | join .right _ _ l r | join .full _ _ l r =>
    have := decidableSteadyBelow m l
    have := decidableSteadyBelow m r
    inferInstanceAs (Decidable ((_ ∧ _) ∧ _ ∧ _))

instance (m : CostModel κ) (q : Query) : Decidable (q.Steady m) :=
  inferInstanceAs (Decidable (_ ∧ _))

def groupsNothing : Query → Bool
  | scan .. | insert .. => true
  | filter _ q | project _ _ q => q.groupsNothing
  | aggregate .. => false
  | join _ _ _ l r => l.groupsNothing && r.groupsNothing

theorem reorders_written : ∀ {t : Query}, t.ScopedJoins → t.IsRectangular c →
    (∀ l ∈ t.joinInputs, Reorders c l (l.reorderJoins m)) →
      Reorders c t (t.written m) ∧ (t.ConditionsAnswer c → (t.written m).TreeAnswers c)
  | .join k e s l r, ht, hr, h => by
    cases k with
    | inner =>
      have h' := List.forall_mem_append.mp h
      obtain ⟨hl, hansl⟩ := reorders_written ht.2.1.scopedJoins hr.2.1 h'.1
      obtain ⟨hr', hansr⟩ := reorders_written ht.2.2.1.scopedJoins hr.2.2 h'.2
      refine ⟨hl.join hr' .inner e hr.1 (ht.2.1.named.apart ht.2.2.1.named ht.2.2.2), fun ha => ?_⟩
      refine ⟨hansl ha.1, hansr ha.2.1, fun a hra b hrb f hf => ?_⟩
      have hlook : (l.chain m).written.lookBoth (r.chain m).written = l.lookBoth r :=
        hl.lookBoth_eq hr'
      rw [hlook]
      exact ha.2.2 a ((hl.rows ha.1).subset hra) b ((hr'.rows ha.2.1).subset hrb) f hf
    | left => exact ⟨h (.join .left e s l r) (List.mem_singleton_self _), fun _ => trivial⟩
    | right => exact ⟨h (.join .right e s l r) (List.mem_singleton_self _), fun _ => trivial⟩
    | full => exact ⟨h (.join .full e s l r) (List.mem_singleton_self _), fun _ => trivial⟩
  | .scan t a s, _, _, h => ⟨h (.scan t a s) (List.mem_singleton_self _), fun _ => trivial⟩
  | .filter e q, _, _, h => ⟨h (.filter e q) (List.mem_singleton_self _), fun _ => trivial⟩
  | .project is s q, _, _, h =>
    ⟨h (.project is s q) (List.mem_singleton_self _), fun _ => trivial⟩
  | .aggregate gs os s q, _, _, h =>
    ⟨h (.aggregate gs os s q) (List.mem_singleton_self _), fun _ => trivial⟩
  | .insert .., _, hr, _ => hr.elim

section

variable {t : Query} (ht : t.Scoped)
  (h : ∀ l ∈ t.joinInputs, Reorders c l (l.reorderJoins m))
  (hq : ∀ l ∈ t.joinInputs, (l.reorderJoins m).qualifier = l.qualifier)

theorem places_written (t : Query) : (t.written m).places = t.places := by
  rw [places, joinInputs_written, List.length_map, places]

theorem inputAt_written {p : Nat} (hp : p ∈ t.places) :
    (t.written m).inputAt p = (t.inputAt p).reorderJoins m := by
  have hlt : p < t.joinInputs.length := List.mem_range.mp hp
  simp [inputAt, joinInputs_written, hlt]

include ht h hq

theorem inputs_written : Inputs c (t.written m).inputAt (fun p => (t.inputAt p).origins)
    (t.written m).places := by
  rw [places_written]
  have hat : ∀ p ∈ t.places, Reorders c (t.inputAt p) ((t.written m).inputAt p) := by
    intro p hp
    rw [inputAt_written hp]
    exact h _ (inputAt_mem hp)
  refine ⟨fun p hp => (hat p hp).isReadOnly, fun p hp => (hat p hp).widths, fun p hp => ?_,
    fun p hp => (hat p hp).apartJoins, fun p hp q hq' hpq x hx hx' => ?_⟩
  · refine (ht.of_mem_joinInputs _ (inputAt_mem hp)).named.congr (hat p hp).schema ?_
      (hat p hp).qualifiers
    rw [inputAt_written hp]
    exact hq _ (inputAt_mem hp)
  · rw [(hat p hp).qualifiers] at hx
    rw [(hat q hq').qualifiers] at hx'
    exact disjoint_inputAt ht.nodup hp hq' hpq hx hx'

end

theorem isBuilt_written : ∀ {t : Query}, t.Scoped → t.IsRectangular c →
    (∀ l ∈ t.joinInputs, Reorders c l (l.reorderJoins m)) →
      (∀ l ∈ t.joinInputs, (l.reorderJoins m).qualifier = l.qualifier) → (t.written m).IsBuilt
  | .join k e s l r, ht, hr, h, hq => by
    cases k with
    | inner =>
      obtain ⟨rfl, hsl, hsr, -⟩ := ht
      have h' := List.forall_mem_append.mp h
      have hq' := List.forall_mem_append.mp hq
      refine ⟨?_, isBuilt_written hsl hr.2.1 h'.1 hq'.1, isBuilt_written hsr hr.2.2 h'.2 hq'.2⟩
      have hl := (reorders_written hsl.scopedJoins hr.2.1 h'.1).1.schema
      have hr := (reorders_written hsr.scopedJoins hr.2.2 h'.2).1.schema
      have hwl : (l.chain m).written = l.written m := rfl
      have hwr : (r.chain m).written = r.written m := rfl
      rw [hwl, hwr, hl, hr, qualifier_written hq'.2]
    | left | right | full => trivial
  | .scan .., _, _, _, _ | .filter .., _, _, _, _ | .project .., _, _, _, _
  | .aggregate .., _, _, _, _ | .insert .., _, _, _, _ => trivial

theorem reorders_finish {t : Query} (ht : t.ScopedJoins) (hr : t.IsRectangular c)
    (hst : t.SteadyHere m) (h : ∀ l ∈ t.joinInputs, Reorders c l (l.reorderJoins m)) :
    Reorders c t (t.reorderJoins m) := by
  obtain ⟨hw, hans⟩ := reorders_written ht hr h
  obtain hsame | ⟨hpin, hlead⟩ := hst
  · rw [hsame]
    exact hw
  unfold reorderJoins Chain.finish
  rw [length_inputs_chain, chain_eq]
  split
  · exact hw
  · rename_i hlong
    have hsc : t.Scoped := by
      cases t with
      | join => exact ht
      | scan | filter | project | aggregate | insert => simp [joinInputs] at hlong
    have hin := inputs_written hsc h hlead
    have hb := isBuilt_written hsc hr h hlead
    have hq : ∀ e ∈ (t.written m).joinConditions,
        e.PinnedIn (fun p => (t.inputAt p).origins) (t.written m).places := by
      rw [joinConditions_written, places_written]
      exact hpin
    cases hre : (t.written m).asChain.reordered? m with
    | none => exact hw
    | some q =>
      exact ⟨(schema_reordered hin hb hq hre).trans hw.schema,
        fun x => (qualifiers_reordered hin hb hq hre x).trans (hw.qualifiers x),
        isReadOnly_reordered hin hq hre, apartJoins_reordered hin hq hre,
        widths_reordered hin hb hq hre,
        fun ha => (rows_reordered hin hb hq (hans ha) hre).trans (hw.rows ha)⟩

theorem reorders_inputs (hc : c.IsRectangular) : ∀ {t : Query}, t.ScopedJoins →
    t.IsRectangular c → t.groupsNothing = true → t.SteadyBelow m →
      ∀ l ∈ t.joinInputs, Reorders c l (l.reorderJoins m)
  | .scan t a s, _, hr, _, _, x, hx => by
    rw [List.mem_singleton.mp hx]
    exact .scan hc hr
  | .filter e q, ht, hr, hg, hst, x, hx => by
    rw [List.mem_singleton.mp hx]
    exact (reorders_finish (t := q) ht hr hst.1 (reorders_inputs hc (t := q) ht hr hg hst.2)).filter e
  | .project is s q, ht, hr, hg, hst, x, hx => by
    rw [List.mem_singleton.mp hx]
    exact (reorders_finish (t := q) ht hr.2 hst.1
      (reorders_inputs hc (t := q) ht hr.2 hg hst.2)).project hr.1
  | .join k e s l r, ht, hr, hg, hst, x, hx => by
    have hg := Bool.and_eq_true _ _ ▸ hg
    have hl := reorders_inputs hc (t := l) ht.2.1.scopedJoins hr.2.1 hg.1
    have hr' := reorders_inputs hc (t := r) ht.2.2.1.scopedJoins hr.2.2 hg.2
    have hapart := ht.2.1.named.apart ht.2.2.1.named ht.2.2.2
    cases k with
    | inner =>
      rcases List.mem_append.mp hx with hx | hx
      · exact hl hst.1 x hx
      · exact hr' hst.2 x hx
    | left | right | full =>
      rw [List.mem_singleton.mp hx]
      exact (reorders_finish ht.2.1.scopedJoins hr.2.1 hst.1.1 (hl hst.1.2)).join
        (reorders_finish ht.2.2.1.scopedJoins hr.2.2 hst.2.1 (hr' hst.2.2)) _ e hr.1 hapart
  | .aggregate .., _, _, hg, _, _, _ => by cases hg
  | .insert .., _, hr, _, _, _, _ => hr.elim

theorem reorders_reorderJoins (hc : c.IsRectangular) {q : Query} (ht : q.ScopedJoins)
    (hr : q.IsRectangular c) (hg : q.groupsNothing = true) (hst : q.Steady m) :
    Reorders c q (q.reorderJoins m) :=
  reorders_finish ht hr hst.1 (reorders_inputs hc ht hr hg hst.2)

end Query

/-! ## Queries over one tree of joins -/

/-- Every reference is qualified, and means a column of one of these origins. -/
def Expr.QualifiedIn (os : List Origin) (e : Expr) : Prop :=
  ∀ m ∈ e.mentions, m.1.any (fun x => os.contains ⟨Text.lower x, Text.lower m.2⟩) = true

instance (os : List Origin) (e : Expr) : Decidable (e.QualifiedIn os) :=
  inferInstanceAs (Decidable (∀ m ∈ e.mentions, _))

theorem Expr.QualifiedIn.exists {os : List Origin} {e : Expr} (h : e.QualifiedIn os)
    {m : Option String × String} (hm : m ∈ e.mentions) :
    ∃ x, m.1 = some x ∧ ⟨Text.lower x, Text.lower m.2⟩ ∈ os := by
  have hany := h m hm
  cases hx : m.1 with
  | none => simp [hx] at hany
  | some x => exact ⟨x, rfl, by simpa [hx] using hany⟩

namespace Query

variable {κ : Type} [CostScalar κ] {m : CostModel κ} {c : Catalog}

omit [CostScalar κ] in
theorem pinnedIn_of_qualifiedIn {t : Query} (ht : t.Scoped) {e : Expr}
    (he : e.QualifiedIn t.origins) : e.PinnedIn (fun p => (t.inputAt p).origins) t.places := by
  intro m hm
  obtain ⟨x, hx, ho⟩ := he.exists hm
  rw [hx]
  refine ⟨(ht.named.plain_column ho).1, fun p hp q hq hatt hatt' => ?_⟩
  have hscan : ∀ r ∈ t.places, (t.inputAt r).origins.any (Origin.attracts (some x) m.2) = true →
      Text.lower x ∈ (t.inputAt r).qualifiers := by
    intro r hr hany
    obtain ⟨o, hor, e⟩ := List.any_eq_true.mp hany
    have hfrom := (ht.of_mem_joinInputs _ (inputAt_mem hr)).from
    exact (hfrom.mem_quals _).mpr ⟨o, hor, beq_iff_eq.mp e⟩
  by_contra hne
  exact disjoint_inputAt ht.nodup hp hq hne (hscan p hp hatt) (hscan q hq hatt')


def isOverInnerTree : Query → Bool
  | filter _ q | project _ _ q => q.isOverInnerTree
  | q => q.isInnerTree

def joinLeaves : Query → List Query
  | scan .. | insert .. => []
  | filter _ q | project _ _ q | aggregate _ _ _ q => q.joinLeaves
  | join _ _ _ l r => l.joinInputs ++ r.joinInputs

def allConditions : Query → List Expr
  | filter _ q | project _ _ q | aggregate _ _ _ q => q.allConditions
  | q => q.joinConditions

structure Reorderable (c : Catalog) (q : Query) : Prop where
  isOver : q.IsOver c
  shape : q.isOverInnerTree = true
  distinct : q.qualifiers.Nodup
  scanNames : ∀ x ∈ q.scans, ScanName x.1
  leaves : ∀ l ∈ q.joinLeaves, l.schema.Tidy
  references : ∀ e ∈ q.allConditions, e.QualifiedIn (q.joinLeaves.flatMap origins)

instance (c : Catalog) (q : Query) : Decidable (q.Reorderable c) :=
  decidable_of_iff
    (q.IsOver c ∧ q.isOverInnerTree = true ∧ q.qualifiers.Nodup ∧ (∀ x ∈ q.scans, ScanName x.1) ∧
      (∀ l ∈ q.joinLeaves, l.schema.Tidy) ∧
        ∀ e ∈ q.allConditions, e.QualifiedIn (q.joinLeaves.flatMap origins))
    ⟨fun h => ⟨h.1, h.2.1, h.2.2.1, h.2.2.2.1, h.2.2.2.2.1, h.2.2.2.2.2⟩,
      fun h => ⟨h.isOver, h.shape, h.distinct, h.scanNames, h.leaves, h.references⟩⟩

theorem scanName_of_isOverOneScan : ∀ {q : Query}, q.isOverOneScan = true →
    (∀ x ∈ q.scans, ScanName x.1) → ScanName q.qualifier
  | scan .., _, hn => hn _ (List.mem_singleton_self _)
  | filter _ q, h, hn | project _ _ q, h, hn => scanName_of_isOverOneScan (q := q) h hn

theorem scoped_of_isOverOneScan : ∀ {q : Query}, q.isOverOneScan = true → ScanName q.qualifier →
    q.schema.Tidy → q.Scoped
  | scan .., _, hn, ht => ⟨hn, ht⟩
  | filter _ q, h, hn, ht => scoped_of_isOverOneScan (q := q) h hn ht
  | project .., h, hn, ht => ⟨h, hn, ht⟩

theorem scoped_of_isInnerTree : ∀ {t : Query}, t.isInnerTree = true → t.IsOver c →
    t.qualifiers.Nodup → (∀ x ∈ t.scans, ScanName x.1) → (∀ l ∈ t.joinInputs, l.schema.Tidy) →
      t.Scoped
  | join k _ _ l r, h, ⟨hs, hol, hor⟩, hd, hn, ht => by
    cases k with
    | inner =>
      unfold isInnerTree at h
      rw [Bool.and_eq_true] at h
      rw [qualifiers, List.nodup_append'] at hd
      have hn' := List.forall_mem_append.mp hn
      have ht' := List.forall_mem_append.mp ht
      exact ⟨hs, scoped_of_isInnerTree h.1 hol hd.1 hn'.1 ht'.1,
        scoped_of_isInnerTree h.2 hor hd.2.1 hn'.2 ht'.2, hd.2.2⟩
    | left | right | full => cases h
  | scan .., h, _, _, hn, ht | filter .., h, _, _, hn, ht | project .., h, _, _, hn, ht =>
    scoped_of_isOverOneScan h (scanName_of_isOverOneScan h hn) (ht _ (List.mem_singleton_self _))

theorem reorderJoins_of_isOverOneScan : ∀ {q : Query}, q.isOverOneScan = true →
    q.reorderJoins m = q
  | scan .., _ => rfl
  | filter e q, h => congrArg (filter e) (reorderJoins_of_isOverOneScan (q := q) h)
  | project is s q, h => congrArg (project is s) (reorderJoins_of_isOverOneScan (q := q) h)

theorem steady_of_isOverOneScan : ∀ {q : Query}, q.isOverOneScan = true → q.Steady m
  | scan .., _ => ⟨.inl rfl, trivial⟩
  | filter _ q, h | project _ _ q, h => ⟨.inl rfl, steady_of_isOverOneScan (q := q) h⟩

theorem isOverOneScan_of_mem_joinInputs : ∀ {t : Query}, t.isInnerTree = true →
    ∀ l ∈ t.joinInputs, l.isOverOneScan = true
  | join k _ _ l r, h, x, hx => by
    cases k with
    | inner =>
      unfold isInnerTree at h
      rw [Bool.and_eq_true] at h
      rcases List.mem_append.mp hx with hx | hx
      · exact isOverOneScan_of_mem_joinInputs h.1 x hx
      · exact isOverOneScan_of_mem_joinInputs h.2 x hx
    | left | right | full => cases h
  | scan .., h, x, hx | filter .., h, x, hx | project .., h, x, hx => by
    rw [List.mem_singleton.mp hx]
    exact h

theorem steadyBelow_of_isInnerTree : ∀ {t : Query}, t.isInnerTree = true → t.SteadyBelow m
  | join k _ _ l r, h => by
    cases k with
    | inner =>
      unfold isInnerTree at h
      rw [Bool.and_eq_true] at h
      exact ⟨steadyBelow_of_isInnerTree h.1, steadyBelow_of_isInnerTree h.2⟩
    | left | right | full => cases h
  | scan .., h | filter .., h | project .., h => (steady_of_isOverOneScan h).2

theorem groupsNothing_of_isOverOneScan : ∀ {q : Query}, q.isOverOneScan = true →
    q.groupsNothing = true
  | scan .., _ => rfl
  | filter _ q, h | project _ _ q, h => groupsNothing_of_isOverOneScan (q := q) h

theorem groupsNothing_of_isInnerTree : ∀ {t : Query}, t.isInnerTree = true →
    t.groupsNothing = true
  | join k _ _ l r, h => by
    cases k with
    | inner =>
      unfold isInnerTree at h
      rw [Bool.and_eq_true] at h
      rw [groupsNothing, groupsNothing_of_isInnerTree h.1, groupsNothing_of_isInnerTree h.2]
      rfl
    | left | right | full => cases h
  | scan .., h | filter .., h | project .., h => groupsNothing_of_isOverOneScan h

theorem Reorderable.steady : ∀ {q : Query}, q.Reorderable c →
    q.ScopedJoins ∧ q.groupsNothing = true ∧ q.Steady m
  | scan .., _ => ⟨trivial, rfl, .inl rfl, trivial⟩
  | filter e q, h => by
    obtain ⟨hs, hg, hst⟩ := Reorderable.steady (q := q)
      ⟨h.isOver, h.shape, h.distinct, h.scanNames, h.leaves, h.references⟩
    exact ⟨hs, hg, .inl rfl, hst⟩
  | project items s q, h => by
    obtain ⟨hs, hg, hst⟩ := Reorderable.steady (q := q)
      ⟨h.isOver.2, h.shape, h.distinct, h.scanNames, h.leaves, h.references⟩
    exact ⟨hs, hg, .inl rfl, hst⟩
  | join k e s l r, h => by
    cases k with
    | inner =>
      have hs := scoped_of_isInnerTree h.shape h.isOver h.distinct h.scanNames h.leaves
      refine ⟨hs, groupsNothing_of_isInnerTree h.shape, .inr ⟨fun f hf => ?_, fun x hx => ?_⟩,
        steadyBelow_of_isInnerTree h.shape⟩
      · refine pinnedIn_of_qualifiedIn hs ?_
        rw [← origins_joinInputs]
        exact h.references f hf
      · rw [reorderJoins_of_isOverOneScan (isOverOneScan_of_mem_joinInputs h.shape x hx)]
    | left | right | full => cases h.shape
  | aggregate .., h => by cases h.shape
  | insert .., h => h.isOver.elim

/-- A query and the one with its joins reordered answer with the same rows wherever both answer,
whatever the costs are. -/
theorem reorderJoins_answers_alike {κ κ' : Type} [CostScalar κ] [CostScalar κ'] (m : CostModel κ)
    (m' : CostModel κ') {c : Catalog} (hc : c.Reachable) {q : Query} (hq : q.Reorderable c) :
    (q.reorderJoins m).schema = q.schema ∧
      ∀ rs rs', q.runBaseline m' c = .ok rs → (q.reorderJoins m).runBaseline m' c = .ok rs' →
        rs'.Perm rs := by
  obtain ⟨hs, hg, hst⟩ := hq.steady (m := m)
  have hreorders := reorders_reorderJoins hc.isRectangular hs hq.isOver.isRectangular hg hst
  refine ⟨hreorders.schema, fun rs rs' h h' => ?_⟩
  obtain ⟨hok, rfl⟩ := (runBaseline_eq_ok hq.isOver.isReadOnly).mp h
  obtain ⟨-, rfl⟩ := (runBaseline_eq_ok hreorders.isReadOnly).mp h'
  exact hreorders.rows hok.conditionsAnswer

/-! ## A chain in another order -/

instance : CostScalar Nat where
  ofScientific mantissa exponentSign exponent :=
    if exponentSign then mantissa / Nat.pow 10 exponent else mantissa * Nat.pow 10 exponent
  larger := max
  smaller := min
  less x y := x < y
  atMost x y := x ≤ y
  same x y := x == y
  log := Nat.log2
  ofCount n := n

def wholeCosts : CostModel Nat := ⟨.default, none⟩

def network : Catalog :=
  (((Catalog.empty.createWithRows "a" ⟨[⟨"id", .int⟩]⟩ [[.int 1], [.int 2]]).2.createWithRows "b"
    ⟨[⟨"n", .int⟩]⟩ [[.int 7], [.int 8]]).2.createWithRows "c" ⟨[⟨"id", .int⟩, ⟨"n", .int⟩]⟩
      [[.int 1, .int 8], [.int 1, .int 7]]).2

theorem reachable_network : network.Reachable :=
  Catalog.reachable_createFilled
    (Catalog.reachable_createFilled (Catalog.reachable_createFilled .empty _ _ _ _) _ _ _ _) _ _ _ _

/-- No condition relates the first two inputs, both relate to the third. -/
def connections : Query :=
  joinOf .inner
    (some ((Expr.binary (.compare .eq) (.column (some "a") "id") (.column (some "c") "id")).and
      (.binary (.compare .eq) (.column (some "b") "n") (.column (some "c") "n"))))
    (joinOf .inner none (scan "a" none ⟨[⟨"id", .int⟩]⟩) (scan "b" none ⟨[⟨"n", .int⟩]⟩))
    (scan "c" none ⟨[⟨"id", .int⟩, ⟨"n", .int⟩]⟩)

/-- The third input is joined before the second, and the rows come in another order. -/
theorem reorderJoins_answers_alike_on_connections :
    network.Reachable ∧ connections.Reorderable network ∧
      connections.runBaseline .uninformed network =
        .ok [[.int 1, .int 7, .int 1, .int 7], [.int 1, .int 8, .int 1, .int 8]] ∧
      (connections.reorderJoins wholeCosts).runBaseline .uninformed network =
        .ok [[.int 1, .int 8, .int 1, .int 8], [.int 1, .int 7, .int 1, .int 7]] ∧
      [[Value.int 1, .int 8, .int 1, .int 8], [.int 1, .int 7, .int 1, .int 7]].Perm
        [[Value.int 1, .int 7, .int 1, .int 7], [.int 1, .int 8, .int 1, .int 8]] := by
  have hq : connections.Reorderable network := by decide +kernel
  have hrun : connections.runBaseline .uninformed network =
      .ok [[.int 1, .int 7, .int 1, .int 7], [.int 1, .int 8, .int 1, .int 8]] :=
    (runBaseline_eq_ok hq.isOver.isReadOnly).mpr (by decide +kernel)
  have hrun' : (connections.reorderJoins wholeCosts).runBaseline .uninformed
      network = .ok [[.int 1, .int 8, .int 1, .int 8], [.int 1, .int 7, .int 1, .int 7]] :=
    (runBaseline_eq_ok (by decide +kernel)).mpr (by decide +kernel)
  have hsame := (reorderJoins_answers_alike wholeCosts .uninformed reachable_network hq).2 _ _
    hrun hrun'
  exact ⟨reachable_network, hq, hrun, hrun', hsame⟩

end Query

end RelQuery
