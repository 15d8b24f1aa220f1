import RelQuery.Proofs.Expr.PairLook
import RelQuery.Proofs.Query.ColumnOrder

/-!
# Qualified names under reordered joins

Over scans of distinct plain names, every node of a tree of joins calls its columns so that a
reference qualified by a scan's name means a column of this scan. A join that is built anew names
the bare columns of its right input after the leftmost scan of that input. So the same holds of the
reordered tree, provided that the inputs that a search joins on the right keep their leftmost scans
when they are reordered themselves.
-/

namespace RelQuery

namespace Schema

variable {s : Schema} {lead : String} {os : List Origin} {quals : List String}

/-- A reference that is qualified by a scan means the column of this scan. -/
theorem From.resolve_own (h : s.From lead os quals) {x n : String} (hx : Text.Plain x)
    (hn : Text.Plain n) (ho : ⟨Text.lower x, Text.lower n⟩ ∈ os) :
    ∃ i, s.resolve (some x) n = some i ∧ os[i]? = some ⟨Text.lower x, Text.lower n⟩ := by
  rw [← resolve_lowerQualifier s hx.ascii hn.ascii,
    resolve_qualified h.toSpells hx.lower hx.lower_lower hn.lower ⟨_, ho, rfl⟩]
  cases hi : os.findIdx? (· == ⟨Text.lower x, Text.lower n⟩) with
  | none => exact absurd (List.findIdx?_eq_none_iff.mp hi _ ho) (by simp)
  | some i =>
    obtain ⟨hlt, heq, -⟩ := List.findIdx?_eq_some_iff_getElem.mp hi
    exact ⟨i, rfl, by rw [List.getElem?_eq_getElem hlt, beq_iff_eq.mp heq]⟩

end Schema

namespace Query

variable {κ : Type} [CostScalar κ] {m : CostModel κ}

/-! ## Nodes whose columns are called after their origins -/

def ScanCells (q : Query) (os : List Origin) : Prop := ∃ t a s, q = scan t a s ∧ os = q.origins

/-- A scan of plain names all of whose columns are among these origins. -/
def ListsScan (os : List Origin) (x : String × Schema) : Prop :=
  Text.Plain x.1 ∧
    ∀ k ∈ x.2.columns, Text.Plain k.name ∧ ⟨Text.lower x.1, Text.lower k.name⟩ ∈ os

/-- The columns show these origins and are called after them, and no column of a scan is missing. -/
structure Placed (q : Query) (os : List Origin) : Prop where
  spells : ∃ lead quals, q.schema.From lead os quals
  shows : Shows ScanCells q os
  scans : ∀ x ∈ q.scans, ListsScan os x

def subqueries : Query → List Query
  | scan t a s => [scan t a s]
  | insert t cs rows s => [insert t cs rows s]
  | filter e q => filter e q :: q.subqueries
  | project is s q => project is s q :: q.subqueries
  | aggregate gs os s q => aggregate gs os s q :: q.subqueries
  | join k e s l r => join k e s l r :: (l.subqueries ++ r.subqueries)

def NodesPlaced (q : Query) : Prop := ∀ j ∈ q.subqueries, ∃ os, j.Placed os

section

variable {q l r : Query} {os os' : List Origin}

theorem ListsScan.mono {x : String × Schema} (h : ListsScan os x) (hsub : ∀ o ∈ os, o ∈ os') :
    ListsScan os' x := ⟨h.1, fun k hk => ⟨(h.2 k hk).1, hsub _ (h.2 k hk).2⟩⟩

theorem placed_scan {t : String} {a : Option String} {s : Schema} (h : (scan t a s).Scoped) :
    (scan t a s).Placed (scan t a s).origins where
  spells := ⟨_, _, h.from⟩
  shows := .base ⟨t, a, s, rfl, rfl⟩
  scans x hx := by
    rw [List.mem_singleton.mp hx]
    exact ⟨h.1.plain, fun k hk => ⟨h.2.plain k hk, List.mem_map_of_mem hk⟩⟩

theorem Placed.filter (h : q.Placed os) (e : Expr) : (filter e q).Placed os :=
  ⟨h.spells, h.shows.filter e, h.scans⟩

theorem Placed.join (h : l.Placed os) (h' : r.Placed os') {lead : String} {quals : List String}
    {s : Schema} (hs : s.From lead (os ++ os') quals) (k : JoinKind) (e : Option Expr) :
    (join k e s l r).Placed (os ++ os') where
  spells := ⟨_, _, hs⟩
  shows := h.shows.join k e s h'.shows
  scans := List.forall_mem_append.mpr
    ⟨fun x hx => (h.scans x hx).mono fun _ => List.mem_append_left _,
      fun x hx => (h'.scans x hx).mono fun _ => List.mem_append_right _⟩

theorem NodesPlaced.filter (h : q.NodesPlaced) (hq : q.Placed os) (e : Expr) :
    (filter e q).NodesPlaced := List.forall_mem_cons.mpr ⟨⟨os, hq.filter e⟩, h⟩

theorem NodesPlaced.join (h : l.NodesPlaced) (h' : r.NodesPlaced) {k : JoinKind}
    {e : Option Expr} {s : Schema} (hq : (join k e s l r).Placed os) :
    (join k e s l r).NodesPlaced :=
  List.forall_mem_cons.mpr ⟨⟨os, hq⟩, List.forall_mem_append.mpr ⟨h, h'⟩⟩

theorem placed_filterBy (hq : q.Placed os) (h : q.NodesPlaced) (es : List Expr) :
    (filterBy es q).Placed os ∧ (filterBy es q).NodesPlaced := by
  unfold filterBy
  split
  · exact ⟨hq, h⟩
  · exact ⟨hq.filter _, h.filter hq _⟩

end

/-! ## Chains -/

/-- If the chain at the root is built anew, the inputs that are joined on the right keep their
leftmost scans. -/
def KeepsLeads (m : CostModel κ) (t : Query) : Prop :=
  t.reorderJoins m = t.written m ∨
    ∀ g ∈ t.grown? m, ∀ p ∈ g.order.tail, (t.reorderedAt m p).qualifier = (t.inputAt p).qualifier

instance (m : CostModel κ) (t : Query) : Decidable (t.KeepsLeads m) :=
  inferInstanceAs (Decidable (_ ∨ ∀ g ∈ t.grown? m, ∀ p ∈ g.order.tail, _))

structure KeepsNames (m : CostModel κ) (q q' : Query) : Prop where
  schema : q'.schema = q.schema
  placed : q'.Placed q.origins
  nodes : q'.NodesPlaced
  order : ∀ t ∈ q.chains, t.NamesTellOrder m

section

variable {t : Query} (hs : t.Scoped)
  (h : ∀ q ∈ t.joinInputs, KeepsNames m q (q.reorderJoins m))
include hs h

omit hs in
theorem placed_reorderedAt {p : Nat} (hp : p ∈ t.places) :
    (t.reorderedAt m p).Placed (t.inputAt p).origins ∧ (t.reorderedAt m p).NodesPlaced :=
  ⟨(h _ (inputAt_mem hp)).placed, (h _ (inputAt_mem hp)).nodes⟩

theorem spells_reorderedAt {p : Nat} (hp : p ∈ t.places) :
    (t.reorderedAt m p).schema.From (Text.lower (t.inputAt p).qualifier) (t.inputAt p).origins
      (t.inputAt p).qualifiers := by
  rw [reorderedAt, (h _ (inputAt_mem hp)).schema]
  exact (hs.of_mem_joinInputs _ (inputAt_mem hp)).from

theorem placed_leftDeep {tree : Query} {ps : List Nat}
    (hdeep : LeftDeep (t.reorderedAt m) tree ps) (hsub : ∀ p ∈ ps, p ∈ t.places)
    (hnodup : ps.Nodup)
    (hleads : ∀ p ∈ ps.tail, (t.reorderedAt m p).qualifier = (t.inputAt p).qualifier) :
    (∃ lead, tree.schema.From lead (originsAt (fun p => (t.inputAt p).origins) ps)
        (qualifiersAt t.inputAt ps)) ∧
      tree.Placed (originsAt (fun p => (t.inputAt p).origins) ps) ∧ tree.NodesPlaced := by
  induction hdeep with
  | single p =>
    have hp := hsub p (List.mem_singleton_self p)
    rw [originsAt, qualifiersAt, List.flatMap_singleton, List.flatMap_singleton]
    exact ⟨⟨_, spells_reorderedAt hs h hp⟩, placed_reorderedAt h hp⟩
  | @join tree ps e p hdeep ih =>
    have hsub' := List.forall_mem_append.mp hsub
    obtain ⟨hps, -, hfresh⟩ := List.nodup_append'.mp hnodup
    have hp := hsub'.2 p (List.mem_singleton_self p)
    have hne : ps ≠ [] := by cases hdeep <;> simp
    rw [List.tail_append_of_ne_nil hne] at hleads
    have hleads' := List.forall_mem_append.mp hleads
    obtain ⟨⟨lead, hfrom⟩, hplaced, hnodes⟩ := ih hsub'.1 hps hleads'.1
    obtain ⟨hplaced', hnodes'⟩ := placed_reorderedAt h hp
    have hd : (qualifiersAt t.inputAt ps).Disjoint (t.inputAt p).qualifiers := by
      intro x hx hx'
      obtain ⟨q, hq, hxq⟩ := List.mem_flatMap.mp hx
      have hqp : q ≠ p := fun e => hfresh hq (e ▸ List.mem_singleton_self p)
      exact disjoint_inputAt hs.nodup (hsub'.1 q hq) hp hqp hxq hx'
    -- the input keeps its leftmost scan, after which the join names its bare columns
    have hjoin := hfrom.join (spells_reorderedAt hs h hp)
      (scanName_qualifier (hs.of_mem_joinInputs _ (inputAt_mem hp))) hd
    rw [← hleads'.2 p (List.mem_singleton_self p)] at hjoin
    have horigins : originsAt (fun p => (t.inputAt p).origins) (ps ++ [p]) =
        originsAt (fun p => (t.inputAt p).origins) ps ++ (t.inputAt p).origins := by
      simp [originsAt]
    have hquals : qualifiersAt t.inputAt (ps ++ [p]) =
        qualifiersAt t.inputAt ps ++ (t.inputAt p).qualifiers := by simp [qualifiersAt]
    rw [horigins, hquals]
    have hboth := hplaced.join hplaced' hjoin .inner e
    exact ⟨⟨lead, hjoin⟩, hboth, hnodes.join hnodes' hboth⟩

theorem namesTellOrder_of_keepsLeads (hleads : t.KeepsLeads m) : t.NamesTellOrder m := by
  refine hleads.imp_right fun hleads g hg hnames => ?_
  obtain ⟨hdeep, hperm⟩ := leftDeep_grown hg
  have hsub : ∀ p ∈ g.order, p ∈ t.places := fun p hp => hperm.mem_iff.mp hp
  obtain ⟨⟨lead, hfrom⟩, -⟩ := placed_leftDeep hs h hdeep hsub
    (hperm.nodup_iff.mpr t.nodup_places) (hleads g hg)
  have hfrom' := hs.from
  -- both trees have the same scans, so the one that leads the chain as written is in the grown one
  have hlead : Text.lower t.qualifier ∈ qualifiersAt t.inputAt g.order := by
    have hmem := hfrom'.lead_mem
    rw [← qualifiersAt_inputAt] at hmem
    exact (hperm.flatMap_right _).mem_iff.mpr hmem
  rw [Schema.lead_eq hfrom hfrom' hnames hlead] at hfrom
  have horigins := Schema.origins_eq hfrom hfrom' hnames
  rw [← originsAt_inputAt] at horigins
  have hspells := fun p hp => (hs.of_mem_joinInputs _ (inputAt_mem (p := p) hp)).from
  refine eq_of_flatMap_eq (fun p hp => (hspells p hp).origins_ne_nil)
    (fun p hp q hq o ho ho' => ?_) hsub (fun _ hp => hp) horigins
  by_contra hne
  exact disjoint_inputAt hs.nodup hp hq hne (((hspells p hp).mem_quals _).mpr ⟨o, ho, rfl⟩)
    (((hspells q hq).mem_quals _).mpr ⟨o, ho', rfl⟩)

end

theorem placed_written : ∀ {t : Query}, t.Scoped →
    (∀ q ∈ t.joinInputs, KeepsNames m q (q.reorderJoins m)) →
      (t.written m).Placed t.origins ∧ (t.written m).NodesPlaced
  | join k e s l r, hs, h => by
    cases k with
    | inner =>
      have h' := List.forall_mem_append.mp h
      obtain ⟨hl, hnodes⟩ := placed_written hs.2.1 h'.1
      obtain ⟨hr, hnodes'⟩ := placed_written hs.2.2.1 h'.2
      have hboth := hl.join hr hs.from .inner e
      exact ⟨hboth, hnodes.join hnodes' hboth⟩
    | left | right | full =>
      have hself := h _ (List.mem_singleton_self _)
      exact ⟨hself.placed, hself.nodes⟩
  | scan t a s, _, h =>
    have hself := h (scan t a s) (List.mem_singleton_self _)
    ⟨hself.placed, hself.nodes⟩
  | filter e q, _, h =>
    have hself := h (filter e q) (List.mem_singleton_self _)
    ⟨hself.placed, hself.nodes⟩
  | project is s q, _, h =>
    have hself := h (project is s q) (List.mem_singleton_self _)
    ⟨hself.placed, hself.nodes⟩

theorem placed_reordered_chain {t : Query} (hs : t.Scoped) (ht : t.Coherent)
    (h : ∀ q ∈ t.joinInputs, KeepsNames m q (q.reorderJoins m)) (hleads : t.KeepsLeads m) :
    (t.reorderJoins m).Placed t.origins ∧ (t.reorderJoins m).NodesPlaced := by
  have hnames := namesTellOrder_of_keepsLeads hs h hleads
  have hschema := fun q hq => (h q hq).schema
  obtain hw | hleads := hleads
  · rw [hw]
    exact placed_written hs h
  have hgrown : ∀ g, t.grown? m = some g →
      (filterBy g.conjuncts g.tree).Placed (originsAt (fun p => (t.inputAt p).origins) g.order) ∧
        (filterBy g.conjuncts g.tree).NodesPlaced := by
    intro g hg
    obtain ⟨hdeep, hperm⟩ := leftDeep_grown hg
    obtain ⟨-, hplaced, hnodes⟩ := placed_leftDeep hs h hdeep (fun p hp => hperm.mem_iff.mp hp)
      (hperm.nodup_iff.mpr t.nodup_places) (hleads g hg)
    exact placed_filterBy hplaced hnodes _
  have hshows : Shows ScanCells (t.reorderJoins m) t.origins := by
    rw [← originsAt_inputAt]
    refine shows_reordered_chain ht hnames hschema fun p hp => ⟨?_, ?_⟩
    · exact (placed_reorderedAt h hp).1.shows
    · exact (spells_reorderedAt hs h hp).width
  obtain hq | ⟨g, hg, hq, -, horder⟩ | ⟨g, items, hback⟩ := restored_cases ht hnames hschema
  · rw [hq]
    exact placed_written hs h
  · rw [hq, ← originsAt_inputAt, ← horder]
    exact hgrown g hg
  · obtain ⟨hplaced, hnodes⟩ := hgrown g hback.grown
    -- the projection calls the columns as the chain as written does
    have hroot : (t.reorderJoins m).Placed t.origins := by
      refine ⟨⟨_, _, (schema_reordered_chain ht hnames hschema).symm ▸ hs.from⟩, hshows, ?_⟩
      rw [hback.eq, ← originsAt_inputAt]
      exact fun x hx => (hplaced.scans x hx).mono fun o ho =>
        ((leftDeep_grown hback.grown).2.flatMap_right _).mem_iff.mp ho
    rw [hback.eq] at hroot ⊢
    exact ⟨hroot, List.forall_mem_cons.mpr ⟨⟨_, hroot⟩, hnodes⟩⟩

/-! ## Trees of joins -/

theorem isJoinTree_of_mem_joinInputs {t : Query} (h : t.isJoinTree = true) :
    ∀ q ∈ t.joinInputs, q.isJoinTree = true :=
  of_mem_joinInputs (fun _ _ _ _ h => (Bool.and_eq_true _ _).mp h) h

theorem Scoped.coherent : ∀ {q : Query}, q.Scoped → q.isJoinTree = true → q.Coherent
  | scan .., _, _ => trivial
  | filter _ q, hs, h => Scoped.coherent (q := q) hs h
  | join .., hs, h => by
    rw [isJoinTree, Bool.and_eq_true] at h
    exact ⟨hs.1, hs.2.1.coherent h.1, hs.2.2.1.coherent h.2⟩

theorem keepsNames_reorderJoins {q : Query} (hleads : ∀ t ∈ q.chains, t.KeepsLeads m)
    (htree : q.isJoinTree = true) (hs : q.Scoped) : KeepsNames m q (q.reorderJoins m) := by
  refine reorderJoins_induction (C := (KeepsLeads m))
    (P := fun q q' => q.isJoinTree = true → q.Scoped → KeepsNames m q q')
    ?scan ?insert ?filter ?project ?aggregate ?outer ?chain hleads htree hs
  case scan =>
    intro t a s _ hs
    have hplaced := placed_scan hs
    exact ⟨rfl, hplaced, List.forall_mem_singleton.mpr ⟨_, hplaced⟩,
      List.forall_mem_singleton.mpr (namesTellOrder_single m rfl)⟩
  case insert => exact fun _ _ _ _ h => nomatch h
  case project => exact fun _ _ _ _ _ h => nomatch h
  case aggregate => exact fun _ _ _ _ _ _ h => nomatch h
  case filter =>
    intro e q q' ih htree hs
    have h := ih htree hs
    exact ⟨h.schema, h.placed.filter e, h.nodes.filter h.placed e,
      List.forall_mem_cons.mpr ⟨namesTellOrder_single m rfl, h.order⟩⟩
  case outer =>
    intro k e s l l' r r' hk ihl ihr htree hs
    have htrees := (Bool.and_eq_true _ _).mp htree
    have hl := ihl htrees.1 hs.2.1
    have hr := ihr htrees.2 hs.2.2.1
    have hplaced := hl.placed.join hr.placed hs.from k e
    refine ⟨rfl, hplaced, hl.nodes.join hr.nodes hplaced, List.forall_mem_cons.mpr
      ⟨namesTellOrder_single m ?_, ?_⟩⟩
    · cases k with
      | inner => exact absurd rfl hk
      | left | right | full => rfl
    · cases k with
      | inner => exact absurd rfl hk
      | left | right | full => exact List.forall_mem_append.mpr ⟨hl.order, hr.order⟩
  case chain =>
    intro e s l r hleads ih htree hs
    have h := fun x hx => ih x hx (isJoinTree_of_mem_joinInputs htree x hx)
      (hs.of_mem_joinInputs x hx)
    have hnames := namesTellOrder_of_keepsLeads hs h hleads
    have ht := hs.coherent htree
    obtain ⟨hplaced, hnodes⟩ := placed_reordered_chain hs ht h hleads
    refine ⟨schema_reordered_chain ht hnames fun q hq => (h q hq).schema, hplaced, hnodes,
      List.forall_mem_cons.mpr ⟨hnames, fun u hu => ?_⟩⟩
    obtain ⟨q, hq, hmem⟩ := mem_chains_of_mem_lowerChains hu
    exact (h q hq).order u hmem

theorem ScanCells.length_eq (q : Query) (os : List Origin) (h : ScanCells q os) :
    os.length = q.schema.width := by
  obtain ⟨t, a, s, rfl, rfl⟩ := h
  exact List.length_map _

theorem IsRectangular.of_mem_subqueries {c : Catalog} : ∀ {q : Query}, q.IsRectangular c →
    ∀ j ∈ q.subqueries, j.IsRectangular c
  | scan .., h => List.forall_mem_singleton.mpr h
  | filter _ q, h => List.forall_mem_cons.mpr ⟨h, IsRectangular.of_mem_subqueries (q := q) h⟩
  | project .., h | aggregate .., h => List.forall_mem_cons.mpr ⟨h, h.2.of_mem_subqueries⟩
  | join .., h => List.forall_mem_cons.mpr ⟨h, List.forall_mem_append.mpr
      ⟨h.2.1.of_mem_subqueries, h.2.2.of_mem_subqueries⟩⟩

/-- A reference that is qualified by a scan means the column of this scan, and in every row the
values stand accordingly. -/
structure FindsScans (q : Query) (os : List Origin) : Prop where
  shows : Shows ScanCells q os
  finds : ∀ x ∈ q.scans, ∀ k ∈ x.2.columns, ∃ i, q.schema.resolve (some x.1) k.name = some i ∧
    os[i]? = some ⟨Text.lower x.1, Text.lower k.name⟩
  rows : ∀ c : Catalog, c.IsRectangular → q.IsRectangular c → ∀ row ∈ q.rows c, ∃ zs,
    zs.map (·.1) = os ∧ zs.map (·.2) = row ∧ Shows (BaseRow c ScanCells) q zs

theorem Placed.findsScans {q : Query} {os : List Origin} (h : q.Placed os) : q.FindsScans os := by
  obtain ⟨⟨lead, quals, hfrom⟩, hshows, hscans⟩ := h
  refine ⟨hshows, fun x hx k hk => ?_,
    fun c hc hr row hrow => hshows.rows ScanCells.length_eq hc hr hrow⟩
  obtain ⟨hplain, hcolumns⟩ := hscans x hx
  obtain ⟨hcolumn, hmem⟩ := hcolumns k hk
  exact hfrom.resolve_own hplain hcolumn hmem

/-- Whatever the costs are, every node of a reordered tree of joins finds the columns of all scans
below it by their qualified names. -/
theorem reorderJoins_keeps_qualified_names (m : CostModel κ) {q : Query} (hq : q.Coherent)
    (htree : q.isJoinTree = true) (hdistinct : q.qualifiers.Nodup)
    (hnames : ∀ x ∈ q.scans, ScanName x.1) (htidy : ∀ x ∈ q.scans, x.2.Tidy)
    (hleads : ∀ t ∈ q.chains, t.KeepsLeads m) :
    ∀ j ∈ (q.reorderJoins m).subqueries, (∃ os, j.FindsScans os) ∧
      ∀ c, q.IsRectangular c → j.IsRectangular c := by
  intro j hj
  have h := keepsNames_reorderJoins hleads htree
    (scoped_of_isJoinTree htree hq hdistinct hnames htidy)
  obtain ⟨os, hplaced⟩ := h.nodes j hj
  refine ⟨⟨os, hplaced.findsScans⟩, fun c hr => ?_⟩
  have hr' := (keeps_columns hq h.order).2 c hr
  exact hr'.of_mem_subqueries j hj

/-! ## A chain inside a chain -/

/-- The chain below the filter is built anew and its first input stays in front. -/
def surveys : Query :=
  joinOf .left none
    (joinOf .inner none
      (joinOf .inner none (scan "north" none ⟨[⟨"id", .int⟩]⟩)
        (filter (.literal (.bool true)) connections))
      (scan "limits" none ⟨[⟨"level", .int⟩]⟩))
    (scan "south" (some "Other") ⟨[⟨"id", .int⟩]⟩)

theorem reorderJoins_keeps_qualified_names_of_surveys :
    surveys.Coherent ∧ surveys.isJoinTree = true ∧ surveys.qualifiers.Nodup ∧
      (∀ x ∈ surveys.scans, ScanName x.1) ∧ (∀ x ∈ surveys.scans, x.2.Tidy) ∧
      (∀ t ∈ surveys.chains, t.KeepsLeads wholeCosts) ∧
      connections.reorderJoins wholeCosts ≠ connections.written wholeCosts ∧
      ∀ j ∈ (surveys.reorderJoins wholeCosts).subqueries, (∃ os, j.FindsScans os) ∧
        ∀ c, surveys.IsRectangular c → j.IsRectangular c := by
  have hq : surveys.Coherent := by decide +kernel
  have hdistinct : surveys.qualifiers.Nodup := by decide +kernel
  have hnames : ∀ x ∈ surveys.scans, ScanName x.1 := by decide +kernel
  have htidy : ∀ x ∈ surveys.scans, x.2.Tidy := by decide +kernel
  have hleads : ∀ t ∈ surveys.chains, t.KeepsLeads wholeCosts := by decide +kernel
  exact ⟨hq, rfl, hdistinct, hnames, htidy, hleads, by decide +kernel,
    reorderJoins_keeps_qualified_names wholeCosts hq rfl hdistinct hnames htidy hleads⟩

/-! ## A chain that changes its leftmost scan -/

def yard : Catalog :=
  (((((Catalog.empty.createWithRows "plant" ⟨[⟨"id", .int⟩]⟩ [[.int 9]]).2.createWithRows "north"
    ⟨[⟨"id", .int⟩]⟩ [[.int 1]]).2.createWithRows "south" ⟨[⟨"code", .int⟩]⟩
      [[.int 2]]).2.createWithRows "limits" ⟨[⟨"level", .int⟩]⟩ [[.int 3]]).2.createWithRows
        "audit" ⟨[⟨"day", .int⟩]⟩ [[.int 4]]).2

def audits : Query :=
  joinOf .inner (some (.binary (.compare .eq) (.column (some "north") "id") (.literal (.int 1))))
    (joinOf .inner none (scan "plant" none ⟨[⟨"id", .int⟩]⟩)
      (filter (.literal (.bool true))
        (joinOf .inner none
          (joinOf .inner none (scan "north" none ⟨[⟨"id", .int⟩]⟩)
            (scan "south" none ⟨[⟨"code", .int⟩]⟩))
          (scan "limits" none ⟨[⟨"level", .int⟩]⟩))))
    (scan "audit" none ⟨[⟨"day", .int⟩]⟩)

/-- South comes before north in the inner chain, so the join with the plants calls the numbers of
north `south.id`. What asks for those of north gets the plants' own, and the only row is lost. -/
theorem reorderJoins_mistakes_north :
    let m : CostModel Nat := ⟨.default, some (((((Statistics.empty.putTable "plant" 1).putTable
      "north" 1000).putTable "south" 10).putTable "limits" 100000).putTable "audit" 1000000)⟩
    audits.IsOver yard ∧ audits.isJoinTree = true ∧ audits.qualifiers.Nodup ∧
      (∀ x ∈ audits.scans, ScanName x.1 ∧ x.2.Tidy) ∧
      (∃ j ∈ (audits.reorderJoins m).subqueries,
        j.schema.names = ["id", "south.id", "south.code", "limits.level"] ∧
          j.schema.resolve (some "north") "id" = some 0 ∧
          j.schema.resolve (some "plant") "id" = some 0) ∧
      audits.rows yard = [[.int 9, .int 1, .int 2, .int 3, .int 4]] ∧
      (audits.reorderJoins m).rows yard = [] := by
  decide +kernel

end Query

end RelQuery
