import RelQuery.Proofs.Query.Cells
import RelQuery.Proofs.Query.Coherent
import RelQuery.Proofs.Query.Reorder

/-!
# The order of columns

A chain that is built anew shows the columns of the chain as written, in their order and with their
types, whatever the costs are. The projection that puts columns back is left out where the names of
the columns are the same already, so this needs that the names tell in which order the inputs were
joined. They do not where two inputs go by one name.
-/

namespace RelQuery

namespace Query

variable {κ : Type} [CostScalar κ] {m : CostModel κ} {c : Catalog}

/-- If the chain at the root is built anew, only the inputs in their written order give the columns
their written names. -/
def NamesTellOrder (m : CostModel κ) (t : Query) : Prop :=
  t.reorderJoins m = t.written m ∨
    ∀ g ∈ t.grown? m, g.tree.schema.names = t.schema.names → g.order = t.places

instance (m : CostModel κ) (t : Query) : Decidable (t.NamesTellOrder m) :=
  inferInstanceAs (Decidable (_ ∨ ∀ g ∈ t.grown? m, _ → _))

theorem namesTellOrder_single (m : CostModel κ) {t : Query} (h : t.joinInputs = [t]) :
    t.NamesTellOrder m := by
  obtain hw | ⟨hlong, -⟩ := reorderJoins_cases m t
  · exact .inl hw
  · rw [h] at hlong
    exact absurd hlong (by simp)

/-! ## Cells of a chain -/

def cellsAt (leaf : Nat → Query) (p : Nat) : List (Nat × Nat) :=
  (List.range (leaf p).schema.width).map (p, ·)

/-- The columns of all inputs in their written order, each by its place and its position. -/
def cells (t : Query) : List (Nat × Nat) := t.places.flatMap (cellsAt t.inputAt)

def InputCells (leaf : Nat → Query) (places : List Nat) (q : Query) (xs : List (Nat × Nat)) :
    Prop := ∃ p ∈ places, q = leaf p ∧ xs = cellsAt leaf p

theorem length_cellsAt (leaf : Nat → Query) (p : Nat) :
    (cellsAt leaf p).length = (leaf p).schema.width := by simp [cellsAt]

theorem InputCells.length_eq {leaf : Nat → Query} {places : List Nat} (q : Query)
    (xs : List (Nat × Nat)) (h : InputCells leaf places q xs) : xs.length = q.schema.width := by
  obtain ⟨p, -, rfl, rfl⟩ := h
  exact length_cellsAt leaf p

theorem shows_input {leaf : Nat → Query} {places : List Nat} :
    ∀ p ∈ places, Shows (InputCells leaf places) (leaf p) (cellsAt leaf p) :=
  fun p hp => .base ⟨p, hp, rfl, rfl⟩

theorem shows_cells (t : Query) : Shows (InputCells t.inputAt t.places) t t.cells :=
  t.assembles_self.shows shows_input

/-! ## Types of columns -/

theorem LeftDeep.types {leaf : Nat → Query} {t : Query} {ps : List Nat} (h : LeftDeep leaf t ps) :
    t.schema.columns.map (·.type) = typesAt leaf ps := by
  induction h with
  | single p => exact (List.flatMap_singleton ..).symm
  | join e p _ ih =>
    rw [joinOf, schema, types_join, ih, typesAt, typesAt, List.flatMap_append,
      List.flatMap_singleton]

theorem types_joinInputs : ∀ {t : Query}, t.Coherent →
    t.schema.columns.map (·.type) = t.joinInputs.flatMap fun q => q.schema.columns.map (·.type)
  | join k e s l r, h => by
    cases k with
    | inner =>
      rw [schema, h.1, types_join, types_joinInputs h.2.1, types_joinInputs h.2.2, joinInputs,
        List.flatMap_append]
    | left | right | full => exact (List.flatMap_singleton ..).symm
  | scan .., _ | filter .., _ | project .., _ | aggregate .., _ | insert .., _ =>
    (List.flatMap_singleton ..).symm

theorem types_places {t : Query} (h : t.Coherent) :
    t.schema.columns.map (·.type) = typesAt t.inputAt t.places :=
  (types_joinInputs h).trans (flatMap_inputAt t fun q => q.schema.columns.map (·.type)).symm

/-! ## One chain -/

theorem Coherent.of_mem_joinInputs {t : Query} (h : t.Coherent) : ∀ q ∈ t.joinInputs, q.Coherent :=
  Query.of_mem_joinInputs (fun _ _ _ _ h => h.2) h

theorem schema_written {t : Query} (h : ∀ q ∈ t.joinInputs, (q.reorderJoins m).schema = q.schema) :
    (t.written m).schema = t.schema := by
  cases t with
  | join k e s l r =>
    cases k with
    | inner => rfl
    | left | right | full => exact h _ (List.mem_singleton_self _)
  | filter e q => exact h (filter e q) (List.mem_singleton_self _)
  | scan | project | aggregate | insert => exact h _ (List.mem_singleton_self _)

/-- The chain at the root becomes a grown tree under a projection that puts its columns back. -/
structure PutsBack (m : CostModel κ) (t : Query) (g : Growth κ) (items : List Item) : Prop where
  grown : t.grown? m = some g
  eq : t.reorderJoins m = project items t.schema (filterBy g.conjuncts g.tree)
  restores : Restores (filterBy g.conjuncts g.tree) t.schema
    (t.places.map fun p => (t.reorderedAt m p).schema.width) g.order items

section

variable {t : Query} (ht : t.Coherent) (hnames : t.NamesTellOrder m)
  (h : ∀ q ∈ t.joinInputs, (q.reorderJoins m).schema = q.schema)
include ht hnames h

/-- The chain stays as written, or its inputs stand in the written order in a tree that is built
anew, or a projection picks their columns in that order. -/
theorem restored_cases : t.reorderJoins m = t.written m ∨
    (∃ g, t.grown? m = some g ∧ t.reorderJoins m = filterBy g.conjuncts g.tree ∧
      g.tree.schema = t.schema ∧ g.order = t.places) ∨ ∃ g items, t.PutsBack m g items := by
  obtain hw | ⟨-, g, hg, hrestore⟩ := reorderJoins_cases m t
  · exact .inl hw
  obtain hw | hnames := hnames
  · exact .inl hw
  · rw [schema_written h] at hrestore
    obtain ⟨hq, hn⟩ | ⟨items, hq, hitems⟩ := restoreColumns_cases hrestore
    · -- the names leave no other order, and then the types are the same as well
      rw [schema_filterBy] at hn
      have horder := hnames g hg hn
      have htypes : typesAt (t.reorderedAt m) t.places = typesAt t.inputAt t.places :=
        List.flatMap_congr fun p hp => by rw [reorderedAt, h _ (inputAt_mem hp)]
      have hschema := Schema.columns_eq hn
        (by rw [(leftDeep_grown hg).1.types, horder, htypes, types_places ht])
      exact .inr (.inl ⟨g, hg, hq, congrArg Schema.mk hschema, horder⟩)
    · exact .inr (.inr ⟨g, items, hg, hq, hitems⟩)

theorem schema_reordered_chain : (t.reorderJoins m).schema = t.schema := by
  obtain hq | ⟨g, -, hq, hschema, -⟩ | ⟨g, items, hback⟩ := restored_cases ht hnames h
  · rw [hq, schema_written h]
  · rw [hq, schema_filterBy, hschema]
  · rw [hback.eq, schema]

theorem assembles_or_putsBack : Assembles (t.reorderedAt m) (t.reorderJoins m) t.places ∨
    ∃ g items, t.PutsBack m g items := by
  obtain hq | ⟨g, hg, hq, -, horder⟩ | hback := restored_cases ht hnames h
  · rw [hq]
    exact .inl (t.assembles_written m)
  · rw [hq, ← horder]
    exact .inl (assembles_grown hg)
  · exact .inr hback

theorem shows_reordered_chain {α : Type} {base : Query → List α → Prop} {σ : Nat → List α}
    (hσ : ∀ p ∈ t.places, Shows base (t.reorderedAt m p) (σ p) ∧
      (σ p).length = (t.reorderedAt m p).schema.width) :
    Shows base (t.reorderJoins m) (t.places.flatMap σ) := by
  obtain hwritten | ⟨g, items, hback⟩ := assembles_or_putsBack ht hnames h
  · exact hwritten.shows fun p hp => (hσ p hp).1
  · have hperm := (leftDeep_grown hback.grown).2
    have hgrown := (assembles_grown hback.grown).shows
      fun p hp => (hσ p (hperm.mem_iff.mp hp)).1
    rw [hback.eq]
    exact hgrown.project _ (hback.restores.cells hperm
      (List.map_congr_left fun p hp => (hσ p hp).2.symm))

omit ht hnames in
theorem cells_eq : t.cells = t.places.flatMap (cellsAt (t.reorderedAt m)) :=
  List.flatMap_congr fun p hp => by rw [cellsAt, cellsAt, reorderedAt, h _ (inputAt_mem hp)]

end

/-! ## Widths -/

theorem IsRectangular.of_mem_joinInputs {t : Query} (h : t.IsRectangular c) :
    ∀ q ∈ t.joinInputs, q.IsRectangular c := Query.of_mem_joinInputs (fun _ _ _ _ h => h.2) h

theorem LeftDeep.isRectangular {leaf : Nat → Query} {t : Query} {ps : List Nat}
    (h : LeftDeep leaf t ps) (hleaf : ∀ p ∈ ps, (leaf p).IsRectangular c) : t.IsRectangular c := by
  induction h with
  | single p => exact hleaf p (List.mem_singleton_self p)
  | join e p _ ih =>
    have hleaf' := List.forall_mem_append.mp hleaf
    exact ⟨width_join _ _ _, ih hleaf'.1, hleaf'.2 p (List.mem_singleton_self p)⟩

theorem isRectangular_filterBy (es : List Expr) {q : Query} (h : q.IsRectangular c) :
    (filterBy es q).IsRectangular c := by
  unfold filterBy
  split
  · exact h
  · exact h

theorem isRectangular_written : ∀ {t : Query}, t.IsRectangular c →
    (∀ q ∈ t.joinInputs, (q.reorderJoins m).schema = q.schema ∧
      (q.reorderJoins m).IsRectangular c) → (t.written m).IsRectangular c
  | join k e s l r, hr, h => by
    cases k with
    | inner =>
      have h' := List.forall_mem_append.mp h
      refine ⟨?_, isRectangular_written hr.2.1 h'.1, isRectangular_written hr.2.2 h'.2⟩
      have hl : (l.chain m).written.schema = l.schema := schema_written fun q hq => (h'.1 q hq).1
      have hr' : (r.chain m).written.schema = r.schema := schema_written fun q hq => (h'.2 q hq).1
      rw [hl, hr']
      exact hr.1
    | left | right | full => exact (h _ (List.mem_singleton_self _)).2
  | scan .., _, h | filter .., _, h | project .., _, h | aggregate .., _, h | insert .., _, h =>
    (h _ (List.mem_singleton_self _)).2

theorem isRectangular_grown {t : Query} {g : Growth κ} (hg : t.grown? m = some g)
    (h : ∀ p ∈ t.places, (t.reorderedAt m p).IsRectangular c) :
    (filterBy g.conjuncts g.tree).IsRectangular c := by
  obtain ⟨hdeep, hperm⟩ := leftDeep_grown hg
  exact isRectangular_filterBy _ (hdeep.isRectangular fun p hp => h p (hperm.mem_iff.mp hp))

theorem isRectangular_reordered_chain {t : Query} (ht : t.Coherent) (hnames : t.NamesTellOrder m)
    (hr : t.IsRectangular c) (h : ∀ q ∈ t.joinInputs, (q.reorderJoins m).schema = q.schema ∧
      (q.reorderJoins m).IsRectangular c) : (t.reorderJoins m).IsRectangular c := by
  have hschema := fun q hq => (h q hq).1
  have hrect := fun p hp => (h _ (inputAt_mem (p := p) hp)).2
  obtain hq | ⟨g, hg, hq, -⟩ | ⟨g, items, hback⟩ := restored_cases ht hnames hschema
  · rw [hq]
    exact isRectangular_written hr h
  · rw [hq]
    exact isRectangular_grown hg hrect
  · -- the projection has one item for every cell
    have hpicked := hback.restores.cells (leftDeep_grown hback.grown).2
      (List.map_congr_left fun p _ => (length_cellsAt (t.reorderedAt m) p).symm)
    rw [hback.eq]
    refine ⟨?_, isRectangular_grown hback.grown hrect⟩
    rw [hpicked.length_eq, ← t.shows_cells.length_eq InputCells.length_eq hr, cells_eq hschema]
    rfl

/-! ## Whole queries -/

/-- Reordering keeps the schema of a query, and every row has a value for each column. -/
theorem keeps_columns {q : Query} (hq : q.Coherent) (hnames : ∀ t ∈ q.chains, t.NamesTellOrder m) :
    (q.reorderJoins m).schema = q.schema ∧
      ∀ c, q.IsRectangular c → (q.reorderJoins m).IsRectangular c := by
  refine reorderJoins_induction (C := (NamesTellOrder m))
    (P := fun q q' => q.Coherent → q'.schema = q.schema ∧
      ∀ c, q.IsRectangular c → q'.IsRectangular c)
    ?scan ?insert ?filter ?project ?aggregate ?outer ?chain hnames hq
  case scan => exact fun _ _ _ _ => ⟨rfl, fun _ h => h⟩
  case insert => exact fun _ _ _ _ _ => ⟨rfl, fun _ h => h⟩
  case filter => exact fun _ _ _ ih => ih
  case project => exact fun _ _ _ _ ih hq => ⟨rfl, fun c hr => ⟨hr.1, (ih hq.2).2 c hr.2⟩⟩
  case aggregate => exact fun _ _ _ _ _ ih hq => ⟨rfl, fun c hr => ⟨hr.1, (ih hq).2 c hr.2⟩⟩
  case outer =>
    intro k e s l l' r r' _ ihl ihr hq
    obtain ⟨hl, hl'⟩ := ihl hq.2.1
    obtain ⟨hr, hr'⟩ := ihr hq.2.2
    refine ⟨rfl, fun c h => ⟨?_, hl' c h.2.1, hr' c h.2.2⟩⟩
    rw [hl, hr]
    exact h.1
  case chain =>
    intro e s l r hnames ih hq
    have hinputs := fun x hx => ih x hx (hq.of_mem_joinInputs x hx)
    exact ⟨schema_reordered_chain hq hnames fun x hx => (hinputs x hx).1, fun c hr =>
      isRectangular_reordered_chain hq hnames hr fun x hx =>
        ⟨(hinputs x hx).1, (hinputs x hx).2 c (hr.of_mem_joinInputs x hx)⟩⟩

/-! ## Rows -/

theorem Assembles.exists_choice {leaf : Nat → Query} {t : Query} {ps : List Nat}
    (h : Assembles leaf t ps) (hnodup : ps.Nodup) {row : Row} (hrow : row ∈ t.rows c) :
    ∃ σ : Nat → Row, (∀ p ∈ ps, σ p ∈ (leaf p).rows c) ∧ row = ps.flatMap σ := by
  induction h generalizing row with
  | single p =>
    refine ⟨fun _ => row, fun q hq => List.mem_singleton.mp hq ▸ hrow, ?_⟩
    rw [List.flatMap_singleton]
  | filter e _ ih => exact ih hnodup (List.mem_filter.mp hrow).1
  | @join l r ps qs e s _ _ ih ih' =>
    obtain ⟨hps, hqs, hd⟩ := List.nodup_append'.mp hnodup
    obtain ⟨a, b, rfl, ⟨ha, hb⟩ | ⟨-, -, hk⟩ | ⟨-, -, hk⟩⟩ := JoinKind.mem_joinRows hrow
    · obtain ⟨σ, hσ, rfl⟩ := ih hps ha
      obtain ⟨τ, hτ, rfl⟩ := ih' hqs hb
      -- no input stands on both sides, so one choice serves for both
      obtain ⟨υ, hleft, hright⟩ : ∃ υ : Nat → Row, (∀ p ∈ ps, υ p = σ p) ∧
          ∀ p ∈ qs, υ p = τ p :=
        ⟨fun p => if p ∈ ps then σ p else τ p, fun p hp => if_pos hp,
          fun p hp => if_neg fun hp' => hd hp' hp⟩
      refine ⟨υ, List.forall_mem_append.mpr
        ⟨fun p hp => hleft p hp ▸ hσ p hp, fun p hp => hright p hp ▸ hτ p hp⟩, ?_⟩
      rw [List.flatMap_append, List.flatMap_congr hleft, List.flatMap_congr hright]
    · cases hk
    · cases hk

theorem exists_choice_reordered (hc : c.IsRectangular) {t : Query} (ht : t.Coherent)
    (hnames : t.NamesTellOrder m) (h : ∀ q ∈ t.joinInputs,
      (q.reorderJoins m).schema = q.schema ∧ (q.reorderJoins m).IsRectangular c)
    {row : Row} (hrow : row ∈ (t.reorderJoins m).rows c) :
    ∃ σ : Nat → Row, (∀ p ∈ t.places, σ p ∈ (t.reorderedAt m p).rows c) ∧
      row = t.places.flatMap σ := by
  obtain hwritten | ⟨g, items, hback⟩ :=
    assembles_or_putsBack ht hnames fun q hq => (h q hq).1
  · exact hwritten.exists_choice t.nodup_places hrow
  · rw [hback.eq] at hrow
    obtain ⟨a, ha, rfl⟩ := List.mem_map.mp hrow
    have hperm := (leftDeep_grown hback.grown).2
    obtain ⟨σ, hσ, rfl⟩ := (assembles_grown hback.grown).exists_choice
      (hperm.nodup_iff.mpr t.nodup_places) ha
    have hσ' : ∀ p ∈ t.places, σ p ∈ (t.reorderedAt m p).rows c :=
      fun p hp => hσ p (hperm.mem_iff.mpr hp)
    have hrect : ∀ p ∈ t.places, (t.reorderedAt m p).IsRectangular c :=
      fun p hp => (h _ (inputAt_mem hp)).2
    have hgrown := isRectangular_grown hback.grown hrect
    exact ⟨σ, hσ', hback.restores.map_valueIn hperm
      (List.map_congr_left fun p hp => ((hrect p hp).length_rows hc _ (hσ' p hp)).symm)
      (hgrown.length_rows hc _ ha)⟩

/-! ## All columns are put back -/

structure RestoresColumns (m : CostModel κ) (t : Query) : Prop where
  schema : (t.reorderJoins m).schema = t.schema
  /-- The inputs are reordered inside and have the columns that they had. -/
  inputs : ∀ p ∈ t.places, (t.reorderedAt m p).schema = (t.inputAt p).schema
  /-- What the columns show before and after are the same columns of the same inputs. -/
  written : Shows (InputCells t.inputAt t.places) t t.cells
  reordered : Shows (InputCells (t.reorderedAt m) t.places) (t.reorderJoins m) t.cells
  /-- A row is made of one row of every input, in the order in which these are written. -/
  rows : ∀ c : Catalog, c.IsRectangular → t.IsRectangular c →
    ∀ row ∈ (t.reorderJoins m).rows c, ∃ σ : Nat → Row,
      (∀ p ∈ t.places, σ p ∈ (t.reorderedAt m p).rows c) ∧ row = t.places.flatMap σ
  /-- Where two columns would go by one name, the inputs stay in their order. -/
  unnamed : ∀ g, t.grown? m = some g → ¬ g.tree.schema.foldedNames.Nodup →
    Assembles (t.reorderedAt m) (t.reorderJoins m) t.places

/-- Whatever the costs are, reordering puts every column of a chain back where names tell the order
of the inputs. -/
theorem reorderJoins_restores_columns (m : CostModel κ) {t : Query} (ht : t.Coherent)
    (hnames : ∀ u ∈ t.chains, u.NamesTellOrder m) : t.RestoresColumns m := by
  have hnames' := List.forall_mem_cons.mp hnames
  have hinputs := fun q hq => keeps_columns (ht.of_mem_joinInputs q hq) fun u hu =>
    (mem_lowerChains_of_mem_chains q hq u hu).elim (namesTellOrder_single m) (hnames'.2 u)
  have hschema := fun q hq => (hinputs q hq).1
  refine ⟨schema_reordered_chain ht hnames'.1 hschema, fun p hp => hschema _ (inputAt_mem hp),
    t.shows_cells, ?_, fun c hc hr row hrow => ?_, fun g hg hrepeated => ?_⟩
  · rw [cells_eq hschema]
    exact shows_reordered_chain ht hnames'.1 hschema fun p hp =>
      ⟨shows_input p hp, length_cellsAt _ p⟩
  · exact exists_choice_reordered hc ht hnames'.1
      (fun q hq => ⟨hschema q hq, (hinputs q hq).2 c (hr.of_mem_joinInputs q hq)⟩) hrow
  · obtain hwritten | ⟨g', items, hback⟩ := assembles_or_putsBack ht hnames'.1 hschema
    · exact hwritten
    · have hgrown := hback.grown
      have hnodup := hback.restores.nodup
      rw [hg, Option.some.injEq] at hgrown
      rw [schema_filterBy, ← hgrown] at hnodup
      exact absurd hnodup hrepeated

theorem reorderJoins_restores_columns_of_connections :
    connections.Coherent ∧ (∀ u ∈ connections.chains, u.NamesTellOrder wholeCosts) ∧
      (connections.grown? wholeCosts).map (·.order) = some [0, 2, 1] ∧
      connections.RestoresColumns wholeCosts := by
  have hcoherent : connections.Coherent := by decide +kernel
  have hnames : ∀ u ∈ connections.chains, u.NamesTellOrder wholeCosts := by decide +kernel
  exact ⟨hcoherent, hnames, by decide +kernel,
    reorderJoins_restores_columns wholeCosts hcoherent hnames⟩

/-! ## Two sites -/

def stations : Catalog :=
  (((Catalog.empty.createWithRows "north" ⟨[⟨"id", .int⟩]⟩ [[.int 1]]).2.createWithRows "south"
    ⟨[⟨"id", .int⟩]⟩ [[.int 2]]).2.createWithRows "limits" ⟨[⟨"level", .int⟩]⟩ [[.int 3]]).2

def sites : Query :=
  joinOf .inner none
    (joinOf .inner none (scan "north" (some "site") ⟨[⟨"id", .int⟩]⟩)
      (scan "south" (some "site") ⟨[⟨"id", .int⟩]⟩))
    (scan "limits" none ⟨[⟨"level", .int⟩]⟩)

/-- South is the smaller table and comes first. The names are what they were, and its numbers stand
where those of north stood. -/
theorem reorderJoins_swaps_sites :
    let m : CostModel Nat := ⟨.default, some (((Statistics.empty.putTable "north" 1000).putTable
      "south" 10).putTable "limits" 100000)⟩
    sites.IsOver stations ∧ (sites.reorderJoins m).schema = sites.schema ∧
      sites.schema.names = ["id", "site.id", "limits.level"] ∧
      sites.rows stations = [[.int 1, .int 2, .int 3]] ∧
      (sites.reorderJoins m).rows stations = [[.int 2, .int 1, .int 3]] := by
  decide +kernel

end Query

end RelQuery
