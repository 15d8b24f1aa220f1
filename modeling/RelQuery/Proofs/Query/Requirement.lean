import RelQuery.Proofs.Query.Coherent
import RelQuery.Proofs.Query.Pruning

/-!
# Requirements of the root

A query that is no projection requires of its inputs every column that it answers with, by the
references that its columns' names read as. On the way down to the scans and projections that hold
the columns, a join passes such a reference on to an input that provides it, so that every column is
kept there and the answer keeps its schema.
-/

namespace RelQuery

/-! ## References read off names -/

namespace ColumnRef

theorem fullName_ofColumnName {name : String} (h : Text.IsAscii name) :
    (ofColumnName name).fullName = Text.lower name := by
  unfold ofColumnName
  cases hs : Text.splitDot name with
  | none => rfl
  | some p =>
    obtain ⟨x, rest⟩ := p
    obtain ⟨-, rfl⟩ := Text.of_splitDot hs
    have hascii := h.of_dotted
    by_cases hx : x.isEmpty = true
    · simp [hx, of, fullName, qualifiedName]
    · simp [hx, of, fullName, qualifiedName, Text.lower_dotted hascii.1 hascii.2.sigma_notMem]

theorem ofColumnName_dotted {x : String} (hx : Text.DotFree x) (hne : x ≠ "") (n : String) :
    ofColumnName (x ++ "." ++ n) = ⟨some (Text.lower x), Text.lower n⟩ := by
  simp [ofColumnName, Text.splitDot_dotted hx, hne, of]

theorem boundBy_of_indexOf? {r : ColumnRef} {s : Schema} {names : List String}
    (h : (s.indexOf? r.fullName).isSome) : r.boundBy s names = true := by
  obtain ⟨x, n⟩ := r
  cases x with
  | none =>
    have h' : (s.indexOf? n).isSome := h
    simp [boundBy, Schema.provides, Schema.resolve, h']
  | some x => simp [boundBy, h]

theorem boundBy_of_indexOfBare? {x n : String} {s : Schema} {names : List String}
    (hx : x ∈ names) (h : (s.indexOfBare? n).isSome) :
    (⟨some x, n⟩ : ColumnRef).boundBy s names = true := by
  simp [boundBy, Schema.provides, hx, h]

end ColumnRef

namespace Query

/-! ## Held columns -/

/-- The columns that scans and projections hold, under the names they have above the joins. -/
def heldColumns : Query → List Column
  | scan _ _ s | project _ s _ => s.columns
  | filter _ q => q.heldColumns
  | join _ _ _ l r => l.heldColumns ++ r.heldColumns.map (Column.qualifiedWith r.qualifier)
  | aggregate .. | insert .. => []

def heldNames : Query → List String
  | scan _ _ s | project _ s _ => s.names
  | filter _ q => q.heldNames
  | join _ _ _ l r => l.heldNames ++ r.heldNames
  | aggregate .. | insert .. => []

/-- The names that joins put before the columns of their right inputs. -/
def joinNames : Query → List String
  | filter _ q => q.joinNames
  | join _ _ _ l r => r.qualifier :: (l.joinNames ++ r.joinNames)
  | scan .. | project .. | aggregate .. | insert .. => []

/-- The names of the columns can be read back: where they are held they are of ASCII characters, and
what a join puts before one has no dot and is not empty. -/
structure Legible (q : Query) : Prop where
  held : ∀ n ∈ q.heldNames, Text.IsAscii n
  joined : ∀ x ∈ q.joinNames, Text.DotFree x ∧ x ≠ ""

instance (q : Query) : Decidable q.Legible :=
  decidable_of_iff ((∀ n ∈ q.heldNames, Text.IsAscii n) ∧
      ∀ x ∈ q.joinNames, Text.DotFree x ∧ x ≠ "")
    ⟨fun h => ⟨h.1, h.2⟩, fun h => ⟨h.held, h.joined⟩⟩

variable {q l r : Query} {required : List ColumnRef} {k : Column}

theorem Legible.left {j : JoinKind} {e : Option Expr} {s : Schema} (h : (join j e s l r).Legible) :
    l.Legible :=
  ⟨fun n hn => h.held n (List.mem_append_left _ hn),
    fun x hx => h.joined x (List.mem_cons_of_mem _ (List.mem_append_left _ hx))⟩

theorem Legible.right {j : JoinKind} {e : Option Expr} {s : Schema} (h : (join j e s l r).Legible) :
    r.Legible :=
  ⟨fun n hn => h.held n (List.mem_append_right _ hn),
    fun x hx => h.joined x (List.mem_cons_of_mem _ (List.mem_append_right _ hx))⟩

theorem Legible.joinName {j : JoinKind} {e : Option Expr} {s : Schema}
    (h : (join j e s l r).Legible) : Text.DotFree r.qualifier ∧ r.qualifier ≠ "" :=
  h.joined _ List.mem_cons_self

theorem mem_columns_of_mem_heldColumns : ∀ {q : Query} {k : Column}, q.Coherent →
    k ∈ q.heldColumns → k ∈ q.schema.columns
  | scan .., _, _, h | project .., _, _, h => h
  | filter _ q, _, hc, h => mem_columns_of_mem_heldColumns (q := q) hc h
  | join _ _ _ l r, k, ⟨hs, hl, hr⟩, h => by
    rw [schema, hs, Schema.join, List.mem_append]
    obtain h | h := List.mem_append.mp h
    · exact .inl (mem_columns_of_mem_heldColumns hl h)
    · obtain ⟨k', hk', rfl⟩ := List.mem_map.mp h
      exact .inr (List.mem_map_of_mem (mem_columns_of_mem_heldColumns hr hk'))

theorem lower_qualifier_mem : ∀ q : Query, Text.lower q.qualifier ∈ q.qualifiers
  | scan .. | insert .. => List.mem_singleton.mpr rfl
  | filter _ q | project _ _ q | aggregate _ _ _ q => lower_qualifier_mem q
  | join _ _ _ l _ => List.mem_append_left _ (lower_qualifier_mem l)

theorem qualifiedWith_of_dotted {x : String} (h : ¬ Text.DotFree k.name) :
    k.qualifiedWith x = k := by
  have hdot : '.' ∈ k.name.toList := not_not.mp h
  simp [Column.qualifiedWith, hdot]

theorem name_qualifiedWith {x : String} (h : Text.DotFree k.name) (hx : x ≠ "") :
    (k.qualifiedWith x).name = x ++ "." ++ k.name := by
  have hdot : '.' ∉ k.name.toList := h
  simp [Column.qualifiedWith, hdot, hx]

/-- A held column goes by the name under which it is held, or a join has put the name of a scan
before that. -/
theorem name_of_mem_heldColumns : ∀ {q : Query} {k : Column}, q.Legible → k ∈ q.heldColumns →
    Text.IsAscii k.name ∨ ∃ x n, Text.DotFree x ∧ x ≠ "" ∧ Text.lower x ∈ q.qualifiers ∧
      Text.Plain n ∧ k.name = x ++ "." ++ n
  | scan .., k, h, hk | project .., k, h, hk =>
    .inl (h.held _ (List.mem_map_of_mem hk))
  | filter _ q, _, h, hk => name_of_mem_heldColumns (q := q) ⟨h.held, h.joined⟩ hk
  | join _ _ _ l r, k, h, hk => by
    rw [heldColumns, List.mem_append] at hk
    obtain hk | hk := hk
    · obtain ha | ⟨x, n, hx, hne, hmem, hn, e⟩ := name_of_mem_heldColumns h.left hk
      · exact .inl ha
      · exact .inr ⟨x, n, hx, hne, List.mem_append_left _ hmem, hn, e⟩
    · obtain ⟨k', hk', rfl⟩ := List.mem_map.mp hk
      obtain ⟨hx, hne⟩ := h.joinName
      have ih := name_of_mem_heldColumns h.right hk'
      by_cases hdot : Text.DotFree k'.name
      · -- no name with a dot is made of this one further down
        obtain ha | ⟨x, n, -, -, -, -, e⟩ := ih
        · exact .inr ⟨r.qualifier, k'.name, hx, hne,
            List.mem_append_right _ (lower_qualifier_mem r), ⟨ha, hdot⟩,
            name_qualifiedWith hdot hne⟩
        · exact absurd (e ▸ hdot) (Text.not_dotFree_dotted x n)
      · rw [qualifiedWith_of_dotted hdot]
        obtain ha | ⟨x, n, hx, hne, hmem, hn, e⟩ := ih
        · exact .inl ha
        · exact .inr ⟨x, n, hx, hne, List.mem_append_right _ hmem, hn, e⟩

/-! ## Held columns are provided -/

theorem indexOf?_isSome {s : Schema} {name : String} (hk : k ∈ s.columns)
    (h : Text.lower k.name = Text.lower name) : (s.indexOf? name).isSome := by
  rw [Schema.indexOf?, List.findIdx?_isSome]
  exact List.any_eq_true.mpr ⟨k, hk, by simp [h]⟩

theorem indexOfBare?_isSome {s : Schema} {n : String} (hk : k ∈ s.columns) (hn : Text.IsAscii n)
    (h : k.bareName = n) : (s.indexOfBare? (Text.lower n)).isSome := by
  rw [Schema.indexOfBare?, List.findIdx?_isSome]
  refine List.any_eq_true.mpr ⟨k, hk, ?_⟩
  rw [Text.eqIgnoringAsciiCase, h, Text.asciiFold_lower, hn.lower_eq]
  exact beq_self_eq_true _

theorem binds_name (hc : q.Coherent) (h : q.Legible) (hk : k ∈ q.heldColumns) :
    q.binds (ColumnRef.ofColumnName k.name) = true := by
  have hmem := mem_columns_of_mem_heldColumns hc hk
  obtain ha | ⟨x, n, hx, hne, hq, hn, e⟩ := name_of_mem_heldColumns h hk
  · apply ColumnRef.boundBy_of_indexOf?
    rw [ColumnRef.fullName_ofColumnName ha]
    exact indexOf?_isSome hmem ha.lower_lower.symm
  · rw [e, ColumnRef.ofColumnName_dotted hx hne]
    refine ColumnRef.boundBy_of_indexOfBare? hq (indexOfBare?_isSome hmem hn.ascii ?_)
    simp [Column.bareName, e, Text.splitDot_dotted hx, hne]

theorem binds_leading (hc : q.Coherent) (h : q.Legible) (hk : k ∈ q.heldColumns)
    (hdot : Text.DotFree k.name) :
    q.binds ⟨some (Text.lower q.qualifier), Text.lower k.name⟩ = true := by
  have hmem := mem_columns_of_mem_heldColumns hc hk
  obtain ha | ⟨x, n, -, -, -, -, e⟩ := name_of_mem_heldColumns h hk
  · refine ColumnRef.boundBy_of_indexOfBare? (lower_qualifier_mem q) (indexOfBare?_isSome hmem ha ?_)
    simp [Column.bareName, Text.splitDot_dotFree hdot]
  · exact absurd (e ▸ hdot) (Text.not_dotFree_dotted x n)

/-! ## The way down -/

/-- A column is required, by the reference that its name reads as or by the one that its name will
read as where the query is the right input of a join. -/
def Reaches (required : List ColumnRef) (q : Query) (k : Column) : Prop :=
  ColumnRef.ofColumnName k.name ∈ required ∨
    Text.DotFree k.name ∧ ⟨some (Text.lower q.qualifier), Text.lower k.name⟩ ∈ required

theorem Reaches.mono {required' : List ColumnRef} (h : Reaches required q k)
    (hsub : ∀ x ∈ required, x ∈ required') : Reaches required' q k :=
  h.imp (hsub _) fun h => ⟨h.1, hsub _ h.2⟩

section

variable {j : JoinKind} {e : Option Expr} {s : Schema}

theorem Reaches.left (hc : l.Coherent) (h : l.Legible) (hk : k ∈ l.heldColumns)
    (hr : Reaches required (join j e s l r) k) :
    Reaches (required.filter fun x => l.binds x || !r.binds x) l k := by
  obtain hr | ⟨hdot, hr⟩ := hr
  · exact .inl (List.mem_filter.mpr ⟨hr, by rw [binds_name hc h hk]; rfl⟩)
  · refine .inr ⟨hdot, List.mem_filter.mpr ⟨hr, ?_⟩⟩
    show (l.binds ⟨some (Text.lower l.qualifier), _⟩ || _) = true
    rw [binds_leading hc h hk hdot]
    rfl

theorem Reaches.right (hc : r.Coherent) (h : (join j e s l r).Legible) (hk : k ∈ r.heldColumns)
    (hr : Reaches required (join j e s l r) (k.qualifiedWith r.qualifier)) :
    Reaches (required.filter fun x => r.binds x || !l.binds x) r k := by
  obtain ⟨hx, hne⟩ := h.joinName
  by_cases hdot : Text.DotFree k.name
  · -- the join has put its name before this one's
    rw [Reaches, name_qualifiedWith hdot hne, ColumnRef.ofColumnName_dotted hx hne] at hr
    obtain hr | ⟨hno, -⟩ := hr
    · exact .inr ⟨hdot, List.mem_filter.mpr ⟨hr, by rw [binds_leading hc h.right hk hdot]; rfl⟩⟩
    · exact absurd hno (Text.not_dotFree_dotted _ _)
  · rw [qualifiedWith_of_dotted hdot] at hr
    obtain hr | ⟨hno, -⟩ := hr
    · exact .inl (List.mem_filter.mpr ⟨hr, by rw [binds_name hc h.right hk]; rfl⟩)
    · exact absurd hno hdot

end

theorem qualifier_prune : ∀ (q : Query) (required : List ColumnRef) (root : Bool),
    (q.prune required root).qualifier = q.qualifier
  | scan t a s, _, _ => by
    simp only [prune, narrow]
    generalize (if (positions _ s.columns).isEmpty then [0] else positions _ s.columns) = kept
    split <;> rfl
  | insert .., _, _ => rfl
  | filter _ q, _, _ => qualifier_prune q _ false
  | project is s q, _, _ => by
    unfold prune
    simp only
    split <;> exact qualifier_prune q _ false
  | aggregate _ _ _ q, _, _ => qualifier_prune q _ false
  | join _ _ _ l _, _, _ => qualifier_prune l _ false

theorem schema_narrow {t : String} {a : Option String} {s : Schema}
    (h : ∀ c ∈ s.columns, required.any (·.meansColumn (scan t a s).qualifiers c.name) = true) :
    (narrow required t a s).schema = s := by
  by_cases hs : s.columns = []
  · simp [narrow, hs, schema]
  · have hlen : s.columns.length ≤ (keptMask required (scan t a s)).length := by
      rw [keptMask, ← (le_orFirst _).length_eq, List.length_map]
      exact Nat.le_refl _
    have hall : ∀ b ∈ keptMask required (scan t a s), b = true := by
      intro b hb
      obtain ⟨b', hb', himp⟩ := exists_left_of_forall₂ (le_orFirst _) b hb
      obtain ⟨c, hc, rfl⟩ := List.mem_map.mp hb'
      exact himp (h c hc)
    obtain ⟨heq, -⟩ | heq := @narrow_eq required t a s hs
    · rw [heq, schema]
    · rw [heq, schema, sift_all hall hlen]

theorem schema_prune_project {is : List Item} {s : Schema} {q : Query} {root : Bool}
    (hlen : is.length = s.columns.length)
    (h : root = true ∨ ∀ i ∈ is, required.any (·.meansItem i.name) = true) :
    ((project is s q).prune required root).schema = s := by
  have hall : ∀ b ∈ is.map (keptItems required root is), b = true := by
    intro b hb
    obtain ⟨i, hi, rfl⟩ := List.mem_map.mp hb
    rw [keptItems]
    split
    · rfl
    · rename_i hread
      obtain rfl | h := h
      · exact absurd rfl hread
      · exact h i hi
  rw [prune_project is q hlen, schema, sift_all hall (by rw [List.length_map, hlen])]

theorem length_of_coherent {is : List Item} {s : Schema} {q : Query}
    (h : (project is s q).Coherent) : is.length = s.columns.length := by
  simpa [Schema.names] using (congrArg List.length h.1).symm

/-- What is required keeps all columns of a query. -/
theorem schema_prune : ∀ {q : Query} {required : List ColumnRef}, q.Coherent → q.Legible →
    (∀ k ∈ q.heldColumns, Reaches required q k) → (q.prune required false).schema = q.schema
  | scan t a s, required, _, h, hall => by
    rw [prune, schema_narrow, schema]
    intro k hk
    obtain hr | ⟨-, hr⟩ := hall k hk
    · exact List.any_eq_true.mpr ⟨_, hr, by
        simp [ColumnRef.meansColumn, ColumnRef.fullName_ofColumnName (h.held _ (List.mem_map_of_mem hk))]⟩
    · exact List.any_eq_true.mpr ⟨_, hr, by
        simp [ColumnRef.meansColumn, lower_qualifier_mem]⟩
  | insert .., _, _, _, _ => rfl
  | filter e q, required, hc, h, hall =>
    schema_prune (q := q) hc ⟨h.held, h.joined⟩ fun k hk =>
      (show Reaches required q k from hall k hk).mono fun _ => List.mem_append_left _
  | project is s q, required, hc, h, hall => by
    refine schema_prune_project (length_of_coherent hc) (.inr fun i hi => ?_)
    have hname : i.name ∈ s.names := hc.1 ▸ List.mem_map_of_mem hi
    have hascii := h.held _ hname
    obtain ⟨k, hk, hki⟩ := List.mem_map.mp hname
    rw [← hki] at hascii ⊢
    obtain hr | ⟨-, hr⟩ := hall k hk
    · exact List.any_eq_true.mpr ⟨_, hr, meansItem_ofColumnName hascii⟩
    · exact List.any_eq_true.mpr ⟨_, hr, by simp [ColumnRef.meansItem]⟩
  | aggregate .., _, _, _, _ => rfl
  | join j e s l r, required, ⟨hs, hl, hr⟩, h, hall => by
    have hleft : (l.prune (required.filter (fun x => l.binds x || !r.binds x) ++
        (e.map (·.columnRefs)).getD []) false).schema = l.schema :=
      schema_prune hl h.left fun k hk =>
        (Reaches.left hl h.left hk (hall k (List.mem_append_left _ hk))).mono
          fun _ => List.mem_append_left _
    have hright : (r.prune (required.filter (fun x => r.binds x || !l.binds x) ++
        (e.map (·.columnRefs)).getD []) false).schema = r.schema :=
      schema_prune hr h.right fun k hk =>
        (Reaches.right hr h hk
          (hall _ (List.mem_append_right _ (List.mem_map_of_mem hk)))).mono
            fun _ => List.mem_append_left _
    rw [prune]
    simp only [joinOf, schema]
    rw [hleft, hright, qualifier_prune, hs]

/-! ## The whole query -/

def isProject : Query → Bool
  | project .. => true
  | _ => false

/-- Pruning leaves the schema of a query as it is: a projection keeps all its items, and the columns
of any other query are found again by their names, provided that these can be read back. -/
theorem pruneColumns_keeps_schema {q : Query} (hq : q.Coherent)
    (h : q.isProject = true ∨ q.Legible) : q.pruneColumns.schema = q.schema := by
  by_cases hp : q.isProject = true
  · cases q with
    | project is s p => exact schema_prune_project (length_of_coherent hq) (.inl rfl)
    | scan | insert | filter | aggregate | join => cases hp
  · have hroot : q.pruneColumns = q.prune (q.schema.columns.map
        fun k => ColumnRef.ofColumnName k.name) false := by
      cases q with
      | project is s p => exact absurd rfl hp
      | scan | insert | filter | aggregate | join => rfl
    rw [hroot]
    exact schema_prune hq (h.resolve_left hp) fun k hk =>
      .inl (List.mem_map_of_mem (mem_columns_of_mem_heldColumns hq hk))

/-! ## Orders and addresses -/

def depot : Catalog :=
  ((Catalog.empty.createWithRows "order" ⟨[⟨"id", .int⟩]⟩ [[.int 1]]).2.createWithRows "address"
    ⟨[⟨"street.line", .varchar 8⟩, ⟨"city", .varchar 8⟩]⟩
    [[.string "Quay", .string "Bergen"]]).2

def addresses (asName : Option String) : Query :=
  scan "address" asName ⟨[⟨"street.line", .varchar 8⟩, ⟨"city", .varchar 8⟩]⟩

/-- Every order with every city that has addresses, and twice every address under one name. -/
def shippings : Query :=
  filter (.literal (.bool true))
    (joinOf .inner none
      (joinOf .left none (scan "order" none ⟨[⟨"id", .int⟩]⟩)
        (aggregate [.column none "city"] [⟨.column none "city", "city"⟩] ⟨[⟨"city", .varchar 8⟩]⟩
          (addresses (some "c"))))
      (joinOf .inner none (addresses (some "Ship")) (addresses (some "ship"))))

theorem pruneColumns_keeps_schema_of_shippings :
    shippings.IsOver depot ∧ shippings.Coherent ∧ shippings.Legible ∧
      shippings.pruneColumns ≠ shippings ∧ shippings.pruneColumns.schema = shippings.schema := by
  have hover : shippings.IsOver depot := by decide +kernel
  have hlegible : shippings.Legible := by decide +kernel
  exact ⟨hover, hover.coherent, hlegible, by decide +kernel,
    pruneColumns_keeps_schema hover.coherent (.inr hlegible)⟩

/-- What the join puts before `city` has a dot, and the name reads back as a column `to.city` of a
scan `ship`. No scan has one, and the column is dropped. -/
theorem pruneColumns_drops_city :
    let q := joinOf .inner none (scan "order" none ⟨[⟨"id", .int⟩]⟩) (addresses (some "ship.to"))
    q.IsOver depot ∧ q.schema.names = ["id", "street.line", "ship.to.city"] ∧
      q.pruneColumns.schema.names = ["id", "street.line"] := by
  decide +kernel

end Query

end RelQuery
