import Mathlib.Data.List.Nodup
import RelQuery.Proofs.Expr.OriginLook
import RelQuery.Proofs.Query.Rows

/-!
# Scoped queries

A scoped query is a tree of joins and filters. Its leaves are filters and projections over one scan
each, with plain and distinct column names, and the scans have plain names of which no two are the
same. The columns of such a query have origins, and its schema spells them, however the joins are
nested.
-/

namespace RelQuery

/-! ## The class -/

structure ScanName (n : String) : Prop where
  plain : Text.Plain n
  nonempty : n ≠ ""

instance (n : String) : Decidable (ScanName n) :=
  decidable_of_iff (Text.Plain n ∧ n ≠ "") ⟨fun h => ⟨h.1, h.2⟩, fun h => ⟨h.plain, h.nonempty⟩⟩

namespace Schema

/-- At least one column, all of plain names that differ in more than case. -/
structure Tidy (s : Schema) : Prop where
  nonempty : s.columns ≠ []
  plain : ∀ c ∈ s.columns, Text.Plain c.name
  distinct : s.foldedNames.Nodup

instance (s : Schema) : Decidable s.Tidy :=
  decidable_of_iff
    (s.columns ≠ [] ∧ (∀ c ∈ s.columns, Text.Plain c.name) ∧ s.foldedNames.Nodup)
    ⟨fun h => ⟨h.1, h.2.1, h.2.2⟩, fun h => ⟨h.nonempty, h.plain, h.distinct⟩⟩

end Schema

namespace Query

def isOverOneScan : Query → Bool
  | scan .. => true
  | filter _ q | project _ _ q => q.isOverOneScan
  | _ => false

def Scoped : Query → Prop
  | scan t a s => ScanName (referenceName t a) ∧ s.Tidy
  | filter _ q => q.Scoped
  | project _ s q => q.isOverOneScan = true ∧ ScanName q.qualifier ∧ s.Tidy
  | join _ _ s l r =>
    s = l.schema.join r.schema r.qualifier ∧ l.Scoped ∧ r.Scoped ∧
      l.qualifiers.Disjoint r.qualifiers
  | insert .. | aggregate .. => False

def origins : Query → List Origin
  | filter _ q => q.origins
  | join _ _ _ l r => l.origins ++ r.origins
  | q => q.schema.columns.map fun c => ⟨Text.lower q.qualifier, Text.lower c.name⟩

theorem qualifiers_of_isOverOneScan : ∀ {q : Query}, q.isOverOneScan = true →
    q.qualifiers = [Text.lower q.qualifier]
  | scan .., _ => rfl
  | filter _ q, h => qualifiers_of_isOverOneScan (q := q) h
  | project _ _ q, h => qualifiers_of_isOverOneScan (q := q) h

theorem scanName_qualifier : ∀ {q : Query}, q.Scoped → ScanName q.qualifier
  | scan .., h => h.1
  | filter _ q, h => scanName_qualifier (q := q) h
  | project .., h => h.2.1
  | join _ _ _ l _, h => scanName_qualifier (q := l) h.2.1

theorem Scoped.nodup : ∀ {q : Query}, q.Scoped → q.qualifiers.Nodup
  | scan .., _ => List.nodup_singleton _
  | filter _ q, h => Scoped.nodup (q := q) h
  | project _ _ q, h => by
    rw [qualifiers, qualifiers_of_isOverOneScan h.1]
    exact List.nodup_singleton _
  | join .., ⟨_, hl, hr, hd⟩ => List.nodup_append'.mpr ⟨hl.nodup, hr.nodup, hd⟩

end Query

/-! ## Schemas of leaves and joins -/

namespace Schema

theorem Tidy.from {s : Schema} (h : s.Tidy) {name : String} (hn : ScanName name) :
    s.From (Text.lower name) (s.columns.map fun c => ⟨Text.lower name, Text.lower c.name⟩)
      [Text.lower name] where
  names := by
    rw [List.forall₂_map_left_iff, List.forall₂_same]
    intro c hc
    rw [Origin.Spells, if_pos rfl]
    exact ⟨h.plain c hc, rfl⟩
  leadFirst := by
    rw [List.pairwise_map]
    exact List.pairwise_of_forall fun _ _ _ => rfl
  mem_quals x := by
    rw [List.mem_singleton]
    constructor
    · rintro rfl
      obtain ⟨c, hc⟩ := List.exists_mem_of_ne_nil _ h.nonempty
      exact ⟨_, List.mem_map_of_mem hc, rfl⟩
    · rintro ⟨o, ho, rfl⟩
      obtain ⟨c, -, rfl⟩ := List.mem_map.mp ho
      rfl
  plain x hx := List.mem_singleton.mp hx ▸ hn.plain.lower
  lower_eq x hx := List.mem_singleton.mp hx ▸ hn.plain.lower_lower
  lead_mem := List.mem_singleton_self _

/-- A right column that its own join calls by a qualified name keeps it, a bare one gets the name
of the right input's leading scan. -/
theorem spells_qualifiedWith {rq lead : String} (hrq : ScanName rq) {o : Origin} {c : Column}
    (h : o.Spells (Text.lower rq) c.name) (hne : o.scan ≠ lead) :
    o.Spells lead (c.qualifiedWith rq).name := by
  rw [Origin.Spells, if_neg hne]
  unfold Origin.Spells at h
  split at h
  · rename_i hl
    have hdot : c.name.toList.contains '.' = false := by
      rw [← Bool.not_eq_true, List.contains_iff_mem]
      exact h.1.dotFree
    have hempty : rq.isEmpty = false := by simpa using hrq.nonempty
    refine ⟨rq, c.name, hrq.plain, hrq.nonempty, h.1, hl.symm, h.2, ?_⟩
    rw [Column.qualifiedWith, hdot, hempty]
    rfl
  · obtain ⟨q, n, hq, hqe, hn, hqo, hno, hname⟩ := h
    have hdot : c.name.toList.contains '.' = true := by
      rw [List.contains_iff_mem, hname]; simp
    refine ⟨q, n, hq, hqe, hn, hqo, hno, ?_⟩
    rw [Column.qualifiedWith, hdot]
    exact hname

theorem From.join {l r : Schema} {lead rq : String} {os os' : List Origin}
    {quals quals' : List String} (hl : l.From lead os quals)
    (hr : r.From (Text.lower rq) os' quals') (hrq : ScanName rq) (hd : quals.Disjoint quals') :
    (l.join r rq).From lead (os ++ os') (quals ++ quals') := by
  have hne : ∀ o ∈ os', o.scan ≠ lead := fun o ho e =>
    hd hl.lead_mem (e ▸ (hr.mem_quals _).mpr ⟨o, ho, rfl⟩)
  have hleft : List.Forall₂ (fun o c => o ∈ os' ∧ o.Spells (Text.lower rq) c.name) os' r.columns :=
    (List.forall₂_and_left _ _).mpr ⟨fun o ho => ho, hr.names⟩
  refine { names := ?_, leadFirst := ?_, mem_quals := fun x => ?_, plain := fun x hx => ?_,
           lower_eq := fun x hx => ?_, lead_mem := List.mem_append_left _ hl.lead_mem }
  · refine List.rel_append hl.names ?_
    rw [List.forall₂_map_right_iff]
    exact hleft.imp fun o c h => spells_qualifiedWith hrq h.2 (hne o h.1)
  · rw [List.pairwise_append]
    exact ⟨hl.leadFirst, hr.leadFirst.imp_of_mem fun {o o'} _ ho' _ e => absurd e (hne o' ho'),
      fun o _ o' ho' e => absurd e (hne o' ho')⟩
  · rw [List.mem_append, hl.mem_quals, hr.mem_quals]
    simp only [List.mem_append, or_and_right, exists_or]
  · rcases List.mem_append.mp hx with h | h
    · exact hl.plain x h
    · exact hr.plain x h
  · rcases List.mem_append.mp hx with h | h
    · exact hl.lower_eq x h
    · exact hr.lower_eq x h

theorem From.binds_unqualified {s : Schema} {lead : String} {os : List Origin}
    {quals : List String} (h : s.From lead os quals) {n : String} (hn : Text.Plain n) :
    (⟨none, n⟩ : ColumnRef).boundBy s quals = os.any (·.column == Text.lower n) := by
  rw [ColumnRef.boundBy, Schema.provides, resolve_unqualified h.toSpells hn, List.findIdx?_isSome]
  simp

end Schema

namespace Query

theorem Scoped.from : ∀ {q : Query}, q.Scoped →
    q.schema.From (Text.lower q.qualifier) q.origins q.qualifiers
  | scan .., h => h.2.from h.1
  | filter _ q, h => Scoped.from (q := q) h
  | project _ _ q, h => by
    have hq := qualifiers_of_isOverOneScan h.1
    rw [qualifiers, hq]
    exact h.2.2.from h.2.1
  | join _ _ s l r, h => by
    obtain ⟨rfl, hl, hr, hd⟩ := h
    exact hl.from.join hr.from (scanName_qualifier hr) hd

/-! ## Named columns -/

/-- The schema spells these origins, the leftmost scan leading. -/
structure Named (q : Query) (os : List Origin) : Prop where
  name : ScanName q.qualifier
  spells : q.schema.From (Text.lower q.qualifier) os q.qualifiers

theorem Named.congr {q q' : Query} {os : List Origin} (h : q.Named os) (hs : q'.schema = q.schema)
    (hn : q'.qualifier = q.qualifier) (hq : ∀ x, x ∈ q'.qualifiers ↔ x ∈ q.qualifiers) :
    q'.Named os where
  name := hn ▸ h.name
  spells := by
    rw [hs, hn]
    exact { toSpells := h.spells.toSpells
            mem_quals := fun x => (hq x).trans (h.spells.mem_quals x)
            plain := fun x hx => h.spells.plain x ((hq x).mp hx)
            lower_eq := fun x hx => h.spells.lower_eq x ((hq x).mp hx)
            lead_mem := (hq _).mpr h.spells.lead_mem }

theorem Scoped.named {q : Query} (h : q.Scoped) : q.Named q.origins := ⟨scanName_qualifier h, h.from⟩

theorem Named.join {l r : Query} {os os' : List Origin} (hl : l.Named os) (hr : r.Named os')
    (hd : l.qualifiers.Disjoint r.qualifiers) (k : JoinKind) (e : Option Expr) :
    (joinOf k e l r).Named (os ++ os') := ⟨hl.name, hl.spells.join hr.spells hr.name hd⟩

/-! ## Looking up columns -/

section

variable {q : Query} {os : List Origin} {n : String}

theorem binds_of_bindsAll {e : Expr} (h : q.bindsAll e = true) {x : Option String}
    (hm : (x, n) ∈ e.mentions) : q.binds (.of x n) = true :=
  List.all_eq_true.mp h _ (Expr.of_mem_columnRefs hm)

theorem Named.length_origins (h : q.Named os) : os.length = q.schema.width := h.spells.width

theorem Named.contains_qualifiers (h : q.Named os) (x : String) :
    q.qualifiers.contains x = os.any (·.scan == x) := (h.spells.any_scan x).symm

theorem Named.plain_column (h : q.Named os) {o : Origin} (ho : o ∈ os) :
    Text.Plain o.column ∧ Text.lower o.column = o.column := by
  have hnames := h.spells.names
  obtain ⟨c, hoc⟩ : ∃ c : Column, o.Spells (Text.lower q.qualifier) c.name := by
    obtain ⟨i, hi, rfl⟩ := List.getElem_of_mem ho
    exact ⟨_, hnames.get hi (hnames.length_eq ▸ hi)⟩
  unfold Origin.Spells at hoc
  split at hoc
  · exact hoc.2 ▸ ⟨hoc.1.lower, hoc.1.lower_lower⟩
  · obtain ⟨_, n, -, -, hn, -, hno, -⟩ := hoc
    exact hno ▸ ⟨hn.lower, hn.lower_lower⟩

/-- Only the scans of a query lend their names to its columns. -/
theorem Named.mem_of_binds (h : q.Named os) {x : String} (hx : Text.Plain x)
    (hxl : Text.lower x = x) (hn : Text.Plain n) (hb : q.binds ⟨some x, n⟩ = true) :
    x ∈ q.qualifiers := by
  rw [binds, ColumnRef.boundBy, ColumnRef.fullName, qualifiedName] at hb
  simp only [Bool.or_eq_true, Bool.and_eq_true, List.contains_iff_mem] at hb
  rcases hb with hb | hb
  · rw [Schema.indexOf?_dotted h.spells.toSpells hx hxl hn.lower.ascii, List.findIdx?_isSome,
      List.any_eq_true] at hb
    obtain ⟨o, ho, e⟩ := hb
    rw [Bool.and_eq_true, beq_iff_eq] at e
    exact (h.spells.mem_quals x).mpr ⟨o, ho, by rw [e.2]⟩
  · exact hb.1

theorem Scoped.lookIn_eq (h : q.Scoped) (row : Row) {x : Option String} (hn : Text.Plain n) :
    q.lookIn row x n = Origin.look q.origins row x n := h.from.look_eq row (readable_of_plain hn x)

theorem Scoped.lookBoth_eq {l r : Query} (hl : l.Scoped) (hr : r.Scoped) (a b : Row)
    {x : Option String} (hn : Text.Plain n) :
    l.lookBoth r a b x n = Origin.lookPair l.origins r.origins a b x n :=
  hl.from.lookPair_eq hr.from a b (readable_of_plain hn x)

theorem Scoped.binds_unqualified (h : q.Scoped) (hn : Text.Plain n) :
    q.binds ⟨none, n⟩ = q.origins.any (·.column == Text.lower n) := h.from.binds_unqualified hn

end

section

variable {l r : Query} (hl : l.Scoped) (hr : r.Scoped) (hd : l.qualifiers.Disjoint r.qualifiers)
include hl hr hd

/-- What a reference means to the left input of a join it means to the join, if the left input
provides the column. -/
theorem look_left {a b : Row} (ha : a.length = l.schema.width) {x : Option String} {n : String}
    (hn : Text.Plain n) (hb : l.binds (.of x n) = true) :
    Origin.look (l.origins ++ r.origins) (a ++ b) x n = l.lookIn a x n := by
  rw [hl.lookIn_eq a hn]
  apply Origin.look_append_left (hl.named.length_origins.trans ha.symm)
  cases x with
  | none =>
    have := hl.binds_unqualified hn.lower
    rw [hn.lower_lower] at this
    exact this ▸ hb
  | some x =>
    simp only
    rw [← hr.named.contains_qualifiers, ← Bool.not_eq_true, List.contains_iff_mem]
    intro hx
    exact hd (hl.named.mem_of_binds (hr.from.plain _ hx) (hr.from.lower_eq _ hx) hn.lower hb) hx

/-- The same of the right input, where the left one does not provide what has no qualifier. -/
theorem look_right {a b : Row} (ha : a.length = l.schema.width) {x : Option String} {n : String}
    (hn : Text.Plain n) (hb : r.binds (.of x n) = true)
    (hc : x = none → l.binds (.of none n) = false) :
    Origin.look (l.origins ++ r.origins) (a ++ b) x n = r.lookIn b x n := by
  rw [hr.lookIn_eq b hn]
  apply Origin.look_append_right (hl.named.length_origins.trans ha.symm)
  cases x with
  | none =>
    have := hl.binds_unqualified hn.lower
    rw [hn.lower_lower] at this
    exact this ▸ hc rfl
  | some x =>
    simp only
    rw [← hl.named.contains_qualifiers, ← Bool.not_eq_true, List.contains_iff_mem]
    intro hx
    exact hd hx (hr.named.mem_of_binds (hl.from.plain _ hx) (hl.from.lower_eq _ hx) hn.lower hb)

end

end Query

end RelQuery
