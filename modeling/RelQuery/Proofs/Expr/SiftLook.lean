import RelQuery.Proofs.Data.Sift
import RelQuery.Proofs.Expr.OriginLook
import RelQuery.Query.Pruning

/-!
# Looking up columns after sifting

Columns may be dropped without harm as long as those that a reference may mean are kept. Over
origins the look-up then answers as before, whatever that is. Over a schema of any names a look-up
that succeeded succeeds with the same value; one that failed may succeed now, because the column
that stood in its way is gone.
-/

namespace RelQuery

/-! ## Over origins -/

/-- Whether the column of this origin may be meant. -/
def ColumnRef.means (r : ColumnRef) (o : Origin) : Bool :=
  r.name == o.column && r.qualifier.all (· == o.scan)

/-- The mask keeps whatever the references may mean. -/
def Covers (required : List ColumnRef) (os : List Origin) (mask : List Bool) : Prop :=
  List.Forall₂ (fun o b => (∃ r ∈ required, r.means o = true) → b = true) os mask

theorem Covers.of_means {required : List ColumnRef} {os : List Origin} {mask : List Bool}
    (h : Covers required os mask) {r : ColumnRef} (hr : r ∈ required) :
    List.Forall₂ (fun o b => r.means o = true → b = true) os mask :=
  h.imp fun _ _ hb hm => hb ⟨r, hr, hm⟩

theorem Covers.mono {required required' : List ColumnRef} {os : List Origin} {mask : List Bool}
    (h : Covers required os mask)
    (hsub : ∀ r ∈ required', ∀ o ∈ os, r.means o = true → r ∈ required) :
    Covers required' os mask := by
  have h' := (List.forall₂_and_left os mask).mpr ⟨fun o ho => ho, h⟩
  exact h'.imp fun o b ⟨ho, hb⟩ ⟨r, hr, hm⟩ => hb ⟨r, hsub r hr o ho hm, hm⟩

theorem Covers.append {required : List ColumnRef} {os os' : List Origin} {mask mask' : List Bool}
    (h : Covers required os mask) (h' : Covers required os' mask') :
    Covers required (os ++ os') (mask ++ mask') := List.rel_append h h'

namespace Origin

theorem cellAt_congr {name : String} {row row' : Row} {i i' : Option Nat}
    (h : i'.bind (row'[·]?) = i.bind (row[·]?)) : cellAt name row' i' = cellAt name row i := by
  rw [cellAt, cellAt, h]

theorem means_of_qualified {x n : String} {o : Origin} (h : (o == ⟨Text.lower x, Text.lower n⟩) = true) :
    (ColumnRef.of (some x) n).means o = true := by
  rw [beq_iff_eq.mp h]
  simp [ColumnRef.means, ColumnRef.of]

theorem means_of_unqualified {n : String} {o : Origin} (h : (o.column == Text.lower n) = true) :
    (ColumnRef.of none n).means o = true := by
  rw [beq_iff_eq] at h
  simp [ColumnRef.means, ColumnRef.of, h]

section

variable {required : List ColumnRef} {os : List Origin} {mask : List Bool}
  (h : Covers required os mask)
  (hscan : ∀ x, (sift mask os).any (·.scan == x) = os.any (·.scan == x))
  {x : Option String} {n : String} (hr : ColumnRef.of x n ∈ required)
include h hscan hr

theorem look_sift (row : Row) : look (sift mask os) (sift mask row) x n = look os row x n := by
  have hcov := h.of_means hr
  cases x with
  | some x =>
    simp only [look, hscan]
    rw [cellAt_congr (cell_sift (hcov.imp fun _ _ hb e => hb (means_of_qualified e)) row)]
  | none => exact cellAt_congr (cell_sift (hcov.imp fun _ _ hb e => hb (means_of_unqualified e)) row)

theorem lookPair_sift {required' : List ColumnRef} {os' : List Origin} {mask' : List Bool}
    (h' : Covers required' os' mask')
    (hscan' : ∀ x, (sift mask' os').any (·.scan == x) = os'.any (·.scan == x))
    (hr' : ColumnRef.of x n ∈ required') (a b : Row) :
    lookPair (sift mask os) (sift mask' os') (sift mask a) (sift mask' b) x n =
      lookPair os os' a b x n := by
  have hl := look_sift h hscan hr a
  have hb := look_sift h' hscan' hr' b
  cases x with
  | some x =>
    simp only [lookPair, hscan]
    rw [hl, hb]
  | none =>
    have hi := isSome_findIdx?_sift ((h.of_means hr).imp fun _ _ hb e => hb (means_of_unqualified e))
    have hi' := isSome_findIdx?_sift
      ((h'.of_means hr').imp fun _ _ hb e => hb (means_of_unqualified e))
    simp only [lookPair]
    rw [hl, hb]
    cases hs : os.findIdx? (·.column == Text.lower n) <;>
      cases hs' : os'.findIdx? (·.column == Text.lower n) <;>
      cases hm : (sift mask os).findIdx? (·.column == Text.lower n) <;>
      cases hm' : (sift mask' os').findIdx? (·.column == Text.lower n) <;>
      simp_all

end

end Origin

/-! ## Over any names -/

namespace Column

variable {c : Column} (hc : Text.IsAscii c.name)
include hc

theorem qualifier?_of_lower {x n : String} (hx : Text.Plain x) (hxl : Text.lower x = x)
    (hne : x ≠ "") (h : Text.lower c.name = x ++ "." ++ n) :
    c.qualifier?.any (Text.eqIgnoringAsciiCase · x) = true := by
  have hsplit := Text.splitDot_asciiFold c.name
  rw [← hc.lower_eq, h, Text.splitDot_dotted hx.dotFree] at hsplit
  cases hs : Text.splitDot c.name with
  | none => rw [hs] at hsplit; cases hsplit
  | some p =>
    obtain ⟨q, rest⟩ := p
    rw [hs] at hsplit
    simp only [Option.map_some, Option.some.injEq, Prod.mk.injEq] at hsplit
    have hq : q.isEmpty = false := by
      rw [← Bool.not_eq_true, String.isEmpty_iff]
      rintro rfl
      exact hne (hsplit.1.trans (Text.asciiFold_eq_empty.mpr rfl))
    rw [qualifier?, hs]
    simp only [hq, Bool.false_eq_true, if_false, Option.any_some, Text.eqIgnoringAsciiCase]
    rw [← hsplit.1, ← hx.ascii.lower_eq, hxl, beq_self_eq_true]

theorem plain_of_qualifier? {x : String} (hx : Text.asciiFold x = x)
    (h : c.qualifier?.any (Text.eqIgnoringAsciiCase · x) = true) :
    Text.Plain x ∧ Text.lower x = x ∧ x ≠ "" := by
  rw [qualifier?] at h
  cases hs : Text.splitDot c.name with
  | none => rw [hs] at h; cases h
  | some p =>
    obtain ⟨q, rest⟩ := p
    obtain ⟨hfree, hname⟩ := Text.of_splitDot hs
    rw [hs] at h
    by_cases hq : q.isEmpty = true
    · simp [hq] at h
    · simp only [hq, Bool.false_eq_true, if_false, Option.any_some, Text.eqIgnoringAsciiCase,
        beq_iff_eq, hx] at h
      have hascii : Text.IsAscii q := (Text.IsAscii.of_dotted (hname ▸ hc)).1
      have hplain : Text.Plain x := by rw [← h]; exact ⟨hascii.fold, hfree.fold⟩
      refine ⟨hplain, by rw [hplain.ascii.lower_eq, hx], ?_⟩
      rintro rfl
      exact hq (String.isEmpty_iff.mpr (Text.asciiFold_eq_empty.mp h))

/-- The bare name of a column is what stands behind its first dot, or all of it. -/
theorem behindDot_of_bareName {n : String} (hn : Text.Plain n)
    (h : Text.eqIgnoringAsciiCase c.bareName n = true) :
    Text.lower c.name = Text.lower n ∨ nameBehindDot (Text.lower c.name) = Text.lower n := by
  rw [Text.eqIgnoringAsciiCase, beq_iff_eq, ← hn.ascii.lower_eq, bareName] at h
  rw [hc.lower_eq, nameBehindDot, Text.splitDot_asciiFold]
  cases hs : Text.splitDot c.name with
  | none =>
    rw [hs] at h
    exact .inl h
  | some p =>
    obtain ⟨q, rest⟩ := p
    rw [hs] at h
    by_cases hq : q.isEmpty = true
    · simp only [hq, if_true] at h
      exact .inl h
    · simp only [hq, Bool.false_eq_true, if_false] at h
      exact .inr h

end Column

theorem bind_or_congr {α β : Type} {i j i' j' : Option α} {f g : α → Option β}
    (hs : i'.isSome = i.isSome) (hi : i'.bind g = i.bind f) (hj : j'.bind g = j.bind f) :
    (i'.or j').bind g = (i.or j).bind f := by
  cases i <;> cases i' <;> first | exact hj | exact hi | cases hs

section

variable {s : Schema} {mask : List Bool} {quals : List String}
  (hascii : ∀ c ∈ s.columns, Text.IsAscii c.name)
include hascii

omit hascii in
/-- A mask that keeps what a reference means keeps the columns of every narrower kind. -/
theorem forall₂_of_meansItem {r : ColumnRef} {p : Column → Bool}
    (hcov : List.Forall₂ (fun c b => r.meansItem c.name = true → b = true) s.columns mask)
    (hp : ∀ c ∈ s.columns, p c = true → r.meansItem c.name = true) :
    List.Forall₂ (fun c b => p c = true → b = true) s.columns mask := by
  have h := (List.forall₂_and_left s.columns mask).mpr ⟨fun c hc => hc, hcov⟩
  exact h.imp fun c b ⟨hc, hb⟩ e => hb (hp c hc e)

theorem look_sift_unqualified {n : String} (hn : Text.Plain n)
    (hcov : List.Forall₂ (fun c b => (ColumnRef.of none n).meansItem c.name = true → b = true)
      s.columns mask) (row : Row) :
    Source.look [⟨sift mask row, ⟨sift mask s.columns⟩, some quals⟩] none n =
      Source.look [⟨row, s, some quals⟩] none n := by
  rw [Source.look_unqualified, Source.look_unqualified]
  apply Origin.cellAt_congr
  have hfull := forall₂_of_meansItem (p := fun c => Text.lower c.name == Text.lower n) hcov
    fun c _ e => by simp [ColumnRef.meansItem, ColumnRef.of, beq_iff_eq.mp e]
  have hbare := forall₂_of_meansItem (p := fun c => Text.eqIgnoringAsciiCase c.bareName n)
    hcov fun c hc e => by
      rcases Column.behindDot_of_bareName (hascii c hc) hn e with h | h <;>
        simp [ColumnRef.meansItem, ColumnRef.of, h]
  exact bind_or_congr (isSome_findIdx?_sift hfull) (cell_sift hfull row) (cell_sift hbare row)

/-- A look-up that succeeded succeeds when columns are dropped that the reference cannot mean. -/
theorem look_sift_ok (hquals : ∀ y ∈ quals, Text.Plain y ∧ Text.lower y = y ∧ y ≠ "")
    {x : Option String} {n : String} (hn : Text.Plain n)
    (hcov : List.Forall₂ (fun c b => (ColumnRef.of x n).meansItem c.name = true → b = true)
      s.columns mask) (row : Row) {v : Value}
    (h : Source.look [⟨row, s, some quals⟩] x n = .ok v) :
    Source.look [⟨sift mask row, ⟨sift mask s.columns⟩, some quals⟩] x n = .ok v := by
  cases x with
  | none => rw [look_sift_unqualified hascii hn hcov, h]
  | some x =>
    rw [Source.look_qualified] at h ⊢
    split at h
    case isFalse => cases h
    rename_i hown
    -- whoever owns the qualifier, it is a plain name in lower case
    have hx : Text.Plain (Text.lower x) ∧ Text.lower (Text.lower x) = Text.lower x ∧
        Text.lower x ≠ "" := by
      rw [Source.owns, Bool.or_eq_true, Option.any_some, List.contains_iff_mem] at hown
      rcases hown with hown | hown
      · exact hquals _ hown
      · obtain ⟨c, hc, hq⟩ := List.any_eq_true.mp hown
        exact Column.plain_of_qualifier? (hascii c hc) (Text.asciiFold_lower x) hq
    obtain ⟨hplain, hlow, hne⟩ := hx
    have hname : Text.lower (Text.lower x ++ "." ++ n) = Text.lower x ++ "." ++ Text.lower n := by
      rw [Text.lower_dotted hplain.ascii hn.ascii.sigma_notMem, hlow]
    have hfull := forall₂_of_meansItem
      (p := fun c => Text.lower c.name == Text.lower (Text.lower x ++ "." ++ n)) hcov
      fun c _ e => by
        rw [hname, beq_iff_eq] at e
        simp [ColumnRef.meansItem, ColumnRef.of, ColumnRef.fullName, qualifiedName, e]
    have hbare := forall₂_of_meansItem (p := fun c => Text.lower c.name == Text.lower n) hcov
      fun c _ e => by simp [ColumnRef.meansItem, ColumnRef.of, beq_iff_eq.mp e]
    have hsome : ((⟨sift mask s.columns⟩ : Schema).indexOf? (Text.lower x ++ "." ++ n)).isSome =
        (s.indexOf? (Text.lower x ++ "." ++ n)).isSome := isSome_findIdx?_sift hfull
    have hcell : ((⟨sift mask s.columns⟩ : Schema).indexOf? (Text.lower x ++ "." ++ n)).bind
        ((sift mask row)[·]?) = (s.indexOf? (Text.lower x ++ "." ++ n)).bind (row[·]?) :=
      cell_sift hfull row
    have hcell' : ((⟨sift mask s.columns⟩ : Schema).indexOf? n).bind ((sift mask row)[·]?) =
        (s.indexOf? n).bind (row[·]?) := cell_sift hbare row
    have howns : ∀ s' row', (⟨row', s', some quals⟩ : Source).owns (Text.lower x) =
        (quals.contains (Text.lower x) || s'.hasQualifier (Text.lower x)) := fun _ _ => rfl
    rw [Schema.resolve] at h ⊢
    cases hi : s.indexOf? (Text.lower x ++ "." ++ n) with
    | some i =>
      -- the column of the full name is kept, and it carries the qualifier
      have hkept : (⟨sift mask s.columns⟩ : Schema).hasQualifier (Text.lower x) = true := by
        have hany : (sift mask s.columns).any
            fun c => Text.lower c.name == Text.lower (Text.lower x ++ "." ++ n) := by
          rw [any_sift hfull, ← List.findIdx?_isSome]
          exact Option.isSome_iff_exists.mpr ⟨i, hi⟩
        obtain ⟨c, hc, e⟩ := List.any_eq_true.mp hany
        rw [hname, beq_iff_eq] at e
        exact List.any_eq_true.mpr
          ⟨c, hc, Column.qualifier?_of_lower (hascii c (mem_of_mem_sift hc)) hplain hlow hne e⟩
      rw [howns, hkept, Bool.or_true, if_pos rfl]
      rw [hi, Option.some_or] at h
      rw [hi] at hsome hcell
      obtain ⟨j, hj⟩ := Option.isSome_iff_exists.mp hsome
      rw [hj, Option.some_or, ← h]
      rw [hj] at hcell
      exact Origin.cellAt_congr hcell
    | none =>
      -- no column carries the qualifier, or else the reference would be unknown
      rw [hi, Option.none_or] at h
      have hfree : s.hasQualifier (Text.lower x) = false := by
        rw [← Bool.not_eq_true]
        intro hq
        rw [if_pos hq] at h
        cases h
      have hfree' : (⟨sift mask s.columns⟩ : Schema).hasQualifier (Text.lower x) = false :=
        any_sift_of_any_eq_false hfree mask
      rw [howns, hfree, Bool.or_false] at hown
      rw [hi, Option.isSome_none, Option.isSome_eq_false_iff, Option.isNone_iff_eq_none] at hsome
      rw [howns, hown, Bool.true_or, if_pos rfl, hsome, Option.none_or, hfree',
        if_neg Bool.false_ne_true, ← h, if_neg (by rw [hfree]; exact Bool.false_ne_true)]
      exact Origin.cellAt_congr hcell'

end

end RelQuery
