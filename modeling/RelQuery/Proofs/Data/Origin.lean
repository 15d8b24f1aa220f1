import RelQuery.Data.Schema
import RelQuery.Proofs.Data.Lists
import RelQuery.Proofs.Text.Names

/-!
# Where columns come from

Under a join, every column belongs to one column of one scan: its origin. A schema spells a list of
origins when the columns of its leading scan have bare names, all others the name of their scan in
front of a dot, and the leading ones come first. `Schema.resolve` then answers in terms of origins
alone: a qualified reference means the column of that origin, an unqualified one the first of that
name.
-/

namespace RelQuery

/-- A scan's name and one of its columns' names, in lower case. -/
structure Origin where
  scan : String
  column : String
deriving DecidableEq

/-- How the column of this origin is called where the scan `lead` comes first. -/
def Origin.Spells (lead : String) (o : Origin) (name : String) : Prop :=
  if o.scan = lead then Text.Plain name ∧ Text.lower name = o.column
  else
    ∃ q n, Text.Plain q ∧ q ≠ "" ∧ Text.Plain n ∧ Text.lower q = o.scan ∧
      Text.lower n = o.column ∧ name = q ++ "." ++ n

namespace Schema

structure Spells (lead : String) (os : List Origin) (s : Schema) : Prop where
  names : List.Forall₂ (fun o c => o.Spells lead c.name) os s.columns
  leadFirst : os.Pairwise fun o o' => o'.scan = lead → o.scan = lead

end Schema

/-! ## Names of columns -/

namespace Column

theorem bareName_plain {c : Column} (h : Text.Plain c.name) : c.bareName = c.name := by
  rw [bareName, Text.splitDot_dotFree h.dotFree]

theorem qualifier?_plain {c : Column} (h : Text.Plain c.name) : c.qualifier? = none := by
  rw [qualifier?, Text.splitDot_dotFree h.dotFree]

theorem bareName_dotted {c : Column} {q n : String} (hq : Text.Plain q) (hne : q ≠ "")
    (h : c.name = q ++ "." ++ n) : c.bareName = n := by
  rw [bareName, h, Text.splitDot_dotted hq.dotFree]
  simp [hne]

theorem qualifier?_dotted {c : Column} {q n : String} (hq : Text.Plain q) (hne : q ≠ "")
    (h : c.name = q ++ "." ++ n) : c.qualifier? = some q := by
  rw [qualifier?, h, Text.splitDot_dotted hq.dotFree]
  simp [hne]

end Column

namespace Origin

/-- The first of the leading ones, or else the first of all, is the first of all. -/
theorem findIdx?_lead {lead : String} {p : Origin → Bool} : ∀ {os : List Origin},
    os.Pairwise (fun o o' => o'.scan = lead → o.scan = lead) →
      (os.findIdx? fun o => o.scan == lead && p o).or (os.findIdx? p) = os.findIdx? p
  | [], _ => rfl
  | o :: os, h => by
    rw [List.pairwise_cons] at h
    rw [List.findIdx?_cons, List.findIdx?_cons]
    by_cases hp : p o
    · by_cases hl : o.scan = lead
      · simp [hp, hl]
      · -- `o` does not belong to the leading scan, so none behind it does
        have hnone : (os.findIdx? fun o => o.scan == lead && p o) = none := by
          rw [List.findIdx?_eq_none_iff]
          intro o' ho'
          have : o'.scan ≠ lead := fun e => hl (h.1 o' ho' e)
          simp [this]
        simp [hp, hl, hnone]
    · have ih := findIdx?_lead (p := p) h.2
      simp only [hp, Bool.and_false, Bool.false_eq_true, if_false]
      rw [← Option.map_or, ih]

end Origin

/-! ## Finding columns by origin -/

namespace Schema

section
variable {lead : String} {os : List Origin} {s : Schema} (h : s.Spells lead os)
include h

theorem Spells.width : os.length = s.width := h.names.length_eq

theorem indexOf?_plain {n : String} (hn : Text.DotFree (Text.lower n)) :
    s.indexOf? n = os.findIdx? fun o => o.scan == lead && o.column == Text.lower n := by
  refine findIdx?_eq_of_forall₂ (fun o c hoc => ?_) h.names
  unfold Origin.Spells at hoc
  split at hoc
  · rename_i hl
    simp [hl, hoc.2]
  · rename_i hl
    obtain ⟨q, m, hq, -, hm, -, -, hname⟩ := hoc
    have : Text.lower c.name ≠ Text.lower n := by
      intro e
      rw [hname, Text.lower_dotted hq.ascii hm.ascii.sigma_notMem] at e
      exact Text.not_dotFree_dotted _ _ (e ▸ hn)
    rw [beq_false_of_ne hl, beq_false_of_ne this, Bool.false_and]

theorem indexOf?_dotted {x n : String} (hx : Text.Plain x) (hxl : Text.lower x = x)
    (hn : Text.IsAscii (Text.lower n)) :
    s.indexOf? (x ++ "." ++ n) =
      os.findIdx? fun o => o.scan != lead && o == ⟨x, Text.lower n⟩ := by
  refine findIdx?_eq_of_forall₂ (fun o c hoc => ?_) h.names
  have hxn := Text.lower_dotted hx.ascii (Text.sigma_notMem_of_ascii_lower hn)
  rw [hxl] at hxn
  unfold Origin.Spells at hoc
  split at hoc
  · rename_i hl
    have : Text.lower c.name ≠ Text.lower (x ++ "." ++ n) := by
      intro e
      rw [hxn] at e
      exact Text.not_dotFree_dotted _ _ (e ▸ hoc.1.lower.dotFree)
    simp [hl, this]
  · rename_i hl
    obtain ⟨q, m, hq, -, hm, hqo, hmo, hname⟩ := hoc
    rw [hname, Text.lower_dotted hq.ascii hm.ascii.sigma_notMem, hxn, hqo, hmo]
    have hl' : (o.scan != lead) = true := by simpa using hl
    rw [hl', Bool.true_and, Bool.eq_iff_iff, beq_iff_eq, beq_iff_eq]
    constructor
    · rintro rfl; rfl
    · intro e
      obtain ⟨e1, e2⟩ := Text.dotted_inj (hqo ▸ hq.lower.dotFree) hx.dotFree e
      cases o; simp_all

theorem indexOfBare?_plain {n : String} (hn : Text.Plain n) :
    s.indexOfBare? n = os.findIdx? fun o => o.column == Text.lower n := by
  refine findIdx?_eq_of_forall₂ (fun o c hoc => ?_) h.names
  have hbare : Text.Plain c.bareName ∧ Text.lower c.bareName = o.column := by
    unfold Origin.Spells at hoc
    split at hoc
    · rw [Column.bareName_plain hoc.1]; exact hoc
    · obtain ⟨q, m, hq, hne, hm, -, hmo, hname⟩ := hoc
      rw [Column.bareName_dotted hq hne hname]; exact ⟨hm, hmo⟩
  rw [Text.eqIgnoringAsciiCase, ← hbare.1.ascii.lower_eq, ← hn.ascii.lower_eq, hbare.2]

theorem hasQualifier_eq {x : String} (hx : Text.asciiFold x = x) :
    s.hasQualifier x = os.any fun o => o.scan != lead && o.scan == x := by
  refine any_eq_of_forall₂ (fun o c hoc => ?_) h.names
  unfold Origin.Spells at hoc
  split at hoc
  · rename_i hl
    simp [Column.qualifier?_plain hoc.1, hl]
  · rename_i hl
    obtain ⟨q, m, hq, hne, -, hqo, -, hname⟩ := hoc
    have hl' : (o.scan != lead) = true := by simpa using hl
    rw [Column.qualifier?_dotted hq hne hname, Option.any_some, Text.eqIgnoringAsciiCase,
      ← hq.ascii.lower_eq, hqo, hx, hl', Bool.true_and]

theorem resolve_unqualified {n : String} (hn : Text.Plain n) :
    s.resolve none n = os.findIdx? fun o => o.column == Text.lower n := by
  rw [resolve, indexOf?_plain h hn.lower.dotFree, indexOfBare?_plain h hn]
  exact Origin.findIdx?_lead h.leadFirst

theorem resolve_qualified {x n : String} (hx : Text.Plain x) (hxl : Text.lower x = x)
    (hn : Text.Plain (Text.lower n)) (hmem : ∃ o ∈ os, o.scan = x) :
    s.resolve (some x) n = os.findIdx? (· == ⟨x, Text.lower n⟩) := by
  have hfold : Text.asciiFold x = x := by rw [← hx.ascii.lower_eq, hxl]
  rw [resolve, indexOf?_dotted h hx hxl hn.ascii, hasQualifier_eq h hfold,
    indexOf?_plain h hn.dotFree]
  by_cases hl : x = lead
  · have hq : (os.any fun o => o.scan != lead && o.scan == x) = false := by
      rw [List.any_eq_false]
      intro o _; simp [hl]
    have hd : (os.findIdx? fun o => o.scan != lead && o == ⟨x, Text.lower n⟩) = none := by
      rw [List.findIdx?_eq_none_iff]
      intro o _
      rw [Bool.and_eq_false_iff]
      by_cases e : o = ⟨x, Text.lower n⟩
      · exact .inl (by simp [e, hl])
      · exact .inr (by simpa using e)
    rw [hq, hd, Option.none_or, if_neg (by decide)]
    congr 1; funext o; subst hl
    cases o; simp [Origin.mk.injEq, Bool.beq_eq_decide_eq, Bool.decide_and]
  · have hq : (os.any fun o => o.scan != lead && o.scan == x) = true := by
      obtain ⟨o, ho, rfl⟩ := hmem
      rw [List.any_eq_true]
      exact ⟨o, ho, by simpa using hl⟩
    rw [hq, if_pos rfl, Option.or_none]
    congr 1; funext o
    by_cases e : o = ⟨x, Text.lower n⟩
    · simp [e, hl]
    · simp [e]

end

end Schema

end RelQuery
