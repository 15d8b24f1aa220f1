import RelQuery.Proofs.Query.FilterBy
import RelQuery.Proofs.Query.Scope

/-!
# Joins of inputs that share no name

A qualified reference is looked up in the first input that owns the qualifier. Where no qualifier is
owned by both inputs of a join, each input answers over a pair of rows as it does alone.
-/

namespace RelQuery

namespace Query

/-- Whether references with this qualifier are looked up in the columns of the query. -/
def owns (q : Query) (x : String) : Bool := q.qualifiers.contains x || q.schema.hasQualifier x

def Apart (l r : Query) : Prop := ∀ x, l.owns (Text.lower x) = true → r.owns (Text.lower x) = false

def ApartJoins : Query → Prop
  | scan .. | insert .. => True
  | filter _ q | project _ _ q | aggregate _ _ _ q => q.ApartJoins
  | join _ _ _ l r => l.ApartJoins ∧ r.ApartJoins ∧ l.Apart r

section

variable {q q' l l' r r' : Query} {os os' : List Origin}

theorem owns_congr (hs : q'.schema = q.schema) (hq : ∀ x, x ∈ q'.qualifiers ↔ x ∈ q.qualifiers) :
    q'.owns = q.owns := by
  funext x
  have hcontains : q'.qualifiers.contains x = q.qualifiers.contains x := by
    rw [Bool.eq_iff_iff, List.contains_iff_mem, List.contains_iff_mem]
    exact hq x
  rw [owns, owns, hs, hcontains]

theorem lookBoth_congr (hsl : l'.schema = l.schema)
    (hql : ∀ x, x ∈ l'.qualifiers ↔ x ∈ l.qualifiers) (hsr : r'.schema = r.schema)
    (hqr : ∀ x, x ∈ r'.qualifiers ↔ x ∈ r.qualifiers) : l'.lookBoth r' = l.lookBoth r := by
  funext a b x n
  unfold lookBoth Source.look
  cases x with
  | none =>
    unfold Source.unqualified
    simp only [List.filterMap_cons, hsl, hsr]
    cases l.schema.resolve none n <;> cases r.schema.resolve none n <;> rfl
  | some x =>
    have hl : l'.owns (Text.lower x) = l.owns (Text.lower x) := by rw [owns_congr hsl hql]
    have hr : r'.owns (Text.lower x) = r.owns (Text.lower x) := by rw [owns_congr hsr hqr]
    unfold owns at hl hr
    simp only [Source.qualified, Source.owner?, List.find?_cons, List.find?_nil, Source.owns,
      Option.any_some, hl, hr, Option.or_none]
    cases l.qualifiers.contains (Text.lower x) || l.schema.hasQualifier (Text.lower x) with
    | true => simp [hsl, Source.cell]
    | false =>
      cases r.qualifiers.contains (Text.lower x) || r.schema.hasQualifier (Text.lower x) with
      | true => simp [hsr, Source.cell]
      | false => rfl

theorem meets_congr (hsl : l'.schema = l.schema)
    (hql : ∀ x, x ∈ l'.qualifiers ↔ x ∈ l.qualifiers) (hsr : r'.schema = r.schema)
    (hqr : ∀ x, x ∈ r'.qualifiers ↔ x ∈ r.qualifiers) (e : Option Expr) :
    l'.meets e r' = l.meets e r := by
  funext a b
  rw [meets, meets, lookBoth_congr hsl hql hsr hqr]

theorem Apart.congr (h : l.Apart r) (hsl : l'.schema = l.schema)
    (hql : ∀ x, x ∈ l'.qualifiers ↔ x ∈ l.qualifiers) (hsr : r'.schema = r.schema)
    (hqr : ∀ x, x ∈ r'.qualifiers ↔ x ∈ r.qualifiers) : l'.Apart r' := by
  intro x hx
  rw [owns_congr hsl hql] at hx
  rw [owns_congr hsr hqr]
  exact h x hx

theorem Named.owns_eq (h : q.Named os) (x : String) :
    q.owns (Text.lower x) = q.qualifiers.contains (Text.lower x) := by
  have howns := h.spells.owns_eq [] x
  rw [h.spells.any_scan] at howns
  exact howns

theorem Named.apart (hl : l.Named os) (hr : r.Named os')
    (hd : l.qualifiers.Disjoint r.qualifiers) : l.Apart r := by
  intro x hx
  rw [hl.owns_eq, List.contains_iff_mem] at hx
  rw [hr.owns_eq, ← Bool.not_eq_true, List.contains_iff_mem]
  exact fun hx' => hd hx hx'

theorem apartJoins_filterBy {es : List Expr} (h : q.ApartJoins) : (filterBy es q).ApartJoins := by
  unfold filterBy
  split
  · exact h
  · exact h

end

end Query

end RelQuery
