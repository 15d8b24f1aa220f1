import RelQuery.Proofs.Query.Over

/-!
# Coherent queries

The builders give a projection its items' names, and a join the schema that its inputs make. A query
in which all nodes are so is coherent, whatever its scans and insertions are. What the builders make
over a catalog is coherent and over the catalog.
-/

namespace RelQuery.Query

def Coherent : Query → Prop
  | scan .. | insert .. => True
  | filter _ q => q.Coherent
  | project is s q => s.names = is.map (·.name) ∧ q.Coherent
  | aggregate _ _ _ q => q.Coherent
  | join _ _ s l r => s = l.schema.join r.schema r.qualifier ∧ l.Coherent ∧ r.Coherent

instance decidableCoherent : ∀ q : Query, Decidable q.Coherent
  | scan .. | insert .. => inferInstanceAs (Decidable True)
  | filter _ q | aggregate _ _ _ q => decidableCoherent q
  | project _ _ q =>
    have := decidableCoherent q
    inferInstanceAs (Decidable (_ ∧ _))
  | join _ _ _ l r =>
    have := decidableCoherent l
    have := decidableCoherent r
    inferInstanceAs (Decidable (_ ∧ _ ∧ _))

theorem names_itemSchema {input s : Schema} {is : List Item} (h : itemSchema input is = .ok s) :
    s.names = is.map (·.name) := by
  have hboth := forall₂_itemSchema h
  refine List.ext_getElem (by simp [Schema.names, hboth.length_eq]) fun i hi hi' => ?_
  have := hboth.get (by simpa using hi') (by simpa [Schema.names] using hi)
  simpa [Schema.names] using this.1

theorem IsOver.coherent {c : Catalog} : ∀ {q : Query}, q.IsOver c → q.Coherent
  | scan .., _ => trivial
  | filter _ q, h => IsOver.coherent (q := q) h
  | project .., h => ⟨names_itemSchema h.1, h.2.coherent⟩
  | aggregate _ _ _ q, h => IsOver.coherent (q := q) h.2
  | join .., ⟨hs, hl, hr⟩ => ⟨hs, hl.coherent, hr.coherent⟩

/-! ## Queries from the builders -/

/-- Made by the builders over the tables of a catalog. -/
inductive Built (c : Catalog) : Query → Prop
  | scan {name : String} {asName : Option String} {q : Query} :
    scanTable c name asName = .ok q → Built c q
  | filter {q : Query} (e : Expr) : Built c q → Built c (.filter e q)
  | project {is : List Item} {q q' : Query} : Built c q → projectOf is q = .ok q' → Built c q'
  | aggregate {gs : List Expr} {os : List Item} {q q' : Query} :
    Built c q → aggregateOf gs os q = .ok q' → Built c q'
  | join {l r : Query} (k : JoinKind) (e : Option Expr) :
    Built c l → Built c r → Built c (joinOf k e l r)

theorem Built.isOver {c : Catalog} {q : Query} (h : Built c q) : q.IsOver c := by
  induction h with
  | @scan name _ _ h =>
    rw [scanTable, Catalog.table] at h
    cases ht : c.find? name with
    | none =>
      rw [ht] at h
      cases h
    | some t =>
      rw [ht] at h
      cases h
      exact ⟨t, Catalog.find?_name ht, rfl⟩
  | filter _ _ ih => exact ih
  | project _ h ih =>
    obtain ⟨s, hs, h⟩ := bind_eq_ok_iff.mp h
    cases h
    exact ⟨hs, ih⟩
  | aggregate _ h ih =>
    obtain ⟨s, hs, h⟩ := bind_eq_ok_iff.mp h
    cases h
    exact ⟨hs, ih⟩
  | join _ _ _ _ ihl ihr => exact ⟨rfl, ihl, ihr⟩

/-- What the builders return has the schemas that the results about plans and passes ask for. -/
theorem Built.isOver_and_coherent {c : Catalog} {q : Query} (h : Built c q) :
    q.IsOver c ∧ q.Coherent := ⟨h.isOver, h.isOver.coherent⟩

end RelQuery.Query
