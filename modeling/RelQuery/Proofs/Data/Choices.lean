import Mathlib.Data.Multiset.Bind
import Mathlib.Logic.Function.Basic

/-!
# Choosing from many lists

`choices R ps σ` are all ways to choose, for each of the places `ps`, an element of the list at that
place; elsewhere they are as `σ` is. The order of the places does not matter.
-/

namespace RelQuery

variable {α : Type}

theorem coe_filter (p : α → Bool) (xs : List α) :
    (xs.filter p : Multiset α) = (xs : Multiset α).filter (p · = true) := by
  rw [Multiset.filter_coe]
  simp

variable (R : Nat → List α)

def choices : List Nat → (Nat → α) → Multiset (Nat → α)
  | [], σ => {σ}
  | p :: ps, σ => (R p : Multiset α).bind fun a => choices ps (Function.update σ p a)

theorem choices_append (ps qs : List Nat) (σ : Nat → α) :
    choices R (ps ++ qs) σ = (choices R ps σ).bind (choices R qs) := by
  induction ps generalizing σ with
  | nil => simp [choices]
  | cons p ps ih =>
    simp only [List.cons_append, choices, Multiset.bind_assoc]
    exact Multiset.bind_congr fun a _ => ih _

variable {R}

theorem of_mem_choices {ps : List Nat} {σ τ : Nat → α} (h : τ ∈ choices R ps σ) :
    (∀ p ∈ ps, τ p ∈ R p) ∧ ∀ p, p ∉ ps → τ p = σ p := by
  induction ps generalizing σ with
  | nil =>
    rw [choices, Multiset.mem_singleton] at h
    simp [h]
  | cons q ps ih =>
    rw [choices, Multiset.mem_bind] at h
    obtain ⟨a, ha, h⟩ := h
    obtain ⟨hin, hout⟩ := ih h
    refine ⟨fun p hp => ?_, fun p hp => ?_⟩
    · by_cases hps : p ∈ ps
      · exact hin p hps
      · -- chosen here and not again
        have hpq : p = q := by simpa [hps] using hp
        rw [hout p hps, hpq, Function.update_self]
        exact ha
    · rw [List.mem_cons, not_or] at hp
      rw [hout p hp.2, Function.update_of_ne hp.1]

theorem mem_choices_self {ps : List Nat} {σ : Nat → α} (h : ∀ p ∈ ps, σ p ∈ R p) :
    σ ∈ choices R ps σ := by
  induction ps with
  | nil => simp [choices]
  | cons p ps ih =>
    rw [choices, Multiset.mem_bind]
    refine ⟨σ p, h p List.mem_cons_self, ?_⟩
    rw [Function.update_eq_self]
    exact ih fun q hq => h q (List.mem_cons_of_mem p hq)

theorem choices_perm {ps qs : List Nat} (h : ps.Perm qs) (hnodup : ps.Nodup) (σ : Nat → α) :
    choices R ps σ = choices R qs σ := by
  induction h generalizing σ with
  | nil => rfl
  | cons p _ ih =>
    simp only [choices]
    exact Multiset.bind_congr fun a _ => ih hnodup.of_cons _
  | swap p q ps =>
    have hne : p ≠ q := by
      rintro rfl
      simp at hnodup
    simp only [choices]
    rw [Multiset.bind_bind]
    refine Multiset.bind_congr fun a _ => Multiset.bind_congr fun b _ => ?_
    rw [Function.update_comm hne]
  | trans hpq _ ih₁ ih₂ => rw [ih₁ hnodup, ih₂ (hpq.nodup_iff.mp hnodup)]

end RelQuery
