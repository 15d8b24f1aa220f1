import Mathlib.Data.List.Induction
import Mathlib.Data.List.Nodup

/-!
# First appearances and leading elements

The elements of a list fall into groups by a key, and the keys come in the order in which they appear
first. Of the elements of a list one leads: it is kept as long as it is at most the next.
-/

namespace RelQuery

/-! ## Keys in the order of their first appearance -/

section

variable {α κ : Type} [BEq κ] [LawfulBEq κ]

theorem eraseDups_concat (ks : List κ) (k : κ) :
    (ks ++ [k]).eraseDups = if k ∈ ks then ks.eraseDups else ks.eraseDups ++ [k] := by
  rw [List.eraseDups_append]
  by_cases hk : k ∈ ks <;> simp [List.removeAll, List.eraseDups_cons, hk]

theorem nodup_eraseDups (ks : List κ) : ks.eraseDups.Nodup := by
  induction ks using List.reverseRecOn with
  | nil => simp
  | append_singleton ks k ih =>
    rw [eraseDups_concat]
    split
    · exact ih
    · rename_i hk
      rw [List.nodup_append']
      exact ⟨ih, List.nodup_singleton k, by simpa using hk⟩

/-- Every element is in the group of its key and in no other. -/
theorem flatMap_filter_perm {f : α → κ} {xs : List α} : ∀ {ks : List κ}, ks.Nodup →
    (∀ x ∈ xs, f x ∈ ks) → (ks.flatMap fun k => xs.filter (f · == k)).Perm xs
  | [], _, h => by
    rw [List.eq_nil_iff_forall_not_mem.mpr fun x hx => List.not_mem_nil (h x hx)]
    exact .nil
  | k :: ks, hks, h => by
    rw [List.nodup_cons] at hks
    rw [List.flatMap_cons]
    -- the groups of the other keys are those of the elements whose key is not `k`
    have hrest : (ks.flatMap fun k' => xs.filter (f · == k')) =
        ks.flatMap fun k' => (xs.filter fun x => !(f x == k)).filter (f · == k') := by
      refine List.flatMap_congr fun k' hk' => ?_
      rw [List.filter_filter]
      refine List.filter_congr fun x _ => ?_
      have hne : f x = k' → f x ≠ k := fun hx hxk => hks.1 (hxk ▸ hx ▸ hk')
      by_cases hx : f x = k' <;> simp [hx]
      exact fun hk => hne hx (hx.trans hk)
    rw [hrest]
    refine .trans (.append_left _ (flatMap_filter_perm hks.2 ?_)) (List.filter_append_perm _ xs)
    intro x hx
    rw [List.mem_filter] at hx
    exact (List.mem_cons.mp (h x hx.1)).resolve_left (by simpa using hx.2)

end

/-! ## The leading element -/

section

variable {α : Type} {le : α → α → Bool}

/-- The element kept so far, or the next one where that is not at most it. -/
def keepLeading (le : α → α → Bool) (kept : Option α) (x : α) : Option α :=
  match kept with
  | none => some x
  | some y => some (if le y x then y else x)

def leading? (le : α → α → Bool) (xs : List α) : Option α := xs.foldl (keepLeading le) none

theorem leading?_concat (xs : List α) (z : α) :
    leading? le (xs ++ [z]) = keepLeading le (leading? le xs) z := by
  rw [leading?, List.foldl_append]
  rfl

theorem leading?_eq_none {xs : List α} : leading? le xs = none ↔ xs = [] := by
  rcases List.eq_nil_or_concat xs with rfl | ⟨ys, z, rfl⟩
  · exact iff_of_true rfl rfl
  · rw [List.concat_eq_append, leading?_concat]
    cases leading? le ys <;> simp [keepLeading]

theorem mem_of_leading? {xs : List α} {x : α} (h : leading? le xs = some x) : x ∈ xs := by
  induction xs using List.reverseRecOn with
  | nil => cases h
  | append_singleton xs z ih =>
    rw [leading?_concat] at h
    cases hxs : leading? le xs with
    | none =>
      rw [hxs] at h
      cases h
      simp
    | some y =>
      rw [hxs, keepLeading] at h
      split at h <;> cases h
      · exact List.mem_append_left _ (ih hxs)
      · simp

/-- Where the relation orders the elements, the first of the least ones leads. -/
theorem leading?_eq_find? (htotal : ∀ x y, le x y = true ∨ le y x = true) {xs : List α}
    (htrans : ∀ x ∈ xs, ∀ y ∈ xs, ∀ z ∈ xs, le x y = true → le y z = true → le x z = true) :
    leading? le xs = xs.find? fun x => xs.all (le x ·) := by
  induction xs using List.reverseRecOn with
  | nil => rfl
  | append_singleton xs z ih =>
    have hrefl : le z z = true := (htotal z z).elim id id
    have hmem : ∀ {x}, x ∈ xs → x ∈ xs ++ [z] := List.mem_append_left [z]
    have ih := ih fun x hx y hy w hw => htrans x (hmem hx) y (hmem hy) w (hmem hw)
    rw [leading?_concat, List.find?_append]
    cases hfound : xs.find? fun x => xs.all (le x ·) with
    | none =>
      rw [hfound, leading?_eq_none] at ih
      simp [ih, leading?, keepLeading, hrefl]
    | some y =>
      rw [ih, hfound]
      obtain ⟨hleast, before, behind, hxs, hbefore⟩ := List.find?_eq_some_iff_append.mp hfound
      rw [List.all_eq_true] at hleast
      have hy : y ∈ xs := List.mem_of_find?_eq_some hfound
      by_cases hyz : le y z = true
      · have hkept : xs.find? (fun x => (xs ++ [z]).all (le x ·)) = some y := by
          rw [List.find?_eq_some_iff_append]
          refine ⟨by simpa [hyz] using hleast, before, behind, hxs, fun x hx => ?_⟩
          have := hbefore x hx
          simp only [List.all_append, Bool.not_and, this, Bool.true_or]
        rw [hkept, Option.some_or, keepLeading, if_pos hyz]
      · have hzy : le z y = true := (htotal z y).resolve_right hyz
        have hnone : xs.find? (fun x => (xs ++ [z]).all (le x ·)) = none := by
          rw [List.find?_eq_none]
          intro x hx hall
          rw [List.all_eq_true] at hall
          exact hyz (htrans y (hmem hy) x (hmem hx) z (by simp) (hleast x hx) (hall z (by simp)))
        have hz : (xs ++ [z]).all (le z ·) = true := by
          have hall : ∀ x ∈ xs, le z x = true := fun x hx =>
            htrans z (by simp) y (hmem hy) x (hmem hx) hzy (hleast x hx)
          simpa [hrefl] using hall
        rw [hnone, Option.none_or, keepLeading, if_neg hyz, List.find?_cons, hz]

end

end RelQuery
