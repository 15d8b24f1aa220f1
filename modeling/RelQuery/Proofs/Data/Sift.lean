import Mathlib.Data.List.Forall2
import RelQuery.Data.Schema

/-!
# Sifting columns

Columns are dropped by a mask with one mark per column. `sift` drops the elements of a list that the
mask does not keep: columns, their origins and the cells of a row alike. What is first of its kind
among the columns stays first if it is kept, and its cell goes with it.
-/

namespace RelQuery

variable {α β : Type}

def sift : List Bool → List α → List α
  | true :: mask, x :: xs => x :: sift mask xs
  | false :: mask, _ :: xs => sift mask xs
  | _, _ => []

theorem sift_nil (mask : List Bool) : sift mask ([] : List α) = [] := by
  cases mask with
  | nil => rfl
  | cons b mask => cases b <;> rfl

theorem sift_append : ∀ {mask : List Bool} {xs : List α}, mask.length = xs.length →
    ∀ (mask' : List Bool) (ys : List α), sift (mask ++ mask') (xs ++ ys) = sift mask xs ++ sift mask' ys
  | [], [], _, _, _ => rfl
  | b :: mask, x :: xs, h, mask', ys => by
    have ih := sift_append (Nat.succ.inj h) mask' ys
    cases b with
    | true => exact congrArg (x :: ·) ih
    | false => exact ih

theorem sift_map (f : α → β) : ∀ (mask : List Bool) (xs : List α),
    sift mask (xs.map f) = (sift mask xs).map f
  | [], _ => rfl
  | b :: mask, [] => by rw [List.map_nil, sift_nil, sift_nil, List.map_nil]
  | true :: mask, x :: xs => congrArg (f x :: ·) (sift_map f mask xs)
  | false :: mask, _ :: xs => sift_map f mask xs

theorem zip_sift : ∀ (mask : List Bool) (xs : List α) (ys : List β),
    (sift mask xs).zip (sift mask ys) = sift mask (xs.zip ys)
  | [], _, _ => rfl
  | _ :: _, [], _ => by rw [sift_nil, List.zip_nil_left, List.zip_nil_left, sift_nil]
  | _ :: _, _ :: _, [] => by rw [sift_nil, List.zip_nil_right, List.zip_nil_right, sift_nil]
  | true :: mask, x :: xs, y :: ys => congrArg ((x, y) :: ·) (zip_sift mask xs ys)
  | false :: mask, _ :: xs, _ :: ys => zip_sift mask xs ys

theorem sift_marks (keep : α → Bool) : ∀ xs : List α, sift (xs.map keep) xs = xs.filter keep
  | [] => rfl
  | x :: xs => by
    rw [List.map_cons, List.filter_cons]
    cases keep x with
    | true => exact congrArg (x :: ·) (sift_marks keep xs)
    | false => exact sift_marks keep xs

theorem mem_of_mem_sift : ∀ {mask : List Bool} {xs : List α} {x : α}, x ∈ sift mask xs → x ∈ xs
  | true :: mask, y :: xs, x, h => by
    rcases List.mem_cons.mp h with rfl | h
    · exact List.mem_cons_self
    · exact List.mem_cons_of_mem _ (mem_of_mem_sift h)
  | false :: mask, _ :: xs, x, h => List.mem_cons_of_mem _ (mem_of_mem_sift h)

theorem sift_sublist : ∀ (mask : List Bool) (xs : List α), (sift mask xs).Sublist xs
  | [], _ => List.nil_sublist _
  | b :: mask, [] => by rw [sift_nil]
  | true :: mask, x :: xs => (sift_sublist mask xs).cons_cons x
  | false :: mask, x :: xs => (sift_sublist mask xs).cons x

theorem forall₂_sift {R : α → β → Prop} (mask : List Bool) {xs : List α} {ys : List β}
    (h : List.Forall₂ R xs ys) : List.Forall₂ R (sift mask xs) (sift mask ys) := by
  induction h generalizing mask with
  | nil => simp [sift_nil]
  | cons hxy _ ih =>
    cases mask with
    | nil => exact .nil
    | cons b mask =>
      cases b with
      | true => exact .cons hxy (ih mask)
      | false => exact ih mask

theorem sift_all {mask : List Bool} : (∀ b ∈ mask, b = true) → ∀ {xs : List α},
    xs.length ≤ mask.length → sift mask xs = xs := by
  induction mask with
  | nil =>
    intro _ xs h
    rw [List.eq_nil_of_length_eq_zero (Nat.le_zero.mp h)]
    rfl
  | cons b mask ih =>
    intro hall xs h
    rw [List.forall_mem_cons] at hall
    cases xs with
    | nil => exact sift_nil _
    | cons x xs =>
      rw [hall.1]
      exact congrArg (x :: ·) (ih hall.2 (Nat.le_of_succ_le_succ h))

theorem sift_replicate (x : α) : ∀ mask : List Bool,
    sift mask (List.replicate mask.length x) = List.replicate (sift mask mask).length x
  | [] => rfl
  | true :: mask => congrArg (x :: ·) (sift_replicate x mask)
  | false :: mask => sift_replicate x mask

theorem length_sift : ∀ (mask : List Bool) {xs : List α}, xs.length = mask.length →
    (sift mask xs).length = (sift mask mask).length
  | [], [], _ => rfl
  | true :: mask, _ :: _, h => congrArg (· + 1) (length_sift mask (Nat.succ.inj h))
  | false :: mask, _ :: _, h => length_sift mask (Nat.succ.inj h)

theorem sift_ne_nil : ∀ {mask : List Bool} {xs : List α}, xs.length = mask.length →
    mask.any id = true → sift mask xs ≠ []
  | true :: _, _ :: _, _, _ => List.cons_ne_nil _ _
  | false :: mask, _ :: xs, h, hany => @sift_ne_nil mask xs (Nat.succ.inj h) hany

/-- A mask that drops nothing keeps everything. -/
theorem forall_of_length_sift : ∀ {mask : List Bool} {xs : List α}, xs.length = mask.length →
    (sift mask xs).length = mask.length → ∀ b ∈ mask, b = true
  | [], _, _, _ => by simp
  | true :: mask, _ :: xs, h, hs => by
    have ih := forall_of_length_sift (Nat.succ.inj h) (Nat.succ.inj hs)
    simpa using ih
  | false :: mask, _ :: xs, h, hs => by
    have hle := (sift_sublist mask xs).length_le
    simp only [sift, List.length_cons] at h hs
    omega

/-! ## Looking through a mask -/

section

variable {p : α → Bool} {xs : List α} {mask : List Bool}
  (h : List.Forall₂ (fun x b => p x = true → b = true) xs mask)
include h

theorem any_sift : (sift mask xs).any p = xs.any p := by
  induction h with
  | nil => rfl
  | @cons x b xs mask hb _ ih =>
    rw [List.any_cons, ← ih]
    cases b with
    | true => exact List.any_cons
    | false =>
      have hp : p x = false := by
        rw [← Bool.not_eq_true]
        exact fun e => absurd (hb e) (by decide)
      rw [hp, Bool.false_or]
      rfl

theorem isSome_findIdx?_sift : ((sift mask xs).findIdx? p).isSome = (xs.findIdx? p).isSome := by
  rw [List.findIdx?_isSome, List.findIdx?_isSome, any_sift h]

theorem cell_sift (row : List β) :
    ((sift mask xs).findIdx? p).bind ((sift mask row)[·]?) = (xs.findIdx? p).bind (row[·]?) := by
  induction h generalizing row with
  | nil => rfl
  | @cons x b xs mask hb _ ih =>
    rw [List.findIdx?_cons]
    cases row with
    | nil =>
      rw [sift_nil]
      cases (sift (b :: mask) (x :: xs)).findIdx? p <;> cases p x <;> cases xs.findIdx? p <;> rfl
    | cons v row =>
      have hstep : ∀ i : Option Nat, (i.map (· + 1)).bind ((v :: row)[·]?) = i.bind (row[·]?) := by
        intro i; cases i <;> rfl
      cases b with
      | true =>
        have hstep' : ∀ i : Option Nat, (i.map (· + 1)).bind ((v :: sift mask row)[·]?) =
            i.bind ((sift mask row)[·]?) := by
          intro i; cases i <;> rfl
        rw [sift, sift, List.findIdx?_cons]
        cases p x with
        | true => rfl
        | false =>
          simp only [Bool.false_eq_true, if_false]
          rw [hstep, hstep', ih]
      | false =>
        have hp : p x = false := by
          rw [← Bool.not_eq_true]
          exact fun e => absurd (hb e) (by decide)
        rw [sift, sift, hp, ih]
        simp only [Bool.false_eq_true, if_false]
        exact (hstep _).symm

end

theorem any_sift_of_any_eq_false {p : α → Bool} {xs : List α} (h : xs.any p = false)
    (mask : List Bool) : (sift mask xs).any p = false := by
  rw [List.any_eq_false] at h ⊢
  exact fun x hx => h x (mem_of_mem_sift hx)

/-! ## Masks of positions -/

theorem filterMap_positions {ys : List α} {zs : List β} (keep : α → Bool) (pre : List β)
    (h : ys.length = zs.length) :
    (((ys.zipIdx pre.length).filter fun y => keep y.1).map (·.2)).filterMap ((pre ++ zs)[·]?) =
      sift (ys.map keep) zs := by
  induction ys generalizing zs pre with
  | nil => rfl
  | cons y ys ih =>
    cases zs with
    | nil => cases h
    | cons z zs =>
      have ih := ih (pre ++ [z]) (Nat.succ.inj h)
      rw [List.append_assoc, List.singleton_append, List.length_append, List.length_singleton] at ih
      rw [List.zipIdx_cons, List.filter_cons, List.map_cons]
      cases hk : keep y with
      | true =>
        have hz : (pre ++ z :: zs)[pre.length]? = some z := by simp
        simp only [if_true, List.map_cons, List.filterMap_cons, hz, ih]
        rfl
      | false =>
        simp only [Bool.false_eq_true, if_false, ih]
        rfl

end RelQuery
