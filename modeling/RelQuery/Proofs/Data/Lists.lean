import Mathlib.Data.List.Forall2
import Mathlib.Data.List.Induction
import RelQuery.Error

/-!
# Lists side by side, and steps that may fail

Facts about lists of which the elements correspond one by one, such as columns and the items or
origins that they come from, and about steps that may fail: a map whose steps do gives such a list
exactly if it succeeds.
-/

namespace RelQuery

theorem findIdx?_eq_of_forall₂ {α β : Type} {R : α → β → Prop} {p : α → Bool} {q : β → Bool}
    (h : ∀ a b, R a b → p a = q b) :
    ∀ {as : List α} {bs : List β}, List.Forall₂ R as bs → bs.findIdx? q = as.findIdx? p
  | _, _, .nil => rfl
  | _, _, .cons hab hs => by
    rw [List.findIdx?_cons, List.findIdx?_cons, h _ _ hab, findIdx?_eq_of_forall₂ h hs]

theorem any_eq_of_forall₂ {α β : Type} {R : α → β → Prop} {p : α → Bool} {q : β → Bool}
    (h : ∀ a b, R a b → p a = q b) :
    ∀ {as : List α} {bs : List β}, List.Forall₂ R as bs → bs.any q = as.any p
  | _, _, .nil => rfl
  | _, _, .cons hab hs => by
    rw [List.any_cons, List.any_cons, h _ _ hab, any_eq_of_forall₂ h hs]

theorem all_congr_of_mem {α : Type} {p q : α → Bool} {as : List α} (h : ∀ a ∈ as, p a = q a) :
    as.all p = as.all q := by
  rw [Bool.eq_iff_iff, List.all_eq_true, List.all_eq_true]
  exact forall₂_congr fun a ha => by rw [h a ha]

theorem any_congr_of_mem {α : Type} {p q : α → Bool} {as : List α} (h : ∀ a ∈ as, p a = q a) :
    as.any p = as.any q := by
  rw [Bool.eq_iff_iff, List.any_eq_true, List.any_eq_true]
  exact exists_congr fun a => and_congr_right fun ha => by rw [h a ha]

theorem flatMap_filter {α β : Type} (p : α → Bool) (f : α → List β) : ∀ xs : List α,
    (xs.filter p).flatMap f = xs.flatMap fun x => if p x then f x else []
  | [] => rfl
  | x :: xs => by
    rw [List.filter_cons, List.flatMap_cons, ← flatMap_filter p f xs]
    split <;> rfl

theorem exists_left_of_forall₂ {α β : Type} {R : α → β → Prop} :
    ∀ {as : List α} {bs : List β}, List.Forall₂ R as bs → ∀ b ∈ bs, ∃ a ∈ as, R a b
  | _, _, .cons hab hs, b, hb => by
    rcases List.mem_cons.mp hb with rfl | hb
    · exact ⟨_, List.mem_cons_self, hab⟩
    · obtain ⟨a, ha, h⟩ := exists_left_of_forall₂ hs b hb
      exact ⟨a, List.mem_cons_of_mem _ ha, h⟩

theorem forall₂_through {α β γ : Type} {R : α → β → Prop} {S : β → γ → Prop} {T : α → γ → Prop}
    (h : ∀ a b c, R a b → S b c → T a c) : ∀ {as : List α} {bs : List β} {cs : List γ},
      List.Forall₂ R as bs → List.Forall₂ S bs cs → List.Forall₂ T as cs
  | _, _, _, .nil, .nil => .nil
  | _, _, _, .cons hab hs, .cons hbc hs' => .cons (h _ _ _ hab hbc) (forall₂_through h hs hs')

theorem forall₂_zip {α β : Type} {R : α → β → Prop} : ∀ {as : List α} {bs : List β},
    List.Forall₂ R as bs → List.Forall₂ (fun a x => x.1 = a ∧ R a x.2) as (as.zip bs)
  | _, _, .nil => .nil
  | _, _, .cons hab hs => .cons ⟨rfl, hab⟩ (forall₂_zip hs)

theorem getElem?_of_prefix {α : Type} {as bs : List α} (h : as <+: bs) {i : Nat} {a : α}
    (ha : as[i]? = some a) : bs[i]? = some a := by
  obtain ⟨hi, rfl⟩ := List.getElem?_eq_some_iff.mp ha
  exact List.prefix_iff_getElem?.mp h i hi

theorem mem_foldl_best {α : Type} (better : α → α → Bool) (x : α) (xs : List α) :
    xs.foldl (fun best y => if better y best then y else best) x ∈ x :: xs := by
  induction xs generalizing x with
  | nil => exact List.mem_singleton_self _
  | cons y xs ih =>
    rw [List.foldl_cons]
    split
    · exact List.mem_cons_of_mem x (ih y)
    · rcases List.mem_cons.mp (ih x) with h | h
      · rw [h]
        exact List.mem_cons_self
      · exact List.mem_cons_of_mem x (List.mem_cons_of_mem y h)

theorem isOk_iff_exists {ε α : Type} {x : Except ε α} : x.isOk = true ↔ ∃ a, x = .ok a := by
  cases x <;> simp [Except.isOk, Except.toBool]

theorem bind_eq_ok_iff {ε α β : Type} {x : Except ε α} {f : α → Except ε β} {b : β} :
    x >>= f = .ok b ↔ ∃ a, x = .ok a ∧ f a = .ok b := by
  cases x <;> simp [bind, Except.bind]

theorem mapM_eq_ok_iff {ε α β : Type} {f : α → Except ε β} : ∀ {xs : List α} {ys : List β},
    xs.mapM f = .ok ys ↔ List.Forall₂ (fun x y => f x = .ok y) xs ys
  | [], ys => by cases ys <;> simp [pure, Except.pure]
  | x :: xs, ys => by
    simp only [List.mapM_cons, List.forall₂_cons_left_iff, bind_eq_ok_iff]
    constructor
    · rintro ⟨y, hy, ys', hys, h⟩
      exact ⟨y, ys', hy, mapM_eq_ok_iff.mp hys, (Except.ok.inj h).symm⟩
    · rintro ⟨y, ys', hy, hys, rfl⟩
      exact ⟨y, hy, ys', mapM_eq_ok_iff.mpr hys, rfl⟩

theorem mapM_ok_mono {ε α β γ : Type} {f : α → Except ε β} {g : γ → Except ε β} {m : α → γ}
    {xs : List α} {ys : List β} (h : ∀ x ∈ xs, ∀ y, f x = .ok y → g (m x) = .ok y)
    (hxs : xs.mapM f = .ok ys) : (xs.map m).mapM g = .ok ys := by
  rw [mapM_eq_ok_iff] at hxs ⊢
  rw [List.forall₂_map_left_iff]
  exact ((List.forall₂_and_left _ _).mpr ⟨fun x hx => hx, hxs⟩).imp fun x y hxy => h x hxy.1 y hxy.2

/-- What every step preserves of the elements seen so far is true of all of them in the end. -/
theorem foldlM_inv {ε α β : Type} {f : β → α → Except ε β} {b b' : β} {xs : List α}
    (inv : List α → β → Prop) (hstart : inv [] b)
    (hstep : ∀ seen x b b', inv seen b → f b x = .ok b' → inv (seen ++ [x]) b')
    (h : xs.foldlM f b = .ok b') : inv xs b' := by
  induction xs using List.reverseRecOn generalizing b' with
  | nil =>
    cases h
    exact hstart
  | append_singleton xs x ih =>
    rw [List.foldlM_append] at h
    obtain ⟨b₁, hxs, h⟩ := bind_eq_ok_iff.mp h
    rw [List.foldlM_cons] at h
    obtain ⟨b₂, hx, h⟩ := bind_eq_ok_iff.mp h
    cases h
    exact hstep xs x b₁ _ (ih hxs) hx

theorem forall₂_of_mapM_eq_some {α β : Type} {f : α → Option β} : ∀ {xs : List α} {ys : List β},
    xs.mapM f = some ys → List.Forall₂ (fun x y => f x = some y) xs ys
  | [], _, h => by
    cases h
    exact .nil
  | x :: xs, ys, h => by
    rw [List.mapM_cons] at h
    cases hx : f x with
    | none => simp [hx] at h
    | some y =>
      cases hxs : xs.mapM f with
      | none => simp [hx, hxs] at h
      | some ys' =>
        simp only [hx, hxs, Option.bind_eq_bind, Option.bind_some, Option.pure_def,
          Option.some.injEq] at h
        rw [← h]
        exact .cons hx (forall₂_of_mapM_eq_some hxs)

end RelQuery
