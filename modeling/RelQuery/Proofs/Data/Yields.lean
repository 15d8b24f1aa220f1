import RelQuery.Proofs.Data.Lists

/-!
# When a computation succeeds

`Yields x s a` says that `x` succeeds exactly if `s` holds, and then with `a`. Such facts compose along
the steps of a computation, where the value of a step needs to be known only once it has succeeded.
-/

namespace RelQuery

variable {ε α β : Type}

def Yields (x : Except ε α) (s : Prop) (a : α) : Prop := ∀ b, x = .ok b ↔ s ∧ b = a

namespace Yields

variable {x : Except ε α} {s t : Prop} {a a' : α}

theorem intro (h : s → x = .ok a) (h' : ∀ b, x = .ok b → s) : Yields x s a := fun b =>
  ⟨fun hb => ⟨h' b hb, Except.ok.inj (hb.symm.trans (h (h' b hb)))⟩, fun ⟨hs, hb⟩ => hb ▸ h hs⟩

theorem ok (a : α) : Yields (.ok a : Except ε α) True a := fun b => by
  rw [Except.ok.injEq, true_and, eq_comm]

theorem error (e : ε) (a : α) : Yields (.error e) False a := fun b => by simp

theorem congr (h : Yields x s a) (hs : s ↔ t) (ha : a = a') : Yields x t a' := fun b => by
  rw [h b, hs, ha]

theorem eq_ok (h : Yields x s a) (hs : s) : x = .ok a := (h a).mpr ⟨hs, rfl⟩

theorem bind {f : α → Except ε β} {b : β} (h : Yields x s a) (hf : Yields (f a) t b) :
    Yields (x >>= f) (s ∧ t) b := by
  intro b'
  rw [bind_eq_ok_iff, and_assoc, ← hf b']
  constructor
  · rintro ⟨a', ha', hb'⟩
    obtain ⟨hs, rfl⟩ := (h a').mp ha'
    exact ⟨hs, hb'⟩
  · rintro ⟨hs, hb'⟩
    exact ⟨a, h.eq_ok hs, hb'⟩

theorem map (h : Yields x s a) (f : α → β) : Yields (x >>= fun a => pure (f a)) s (f a) :=
  (h.bind (ok (f a))).congr (and_iff_left trivial) rfl

end Yields

theorem eq_ok_of_toOption {x : Except ε α} {a : α} (h : x.toOption = some a) : x = .ok a := by
  cases x with
  | error e => cases h
  | ok b =>
    cases h
    rfl

/-! ## Lists -/

theorem yields_mapM {f : α → Except ε β} {s : α → Prop} {g : α → β} : ∀ {xs : List α},
    (∀ x ∈ xs, Yields (f x) (s x) (g x)) → Yields (xs.mapM f) (∀ x ∈ xs, s x) (xs.map g)
  | [], _ => (Yields.ok []).congr (by simp) rfl
  | x :: xs, h => by
    rw [List.mapM_cons, List.forall_mem_cons]
    exact (h x List.mem_cons_self).bind
      ((yields_mapM fun y hy => h y (List.mem_cons_of_mem x hy)).map (g x :: ·))

theorem yields_filterM {f : α → Except ε Bool} {s : α → Prop} {p : α → Bool} {xs : List α}
    (h : ∀ x ∈ xs, Yields (f x) (s x) (p x)) :
    Yields (xs.filterM f) (∀ x ∈ xs, s x) (xs.filter p) := by
  have key : ∀ (xs kept : List α), (∀ x ∈ xs, Yields (f x) (s x) (p x)) →
      Yields (xs.filterAuxM f kept) (∀ x ∈ xs, s x) ((xs.filter p).reverse ++ kept) := by
    intro xs
    induction xs with
    | nil => exact fun kept _ => (Yields.ok kept).congr (by simp) rfl
    | cons x xs ih =>
      intro kept h
      rw [List.forall_mem_cons] at h ⊢
      refine (h.1.bind (ih _ h.2)).congr Iff.rfl ?_
      cases hp : p x <;> simp [hp]
  rw [List.filterM]
  exact ((key xs [] h).map List.reverse).congr Iff.rfl (by simp)

end RelQuery
