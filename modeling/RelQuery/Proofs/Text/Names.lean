import Mathlib.Data.List.TakeDrop
import Mathlib.Data.List.TakeWhile
import RelQuery.Text.Case

/-!
# Plain names

A name is plain when all its characters are ASCII and none is a dot. Both ways of folding case agree
on ASCII, folding commutes with joining two such names by a dot, and a dotted name of plain parts
comes apart again in only one way.
-/

namespace RelQuery.Text

def IsAscii (s : String) : Prop := ∀ c ∈ s.toList, c.toNat < 128

def DotFree (s : String) : Prop := '.' ∉ s.toList

structure Plain (s : String) : Prop where
  ascii : IsAscii s
  dotFree : DotFree s

instance (s : String) : Decidable (IsAscii s) := List.decidableBAll _ s.toList

instance (s : String) : Decidable (DotFree s) := inferInstanceAs (Decidable (¬ _))

instance (s : String) : Decidable (Plain s) :=
  decidable_of_iff (IsAscii s ∧ DotFree s) ⟨fun h => ⟨h.1, h.2⟩, fun h => ⟨h.ascii, h.dotFree⟩⟩

/-! ## Characters -/

theorem toNat_toLower (c : Char) :
    c.toLower.toNat = if 65 ≤ c.toNat ∧ c.toNat ≤ 90 then c.toNat + 32 else c.toNat := by
  unfold Char.toLower Char.toNat
  split
  · rename_i h
    have h1 : 65 ≤ c.val.toNat := by simpa [UInt32.le_iff_toNat_le] using h.1
    have h2 : c.val.toNat ≤ 90 := by simpa [UInt32.le_iff_toNat_le] using h.2
    have h3 : ('a'.val - 'A'.val).toNat = 32 := by decide
    rw [if_pos ⟨h1, h2⟩, UInt32.toNat_add]
    omega
  · rename_i h
    rw [if_neg]
    intro h'; apply h
    simpa [UInt32.le_iff_toNat_le] using h'

theorem toLower_of_noCapital {c : Char} (h : ¬ (65 ≤ c.toNat ∧ c.toNat ≤ 90)) : c.toLower = c := by
  apply Char.toNat_inj.mp
  rw [toNat_toLower, if_neg h]

theorem toLower_eq_dot {c : Char} : c.toLower = '.' ↔ c = '.' := by
  have hdot : '.'.toNat = 46 := by decide
  rw [← Char.toNat_inj, ← Char.toNat_inj, toNat_toLower, hdot]
  split <;> omega

theorem lowerChar_ascii {c : Char} (h : c.toNat < 128) : lowerChar c = [c.toLower] := by
  simp [lowerChar, h]

/-- A number that is no character gives the first one. -/
theorem toNat_ofNat (n : Nat) : (Char.ofNat n).toNat = n ∨ (Char.ofNat n).toNat = 0 := by
  by_cases h : n.isValidChar
  · have : Char.ofNat n = Char.ofNatAux n h := dif_pos h
    exact .inl (by rw [this]; rfl)
  · have : Char.ofNat n = Char.ofNat 0 := dif_neg h
    exact .inr (by rw [this]; rfl)

/-- No lower-cased character is an ASCII capital: no range of the table leads to one. -/
theorem lowerChar_noCapital (c : Char) : ∀ d ∈ lowerChar c, ¬ (65 ≤ d.toNat ∧ d.toNat ≤ 90) := by
  intro d hd
  unfold lowerChar at hd
  split at hd
  · simp only [List.mem_singleton] at hd; subst hd
    rw [toNat_toLower]; split <;> omega
  · split at hd
    · simp only [List.mem_cons, List.not_mem_nil, or_false] at hd
      rcases hd with rfl | rfl <;> decide
    · split at hd
      · rename_i r hr
        have himg : ∀ r ∈ caseRanges, (r.last + r.shift < 65 ∨ 90 < r.first + r.shift) := by
          decide +kernel
        have hto := himg r (List.mem_of_find?_eq_some hr)
        have hcov := List.find?_some hr
        simp only [CaseRange.covers, Bool.and_eq_true, decide_eq_true_eq] at hcov
        simp only [List.mem_singleton] at hd; subst hd
        rcases toNat_ofNat (↑c.toNat + r.shift).toNat with h | h <;> omega
      · simp only [List.mem_singleton] at hd; subst hd; omega

/-! ## Lower case without a capital sigma -/

theorem lowerAfter_eq : ∀ (before cs : List Char), capitalSigma ∉ cs →
    lowerAfter before cs = cs.flatMap lowerChar
  | _, [], _ => rfl
  | before, c :: cs, h => by
    have hc : c ≠ capitalSigma := fun e => h (e ▸ List.mem_cons_self ..)
    rw [lowerAfter, List.flatMap_cons, lowerAfter_eq _ cs fun hm => h (List.mem_cons_of_mem _ hm)]
    simp [hc]

theorem toList_lower {s : String} (h : capitalSigma ∉ s.toList) :
    (lower s).toList = s.toList.flatMap lowerChar := by
  rw [lower, String.toList_ofList, lowerAfter_eq _ _ h]

theorem lower_append {s t : String} (hs : capitalSigma ∉ s.toList) (ht : capitalSigma ∉ t.toList) :
    lower (s ++ t) = lower s ++ lower t := by
  apply String.ext
  rw [String.toList_append, toList_lower hs, toList_lower ht, toList_lower, String.toList_append,
    List.flatMap_append]
  simp [hs, ht]

/-- A sigma stays outside ASCII when it is lower-cased. -/
theorem sigma_notMem_of_ascii_lower {s : String} (h : IsAscii (lower s)) :
    capitalSigma ∉ s.toList := by
  have key : ∀ before cs : List Char, (∀ c ∈ lowerAfter before cs, c.toNat < 128) →
      capitalSigma ∉ cs := by
    intro before cs
    induction cs generalizing before with
    | nil => simp
    | cons c cs ih =>
      intro hall hm
      rcases List.mem_cons.mp hm with rfl | hm
      · by_cases hf : startsCased before && !startsCased cs
        · exact absurd (hall finalSigma (by simp [lowerAfter, hf])) (by decide)
        · exact absurd (hall smallSigma (by simp [lowerAfter, hf])) (by decide)
      · exact ih (c :: before) (fun d hd => hall d (by simp [lowerAfter, hd])) hm
  refine key [] s.toList fun c hc => h c ?_
  rwa [lower, String.toList_ofList]

theorem asciiFold_lower (s : String) : asciiFold (lower s) = lower s := by
  have key : ∀ before cs : List Char, ∀ d ∈ lowerAfter before cs, d.toLower = d := by
    intro before cs
    induction cs generalizing before with
    | nil => simp [lowerAfter]
    | cons c cs ih =>
      intro d hd
      rw [lowerAfter, List.mem_append] at hd
      rcases hd with hd | hd
      · split at hd
        · simp only [List.mem_singleton] at hd; subst hd
          split <;> decide
        · exact toLower_of_noCapital (lowerChar_noCapital c d hd)
      · exact ih _ d hd
  apply String.ext
  rw [asciiFold, String.toList_map]
  have hall : ∀ d ∈ (lower s).toList, d.toLower = id d := fun d hd => by
    rw [lower, String.toList_ofList] at hd
    exact key [] s.toList d hd
  rw [List.map_congr_left hall, List.map_id]

/-! ## ASCII -/

theorem IsAscii.sigma_notMem {s : String} (h : IsAscii s) : capitalSigma ∉ s.toList :=
  fun hm => absurd (h _ hm) (by decide)

theorem IsAscii.append {s t : String} (hs : IsAscii s) (ht : IsAscii t) : IsAscii (s ++ t) := by
  intro c hc
  rcases List.mem_append.mp (String.toList_append ▸ hc) with h | h
  · exact hs c h
  · exact ht c h

theorem isAscii_dot : IsAscii "." := by
  simp [IsAscii]

theorem IsAscii.lower_eq {s : String} (h : IsAscii s) : lower s = asciiFold s := by
  apply String.ext
  rw [toList_lower h.sigma_notMem, asciiFold, String.toList_map, List.map_eq_flatMap]
  simp only [List.flatMap_def]
  congr 1
  exact List.map_congr_left fun c hc => lowerChar_ascii (h c hc)

theorem IsAscii.fold {s : String} (h : IsAscii s) : IsAscii (asciiFold s) := by
  intro c hc
  rw [asciiFold, String.toList_map] at hc
  obtain ⟨d, hd, rfl⟩ := List.mem_map.mp hc
  have := h d hd
  rw [toNat_toLower]; split <;> omega

theorem IsAscii.lower {s : String} (h : IsAscii s) : IsAscii (lower s) := h.lower_eq ▸ h.fold

theorem IsAscii.lower_lower {s : String} (h : IsAscii s) :
    Text.lower (Text.lower s) = Text.lower s := by
  rw [h.lower.lower_eq, asciiFold_lower]

theorem DotFree.fold {s : String} (h : DotFree s) : DotFree (asciiFold s) := by
  intro hm
  rw [asciiFold, String.toList_map] at hm
  obtain ⟨c, hc, e⟩ := List.mem_map.mp hm
  exact h (toLower_eq_dot.mp e ▸ hc)

theorem Plain.lower {s : String} (h : Plain s) : Plain (Text.lower s) :=
  ⟨h.ascii.lower, h.ascii.lower_eq ▸ h.dotFree.fold⟩

theorem Plain.lower_lower {s : String} (h : Plain s) : Text.lower (Text.lower s) = Text.lower s :=
  h.ascii.lower_lower

theorem lower_dot : lower "." = "." := by
  apply String.ext
  rw [toList_lower isAscii_dot.sigma_notMem]; decide

theorem lower_dotted {q n : String} (hq : IsAscii q) (hn : capitalSigma ∉ n.toList) :
    lower (q ++ "." ++ n) = lower q ++ "." ++ lower n := by
  rw [lower_append (hq.append isAscii_dot).sigma_notMem hn,
    lower_append hq.sigma_notMem isAscii_dot.sigma_notMem, lower_dot]

/-! ## Dotted names -/

theorem toList_dotted (q n : String) : (q ++ "." ++ n).toList = q.toList ++ '.' :: n.toList := by
  simp

theorem ne_dot {s : String} (h : DotFree s) : ∀ c ∈ s.toList, (c != '.') = true := by
  intro c hc
  rw [bne_iff_ne]
  rintro rfl
  exact h hc

theorem splitDot_dotted {q : String} (h : DotFree q) (n : String) :
    splitDot (q ++ "." ++ n) = some (q, n) := by
  have hspan : (q.toList ++ '.' :: n.toList).span (· != '.') = (q.toList, '.' :: n.toList) := by
    rw [List.span_eq_takeWhile_dropWhile, List.takeWhile_append_of_pos (ne_dot h),
      List.dropWhile_append_of_pos (ne_dot h)]
    simp
  rw [splitDot, toList_dotted, hspan]
  simp

theorem splitDot_dotFree {s : String} (h : DotFree s) : splitDot s = none := by
  have hspan : s.toList.span (· != '.') = (s.toList, []) := by
    have ht := @List.takeWhile_append_of_pos Char (· != '.') s.toList [] (ne_dot h)
    have hd := @List.dropWhile_append_of_pos Char (· != '.') s.toList [] (ne_dot h)
    rw [List.append_nil] at ht hd
    rw [List.span_eq_takeWhile_dropWhile, ht, hd]
    simp
  rw [splitDot, hspan]

theorem dotted_inj {q q' n n' : String} (hq : DotFree q) (hq' : DotFree q')
    (h : q ++ "." ++ n = q' ++ "." ++ n') : q = q' ∧ n = n' := by
  have := splitDot_dotted hq n
  rw [h, splitDot_dotted hq'] at this
  simpa [eq_comm] using this

theorem not_dotFree_dotted (q n : String) : ¬ DotFree (q ++ "." ++ n) := by
  simp [DotFree]

theorem of_splitDot {s q n : String} (h : splitDot s = some (q, n)) :
    DotFree q ∧ s = q ++ "." ++ n := by
  rw [splitDot, List.span_eq_takeWhile_dropWhile] at h
  split at h
  · cases h
  · rename_i front dot rest heq
    rw [Prod.mk.injEq] at heq
    obtain ⟨hfront, hrest⟩ := heq
    simp only [Option.some.injEq, Prod.mk.injEq] at h
    obtain ⟨rfl, rfl⟩ := h
    have hdot : dot = '.' := by
      have hne : s.toList.dropWhile (· != '.') ≠ [] := by rw [hrest]; simp
      have := List.head_dropWhile_not (· != '.') hne
      simpa [hrest] using this
    subst hdot
    have hs : s.toList = front ++ '.' :: rest := by
      rw [← hfront, ← hrest, List.takeWhile_append_dropWhile]
    refine ⟨?_, ?_⟩
    · rw [DotFree, String.toList_ofList, ← hfront]
      intro hm
      simpa using List.mem_takeWhile_imp hm
    · apply String.ext
      rw [toList_dotted, String.toList_ofList, String.toList_ofList, hs]

theorem asciiFold_eq_empty {s : String} : asciiFold s = "" ↔ s = "" := by
  rw [← String.toList_eq_nil_iff, asciiFold, String.toList_map, List.map_eq_nil_iff,
    String.toList_eq_nil_iff]

theorem asciiFold_dotted (q n : String) :
    asciiFold (q ++ "." ++ n) = asciiFold q ++ "." ++ asciiFold n := by
  apply String.ext
  rw [asciiFold, String.toList_map, toList_dotted, toList_dotted, asciiFold, asciiFold,
    String.toList_map, String.toList_map, List.map_append, List.map_cons]
  rfl

theorem splitDot_asciiFold (s : String) :
    splitDot (asciiFold s) = (splitDot s).map fun p => (asciiFold p.1, asciiFold p.2) := by
  cases hs : splitDot s with
  | none =>
    have hfree : DotFree s := by
      intro hm
      rw [splitDot, List.span_eq_takeWhile_dropWhile] at hs
      split at hs
      · rename_i front heq
        rw [Prod.mk.injEq] at heq
        have := List.dropWhile_eq_nil_iff.mp heq.2 '.' hm
        simp at this
      · cases hs
    exact splitDot_dotFree hfree.fold
  | some p =>
    obtain ⟨q, n⟩ := p
    obtain ⟨hq, rfl⟩ := of_splitDot hs
    rw [asciiFold_dotted, splitDot_dotted hq.fold]
    rfl

theorem IsAscii.of_dotted {q n : String} (h : IsAscii (q ++ "." ++ n)) : IsAscii q ∧ IsAscii n := by
  rw [IsAscii, toList_dotted] at h
  exact ⟨fun c hc => h c (by simp [hc]), fun c hc => h c (by simp [hc])⟩

end RelQuery.Text
