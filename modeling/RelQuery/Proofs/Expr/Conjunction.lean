import Mathlib.Data.Option.NAry
import RelQuery.Proofs.Data.Yields
import RelQuery.Proofs.Expr.Conjunct

/-!
# The meaning of conjunctions

`AND` has a value where each operand evaluates to a boolean or to null, and tells no more of the
operands than their truth values. On truth values it is associative, so the conjuncts of a predicate
mean, put together, what the predicate means, in whatever way its conjunctions are nested. Only the
error that is reported may be another where there is no value.
-/

namespace RelQuery

/-- True if both are, false if one is, and unknown otherwise. -/
def bothTrue : Option Bool → Option Bool → Option Bool
  | some false, _ | _, some false => some false
  | some true, some true => some true
  | _, _ => none

theorem bothTrue_assoc : ∀ a b c : Option Bool,
    bothTrue (bothTrue a b) c = bothTrue a (bothTrue b c) := by
  rintro (_ | _ | _) (_ | _ | _) (_ | _ | _) <;> rfl

def Value.ofTruth : Option Bool → Value
  | some b => .bool b
  | none => .null

theorem Value.truth_ofTruth (a : Option Bool) : (ofTruth a).truth = .ok a := by
  cases a <;> rfl

theorem LogicOp.and_apply (a b : Option Bool) : and.apply a b = .ofTruth (bothTrue a b) := by
  rcases a with _ | _ | _ <;> rcases b with _ | _ | _ <;> rfl

namespace Expr

variable {look : Look} {e e' f f' : Expr}

/-! ## Truth values -/

def value? (look : Look) (e : Expr) : Option Value := (e.evalWith look).toOption

def truth? (look : Look) (e : Expr) : Option (Option Bool) :=
  (e.value? look).bind fun v => v.truth.toOption

theorem value?_eq_some_iff {v : Value} : e.value? look = some v ↔ e.evalWith look = .ok v :=
  ⟨eq_ok_of_toOption, fun h => by rw [value?, h]; rfl⟩

theorem value?_and (look : Look) (e f : Expr) : (e.and f).value? look =
    (Option.map₂ bothTrue (e.truth? look) (f.truth? look)).map .ofTruth := by
  unfold truth? value? Expr.and
  rw [evalWith]
  cases e.evalWith look with
  | error _ => rfl
  | ok v =>
    cases f.evalWith look with
    | error _ => exact congrArg (Option.map _) (Option.map₂_none_right _ _).symm
    | ok w =>
      show ((BinaryOp.logic .and).apply v w).toOption =
        (Option.map₂ bothTrue v.truth.toOption w.truth.toOption).map .ofTruth
      unfold BinaryOp.apply
      cases v.truth with
      | error _ => rfl
      | ok a =>
        cases w.truth with
        | error _ => rfl
        | ok b => exact congrArg some (LogicOp.and_apply a b)

theorem truth?_and (look : Look) (e f : Expr) :
    (e.and f).truth? look = Option.map₂ bothTrue (e.truth? look) (f.truth? look) := by
  rw [truth?, value?_and, Option.bind_map]
  simp only [Function.comp_def, Value.truth_ofTruth]
  exact Option.bind_fun_some _

theorem value?_and_congr (he : e.value? look = e'.value? look) (hf : f.value? look = f'.value? look) :
    (e.and f).value? look = (e'.and f').value? look := by
  simp only [value?_and, truth?, he, hf]

theorem value?_and_assoc (look : Look) (e f g : Expr) :
    ((e.and f).and g).value? look = (e.and (f.and g)).value? look := by
  rw [value?_and, value?_and, truth?_and, truth?_and, Option.map₂_assoc bothTrue_assoc]

/-! ## Conjuncts put together -/

theorem value?_conjoin_append {es fs : List Expr} (hes : es ≠ []) (hfs : fs ≠ []) :
    (conjoin (es ++ fs)).value? look = ((conjoin es).and (conjoin fs)).value? look := by
  induction fs using List.reverseRecOn with
  | nil => exact absurd rfl hfs
  | append_singleton fs f ih =>
    by_cases h : fs = []
    · subst h
      rw [List.nil_append, conjoin_concat hes]
      rfl
    · rw [← List.append_assoc, conjoin_concat (by simp [hes]), conjoin_concat h, ← value?_and_assoc]
      exact value?_and_congr (ih h) rfl

theorem value?_conjoin_conjuncts (look : Look) (e : Expr) :
    (conjoin e.conjuncts).value? look = e.value? look := by
  fun_induction conjuncts e with
  | case1 l r ihl ihr =>
    rw [value?_conjoin_append l.conjuncts_ne_nil r.conjuncts_ne_nil]
    exact value?_and_congr ihl ihr
  | case2 e _ => rfl

theorem evalWith_true_iff :
    e.evalWith look = .ok (.bool true) ↔ ∀ f ∈ e.conjuncts, f.evalWith look = .ok (.bool true) := by
  rw [← holdsIn_iff, ← holdsIn_conjuncts, List.all_eq_true]
  simp only [holdsIn_iff]

/-- Over whatever rows are at hand, a predicate and its conjuncts put together have a value in the same
cases, and the same value. It is true exactly if every conjunct is true. No conjunct is a conjunction,
and conjuncts that are put together come apart as they were. -/
theorem conjuncts_keep_meaning :
    (∀ (sources : List Source) (e : Expr) (v : Value),
      e.eval sources = .ok v ↔ (conjoin e.conjuncts).eval sources = .ok v) ∧
    (∀ (sources : List Source) (e : Expr), e.eval sources = .ok (.bool true) ↔
      ∀ f ∈ e.conjuncts, f.eval sources = .ok (.bool true)) ∧
    (∀ e : Expr, ∀ f ∈ e.conjuncts, f.isAnd = false) ∧
    ∀ es : List Expr, es ≠ [] → (∀ e ∈ es, e.isAnd = false) → (conjoin es).conjuncts = es := by
  refine ⟨fun sources e v => ?_, fun sources e => ?_, fun e f => not_isAnd_of_mem_conjuncts,
    fun es => conjuncts_conjoin⟩
  · rw [eval_eq, eval_eq, ← value?_eq_some_iff, ← value?_eq_some_iff, value?_conjoin_conjuncts]
  · simp only [eval_eq]
    exact evalWith_true_iff

def parcels : Schema := ⟨[⟨"fragile", .boolean⟩, ⟨"weight", .int⟩]⟩

def vans : Schema := ⟨[⟨"padded", .boolean⟩, ⟨"room", .int⟩]⟩

/-- The parcel fits into the van, and it is fragile and the van is padded. -/
def carriage : Expr :=
  .and (.binary (.compare .le) (.column none "weight") (.column (some "van") "room"))
    (.and (.column (some "parcel") "fragile") (.column none "padded"))

theorem conjuncts_keep_meaning_of_carriage :
    carriage.conjuncts ≠ [] ∧ (∀ e ∈ carriage.conjuncts, e.isAnd = false) ∧
      conjoin carriage.conjuncts ≠ carriage ∧
      (conjoin carriage.conjuncts).conjuncts = carriage.conjuncts ∧
      carriage.evalPair parcels ["parcel"] vans ["van"] [.null, .int 3] [.bool true, .int 5] =
        .ok .null ∧
      (conjoin carriage.conjuncts).evalPair parcels ["parcel"] vans ["van"] [.null, .int 3]
        [.bool true, .int 5] = .ok .null := by
  obtain ⟨hvalue, -, hsplit, hrejoin⟩ := conjuncts_keep_meaning
  have hne : carriage.conjuncts ≠ [] := by decide
  have hnull : carriage.evalPair parcels ["parcel"] vans ["van"] [.null, .int 3]
      [.bool true, .int 5] = .ok .null := eq_ok_of_toOption (by decide +kernel)
  exact ⟨hne, hsplit carriage, by decide, hrejoin _ hne (hsplit carriage), hnull,
    (hvalue _ carriage .null).mp hnull⟩

end Expr

end RelQuery
