import RelQuery.Proofs.Run.Buffers
import RelQuery.Proofs.Run.Insertion

/-!
# Openings that fail

An opening that fails leaves the life of the root as it was. A tree that was not open then hands out
nothing until it is opened with success. A tree that was open goes on with what its operators hold in
memory; only where no operator reads rows ahead can this not come about, since such a tree, once
open, can always be opened again. What goes on stays within its buffers, unless it goes by positions.
-/

namespace RelQuery

variable {κ : Type}

/-- The answers of a request where there is nothing to read: no row, and no access outside a
buffer. -/
def HandsNothing (result : Except QueryError (Option Row)) : Prop :=
  (∀ row, result ≠ .ok (some row)) ∧ WithinBuffers result

/-! ## Plans that read nothing ahead -/

namespace Plan

/-- Whether an operator takes rows from its input when it is opened. -/
def readsAhead : Plan κ → Bool
  | scan .. | insert .. => false
  | filter _ _ p | project _ _ _ p => p.readsAhead
  | aggregate .. | loopJoin .. | hashJoin .. | mergeJoin .. => true

def firstTable : Plan κ → String
  | scan t _ _ _ | insert t _ _ _ => t
  | filter _ _ p | project _ _ _ p | aggregate _ _ _ _ p => p.firstTable
  | loopJoin _ l _ | hashJoin _ l _ | mergeJoin _ l _ => l.firstTable

end Plan

/-! ## Requests -/

section

variable {σ : Type} {pull : Pull σ} {P : Catalog → Prop}

theorem pullAccepted_keeps {accept : Row → Except QueryError Bool}
    (hpull : ∀ s c, P c → P (pull s c).catalog) :
    ∀ {fuel : Nat} {s : σ} {c : Catalog}, P c → P (pullAccepted pull accept fuel s c).catalog
  | 0, _, _, h => h
  | fuel + 1, s, c, h => by
    have hp := hpull s c h
    rw [pullAccepted]
    generalize pull s c = answer at hp ⊢
    obtain ⟨e | _ | row, s', c'⟩ := answer
    · exact hp
    · exact hp
    · simp only
      cases accept row with
      | error e => exact hp
      | ok b =>
        cases b with
        | true => exact hp
        | false => exact pullAccepted_keeps hpull hp

theorem pullMapped_keeps {f : Row → Except QueryError Row}
    (hpull : ∀ s c, P c → P (pull s c).catalog) {s : σ} {c : Catalog} (h : P c) :
    P (pullMapped pull f s c).catalog := by
  have hp := hpull s c h
  rw [pullMapped]
  generalize pull s c = answer at hp ⊢
  obtain ⟨e | _ | row, s', c'⟩ := answer <;> exact hp

end

namespace Operator

theorem request_keeps {P : Catalog → Prop} {p : Plan κ} {op : Operator p} {name : String}
    {c : Catalog} {answer : Step (Operator p) (Option Row)} (h : P c) (ha : P answer.catalog) :
    P (op.request name c answer).catalog := by
  rw [request]
  split
  · exact h
  · exact h
  · exact ha

theorem grows_write (columns : List Column) (rows : List (List Expr)) (table : Option Nat)
    (c : Catalog) : c.Grows (write columns rows table c).2 := by
  cases ht : table.bind c.withId? with
  | none =>
    rw [write, ht]
    exact .refl c
  | some t =>
    obtain ⟨id, rfl, hid⟩ := Option.bind_eq_some_iff.mp ht
    obtain ⟨built, hw⟩ := exists_write columns rows hid
    rw [hw.catalog]
    exact c.grows_appendAll t.id built

theorem grows_next : ∀ {p : Plan κ}, p.readsAhead = false → ∀ (op : Operator p) (c : Catalog),
    c.Grows (next p op c).catalog
  | .scan .., _, scan life cursor, c => by
    cases cursor <;> rw [next] <;> exact request_keeps (.refl c) (.refl c)
  | .insert _ columns rows _, _, insert life table done, c => by
    rw [next]
    refine request_keeps (.refl c) ?_
    cases done with
    | true => exact .refl c
    | false => exact grows_write columns rows table c
  | .filter _ _ p, hp, filter life input, c => by
    rw [next]
    refine request_keeps (.refl c) (pullAccepted_keeps (fun s c' h => ?_) (.refl c))
    exact h.trans (grows_next (p := p) hp s c')
  | .project _ _ _ p, hp, project life input, c => by
    rw [next]
    refine request_keeps (.refl c) (pullMapped_keeps (fun s c' h => ?_) (.refl c))
    exact h.trans (grows_next (p := p) hp s c')

/-! ## Openings -/

/-- A tree that reads nothing ahead is opened if there is the table that it reads. -/
theorem start_of_not_readsAhead : ∀ {p : Plan κ}, p.readsAhead = false → ∀ (op : Operator p)
    (c : Catalog), (start p op c).catalog = c ∧
      ((start p op c).result = .ok () ↔ ∃ t, c.find? p.firstTable = some t)
  | .scan name .., _, scan _ _, c | .insert name .., _, insert _ _ _, c => by
    rw [start, Catalog.table, Plan.firstTable]
    cases c.find? name <;> simp
  | .filter _ _ p, hp, filter _ input, c | .project _ _ _ p, hp, project _ input, c => by
    obtain ⟨hc, hr⟩ := start_of_not_readsAhead (p := p) hp input c
    rw [start, Plan.firstTable, ← hr]
    generalize start p input c = answer at hc ⊢
    obtain ⟨e | _, input', c'⟩ := answer <;> exact ⟨hc, by simp⟩

theorem life_start_of_error {p : Plan κ} {op : Operator p} {c : Catalog} {e : QueryError}
    (h : (start p op c).result = .error e) : (start p op c).state.life = op.life := by
  revert h
  -- only the last way out of an opening, its success, starts a new life
  cases op with
  | scan | insert | filter | project =>
    rw [start]
    split
    · exact fun _ => rfl
    · intro h
      cases h
  | aggregate =>
    rw [start]
    split
    · exact fun _ => rfl
    dsimp only
    split
    · exact fun _ => rfl
    split
    · exact fun _ => rfl
    · intro h
      cases h
  | loopJoin =>
    rw [start]
    split
    · exact fun _ => rfl
    split
    · exact fun _ => rfl
    split
    · exact fun _ => rfl
    · intro h
      cases h
  | hashJoin =>
    rw [start]
    split
    · exact fun _ => rfl
    split
    · exact fun _ => rfl
    dsimp only
    split
    · exact fun _ => rfl
    · intro h
      cases h
  | mergeJoin =>
    rw [start]
    split
    · exact fun _ => rfl
    split
    · exact fun _ => rfl
    dsimp only
    split
    · exact fun _ => rfl
    split
    · exact fun _ => rfl
    · intro h
      cases h

/-! ## Answers -/

theorem next_of_not_opened {p : Plan κ} {op : Operator p} (h : op.life.phase ≠ .opened)
    (c : Catalog) : ∃ result, next p op c = ⟨result, op, c⟩ ∧ HandsNothing result := by
  cases hp : op.life.phase with
  | created => exact ⟨_, next_of_created hp c, nofun, nofun⟩
  | opened => exact absurd hp h
  | finished => exact ⟨_, next_of_finished hp c, nofun, nofun⟩
  | closed => exact ⟨_, next_of_closed hp c, nofun, nofun⟩

end Operator

namespace Running

variable {p : Plan κ}

theorem phase_start_of_error {s : Running p} {e : QueryError}
    (h : (s.step .start).1 = .started (.error e)) : (s.step .start).2.phase = s.phase :=
  congrArg Lifecycle.phase (Operator.life_start_of_error (Reply.started.inj h))

/-- A tree that is not open hands out nothing until it is opened with success. -/
theorem run_of_not_opened {s : Running p} (h : s.phase ≠ .opened) {events : List Event}
    (hfail : .started (.ok ()) ∉ (s.run events).1) :
    ∀ result, .handed result ∈ (s.run events).1 → HandsNothing result := by
  induction events generalizing s with
  | nil => exact fun _ h => absurd h List.not_mem_nil
  | cons event events ih =>
    rw [run_cons, List.mem_cons, not_or] at hfail
    rw [run_cons]
    -- what the event leaves behind is not open either
    have hphase : (s.step event).2.phase ≠ .opened := by
      cases event with
      | start =>
        cases hr : (s.op.start p s.catalog).result with
        | ok u => exact absurd (congrArg Reply.started hr).symm hfail.1
        | error e => rwa [phase_start_of_error (congrArg Reply.started hr)]
      | next =>
        obtain ⟨result, hnext, -⟩ := Operator.next_of_not_opened h s.catalog
        rwa [step, hnext]
      | close =>
        rw [step_close, phase, Operator.phase_close]
        decide
      | store table row => rwa [phase, op_step_store]
    intro result hresult
    obtain hhead | htail := List.mem_cons.mp hresult
    · cases event with
      | start | close => cases hhead
      | next =>
        obtain ⟨result', hnext, hnothing⟩ := Operator.next_of_not_opened h s.catalog
        rw [step, hnext] at hhead
        cases hhead
        exact hnothing
      | store table row => exact absurd hhead.symm (step_store_ne_handed s table row result)
    · exact ih hphase hfail.2 result htail

/-! ## Trees that read nothing ahead -/

theorem opened_of_next {s : Running p} (h : (s.step .next).2.phase = .opened) :
    s.phase = .opened := by
  by_contra hp
  obtain ⟨result, hnext, -⟩ := Operator.next_of_not_opened hp s.catalog
  rw [step, hnext] at h
  exact hp h

theorem grows_step_store (s : Running p) (name : String) (row : Row) :
    s.catalog.Grows (s.step (.store name row)).2.catalog := by
  rw [step]
  split
  · exact .refl s.catalog
  · split
    · exact .refl s.catalog
    · rename_i hi
      exact Catalog.grows_insert hi

/-- While it is open, a tree that reads nothing ahead finds the table that it reads. -/
theorem exists_table_step (hp : p.readsAhead = false) {s : Running p}
    (h : s.phase = .opened → ∃ t, s.catalog.find? p.firstTable = some t) (e : Event)
    (hopened : (s.step e).2.phase = .opened) :
    ∃ t, (s.step e).2.catalog.find? p.firstTable = some t := by
  cases e with
  | start =>
    obtain ⟨hcatalog, hok⟩ := Operator.start_of_not_readsAhead hp s.op s.catalog
    rw [step, hcatalog]
    cases hr : (s.op.start p s.catalog).result with
    | ok u => exact hok.mp hr
    | error e => exact h (phase_start_of_error (congrArg Reply.started hr) ▸ hopened)
  | next =>
    obtain ⟨t, ht⟩ := h (opened_of_next hopened)
    obtain ⟨t', ht', -⟩ := (Operator.grows_next hp s.op s.catalog).find? ht
    exact ⟨t', ht'⟩
  | close =>
    rw [step_close, phase, Operator.phase_close] at hopened
    cases hopened
  | store name row =>
    rw [phase, op_step_store] at hopened
    obtain ⟨t, ht⟩ := h hopened
    obtain ⟨t', ht', -⟩ := (grows_step_store s name row).find? ht
    exact ⟨t', ht'⟩

theorem exists_table_run (hp : p.readsAhead = false) {s : Running p}
    (h : s.phase = .opened → ∃ t, s.catalog.find? p.firstTable = some t) (events : List Event)
    (hopened : (s.run events).2.phase = .opened) :
    ∃ t, (s.run events).2.catalog.find? p.firstTable = some t := by
  induction events generalizing s with
  | nil => exact h hopened
  | cons e events ih => exact ih (exists_table_step hp h e) hopened

/-- After an opening that failed, a tree hands out nothing until it is opened with success, provided
that it was not open, or that no operator of it reads rows ahead. In the latter case, once it is
open, every further opening succeeds. A tree that was open stays within its buffers where no operator
that is asked for rows goes by positions. -/
theorem hands_nothing_after_failed_start (p : Plan κ) (c : Catalog) (history : List Event) :
    let s := ((created p c).run history).2
    (s.phase = .opened → p.readsAhead = false → (s.step .start).1 = .started (.ok ())) ∧
      ∀ e, (s.step .start).1 = .started (.error e) →
        ∀ later, .started (.ok ()) ∉ ((s.step .start).2.run later).1 →
          ∀ result, .handed result ∈ ((s.step .start).2.run later).1 →
            ((s.phase = .opened → p.readsAhead = false) → HandsNothing result) ∧
              ((s.phase = .opened → p.goesByPositions = false) → WithinBuffers result) := by
  intro s
  have hreopen : s.phase = .opened → p.readsAhead = false →
      (s.step .start).1 = .started (.ok ()) := by
    intro hopened hp
    have htable := exists_table_run hp (s := created p c) ?_ history hopened
    · exact congrArg Reply.started
        ((Operator.start_of_not_readsAhead hp s.op s.catalog).2.mpr htable)
    · intro h
      rw [phase, created] at h
      cases p <;> cases h
  refine ⟨hreopen, fun e hfail later hlater result hresult => ?_⟩
  have hnothing : s.phase ≠ .opened → HandsNothing result := fun hopened =>
    run_of_not_opened (by rwa [phase_start_of_error hfail]) hlater result hresult
  constructor
  · intro hp
    refine hnothing fun hopened => ?_
    rw [hreopen hopened (hp hopened)] at hfail
    cases hfail
  · intro hp
    by_cases hopened : s.phase = .opened
    · exact run_within (hp hopened) _ later result hresult
    · exact (hnothing hopened).2

/-- The parts in stock by which ten can be divided. -/
def divisors : Plan Unit :=
  .filter
    (.binary (.compare .lt) (.literal (.int 0))
      (.binary (.arith .div) (.literal (.int 10)) (.column none "n")))
    ⟨(), (), ()⟩ (.scan "stock" (some "b") ⟨[⟨"n", .int⟩]⟩ ⟨(), (), ()⟩)

/-- Every part in stock, beside those by which ten can be divided. -/
def ratios : Plan Unit :=
  .loopJoin ⟨.inner, none, ⟨[⟨"n", .int⟩, ⟨"b.n", .int⟩]⟩, ["a"], ["b"], ⟨(), (), ()⟩⟩
    (.scan "stock" (some "a") ⟨[⟨"n", .int⟩]⟩ ⟨(), (), ()⟩) divisors

def divisorCount : Plan Unit :=
  .aggregate [] [⟨.aggregateRows .count, "n"⟩] ⟨[⟨"n", .bigint⟩]⟩ ⟨(), (), ()⟩ divisors

def stock (rows : List Row) : Catalog := ⟨[⟨1, "stock", ⟨[⟨"n", .int⟩]⟩, rows⟩]⟩

/-- The join has come to its end when a part is stored by which ten cannot be divided. The count is
open then, and hands out what it counted before. -/
theorem hands_nothing_after_failed_start_on_ratios :
    let s := ((created ratios (stock [[.int 1]])).run
      [.start, .next, .next, .store "stock" [.int 0]]).2
    let replies := ((s.step .start).2.run [.next, .start, .next]).1
    let t := ((created divisorCount (stock [[.int 1]])).run [.start, .store "stock" [.int 0]]).2
    let replies' := ((t.step .start).2.run [.next, .next]).1
    (s.step .start).1 = .started (.error (.arithmetic .divisionByZero)) ∧
      replies = [.handed (.ok none), .started (.error (.arithmetic .divisionByZero)),
        .handed (.ok none)] ∧
      (∀ result, .handed result ∈ replies → HandsNothing result) ∧
      (t.step .start).1 = .started (.error (.arithmetic .divisionByZero)) ∧
      replies' = [.handed (.ok (some [.bigint 1])), .handed (.ok none)] ∧
      ∀ result, .handed result ∈ replies' → WithinBuffers result := by
  intro s replies t replies'
  have hreplies : replies = [.handed (.ok none), .started (.error (.arithmetic .divisionByZero)),
    .handed (.ok none)] := by rfl
  have hfail : (s.step .start).1 = .started (.error (.arithmetic .divisionByZero)) := by rfl
  have hphase : s.phase = .finished := by rfl
  have hreplies' : replies' = [.handed (.ok (some [.bigint 1])), .handed (.ok none)] := by rfl
  have hfail' : (t.step .start).1 = .started (.error (.arithmetic .divisionByZero)) := by rfl
  refine ⟨hfail, hreplies, fun result hresult => ?_, hfail', hreplies', fun result hresult => ?_⟩
  · have hlater : .started (.ok ()) ∉ replies := by simp [hreplies]
    have hnothing := (hands_nothing_after_failed_start ratios (stock [[.int 1]])
      [.start, .next, .next, .store "stock" [.int 0]]).2 _ hfail _ hlater result hresult
    exact hnothing.1 fun h => by cases hphase.symm.trans h
  · have hlater : .started (.ok ()) ∉ replies' := by simp [hreplies']
    have hnothing := (hands_nothing_after_failed_start divisorCount (stock [[.int 1]])
      [.start, .store "stock" [.int 0]]).2 _ hfail' _ hlater result hresult
    exact hnothing.2 fun _ => rfl

/-- A join that was open goes on, with the new rows that were read before the opening failed and with
the place that it had reached: it hands out a pair, or misses the mark of a row that is new. -/
theorem reads_on_after_failed_start :
    let s := ((created ratios (stock [[.int 1], [.int 2]])).run
      [.start, .next, .store "stock" [.int 0]]).2
    let s' := ((created ratios (stock [[.int 1]])).run
      [.start, .next, .store "stock" [.int 2], .store "stock" [.int 0]]).2
    (s.step .start).1 = .started (.error (.arithmetic .divisionByZero)) ∧
      ((s.step .start).2.step .next).1 = .handed (.ok (some [.int 1, .int 2])) ∧
      (s'.step .start).1 = .started (.error (.arithmetic .divisionByZero)) ∧
      ((s'.step .start).2.step .next).1 = .handed (.error (.invalidState .outsideBuffer)) :=
  ⟨by rfl, by rfl, by rfl, by rfl⟩

end Running

end RelQuery
