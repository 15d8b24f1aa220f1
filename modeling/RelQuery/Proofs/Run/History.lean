import RelQuery.Proofs.Run.Executor
import RelQuery.Run.History

/-!
# Life cycle of a tree of operators

Over any history a tree keeps to its life cycle: it hands out nothing before it is opened and after
it is closed, its end stays the end, closing succeeds and closes everything, and opening it anew
leaves nothing of the runs before.
-/

namespace RelQuery

variable {κ : Type}

namespace Operator

/-! ## Closing -/

theorem closing_eq : ∀ (p : Plan κ) (op : Operator p), closing p op = (.ok (), close p op)
  | .scan .., scan _ _ => rfl
  | .insert .., insert _ _ _ => rfl
  | .filter _ _ p, filter _ input => by simp only [closing, close, closing_eq p input]
  | .project _ _ _ p, project _ input => by simp only [closing, close, closing_eq p input]
  | .aggregate _ _ _ _ p, aggregate _ _ input => by simp only [closing, close, closing_eq p input]
  | .loopJoin _ l r, loopJoin _ _ left right => by
    simp only [closing, close, closing_eq l left, closing_eq r right]; rfl
  | .hashJoin _ l r, hashJoin _ _ left right => by
    simp only [closing, close, closing_eq l left, closing_eq r right]; rfl
  | .mergeJoin _ l r, mergeJoin _ _ left right => by
    simp only [closing, close, closing_eq l left, closing_eq r right]; rfl

theorem close_close : ∀ (p : Plan κ) (op : Operator p), close p (close p op) = close p op
  | .scan .., scan _ _ => rfl
  | .insert .., insert _ _ _ => rfl
  | .filter _ _ p, filter _ input => congrArg (filter _) (close_close p input)
  | .project _ _ _ p, project _ input => congrArg (project _) (close_close p input)
  | .aggregate _ _ _ _ p, aggregate _ _ input => congrArg (aggregate _ []) (close_close p input)
  | .loopJoin _ l r, loopJoin _ _ left right =>
    congrArg₂ (loopJoin _ _) (close_close l left) (close_close r right)
  | .hashJoin _ l r, hashJoin _ _ left right =>
    congrArg₂ (hashJoin _ _) (close_close l left) (close_close r right)
  | .mergeJoin _ l r, mergeJoin _ _ left right =>
    congrArg₂ (mergeJoin _ _) (close_close l left) (close_close r right)

theorem phase_close {p : Plan κ} (op : Operator p) : (close p op).life.phase = .closed := by
  cases op <;> rfl

/-! ## Asking for a row -/

theorem phase_lived_end {life : Lifecycle} {result : Except QueryError (Option Row)}
    (h : result = .ok none) : (lived life result).phase = .finished := by rw [h]; rfl

/-- An operator answers as its life allows, and when its answer is that there are no more rows it
has finished. -/
theorem next_eq_request {p : Plan κ} (op : Operator p) (c : Catalog) :
    ∃ answer, next p op c = op.request p.nodeType c answer ∧
      (answer.result = .ok none → answer.state.life.phase = .finished) := by
  cases op with
  | scan life cursor =>
    cases cursor with
    | none => exact ⟨_, by rw [next], fun _ => rfl⟩
    | some cursor => exact ⟨_, by rw [next], phase_lived_end⟩
  | insert life table done =>
    refine ⟨_, by rw [next], fun h => ?_⟩
    cases done with
    | true => rfl
    | false => exact phase_lived_end h
  | filter => exact ⟨_, by rw [next], phase_lived_end⟩
  | project => exact ⟨_, by rw [next], phase_lived_end⟩
  | aggregate life results input =>
    cases results with
    | nil => exact ⟨_, by rw [next], fun _ => rfl⟩
    | cons row rows => exact ⟨_, by rw [next], fun h => by cases h⟩
  | loopJoin => exact ⟨_, by rw [next], phase_lived_end⟩
  | hashJoin => exact ⟨_, by rw [next], phase_lived_end⟩
  | mergeJoin => exact ⟨_, by rw [next], phase_lived_end⟩

theorem next_of_created {p : Plan κ} {op : Operator p} (h : op.life.phase = .created)
    (c : Catalog) :
    next p op c = ⟨.error (.invalidState (.notOpened p.nodeType)), op, c⟩ := by
  obtain ⟨answer, e, -⟩ := next_eq_request op c
  rw [e, request, Lifecycle.mayAnswer, h]

theorem next_of_closed {p : Plan κ} {op : Operator p} (h : op.life.phase = .closed) (c : Catalog) :
    next p op c = ⟨.error (.invalidState (.closed p.nodeType)), op, c⟩ := by
  obtain ⟨answer, e, -⟩ := next_eq_request op c
  rw [e, request, Lifecycle.mayAnswer, h]

theorem next_of_finished {p : Plan κ} {op : Operator p} (h : op.life.phase = .finished)
    (c : Catalog) : next p op c = ⟨.ok none, op, c⟩ := by
  obtain ⟨answer, e, -⟩ := next_eq_request op c
  rw [e, request, Lifecycle.mayAnswer, h]

theorem finished_of_next {p : Plan κ} {op : Operator p} {c : Catalog}
    (h : (next p op c).result = .ok none) : (next p op c).state.life.phase = .finished := by
  cases hp : op.life.phase with
  | created => rw [next_of_created hp] at h; cases h
  | closed => rw [next_of_closed hp] at h; cases h
  | finished => rw [next_of_finished hp]; exact hp
  | opened =>
    obtain ⟨answer, e, hend⟩ := next_eq_request op c
    rw [e, request_opened hp] at h ⊢
    exact hend h

end Operator

/-! ## Opening -/

/-- Two steps that fail alike, leaving states of their own, or succeed and leave the same. -/
inductive Step.Alike {σ : Type} : Step σ Unit → Step σ Unit → Prop
  | failed (e : QueryError) (s s' : σ) (c : Catalog) : Alike ⟨.error e, s, c⟩ ⟨.error e, s', c⟩
  | done (s : σ) (c : Catalog) : Alike ⟨.ok (), s, c⟩ ⟨.ok (), s, c⟩

theorem Step.Alike.elim {σ : Type} {x y : Step σ Unit} (h : x.Alike y) :
    (∃ e s s' c, x = ⟨.error e, s, c⟩ ∧ y = ⟨.error e, s', c⟩) ∨
      ∃ s c, x = ⟨.ok (), s, c⟩ ∧ y = ⟨.ok (), s, c⟩ := by
  cases h with
  | failed e s s' c => exact .inl ⟨e, s, s', c, rfl, rfl⟩
  | done s c => exact .inr ⟨s, c, rfl, rfl⟩

namespace Operator

/-- What opening a tree comes to does not depend on the state that the tree is in. -/
theorem start_alike : ∀ (p : Plan κ) (op op' : Operator p) (c : Catalog),
    (start p op c).Alike (start p op' c)
  | .scan t .., scan _ _, scan _ _, c => by
    rw [start, start]
    cases c.table t with
    | error e => exact .failed ..
    | ok table => exact .done ..
  | .insert t .., insert _ _ _, insert _ _ _, c => by
    rw [start, start]
    cases c.table t with
    | error e => exact .failed ..
    | ok table => exact .done ..
  | .filter _ _ p, filter _ input, filter _ input', c => by
    rw [start, start]
    obtain ⟨e, s, s', c, h, h'⟩ | ⟨s, c, h, h'⟩ := (start_alike p input input' c).elim <;>
      rw [h, h']
    · exact .failed ..
    · exact .done ..
  | .project _ _ _ p, project _ input, project _ input', c => by
    rw [start, start]
    obtain ⟨e, s, s', c, h, h'⟩ | ⟨s, c, h, h'⟩ := (start_alike p input input' c).elim <;>
      rw [h, h']
    · exact .failed ..
    · exact .done ..
  | .aggregate gs os _ _ p, aggregate _ _ input, aggregate _ _ input', c => by
    rw [start, start]
    obtain ⟨e, s, s', c, h, h'⟩ | ⟨s, c, h, h'⟩ := (start_alike p input input' c).elim <;>
      rw [h, h']
    · exact .failed ..
    · simp only
      obtain ⟨groups, _ | _, s, c⟩ := drain (next p)
        (Grouping.take ⟨gs, os, p.schema, p.qualifiers⟩) (rowsLeft p s + 1) [] s c
      · exact .failed ..
      · simp only
        cases Grouping.outputRows ⟨gs, os, p.schema, p.qualifiers⟩ groups with
        | error e => exact .failed ..
        | ok rows => exact .done ..
  | .loopJoin _ l r, loopJoin _ _ left right, loopJoin _ _ left' right', c => by
    rw [start, start]
    obtain ⟨e, s, s', c, h, h'⟩ | ⟨s, c, h, h'⟩ := (start_alike l left left' c).elim <;>
      rw [h, h']
    · exact .failed ..
    simp only
    obtain ⟨e, t, t', c, h, h'⟩ | ⟨t, c, h, h'⟩ := (start_alike r right right' c).elim <;>
      rw [h, h']
    · exact .failed ..
    simp only
    obtain ⟨rows, _ | _, t, c⟩ := drain (next r) (fun rows row => .ok (rows ++ [row]))
      (rowsLeft r t + 1) [] t c
    · exact .failed ..
    · exact .done ..
  | .hashJoin j l r, hashJoin _ _ left right, hashJoin _ _ left' right', c => by
    rw [start, start]
    obtain ⟨e, s, s', c, h, h'⟩ | ⟨s, c, h, h'⟩ := (start_alike l left left' c).elim <;>
      rw [h, h']
    · exact .failed ..
    simp only
    obtain ⟨e, t, t', c, h, h'⟩ | ⟨t, c, h, h'⟩ := (start_alike r right right' c).elim <;>
      rw [h, h']
    · exact .failed ..
    simp only
    obtain ⟨buckets, _ | _, t, c⟩ := drain (next r)
      (Buckets.take fun row => j.rightKey.evalBound r.schema j.rightQualifiers row)
      (rowsLeft r t + 1) .empty t c
    · exact .failed ..
    · exact .done ..
  | .mergeJoin j l r, mergeJoin _ _ left right, mergeJoin _ _ left' right', c => by
    rw [start, start]
    obtain ⟨e, s, s', c, h, h'⟩ | ⟨s, c, h, h'⟩ := (start_alike l left left' c).elim <;>
      rw [h, h']
    · exact .failed ..
    simp only
    obtain ⟨e, t, t', c, h, h'⟩ | ⟨t, c, h, h'⟩ := (start_alike r right right' c).elim <;>
      rw [h, h']
    · exact .failed ..
    simp only
    obtain ⟨leftRows, _ | _, s, c⟩ := drain (next l)
      (takeKeyed fun row => j.leftKey.evalBound l.schema j.leftQualifiers row)
      (rowsLeft l s + 1) [] s c
    · exact .failed ..
    simp only
    obtain ⟨rightRows, _ | _, t, c⟩ := drain (next r)
      (takeKeyed fun row => j.rightKey.evalBound r.schema j.rightQualifiers row)
      (rowsLeft r t + 1) [] t c
    · exact .failed ..
    · exact .done ..

theorem start_eq_of_ok {p : Plan κ} {op : Operator p} {c : Catalog}
    (h : (start p op c).result = .ok ()) (op' : Operator p) : start p op c = start p op' c := by
  obtain ⟨e, s, s', c, h₁, -⟩ | ⟨s, c, h₁, h₂⟩ := (start_alike p op op' c).elim
  · rw [h₁] at h
    cases h
  · rw [h₁, h₂]

end Operator

/-! ## Histories -/

namespace Running

variable {p : Plan κ}

theorem step_close (s : Running p) :
    s.step .close = (.closed (.ok ()), { s with op := s.op.close p }) := by
  rw [step, Operator.closing_eq]

theorem op_step_store (s : Running p) (table : String) (row : Row) :
    (s.step (.store table row)).2.op = s.op := by
  rw [step]
  split
  · rfl
  · split <;> rfl

theorem step_store_ne_handed (s : Running p) (table : String) (row : Row)
    (result : Except QueryError (Option Row)) : (s.step (.store table row)).1 ≠ .handed result := by
  rw [step]
  split
  · simp
  · split <;> simp

theorem step_next_of_created {s : Running p} (h : s.phase = .created) :
    s.step .next = (.handed (.error (.invalidState (.notOpened p.nodeType))), s) := by
  rw [step, Operator.next_of_created h]

theorem step_next_of_closed {s : Running p} (h : s.phase = .closed) :
    s.step .next = (.handed (.error (.invalidState (.closed p.nodeType))), s) := by
  rw [step, Operator.next_of_closed h]

theorem step_next_of_finished {s : Running p} (h : s.phase = .finished) :
    s.step .next = (.handed (.ok none), s) := by
  rw [step, Operator.next_of_finished h]

theorem phase_of_end {s : Running p} (h : (s.step .next).1 = .handed (.ok none)) :
    (s.step .next).2.phase = .finished :=
  Operator.finished_of_next (Reply.handed.inj h)

theorem run_cons (s : Running p) (e : Event) (es : List Event) :
    s.run (e :: es) = ((s.step e).1 :: ((s.step e).2.run es).1, ((s.step e).2.run es).2) := rfl

/-- A tree that has come to its end stays there until it is opened or closed. -/
theorem run_of_finished {s : Running p} (h : s.phase = .finished) {es : List Event}
    (hstart : .start ∉ es) (hclose : .close ∉ es) :
    ∀ result, .handed result ∈ (s.run es).1 → result = .ok none := by
  induction es generalizing s with
  | nil => exact fun _ h => absurd h List.not_mem_nil
  | cons e es ih =>
    have hs : .start ∉ es := fun h => hstart (List.mem_cons_of_mem e h)
    have hc : .close ∉ es := fun h => hclose (List.mem_cons_of_mem e h)
    rw [run_cons]
    intro result hr
    cases e with
    | start => exact absurd List.mem_cons_self hstart
    | close => exact absurd List.mem_cons_self hclose
    | next =>
      rw [step_next_of_finished h] at hr
      obtain hr | hr := List.mem_cons.mp hr
      · exact Reply.handed.inj hr
      · exact ih h hs hc result hr
    | store table row =>
      obtain hr | hr := List.mem_cons.mp hr
      · exact absurd hr.symm (step_store_ne_handed s table row result)
      · refine ih (s := (s.step (.store table row)).2) ?_ hs hc result hr
        rw [phase, op_step_store]
        exact h

/-- A closed tree stays as it is until it is opened. -/
theorem op_run_of_closed {s : Running p} {op : Operator p} (h : s.op = op.close p)
    {es : List Event} (hstart : .start ∉ es) : (s.run es).2.op = s.op := by
  induction es generalizing s with
  | nil => rfl
  | cons e es ih =>
    have hs : .start ∉ es := fun h => hstart (List.mem_cons_of_mem e h)
    have hstep : (s.step e).2.op = s.op := by
      cases e with
      | start => exact absurd List.mem_cons_self hstart
      | next => rw [step_next_of_closed (by rw [phase, h]; exact op.phase_close)]
      | close => rw [step_close, h]; exact Operator.close_close p op
      | store table row => exact op_step_store s table row
    rw [run_cons, ih (hstep.trans h) hs, hstep]

/-- After any history: a tree that is not open answers a request for a row with an error and stays
as it is; the end of the rows is their end until the tree is opened or closed; closing succeeds,
closes every operator, and leaves a tree that only opening it changes; and where opening succeeds,
the tree is from then on like one that was never opened before. -/
theorem keeps_life_cycle (p : Plan κ) (c : Catalog) (history : List Event) :
    let s := ((created p c).run history).2
    (s.phase = .created →
        s.step .next = (.handed (.error (.invalidState (.notOpened p.nodeType))), s)) ∧
      (s.phase = .closed →
        s.step .next = (.handed (.error (.invalidState (.closed p.nodeType))), s)) ∧
      ((s.step .next).1 = .handed (.ok none) → ∀ events, .start ∉ events → .close ∉ events →
        ∀ result, .handed result ∈ ((s.step .next).2.run events).1 → result = .ok none) ∧
      ((s.step .close).1 = .closed (.ok ()) ∧ (s.step .close).2.op.AllClosed ∧
        (s.step .close).2.step .close = (.closed (.ok ()), (s.step .close).2) ∧
        ∀ events, .start ∉ events → ((s.step .close).2.run events).2.op = (s.step .close).2.op) ∧
      ((s.step .start).1 = .started (.ok ()) →
        ∀ events, s.run (.start :: events) = (created p s.catalog).run (.start :: events)) := by
  intro s
  refine ⟨step_next_of_created, step_next_of_closed, fun h events hs hc => ?_,
    ⟨?_, ?_, ?_, fun events hs => ?_⟩, fun h events => ?_⟩
  · exact run_of_finished (phase_of_end h) hs hc
  · rw [step_close]
  · rw [step_close]; exact s.op.allClosed_close
  · rw [step_close, step_close, Operator.close_close]
  · exact op_run_of_closed (by rw [step_close]) hs
  · have hstep : s.step .start = (created p s.catalog).step .start := by
      rw [step, step, Operator.start_eq_of_ok (Reply.started.inj h) (.created p)]
      rfl
    rw [run_cons, run_cons, hstep]

def guests : Catalog := ⟨[⟨1, "guest", ⟨[⟨"no", .int⟩]⟩, [[.int 1], [.int 2]]⟩]⟩

/-- Which guest has which other to the right. -/
def neighbours : Plan Unit :=
  .loopJoin
    ⟨.left, some (.binary (.compare .lt) (.column (some "a") "no") (.column (some "b") "no")),
      ⟨[⟨"no", .int⟩, ⟨"b.no", .int⟩]⟩, ["a"], ["b"], ⟨(), (), ()⟩⟩
    (.scan "guest" (some "a") ⟨[⟨"no", .int⟩]⟩ ⟨(), (), ()⟩)
    (.scan "guest" (some "b") ⟨[⟨"no", .int⟩]⟩ ⟨(), (), ()⟩)

/-- The tree is opened anew after a row of its first run, when a third guest has come. -/
theorem keeps_life_cycle_on_neighbours :
    let s := ((created neighbours guests).run [.start, .next, .store "guest" [.int 3]]).2
    (s.step .start).1 = .started (.ok ()) ∧
      (∀ events, s.run (.start :: events) = (created neighbours s.catalog).run (.start :: events)) ∧
      (s.run [.start, .next, .next, .next, .next, .next]).1 =
        [.started (.ok ()), .handed (.ok (some [.int 1, .int 2])),
          .handed (.ok (some [.int 1, .int 3])), .handed (.ok (some [.int 2, .int 3])),
          .handed (.ok (some [.int 3, .null])), .handed (.ok none)] := by
  intro s
  have hstart : (s.step .start).1 = .started (.ok ()) := by rfl
  obtain ⟨-, -, -, -, hanew⟩ :=
    keeps_life_cycle neighbours guests [.start, .next, .store "guest" [.int 3]]
  exact ⟨hstart, hanew hstart, by rfl⟩

end Running

end RelQuery
