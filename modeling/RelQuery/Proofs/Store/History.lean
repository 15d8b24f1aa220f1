import RelQuery.Proofs.Store.Growth
import RelQuery.Store.History

/-!
# The store is append-only

Whatever a store is called for, a table stays where it is and gets only the rows that are inserted
into it. So a row keeps its place, and a scan is a snapshot: it hands out the rows stored when it was
opened. `Store.Does` says once what a call may come to; what holds over a history follows from it by
induction on the calls.
-/

namespace RelQuery

namespace Store

variable {s s' : Store} {call : Call} {reply : Reply} {calls : List Call}

/-! ## What a call comes to -/

def Reply.IsFailure : Reply → Prop
  | created (.error _) | found (.error _) | stored (.error _) | unknown => True
  | _ => False

/-- The calls that must fail. -/
def Refuses (s : Store) : Call → Prop
  | .create name _ => s.catalog.HasName name
  | .createWithRows name schema rows =>
    s.catalog.HasName name ∨ ∃ row ∈ rows, ¬ schema.Admits row
  | .lookUp name => ¬ s.catalog.HasName name
  | .insert handle row => ∀ t, s.handles[handle]? = some t → row.length ≠ t.schema.width
  | .scan handle => s.handles.length ≤ handle
  | .next cursor => s.cursors.length ≤ cursor

def Fills (s : Store) : Call → Prop
  | .createWithRows name _ _ => ¬ s.catalog.HasName name
  | _ => False

/-- A call, its answer and the store that it leaves. A table that is to be filled may be left with
the rows before one that does not fit. -/
inductive Does (s : Store) : Call → Reply → Store → Prop
  | refused {call : Call} {reply : Reply} (h : s.Refuses call) (hfills : ¬ s.Fills call)
    (hreply : reply.IsFailure) : Does s call reply s
  | created {name : String} {schema : Schema} (h : ¬ s.catalog.HasName name) :
    Does s (.create name schema) (.created (.ok ()))
      { s with catalog := s.catalog.addTable name schema [] }
  | filled {name : String} {schema : Schema} {stored rest : List Row}
    {result : Except StoreError Unit} (h : ¬ s.catalog.HasName name)
    (hstored : ∀ row ∈ stored, schema.Admits row) (hrest : ∀ row ∈ rest.head?, ¬ schema.Admits row)
    (hresult : result = .ok () ↔ rest = []) :
    Does s (.createWithRows name schema (stored ++ rest)) (.created result)
      { s with catalog := s.catalog.addTable name schema stored }
  | found {name : String} {t : Table} (h : s.catalog.find? name = some t) :
    Does s (.lookUp name) (.found (.ok s.handles.length)) { s with handles := s.handles ++ [t] }
  | stored {handle : Nat} {t t' : Table} {row : Row} (h : s.handles[handle]? = some t)
    (h' : s.catalog.withId? t.id = some t') (hw : row.length = t.schema.width) :
    Does s (.insert handle row) (.stored (.ok ⟨t.id, t'.rows.length⟩))
      { s with catalog := s.catalog.append t.id row }
  | opened {handle : Nat} {t : Table} (h : s.table? handle = some t) :
    Does s (.scan handle) (.opened s.cursors.length) { s with cursors := s.cursors ++ [t.scan] }
  | handed {cursor : Nat} {rows : List Row} (h : s.cursors[cursor]? = some ⟨rows⟩) :
    Does s (.next cursor) (.handed rows.head?) { s with cursors := s.cursors.set cursor ⟨rows.tail⟩ }

/-- What holds at every point of a history. -/
structure Sound (s : Store) : Prop where
  numbered : s.catalog.IsNumbered
  named : s.catalog.IsNamedApart
  handles : ∀ t ∈ s.handles, ∃ t' ∈ s.catalog.tables, t.Grows t'

theorem sound_empty : empty.Sound := ⟨rfl, List.nodup_nil, nofun⟩

theorem Sound.exists_withId? (hs : s.Sound) {handle : Nat} {t : Table}
    (h : s.handles[handle]? = some t) :
    ∃ t', s.catalog.withId? t.id = some t' ∧ t' ∈ s.catalog.tables ∧ t.Grows t' := by
  obtain ⟨t', ht', hg⟩ := hs.handles t (List.mem_of_getElem? h)
  exact ⟨t', hg.id ▸ hs.numbered.withId? ht', ht', hg⟩

theorem Sound.does (hs : s.Sound) (call : Call) : s.Does call (s.step call).1 (s.step call).2 := by
  cases call with
  | create name schema =>
    by_cases hname : s.catalog.HasName name
    · rw [step, Catalog.create_of_hasName hname]
      exact .refused hname id trivial
    · rw [step, Catalog.create_of_not_hasName hname]
      exact .created hname
  | createWithRows name schema rows =>
    by_cases hname : s.catalog.HasName name
    · rw [step, Catalog.createWithRows_of_hasName hname]
      exact .refused (.inl hname) (not_not_intro hname) trivial
    · obtain ⟨stored, rest, hrows, hstored, hrest, hresult, hcatalog⟩ :=
        hs.numbered.createWithRows_of_not_hasName hname schema rows
      rw [step]
      generalize s.catalog.createWithRows name schema rows = x at hresult hcatalog ⊢
      obtain ⟨result, catalog⟩ := x
      cases hcatalog
      rw [hrows]
      exact .filled hname hstored hrest hresult
  | lookUp name =>
    rw [step, Catalog.table]
    cases hfind : s.catalog.find? name with
    | none => exact .refused (Catalog.find?_eq_none_iff.mp hfind) id trivial
    | some t => exact .found hfind
  | insert handle row =>
    rw [step]
    cases hhandle : s.handles[handle]? with
    | none => exact .refused (fun t ht => nomatch hhandle.symm.trans ht) id trivial
    | some t =>
      obtain ⟨t', ht', -, -⟩ := hs.exists_withId? hhandle
      by_cases hw : row.length = t.schema.width
      · have hinsert : s.catalog.insert t row = .ok (⟨t.id, t'.rows.length⟩, _) :=
          Catalog.insert_eq_ok_iff.mpr ⟨hw, by rw [ht']; rfl, rfl⟩
        simp only [hinsert]
        exact .stored hhandle ht' hw
      · simp only [Catalog.insert, if_pos hw]
        refine .refused (fun u hu => ?_) id trivial
        cases hhandle.symm.trans hu
        exact hw
  | scan handle =>
    rw [step]
    cases htable : s.table? handle with
    | none =>
      refine .refused ?_ id trivial
      cases hhandle : s.handles[handle]? with
      | none => exact List.getElem?_eq_none_iff.mp hhandle
      | some t =>
        obtain ⟨t', ht', -, -⟩ := hs.exists_withId? hhandle
        rw [table?, hhandle, Option.bind_some, ht'] at htable
        cases htable
    | some t => exact .opened htable
  | next cursor =>
    rw [step]
    cases hcursor : s.cursors[cursor]? with
    | none => exact .refused (List.getElem?_eq_none_iff.mp hcursor) id trivial
    | some c =>
      obtain ⟨rows⟩ := c
      have hhanded := Does.handed hcursor
      cases rows <;> exact hhanded

/-! ## What an answer shows -/

def putInto (table : Nat) : Call × Reply → Option Row
  | (.insert _ row, .stored (.ok id)) => if id.table = table then some row else none
  | _ => none

def insertedInto (table : Nat) (log : List (Call × Reply)) : List Row :=
  log.filterMap (putInto table)

theorem insertedInto_cons (table : Nat) (x : Call × Reply) (log : List (Call × Reply)) :
    insertedInto table (x :: log) = (putInto table x).toList ++ insertedInto table log := by
  rw [insertedInto, List.filterMap_cons]
  cases putInto table x <;> rfl

def Reply.rowId? : Reply → Option RowId
  | stored (.ok id) => some id
  | _ => none

def rowIds (log : List (Call × Reply)) : List RowId := log.filterMap fun x => x.2.rowId?

def Call.asks (cursor : Nat) : Call → Bool
  | next k => k = cursor
  | _ => false

def answersOf (cursor : Nat) (log : List (Call × Reply)) : List Reply :=
  (log.filter fun x => x.1.asks cursor).map (·.2)

theorem answersOf_cons_of_asks {cursor : Nat} (reply : Reply) (log : List (Call × Reply))
    (h : call.asks cursor = true) :
    answersOf cursor ((call, reply) :: log) = reply :: answersOf cursor log := by
  simp [answersOf, h]

theorem answersOf_cons_of_not_asks {cursor : Nat} (reply : Reply) (log : List (Call × Reply))
    (h : ¬ call.asks cursor = true) :
    answersOf cursor ((call, reply) :: log) = answersOf cursor log := by
  simp [answersOf, h]

theorem putInto_of_isFailure (h : reply.IsFailure) (table : Nat) :
    putInto table (call, reply) = none := by
  cases reply with
  | stored result =>
    cases result with
    | error e => cases call <;> rfl
    | ok id => cases h
  | _ => cases call <;> rfl

theorem rowId?_of_isFailure (h : reply.IsFailure) : reply.rowId? = none := by
  cases reply with
  | stored result =>
    cases result with
    | error e => rfl
    | ok id => cases h
  | _ => rfl

theorem Reply.isFailure_created {result : Except StoreError Unit} :
    (created result).IsFailure ↔ result ≠ .ok () := by
  cases result with
  | error e => exact iff_of_true trivial nofun
  | ok => exact iff_of_false id (not_not_intro rfl)

/-! ## What one call keeps -/

/-- A table stays in its place and gets the row that is put into it. -/
theorem Does.tables (h : s.Does call reply s') {i : Nat} {t : Table}
    (ht : s.catalog.tables[i]? = some t) :
    s'.catalog.tables[i]? = some (t.extend (putInto t.id (call, reply)).toList) := by
  cases h with
  | refused h hfills hreply =>
    rw [putInto_of_isFailure hreply, Option.toList_none, t.extend_nil, ht]
  | created | filled =>
    refine Eq.trans ?_ (congrArg some t.extend_nil.symm)
    exact getElem?_of_prefix (List.prefix_append ..) ht
  | found | opened | handed => exact ht.trans (congrArg some t.extend_nil.symm)
  | @stored handle u u' row h h' hw =>
    show (s.catalog.append u.id row).tables[i]? = _
    rw [Catalog.append, List.getElem?_map, ht, Option.map_some, putInto]
    by_cases hid : t.id = u.id
    · rw [if_pos hid, if_pos hid.symm]
      rfl
    · rw [if_neg hid, if_neg (Ne.symm hid), Option.toList_none, t.extend_nil]

theorem Does.grows (h : s.Does call reply s') : s.catalog.Grows s'.catalog :=
  fun _ t ht => ⟨_, h.tables ht, t.grows_extend _⟩

theorem Does.sound (h : s.Does call reply s') (hs : s.Sound) : s'.Sound := by
  have hold : ∀ t ∈ s.handles, ∃ t' ∈ s'.catalog.tables, t.Grows t' := by
    intro t ht
    obtain ⟨t', ht', hg⟩ := hs.handles t ht
    obtain ⟨t'', ht'', hg'⟩ := h.grows.exists_mem ht'
    exact ⟨t'', ht'', hg.trans hg'⟩
  cases h with
  | refused | opened | handed => exact ⟨hs.numbered, hs.named, hold⟩
  | created h | filled h => exact ⟨hs.numbered.addTable .., hs.named.addTable h .., hold⟩
  | @found name t h =>
    refine ⟨hs.numbered, hs.named, fun u hu => ?_⟩
    rcases List.mem_append.mp hu with hu | hu
    · exact hold u hu
    · rw [List.mem_singleton.mp hu]
      exact ⟨t, List.mem_of_find?_eq_some h, .refl t⟩
  | stored => exact ⟨hs.numbered.append .., hs.named.append .., hold⟩

theorem Does.handles (h : s.Does call reply s') : s.handles <+: s'.handles := by
  cases h with
  | found => exact List.prefix_append ..
  | _ => exact List.prefix_rfl

/-- Where a row is put there was none before. -/
theorem Does.not_holds (h : s.Does call reply s') (hs : s.Sound) {id : RowId}
    (hid : reply.rowId? = some id) (row : Row) : ¬ s.catalog.Holds id row := by
  rintro ⟨t, ht, htable, hrow⟩
  cases h with
  | refused h hfills hreply =>
    rw [rowId?_of_isFailure hreply] at hid
    cases hid
  | @stored handle u u' row' h h' hw =>
    cases hid
    rw [← show t.id = u.id from htable, hs.numbered.withId? ht] at h'
    cases h'
    exact absurd hrow (by simp)
  | _ => cases hid

/-- A row is where the answer says that it is. -/
theorem Does.holds {handle : Nat} {row : Row} {id : RowId}
    (h : s.Does (.insert handle row) (.stored (.ok id)) s') (hs : s.Sound) :
    s'.catalog.Holds id row := by
  cases h with
  | refused h hfills hreply => cases hreply
  | @stored _ t t' _ h h' hw =>
    obtain ⟨u, hu, hmem, hg⟩ := hs.exists_withId? h
    cases hu.symm.trans h'
    refine ⟨_, List.mem_map_of_mem hmem, ?_⟩
    rw [if_pos hg.id]
    exact ⟨hg.id, by simp⟩

theorem Does.exists_handle {handle : Nat} {row : Row} {id : RowId}
    (h : s.Does (.insert handle row) (.stored (.ok id)) s') :
    ∃ t, s.handles[handle]? = some t ∧ t.id = id.table := by
  cases h with
  | refused h hfills hreply => cases hreply
  | stored h => exact ⟨_, h, rfl⟩

theorem Does.exists_holds (h : s.Does call reply s') (hs : s.Sound) {id : RowId}
    (hid : reply.rowId? = some id) : ∃ row, s'.catalog.Holds id row := by
  have hstep := h
  cases h with
  | refused h hfills hreply =>
    rw [rowId?_of_isFailure hreply] at hid
    cases hid
  | stored =>
    cases hid
    exact ⟨_, hstep.holds hs⟩
  | _ => cases hid

/-! ## What an open cursor hands out -/

theorem Does.handed_of_asks {cursor : Nat} {rows : List Row} (h : s.Does call reply s')
    (hc : s.cursors[cursor]? = some ⟨rows⟩) (hasks : call.asks cursor = true) :
    reply = .handed rows.head? ∧ s'.cursors[cursor]? = some ⟨rows.tail⟩ := by
  have hlt := (List.getElem?_eq_some_iff.mp hc).1
  cases call with
  | next k =>
    cases of_decide_eq_true hasks
    cases h with
    | refused h => exact absurd hlt (Nat.not_lt.mpr h)
    | handed h =>
      cases h.symm.trans hc
      exact ⟨rfl, List.getElem?_set_self hlt⟩
  | _ => cases hasks

theorem Does.cursor_of_not_asks {cursor : Nat} {c : Cursor} (h : s.Does call reply s')
    (hc : s.cursors[cursor]? = some c) (hasks : call.asks cursor = false) :
    s'.cursors[cursor]? = some c := by
  cases h with
  | opened => exact getElem?_of_prefix (List.prefix_append ..) hc
  | handed => exact (List.getElem?_set_ne (of_decide_eq_false hasks)).trans hc
  | _ => exact hc

/-! ## Which calls fail -/

theorem Does.isFailure_iff (h : s.Does call reply s') : reply.IsFailure ↔ s.Refuses call := by
  cases h with
  | refused h hfills hreply => exact iff_of_true hreply h
  | created h => exact iff_of_false id h
  | @filled name schema stored rest result h hstored hrest hresult =>
    rw [Reply.isFailure_created, ne_eq, hresult]
    cases rest with
    | nil =>
      refine iff_of_false (not_not_intro rfl) ?_
      rw [List.append_nil]
      rintro (hname | ⟨row, hrow, hadmits⟩)
      · exact h hname
      · exact hadmits (hstored row hrow)
    | cons row rest =>
      exact iff_of_true nofun (.inr ⟨row, by simp, hrest row rfl⟩)
  | found h =>
    refine iff_of_false id fun hname => ?_
    rw [Catalog.find?_eq_none_iff.mpr hname] at h
    cases h
  | stored h h' hw => exact iff_of_false id fun hall => hall _ h hw
  | opened h =>
    obtain ⟨t, ht, -⟩ := Option.bind_eq_some_iff.mp h
    exact iff_of_false id (Nat.not_le.mpr (List.getElem?_eq_some_iff.mp ht).1)
  | handed h => exact iff_of_false id (Nat.not_le.mpr (List.getElem?_eq_some_iff.mp h).1)

theorem Does.eq_of_isFailure (h : s.Does call reply s') (hreply : reply.IsFailure)
    (hfills : ¬ s.Fills call) : s' = s := by
  cases h with
  | refused => rfl
  | filled h => exact absurd h hfills
  | _ => cases hreply

theorem Does.exists_of_fills {name : String} {schema : Schema} {rows : List Row}
    (h : s.Does (.createWithRows name schema rows) reply s') (hname : ¬ s.catalog.HasName name) :
    ∃ stored rest, rows = stored ++ rest ∧ (∀ row ∈ stored, schema.Admits row) ∧
      (∀ row ∈ rest.head?, ¬ schema.Admits row) ∧ (reply.IsFailure ↔ rest ≠ []) ∧
      s' = { s with catalog := s.catalog.addTable name schema stored } := by
  cases h with
  | refused h hfills => exact absurd hname hfills
  | @filled _ _ stored rest result _ hstored hrest hresult =>
    exact ⟨stored, rest, rfl, hstored, hrest, Reply.isFailure_created.trans (not_congr hresult), rfl⟩

/-! ## Histories -/

theorem Sound.step (hs : s.Sound) (call : Call) : (s.step call).2.Sound := (hs.does call).sound hs

theorem Sound.after (hs : s.Sound) (calls : List Call) : (s.after calls).Sound := by
  induction calls generalizing s with
  | nil => exact hs
  | cons call calls ih => exact ih (hs.step call)

/-- Over a history too a table stays in its place and gets the rows that are put into it. -/
theorem Sound.tables_after (hs : s.Sound) (calls : List Call) {i : Nat} {t : Table}
    (ht : s.catalog.tables[i]? = some t) :
    (s.after calls).catalog.tables[i]? = some (t.extend (insertedInto t.id (s.log calls))) := by
  induction calls generalizing s t with
  | nil => exact ht.trans (congrArg some t.extend_nil.symm)
  | cons call calls ih =>
    refine (ih (hs.step call) ((hs.does call).tables ht)).trans (congrArg some ?_)
    rw [Table.extend_extend]
    exact congrArg t.extend (insertedInto_cons ..).symm

theorem Sound.grows_after (hs : s.Sound) (calls : List Call) :
    s.catalog.Grows (s.after calls).catalog :=
  fun _ t ht => ⟨_, hs.tables_after calls ht, t.grows_extend _⟩

theorem Sound.handles_after (hs : s.Sound) (calls : List Call) :
    s.handles <+: (s.after calls).handles := by
  induction calls generalizing s with
  | nil => exact List.prefix_rfl
  | cons call calls ih => exact (hs.does call).handles.trans (ih (hs.step call))

theorem Sound.not_holds_of_mem_rowIds (hs : s.Sound) {id : RowId}
    (hid : id ∈ rowIds (s.log calls)) (row : Row) : ¬ s.catalog.Holds id row := by
  induction calls generalizing s with
  | nil => cases hid
  | cons call calls ih =>
    obtain ⟨x, hx, hid⟩ := List.mem_filterMap.mp hid
    rcases List.mem_cons.mp hx with rfl | hx
    · exact (hs.does call).not_holds hs hid row
    · exact fun hrow => ih (hs.step call) (List.mem_filterMap.mpr ⟨x, hx, hid⟩)
        ((hs.does call).grows.holds hrow)

/-- No place is given to two rows. -/
theorem Sound.nodup_rowIds (hs : s.Sound) (calls : List Call) : (rowIds (s.log calls)).Nodup := by
  induction calls generalizing s with
  | nil => exact List.nodup_nil
  | cons call calls ih =>
    rw [log, rowIds, List.filterMap_cons]
    cases hid : (s.step call).1.rowId? with
    | none => exact ih (hs.step call)
    | some id =>
      refine List.nodup_cons.mpr ⟨fun hmem => ?_, ih (hs.step call)⟩
      obtain ⟨row, hrow⟩ := (hs.does call).exists_holds hs hid
      exact (hs.step call).not_holds_of_mem_rowIds hmem row hrow

/-- A cursor hands out its rows one by one, and then nothing. -/
theorem Sound.answersOf_log (hs : s.Sound) (calls : List Call) {cursor : Nat} {rows : List Row}
    (hc : s.cursors[cursor]? = some ⟨rows⟩) :
    answersOf cursor (s.log calls) =
      (List.range (calls.countP (·.asks cursor))).map fun i => .handed rows[i]? := by
  induction calls generalizing s rows with
  | nil => rfl
  | cons call calls ih =>
    have hdoes := hs.does call
    by_cases hasks : call.asks cursor = true
    · obtain ⟨hreply, hc'⟩ := hdoes.handed_of_asks hc hasks
      have hlater := ih (hs.step call) hc'
      rw [log, answersOf_cons_of_asks _ _ hasks, hlater, List.countP_cons_of_pos hasks,
        List.range_succ_eq_map, List.map_cons, List.map_map, hreply, List.head?_eq_getElem?]
      refine congrArg _ (List.map_congr_left fun i _ => ?_)
      rw [Function.comp, List.getElem?_tail]
    · rw [log, answersOf_cons_of_not_asks _ _ hasks, List.countP_cons_of_neg hasks]
      exact ih (hs.step call) (hdoes.cursor_of_not_asks hc (Bool.not_eq_true _ ▸ hasks))

/-! ## At every point of a history -/

/-- What a store promises after all that is in the log, whatever comes later. -/
structure IsAppendOnly (log : List (Call × Reply)) (s : Store) : Prop where
  names : (s.catalog.tables.map fun t => Text.lower t.name).Nodup
  ids : (s.catalog.tables.map (·.id)).Nodup
  /-- No insertion was answered with a place that another was answered with. -/
  places : (rowIds log).Nodup
  /-- A table gets the rows that are inserted into it, behind its rows, and changes in no other way. -/
  tables (later : List Call) (i : Nat) (t : Table) : s.catalog.tables[i]? = some t →
    (s.after later).catalog.tables[i]? = some (t.extend (insertedInto t.id (s.log later)))
  /-- Whoever looks at the table later on finds the row in the place that was answered. -/
  inserted (handle : Nat) (row : Row) (id : RowId) (later : List Call) :
    (s.step (.insert handle row)).1 = .stored (.ok id) →
      let s' := (s.step (.insert handle row)).2.after later
      (∃ t, s'.table? handle = some t ∧ t.id = id.table) ∧
        ∀ handle' t, s'.table? handle' = some t → t.id = id.table → t.rows[id.slot]? = some row
  /-- A cursor answers with the rows that the table has when it is opened, one after the other, and
  with none from then on. -/
  scanned (handle cursor : Nat) (later : List Call) :
    (s.step (.scan handle)).1 = .opened cursor →
      ∃ t, s.table? handle = some t ∧
        answersOf cursor ((s.step (.scan handle)).2.log later) =
          (List.range (later.countP (·.asks cursor))).map fun i => .handed t.rows[i]?
  failure (call : Call) : (s.step call).1.IsFailure ↔ s.Refuses call
  unchanged (call : Call) : (s.step call).1.IsFailure → ¬ s.Fills call → (s.step call).2 = s
  /-- A new table is left with the rows before the first that does not fit, if there is one. -/
  filled (name : String) (schema : Schema) (rows : List Row) : ¬ s.catalog.HasName name →
    ∃ stored rest, rows = stored ++ rest ∧ (∀ row ∈ stored, schema.Admits row) ∧
      (∀ row ∈ rest.head?, ¬ schema.Admits row) ∧
      ((s.step (.createWithRows name schema rows)).1.IsFailure ↔ rest ≠ []) ∧
      (s.step (.createWithRows name schema rows)).2 =
        { s with catalog := s.catalog.addTable name schema stored }

theorem Sound.inserted (hs : s.Sound) {handle : Nat} {row : Row} {id : RowId} (later : List Call)
    (h : (s.step (.insert handle row)).1 = .stored (.ok id)) :
    let s' := (s.step (.insert handle row)).2.after later
    (∃ t, s'.table? handle = some t ∧ t.id = id.table) ∧
      ∀ handle' t, s'.table? handle' = some t → t.id = id.table → t.rows[id.slot]? = some row := by
  intro s'
  have hdoes := hs.does (.insert handle row)
  have hnow := hdoes.sound hs
  have hs' : s'.Sound := hnow.after later
  rw [h] at hdoes
  obtain ⟨u, hu, hutable, hrow⟩ := (hnow.grows_after later).holds (hdoes.holds hs)
  constructor
  · obtain ⟨t, ht, htable⟩ := hdoes.exists_handle
    have hlater := getElem?_of_prefix (hdoes.handles.trans (hnow.handles_after later)) ht
    obtain ⟨t', ht', -, hg⟩ := hs'.exists_withId? hlater
    refine ⟨t', ?_, hg.id.trans htable⟩
    rw [table?, hlater, Option.bind_some, ht']
  · intro handle' t ht htable
    obtain ⟨_, _, hfind⟩ := Option.bind_eq_some_iff.mp ht
    rw [hs'.numbered.eq_of_id (List.mem_of_find?_eq_some hfind) hu (htable.trans hutable.symm)]
    exact hrow

theorem Sound.scanned (hs : s.Sound) {handle cursor : Nat} (later : List Call)
    (h : (s.step (.scan handle)).1 = .opened cursor) :
    ∃ t, s.table? handle = some t ∧
      answersOf cursor ((s.step (.scan handle)).2.log later) =
        (List.range (later.countP (·.asks cursor))).map fun i => .handed t.rows[i]? := by
  have hdoes := hs.does (.scan handle)
  have hs' := hdoes.sound hs
  rw [h] at hdoes
  generalize (s.step (.scan handle)).2 = s' at hdoes hs' ⊢
  cases hdoes with
  | refused h hfills hreply => cases hreply
  | @opened _ t ht => exact ⟨t, ht, hs'.answersOf_log later (by simp [Table.scan])⟩

/-- The store is append-only: whatever has been called and whatever is called later on, no two tables
share a name or a number, no two rows a place, a row stays in its place, a scan is a snapshot, and a call
that fails leaves all as it was, or leaves a new table with the rows before the first that does not fit. -/
theorem appendOnly (calls : List Call) : IsAppendOnly (empty.log calls) (empty.after calls) := by
  have hs : (empty.after calls).Sound := sound_empty.after calls
  exact {
    names := hs.named
    ids := hs.numbered ▸ List.nodup_range'
    places := sound_empty.nodup_rowIds calls
    tables := fun later _ _ => hs.tables_after later
    inserted := fun _ _ _ later => hs.inserted later
    scanned := fun _ _ later => hs.scanned later
    failure := fun call => (hs.does call).isFailure_iff
    unchanged := fun call => (hs.does call).eq_of_isFailure
    filled := fun _ _ _ => (hs.does _).exists_of_fills }

def numbers : Schema := ⟨[⟨"no", .int⟩]⟩

/-- A table with two rows, one of which was stored while a cursor was open. -/
def arrivals : List Call :=
  [.create "Guest" numbers, .lookUp "guest", .insert 0 [.int 7], .scan 0, .insert 0 [.int 8]]

theorem appendOnly_of_arrivals :
    let s := empty.after arrivals
    (s.step (.insert 0 [.int 9])).1 = .stored (.ok ⟨1, 2⟩) ∧
      (∀ handle t, ((s.step (.insert 0 [.int 9])).2.after [.insert 0 [.int 5]]).table? handle =
        some t → t.id = 1 → t.rows[2]? = some [.int 9]) ∧
      (s.step (.scan 0)).1 = .opened 1 ∧
      (∃ t, s.table? 0 = some t ∧
        answersOf 1 ((s.step (.scan 0)).2.log [.next 1, .insert 0 [.int 9], .next 0, .next 1,
          .next 1]) = (List.range 3).map fun i => .handed t.rows[i]?) ∧
      (s.step (.create "GUEST" numbers)).1.IsFailure ∧
      (s.step (.create "GUEST" numbers)).2 = s ∧
      ¬ s.catalog.HasName "room" ∧
      ∃ stored rest, [[.int 1], [.null], [.int 2]] = stored ++ rest ∧
        (∀ row ∈ stored, numbers.Admits row) ∧ (∀ row ∈ rest.head?, ¬ numbers.Admits row) ∧
        (s.step (.createWithRows "room" numbers [[.int 1], [.null], [.int 2]])).2 =
          { s with catalog := s.catalog.addTable "room" numbers stored } := by
  intro s
  have h : IsAppendOnly (empty.log arrivals) s := appendOnly arrivals
  have hroom : ¬ s.catalog.HasName "room" := Catalog.find?_eq_none_iff.mp rfl
  obtain ⟨stored, rest, hrows, hstored, hrest, -, hfilled⟩ :=
    h.filled "room" numbers [[.int 1], [.null], [.int 2]] hroom
  exact ⟨rfl, (h.inserted 0 [.int 9] ⟨1, 2⟩ [.insert 0 [.int 5]] rfl).2, rfl,
    h.scanned 0 1 [.next 1, .insert 0 [.int 9], .next 0, .next 1, .next 1] rfl, trivial,
    h.unchanged (.create "GUEST" numbers) trivial id, hroom, stored, rest, hrows, hstored, hrest,
    hfilled⟩

end Store

end RelQuery
