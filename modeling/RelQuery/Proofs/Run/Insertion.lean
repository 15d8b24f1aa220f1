import RelQuery.Proofs.Number.Width
import RelQuery.Proofs.Run.History
import RelQuery.Proofs.Store.Growth

/-!
# Insertions

An insertion stores the rows before the first that cannot be built, each of the type of its table,
and stores them once. Integers get into a table with the value that they are given with.
-/

namespace RelQuery

variable {κ : Type}

/-! ## Building a row -/

def leadingRows (targets : List Column) (s : Schema) (rows : List (List Expr)) :
    List (List Expr) :=
  rows.takeWhile fun exprs => (buildRow targets s exprs).isOk

/-- A column of integers gets the integer that its expression evaluates to. Among targets of one
name the first counts. -/
def KeepsIntegers (targets : List Column) (s : Schema) (exprs : List Expr) (row : Row) : Prop :=
  ∀ (i : Nat) (column : Column), s.columns[i]? = some column →
    column.type = .int ∨ column.type = .bigint →
      ∃ j e v n, targets.findIdx? (fun t => Text.eqIgnoringAsciiCase t.name column.name) = some j ∧
        exprs[j]? = some e ∧ e.evalRow Schema.empty [] = .ok v ∧ v.toInt? = some n ∧
        row[i]?.bind Value.toInt? = some n

/-- An integer that comes out of a coercion is the one that went in. -/
theorem toInt?_of_coerce {target : Column} {v w : Value} {n : Int} (h : coerce target v = .ok w)
    (hw : w.toInt? = some n) : v.toInt? = some n := by
  rw [← hw]
  obtain ⟨name, t⟩ := target
  cases v with
  | bigint i =>
    cases t with
    | int =>
      simp only [coerce] at h
      split at h
      · rename_i m hm
        cases h
        exact congrArg some (toInt_of_int32? hm).symm
      · cases h
    | float => cases h; cases hw
    | _ => cases h; rfl
  | int i =>
    cases t with
    | bigint =>
      cases h
      have hle := i.le_toInt
      have hlt := i.toInt_lt
      exact congrArg some (Int64.toInt_ofInt_of_le (by omega) (by omega)).symm
    | float => cases h; cases hw
    | _ => cases h; rfl
  | _ => cases t <;> cases h <;> rfl

theorem exists_of_givenValue {targets : List Column} {values : List Value} {column : Column}
    {v : Value} (h : givenValue targets values column = .ok v) :
    ∃ j, targets.findIdx? (fun t => Text.eqIgnoringAsciiCase t.name column.name) = some j ∧
      values[j]? = some v := by
  rw [givenValue] at h
  split at h
  · rename_i hv
    cases h
    exact Option.bind_eq_some_iff.mp hv
  · cases h

theorem exists_of_buildRow {targets : List Column} {s : Schema} {exprs : List Expr} {row : Row}
    (h : buildRow targets s exprs = .ok row) :
    ∃ values, List.Forall₂ (fun x v => ∃ u, x.1.evalRow Schema.empty [] = .ok u ∧
        coerce x.2 u = .ok v) (exprs.zip targets) values ∧
      List.Forall₂ (fun column v => givenValue targets values column = .ok v) s.columns row ∧
      s.Admits row := by
  rw [buildRow] at h
  split at h
  · cases h
  obtain ⟨values, hvalues, h⟩ := bind_eq_ok_iff.mp h
  obtain ⟨row', hrow', h⟩ := bind_eq_ok_iff.mp h
  refine ⟨values, (mapM_eq_ok_iff.mp hvalues).imp fun x v hx => bind_eq_ok_iff.mp hx, ?_⟩
  split at h
  · rename_i hcheck
    cases h
    obtain ⟨rfl, hadmits⟩ := Schema.checkRow_eq_ok_iff.mp hcheck
    exact ⟨mapM_eq_ok_iff.mp hrow', hadmits⟩
  · cases h

theorem admits_of_buildRow {targets : List Column} {s : Schema} {exprs : List Expr} {row : Row}
    (h : buildRow targets s exprs = .ok row) : s.Admits row := by
  obtain ⟨-, -, -, hadmits⟩ := exists_of_buildRow h
  exact hadmits

theorem keepsIntegers_of_buildRow {targets : List Column} {s : Schema} {exprs : List Expr}
    {row : Row} (h : buildRow targets s exprs = .ok row) : KeepsIntegers targets s exprs row := by
  obtain ⟨values, hvalues, hrow, hadmits⟩ := exists_of_buildRow h
  intro i column hcolumn ht
  obtain ⟨hi, rfl⟩ := List.getElem?_eq_some_iff.mp hcolumn
  have hi' : i < row.length := hrow.length_eq ▸ hi
  obtain ⟨j, hj, hv⟩ := exists_of_givenValue (hrow.get hi hi')
  obtain ⟨hjv, e⟩ := List.getElem?_eq_some_iff.mp hv
  have hjx : j < (exprs.zip targets).length := hvalues.length_eq ▸ hjv
  obtain ⟨u, hu, hcoerce⟩ := hvalues.get hjx hjv
  -- the check found an integer in the column, so coercion was given one
  obtain ⟨n, hn⟩ := (hadmits.get hi hi').exists_toInt? ht
  refine ⟨j, (exprs.zip targets)[j].1, u, n, hj, ?_, hu, ?_, ?_⟩
  · rw [List.getElem_zip]
    exact List.getElem?_eq_getElem _
  · refine toInt?_of_coerce hcoerce ?_
    rw [List.get_eq_getElem, e]
    exact hn
  · rw [List.getElem?_eq_getElem hi']
    exact hn

/-! ## Storing the rows -/

/-- What storing `rows` in table `t` comes to, `built` being the rows that are stored: the leading
ones, in order. The answer is `count` of their number if they are all, and otherwise the error of the
row behind them. -/
structure StoresLeading {α : Type} (targets : List Column) (t : Table) (rows : List (List Expr))
    (count : Nat → α) (c : Catalog) (x : Except QueryError α × Catalog) (built : List Row) :
    Prop where
  builds : List.Forall₂ (fun exprs row => buildRow targets t.schema exprs = .ok row)
    (leadingRows targets t.schema rows) built
  catalog : x.2 = c.appendAll t.id built
  all : built.length = rows.length → x.1 = .ok (count rows.length)
  fault : ∀ exprs, rows[built.length]? = some exprs →
    ∃ e, buildRow targets t.schema exprs = .error e ∧ x.1 = .error e

theorem exists_insertRows (targets : List Column) (t : Table) :
    ∀ (rows : List (List Expr)) (n : Nat) (c : Catalog), ∃ built,
      StoresLeading targets t rows (n + ·) c (insertRows targets t n c rows) built
  | [], n, c => ⟨[], .nil, (c.appendAll_nil t.id).symm, fun _ => rfl, nofun⟩
  | exprs :: rows, n, c => by
    rw [insertRows]
    cases hrow : buildRow targets t.schema exprs with
    | error e =>
      refine ⟨[], ?_, (c.appendAll_nil t.id).symm, nofun, fun exprs' h => ⟨e, ?_, rfl⟩⟩
      · rw [leadingRows, List.takeWhile_cons, hrow]
        exact .nil
      · cases h
        exact hrow
    | ok row =>
      -- a row that was checked has the width that the table asks for
      have hinsert : c.insert t row = .ok (_, c.append t.id row) :=
        Catalog.insert_eq_ok_iff.mpr
          ⟨(Schema.admits_iff.mp (admits_of_buildRow hrow)).1, rfl, rfl⟩
      simp only [hinsert]
      obtain ⟨built, h⟩ := exists_insertRows targets t rows (n + 1) (c.append t.id row)
      refine ⟨row :: built, ?_, ?_, fun hlength => ?_, h.fault⟩
      · rw [leadingRows, List.takeWhile_cons, hrow]
        exact .cons hrow h.builds
      · rw [h.catalog, Catalog.appendAll_append]
      · rw [h.all (Nat.succ.inj hlength), List.length_cons, Nat.add_right_comm, Nat.add_assoc]

theorem Operator.exists_write (targets : List Column) (rows : List (List Expr)) {c : Catalog}
    {id : Nat} {t : Table} (h : c.withId? id = some t) :
    ∃ built, StoresLeading targets t rows (fun n => some [.bigint (Int64.ofNat n)]) c
      (write targets rows (some id) c) built := by
  obtain ⟨built, hbuilt, hcatalog, hall, hfault⟩ := exists_insertRows targets t rows 0 c
  rw [Nat.zero_add] at hall
  rw [write, Option.bind_some, h]
  simp only
  generalize insertRows targets t 0 c rows = x at hcatalog hall hfault ⊢
  obtain ⟨e | n, c'⟩ := x
  · refine ⟨built, hbuilt, hcatalog, fun hk => (nomatch hall hk), fun exprs hk => ?_⟩
    obtain ⟨e', he, h⟩ := hfault exprs hk
    cases h
    exact ⟨e, he, rfl⟩
  · refine ⟨built, hbuilt, hcatalog, fun hk => ?_, fun exprs hk => ?_⟩
    · cases hall hk
      rfl
    · obtain ⟨e, -, h⟩ := hfault exprs hk
      cases h

namespace Running

variable {name : String} {columns : List Column} {rows : List (List Expr)} {cost : Cost κ}

theorem exists_of_started {s : Running (.insert name columns rows cost)}
    (h : (s.step .start).1 = .started (.ok ())) :
    ∃ target, s.catalog.find? name = some target ∧
      (s.step .start).2.op = .insert ⟨.opened, 0⟩ (some target.id) false := by
  obtain ⟨op, c⟩ := s
  cases op with
  | insert life table done =>
    simp only [step, Operator.start, Catalog.table] at h ⊢
    cases hfind : c.find? name with
    | none => simp [hfind] at h
    | some target => exact ⟨target, rfl, rfl⟩

theorem step_next_of_undone {s : Running (.insert name columns rows cost)} {produced id : Nat}
    (h : s.op = .insert ⟨.opened, produced⟩ (some id) false) :
    (s.step .next).1 = .handed (Operator.write columns rows (some id) s.catalog).1 ∧
      (s.step .next).2.catalog = (Operator.write columns rows (some id) s.catalog).2 ∧
      ∃ life, (s.step .next).2.op = .insert life (some id) true := by
  rw [step, h, Operator.next]
  exact ⟨rfl, rfl, _, rfl⟩

theorem step_next_of_done {s : Running (.insert name columns rows cost)} {life : Lifecycle}
    {table : Option Nat} (h : s.op = .insert life table true) :
    (s.step .next).2.catalog = s.catalog ∧ ∃ life', (s.step .next).2.op = .insert life' table true := by
  rw [step, h, Operator.next, Operator.request]
  split
  · exact ⟨rfl, life, rfl⟩
  · exact ⟨rfl, life, rfl⟩
  · exact ⟨rfl, life.finish, rfl⟩

theorem run_of_done {s : Running (.insert name columns rows cost)} {life : Lifecycle}
    {table : Option Nat} (h : s.op = .insert life table true) {events : List Event}
    (hstart : .start ∉ events) (hclose : .close ∉ events) :
    ∃ life', (s.run events).2.op = .insert life' table true := by
  induction events generalizing s life with
  | nil => exact ⟨life, h⟩
  | cons e events ih =>
    rw [List.mem_cons, not_or] at hstart hclose
    rw [run_cons]
    cases e with
    | start => exact absurd rfl hstart.1
    | close => exact absurd rfl hclose.1
    | next =>
      obtain ⟨-, life', h'⟩ := step_next_of_done h
      exact ih h' hstart.2 hclose.2
    | store table row => exact ih ((op_step_store s table row).trans h) hstart.2 hclose.2

/-- Running an insertion changes the tables only by rows that are built for one of them. -/
theorem catalog_step (s : Running (.insert name columns rows cost)) {e : Event}
    (he : ∀ table row, e ≠ .store table row) :
    (s.step e).2.catalog = s.catalog ∨ ∃ t ∈ s.catalog.tables, ∃ built,
      (∀ row ∈ built, ∃ exprs ∈ rows, buildRow columns t.schema exprs = .ok row) ∧
        (s.step e).2.catalog = s.catalog.appendAll t.id built := by
  obtain ⟨op, c⟩ := s
  cases op with
  | insert life table done =>
    cases e with
    | store table row => exact absurd rfl (he table row)
    | close => exact .inl rfl
    | start =>
      refine .inl ?_
      rw [step, Operator.start]
      cases c.table name <;> rfl
    | next =>
      rw [step, Operator.next, Operator.request]
      split
      · exact .inl rfl
      · exact .inl rfl
      cases done with
      | true => exact .inl rfl
      | false =>
        cases table with
        | none => exact .inl rfl
        | some id =>
          cases ht : c.withId? id with
          | none =>
            refine .inl ?_
            simp [Operator.write, ht]
          | some t =>
            have hid : t.id = id := by simpa using List.find?_some ht
            obtain ⟨built, hw⟩ := Operator.exists_write columns rows ht
            refine .inr ⟨t, List.mem_of_find?_eq_some ht, built, fun row hrow => ?_, hw.catalog⟩
            obtain ⟨exprs, hexprs, h⟩ := exists_left_of_forall₂ hw.builds row hrow
            exact ⟨exprs, (List.takeWhile_subset _) hexprs, h⟩

end Running

/-! ## Catalogs filled by insertions -/

/-- What is given for storing: a row as it is, or an expression for each of some columns. -/
inductive Given
  | row (row : Row)
  | exprs (targets : List Column) (exprs : List Expr)

/-- The row that is stored for what is given, in a table of schema `s`. -/
inductive Given.StoredAs (s : Schema) : Given → Row → Prop
  | row (row : Row) : StoredAs s (.row row) row
  | exprs {targets : List Column} {exprs : List Expr} {row : Row} :
    buildRow targets s exprs = .ok row → KeepsIntegers targets s exprs row →
      StoredAs s (.exprs targets exprs) row

namespace Catalog

/-- Catalogs that come about by creating tables, without and with rows, and by running insertions,
and all that has been given for storing meanwhile. An insertion is opened, asked for its answer and
closed in any order, also while others are under way. -/
inductive Populated : Catalog → List Given → Prop
  | empty : Populated .empty []
  | create {c c' : Catalog} {given : List Given} {name : String} {s : Schema} :
    Populated c given → c.create name s = .ok c' → Populated c' given
  | createWithRows {c : Catalog} {given : List Given} {name : String} {s : Schema}
    {rows : List Row} : Populated c given →
      Populated (c.createWithRows name s rows).2 (given ++ rows.map .row)
  | insertion {κ : Type} {name : String} {columns : List Column} {rows : List (List Expr)}
    {cost : Cost κ} {given : List Given} {s : Running (.insert name columns rows cost)} {e : Event} :
    Populated s.catalog given → (∀ table row, e ≠ .store table row) →
      Populated (s.step e).2.catalog (given ++ rows.map (.exprs columns))

/-- Every stored row fits its table, and is stored for something that was given. -/
def HoldsGiven (c : Catalog) (given : List Given) : Prop :=
  ∀ t ∈ c.tables, ∀ row ∈ t.rows, t.schema.Admits row ∧ ∃ g ∈ given, g.StoredAs t.schema row

variable {c c' : Catalog} {given given' : List Given}

theorem HoldsGiven.mono (h : c.HoldsGiven given) (hsub : given ⊆ given') : c.HoldsGiven given' := by
  intro t ht row hrow
  obtain ⟨hadmits, g, hg, hstored⟩ := h t ht row hrow
  exact ⟨hadmits, g, hsub hg, hstored⟩

theorem HoldsGiven.appendAll (h : c.HoldsGiven given) (hnum : c.IsNumbered) {t : Table}
    (ht : t ∈ c.tables) {rows : List Row}
    (hrows : ∀ row ∈ rows, t.schema.Admits row ∧ ∃ g ∈ given, g.StoredAs t.schema row) :
    (c.appendAll t.id rows).HoldsGiven given := by
  intro u hu row hrow
  rcases mem_appendAll.mp hu with ⟨hu, -⟩ | ⟨u', hu', hid, rfl⟩
  · exact h u hu row hrow
  · rcases List.mem_append.mp hrow with hold | hnew
    · exact h u' hu' row hold
    · obtain rfl := hnum.eq_of_id hu' ht hid
      exact hrows row hnew

theorem HoldsGiven.concat (h : c.HoldsGiven given) {t : Table} (ht : c'.tables = c.tables ++ [t])
    (hrows : ∀ row ∈ t.rows, t.schema.Admits row ∧ ∃ g ∈ given, g.StoredAs t.schema row) :
    c'.HoldsGiven given := by
  intro u hu
  rw [ht, List.mem_append, List.mem_singleton] at hu
  rcases hu with hu | rfl
  · exact h u hu
  · exact hrows

theorem Populated.holdsGiven (h : c.Populated given) : c.IsNumbered ∧ c.HoldsGiven given := by
  induction h with
  | empty => exact ⟨rfl, fun t ht => nomatch ht⟩
  | create _ hc ih =>
    exact ⟨ih.1.create hc, ih.2.concat (find?_create hc).1 fun row hrow => nomatch hrow⟩
  | @createWithRows c given name s rows _ ih =>
    have hgiven := ih.2.mono (List.subset_append_left given (rows.map .row))
    rcases ih.1.createWithRows name s rows with h | ⟨stored, hfirst, hadmits, htables, -⟩
    · rw [h]
      exact ⟨ih.1, hgiven⟩
    · refine ⟨ih.1.concat htables rfl, hgiven.concat htables fun row hrow => ⟨hadmits row hrow, ?_⟩⟩
      exact ⟨.row row, List.mem_append_right _ (List.mem_map_of_mem (hfirst.subset hrow)), .row row⟩
  | @insertion _ _ columns rows _ given s e _ he ih =>
    have hgiven := ih.2.mono (List.subset_append_left given (rows.map (.exprs columns)))
    rcases s.catalog_step he with h | ⟨t, ht, built, hbuilt, h⟩
    · rw [h]
      exact ⟨ih.1, hgiven⟩
    · rw [h]
      refine ⟨ih.1.appendAll t.id built, hgiven.appendAll ih.1 ht fun row hrow => ?_⟩
      obtain ⟨exprs, hexprs, h⟩ := hbuilt row hrow
      exact ⟨admits_of_buildRow h, .exprs columns exprs,
        List.mem_append_right _ (List.mem_map_of_mem hexprs), .exprs h (keepsIntegers_of_buildRow h)⟩

end Catalog

namespace Running

/-- An insertion, opened in any state and asked for its answer when the tables have grown, puts the
leading rows behind the rows of its table and leaves all else as it is. It answers with their number
if they are all, with the error of the row behind them otherwise, and stores nothing more until it
is closed or opened anew. Hence in tables that are created and filled by insertions every row fits
its table, and stands for something that was given, with the integers that were given. -/
theorem insertions_store_leading_rows :
    (∀ {name : String} {columns : List Column} {rows : List (List Expr)} {cost : Cost κ}
      (s s' : Running (.insert name columns rows cost)),
      (s.step .start).1 = .started (.ok ()) → s'.op = (s.step .start).2.op →
      s.catalog.Grows s'.catalog → s'.catalog.IsNumbered →
        ∃ before target after built,
          s'.catalog.tables = before ++ target :: after ∧ s'.catalog.find? name = some target ∧
          List.Forall₂ (fun exprs row => buildRow columns target.schema exprs = .ok row ∧
              KeepsIntegers columns target.schema exprs row)
            (leadingRows columns target.schema rows) built ∧
          (s'.step .next).2.catalog.tables = before ++ target.extend built :: after ∧
          (built.length = rows.length →
            (s'.step .next).1 = .handed (.ok (some [.bigint (Int64.ofNat built.length)]))) ∧
          (∀ exprs, rows[built.length]? = some exprs →
            ∃ e, buildRow columns target.schema exprs = .error e ∧
              (s'.step .next).1 = .handed (.error e)) ∧
          ∀ later, .start ∉ later → .close ∉ later →
            let s'' := ((s'.step .next).2.run later).2
            (s''.step .next).2.catalog = s''.catalog) ∧
      ∀ (c : Catalog) (given : List Given), c.Populated given → ∀ t ∈ c.tables, ∀ row ∈ t.rows,
        t.schema.Admits row ∧ ∃ g ∈ given, g.StoredAs t.schema row := by
  refine ⟨fun {name columns rows cost} s s' hstart hop hgrows hnum => ?_,
    fun c given h => h.holdsGiven.2⟩
  obtain ⟨t, ht, hstarted⟩ := exists_of_started hstart
  -- the table found on opening is still found, under its number and its name
  obtain ⟨target, htarget, hg⟩ := hgrows.find? ht
  have hmem := List.mem_of_find?_eq_some htarget
  obtain ⟨before, after, htables⟩ := List.append_of_mem hmem
  have hid : s'.catalog.withId? t.id = some target := by
    rw [← hg.id]
    exact hnum.withId? hmem
  obtain ⟨built, hw⟩ := Operator.exists_write columns rows hid
  obtain ⟨hreply, hnext, life, hdone⟩ := step_next_of_undone (hop.trans hstarted)
  refine ⟨before, target, after, built, htables, htarget, ?_, ?_, ?_, ?_, ?_⟩
  · exact hw.builds.imp fun exprs row h => ⟨h, keepsIntegers_of_buildRow h⟩
  · rw [hnext, hw.catalog]
    exact hnum.tables_appendAll htables built
  · intro h
    rw [hreply, hw.all h, h]
  · intro exprs h
    obtain ⟨e, he, h⟩ := hw.fault exprs h
    exact ⟨e, he, by rw [hreply, h]⟩
  · intro later hs hc
    obtain ⟨life', h⟩ := run_of_done hdone hs hc
    exact (step_next_of_done h).1

/-- A table of parts, of which there is one, and a table of bins. -/
def parts : Catalog :=
  (Catalog.createWithRows
    (Catalog.empty.createWithRows "part" ⟨[⟨"id", .int⟩, ⟨"name", .varchar 4⟩]⟩
      [[.int 1, .string "bolt"]]).2
    "bin" ⟨[⟨"no", .int⟩]⟩ [[.int 7]]).2

/-- Two more parts, the second with too long a name. -/
def newParts : Plan Unit :=
  .insert "PART" [⟨"name", .varchar 4⟩, ⟨"id", .int⟩]
    [[.literal (.string "nut"), .literal (.bigint 2)],
      [.literal (.string "washer"), .literal (.int 3)]] ⟨(), (), ()⟩

/-- A bin is added after the insertion of the parts was opened. -/
theorem insertions_store_leading_rows_of_parts :
    let s := created newParts parts
    let s' : Running newParts := ⟨(s.step .start).2.op, s.catalog.append 2 [.int 8]⟩
    (s'.step .next).1 = .handed (.error (.store (.tooLong "name" 4))) ∧
      (s'.step .next).2.catalog.tables.map (·.rows) =
        [[[.int 1, .string "bolt"], [.int 2, .string "nut"]], [[.int 7], [.int 8]]] ∧
      (∀ later, .start ∉ later → .close ∉ later →
        let s'' := ((s'.step .next).2.run later).2
        (s''.step .next).2.catalog = s''.catalog) ∧
      ∀ t ∈ ((s.step .start).2.step .next).2.catalog.tables, ∀ row ∈ t.rows,
        t.schema.Admits row := by
  intro s s'
  have hgrows : s.catalog.Grows s'.catalog := Catalog.grows_appendAll s.catalog 2 [[.int 8]]
  obtain ⟨-, -, -, -, -, -, -, -, -, -, hlater⟩ :=
    insertions_store_leading_rows.1 s s' rfl rfl hgrows rfl
  have hparts : parts.Populated _ := .createWithRows (.createWithRows .empty)
  have hnext : ((s.step .start).2.step .next).2.catalog.Populated _ :=
    .insertion (.insertion (s := s) (e := .start) hparts nofun) nofun
  have hresult : (s'.op.next newParts s'.catalog).result =
    .error (.store (.tooLong "name" 4)) := by decide +kernel
  refine ⟨?_, by decide +kernel, hlater, fun t ht row hrow => ?_⟩
  · rw [step, hresult]
  · exact ((@insertions_store_leading_rows Unit).2 _ _ hnext t ht row hrow).1

end Running

end RelQuery
