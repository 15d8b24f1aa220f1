import RelQuery.Proofs.Data.Yields
import RelQuery.Proofs.Run.CallValues

/-!
# Groups of rows

The rows of a group are those with its key, and the groups come in the order of their first rows.
Taking in rows one by one keeps of every group its first row and, for each call, what an accumulator
makes of the group's rows, so the row that an aggregation has for a group depends on these alone.
-/

namespace RelQuery

namespace Grouping

variable {g : Grouping} {rows seen members : List Row} {row : Row}

/-! ## Groups by key -/

def keyOf (g : Grouping) (row : Row) : List UInt8 :=
  Key.ofRow (g.groupBy.map fun e => orNull (g.eval row e))

def keysOf (g : Grouping) (rows : List Row) : List (List UInt8) := (rows.map g.keyOf).eraseDups

def membersOf (g : Grouping) (rows : List Row) (key : List UInt8) : List Row :=
  rows.filter (g.keyOf · == key)

/-- The rows of each group. Without grouping expressions there is a group of no rows. -/
def groupsOf (g : Grouping) (rows : List Row) : List (List Row) :=
  if rows = [] ∧ g.groupBy = [] then [[]] else (g.keysOf rows).map (g.membersOf rows)

def leadOf (g : Grouping) (members : List Row) : Row := members.headD (Row.nulls g.schema.width)

theorem membersOf_concat (key : List UInt8) :
    g.membersOf (seen ++ [row]) key =
      g.membersOf seen key ++ if g.keyOf row = key then [row] else [] := by
  unfold membersOf
  rw [List.filter_append]
  by_cases h : g.keyOf row = key <;> simp [h]

theorem keysOf_concat :
    g.keysOf (seen ++ [row]) =
      if g.keyOf row ∈ g.keysOf seen then g.keysOf seen else g.keysOf seen ++ [g.keyOf row] := by
  unfold keysOf
  rw [List.map_append, List.map_singleton, eraseDups_concat]
  simp only [List.mem_eraseDups]

theorem membersOf_eq_nil {key : List UInt8} (h : key ∉ g.keysOf seen) :
    g.membersOf seen key = [] := by
  unfold membersOf
  rw [List.filter_eq_nil_iff]
  intro row hrow hkey
  refine h (List.mem_eraseDups.mpr (List.mem_map.mpr ⟨row, hrow, ?_⟩))
  simpa using hkey

theorem keysOf_eq_nil : g.keysOf rows = [] ↔ rows = [] := by
  cases rows <;> simp [keysOf, List.eraseDups_cons]

/-- Every row is in one group, and in no other. -/
theorem flatten_groupsOf (g : Grouping) (rows : List Row) :
    (g.groupsOf rows).flatten.Perm rows := by
  unfold groupsOf
  split
  · rename_i h
    rw [h.1]
    exact .nil
  · rw [← List.flatMap_def]
    refine flatMap_filter_perm (nodup_eraseDups _) fun row hrow => ?_
    exact List.mem_eraseDups.mpr (List.mem_map_of_mem hrow)

/-! ## Groups in the making -/

/-- A group that has taken in these rows. -/
structure Stands (g : Grouping) (members : List Row) (group : Group) : Prop where
  firstRow : members.head? = some group.firstRow
  accumulators :
    List.Forall₂ (fun c a => g.accumulatorOver members c = .ok a) g.calls group.accumulators

/-- The groups of the rows so far. -/
def AllStand (g : Grouping) (seen : List Row) : List (List UInt8) → Groups → Prop :=
  List.Forall₂ fun key entry => entry.1 = key ∧ g.Stands (g.membersOf seen key) entry.2

/-- Taking in one more row, given what every accumulator has taken in before. -/
theorem accumulateAll_takes {group group' : Group}
    (h : List.Forall₂ (fun c a => g.accumulatorOver members c = .ok a) g.calls group.accumulators)
    (hgroup : g.accumulateAll row group = .ok group') :
    group'.firstRow = group.firstRow ∧
      List.Forall₂ (fun c a => g.accumulatorOver (members ++ [row]) c = .ok a) g.calls
        group'.accumulators := by
  obtain ⟨accumulators, has, hgroup⟩ := bind_eq_ok_iff.mp hgroup
  cases hgroup
  refine ⟨rfl, forall₂_through ?_ (forall₂_zip h) (mapM_eq_ok_iff.mp has)⟩
  rintro _ ⟨c, a⟩ b ⟨rfl, ha⟩ hb
  exact accumulatorOver_concat ha hb

theorem Stands.takes {group group' : Group} (h : g.Stands members group)
    (hgroup : g.accumulateAll row group = .ok group') : g.Stands (members ++ [row]) group' := by
  obtain ⟨hfirst, haccumulators⟩ := accumulateAll_takes h.accumulators hgroup
  refine ⟨?_, haccumulators⟩
  rw [hfirst, List.head?_append, h.firstRow, Option.some_or]

theorem stands_newGroup {group : Group}
    (hgroup : g.accumulateAll row (g.newGroup row) = .ok group) : g.Stands [row] group := by
  have hstart : List.Forall₂ (fun c a => g.accumulatorOver [] c = .ok a) g.calls
      (g.newGroup row).accumulators := by
    unfold newGroup
    rw [List.forall₂_map_right_iff, List.forall₂_same]
    exact fun c _ => rfl
  obtain ⟨hfirst, haccumulators⟩ := accumulateAll_takes hstart hgroup
  refine ⟨?_, haccumulators⟩
  rw [hfirst]
  rfl

/-- Groups of other keys do not notice a row. -/
theorem allStand_of_not_mem {keys : List (List UInt8)} {groups : Groups}
    (h : g.AllStand seen keys groups) (hkey : g.keyOf row ∉ keys) : g.AllStand (seen ++ [row]) keys groups := by
  have h := (List.forall₂_and_left _ _).mpr ⟨fun key (hk : key ∈ keys) => hk, h⟩
  refine h.imp fun key entry ⟨hmem, hentry, hstands⟩ => ⟨hentry, ?_⟩
  have hne : g.keyOf row ≠ key := fun heq => hkey (heq ▸ hmem)
  rwa [membersOf_concat, if_neg hne, List.append_nil]

theorem allStand_takeInto : ∀ {keys : List (List UInt8)} {groups groups' : Groups}, keys.Nodup →
    (g.keyOf row ∉ keys → g.membersOf seen (g.keyOf row) = []) → g.AllStand seen keys groups →
    g.takeInto (g.keyOf row) row groups = .ok groups' →
      g.AllStand (seen ++ [row])
        (if g.keyOf row ∈ keys then keys else keys ++ [g.keyOf row]) groups'
  | _, _, _, _, hnew, .nil, h => by
    obtain ⟨group, hgroup, h⟩ := bind_eq_ok_iff.mp h
    cases h
    refine .cons ⟨rfl, ?_⟩ .nil
    rw [membersOf_concat, if_pos rfl, hnew List.not_mem_nil]
    exact stands_newGroup hgroup
  | key :: keys, (_, group) :: groups, _, hkeys, hnew, .cons ⟨rfl, hgroup⟩ hrest, h => by
    rw [List.nodup_cons] at hkeys
    unfold takeInto at h
    by_cases hkey : key = g.keyOf row
    · rw [if_pos hkey] at h
      obtain ⟨group', hgroup', h⟩ := bind_eq_ok_iff.mp h
      cases h
      rw [if_pos (by simp [hkey])]
      refine .cons ⟨rfl, ?_⟩ (allStand_of_not_mem hrest (hkey ▸ hkeys.1))
      rw [membersOf_concat, if_pos hkey.symm]
      exact hgroup.takes hgroup'
    · rw [if_neg hkey] at h
      obtain ⟨groups', hgroups', h⟩ := bind_eq_ok_iff.mp h
      cases h
      have hne : g.keyOf row ≠ key := Ne.symm hkey
      have hnew' : g.keyOf row ∉ keys → g.membersOf seen (g.keyOf row) = [] :=
        fun hnot => hnew (by simp [hne, hnot])
      have htail := allStand_takeInto hkeys.2 hnew' hrest hgroups'
      have hafter : (if g.keyOf row ∈ key :: keys then key :: keys
          else key :: keys ++ [g.keyOf row]) =
          key :: if g.keyOf row ∈ keys then keys else keys ++ [g.keyOf row] := by
        by_cases hin : g.keyOf row ∈ keys <;> simp [hne, hin]
      rw [hafter]
      refine .cons ⟨rfl, ?_⟩ htail
      rwa [membersOf_concat, if_neg hne, List.append_nil]

/-! ## All rows -/

theorem yields_orNull (x : Except QueryError Value) : Yields x x.isOk (orNull x) := by
  cases x with
  | ok v => exact (Yields.ok v).congr ⟨fun _ => rfl, fun _ => trivial⟩ rfl
  | error e => exact (Yields.error e .null).congr ⟨False.elim, nofun⟩ rfl

theorem take_eq_ok {groups groups' : Groups} (h : g.take groups row = .ok groups') :
    (∀ e ∈ g.groupBy, (g.eval row e).isOk = true) ∧
      g.takeInto (g.keyOf row) row groups = .ok groups' := by
  obtain ⟨values, hvalues, h⟩ := bind_eq_ok_iff.mp h
  obtain ⟨hok, rfl⟩ := (yields_mapM (fun e _ => yields_orNull (g.eval row e)) values).mp hvalues
  exact ⟨hok, h⟩

theorem allStand_of_foldlM {groups : Groups} (h : rows.foldlM g.take [] = .ok groups) :
    (∀ row ∈ rows, ∀ e ∈ g.groupBy, (g.eval row e).isOk = true) ∧
      g.AllStand rows (g.keysOf rows) groups := by
  refine foldlM_inv (fun seen groups =>
    (∀ row ∈ seen, ∀ e ∈ g.groupBy, (g.eval row e).isOk = true) ∧
      g.AllStand seen (g.keysOf seen) groups) ⟨nofun, .nil⟩ ?_ h
  rintro seen row groups groups' ⟨hok, hstand⟩ htake
  obtain ⟨hrow, htake⟩ := take_eq_ok htake
  refine ⟨?_, ?_⟩
  · rw [List.forall_mem_append, List.forall_mem_singleton]
    exact ⟨hok, hrow⟩
  · rw [keysOf_concat]
    exact allStand_takeInto (nodup_eraseDups _) membersOf_eq_nil hstand htake

/-- The row for a group: its outputs over its first row, its calls taken over all its rows. -/
def AnswersFor (g : Grouping) (members : List Row) (out : Row) : Prop :=
  ∃ results, List.Forall₂ (fun c v => g.callOver members c = .ok v) g.calls results ∧
    g.outputRow results (g.leadOf members) = .ok out

theorem Stands.answersFor {group : Group} {out : Row} (h : g.Stands members group)
    (hout : g.groupRow group = .ok out) : g.AnswersFor members out := by
  have hne : members ≠ [] := fun hnil => by
    have := h.firstRow
    rw [hnil] at this
    cases this
  refine ⟨group.accumulators.map Accumulator.result, ?_, ?_⟩
  · rw [List.forall₂_map_right_iff]
    refine h.accumulators.imp fun c a ha => ?_
    rw [callOver, if_neg hne, ha]
    rfl
  · rw [leadOf, List.headD_eq_head?_getD, h.firstRow]
    exact hout

/-- An aggregation that succeeds has one row for each group. -/
theorem answersFor_groups {out : List Row} (h : g.answer rows = .ok out) :
    List.Forall₂ g.AnswersFor (g.groupsOf rows) out := by
  obtain ⟨groups, hgroups, hout⟩ := bind_eq_ok_iff.mp h
  have hstand := (allStand_of_foldlM hgroups).2
  have hempty : groups.isEmpty = true ↔ rows = [] := by
    rw [← keysOf_eq_nil (g := g), List.isEmpty_iff, ← List.length_eq_zero_iff, ← hstand.length_eq,
      List.length_eq_zero_iff]
  unfold outputRows at hout
  unfold groupsOf
  by_cases hnothing : rows = [] ∧ g.groupBy = []
  · rw [if_pos hnothing]
    rw [if_pos (by rw [Bool.and_eq_true, hempty, List.isEmpty_iff]; exact hnothing)] at hout
    obtain ⟨row, hrow, hout⟩ := bind_eq_ok_iff.mp hout
    cases hout
    refine .cons ⟨_, ?_, hrow⟩ .nil
    rw [List.forall₂_map_right_iff, List.forall₂_same]
    exact fun c _ => rfl
  · rw [if_neg hnothing]
    rw [if_neg (by rw [Bool.and_eq_true, hempty, List.isEmpty_iff]; exact hnothing)] at hout
    rw [List.forall₂_map_left_iff]
    exact forall₂_through (fun key entry row hentry hrow => hentry.2.answersFor hrow) hstand
      (mapM_eq_ok_iff.mp hout)

end Grouping

end RelQuery
