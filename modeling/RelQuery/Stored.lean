import RelQuery.Engine
import RelQuery.Json.Basic

/-!
# Stored forms

How values, types, columns, rows, statistics and configurations are written in JSON. A choice among
alternatives is the name of an alternative that has no content, or an object whose only member is
the alternative with its content. A record is an object or the array of its fields. An object may
have members of other names, but none of the record's own twice.
-/

namespace RelQuery

namespace Json

/-! ## Leaves -/

def isNull : Json → Bool
  | null => true
  | _ => false

def toBool? : Json → Option Bool
  | bool b => some b
  | _ => none

def toText? : Json → Option String
  | string s => s
  | _ => none

def toItems? : Json → Option (List Json)
  | array items => some items
  | _ => none

def toIntBetween? (low high : Int) : Json → Option Int
  | number n => n.between? low high
  | _ => none

def toInt32? (j : Json) : Option Int32 :=
  (j.toIntBetween? (-(Int.pow 2 31)) (Int.pow 2 31 - 1)).map Int32.ofInt

def toInt64? (j : Json) : Option Int64 :=
  (j.toIntBetween? (-(Int.pow 2 63)) (Int.pow 2 63 - 1)).map Int64.ofInt

def toUInt32? (j : Json) : Option UInt32 :=
  (j.toIntBetween? 0 (Int.pow 2 32 - 1)).map fun i => UInt32.ofNat i.toNat

def toUInt64? (j : Json) : Option UInt64 :=
  (j.toIntBetween? 0 (Int.pow 2 64 - 1)).map fun i => UInt64.ofNat i.toNat

def toDouble? : Json → Option Float
  | number n => n.toFloat?
  | _ => none

/-! ## Choices and records -/

def choice? : Json → Option (String × Option Json)
  | string (some name) => some (name, none)
  | object [(some name, content)] => some (name, some content)
  | _ => none

/-- The fields of a record in the order of their names; `none` for one that is absent. -/
def fields? (names : List String) : Json → Option (List (Option Json))
  | array items =>
    if items.length ≤ names.length then some (names.zipIdx.map fun (_, i) => items[i]?) else none
  | object members =>
    let own := members.filterMap fun (key, _) => key.filter names.contains
    if members.all (·.1.isSome) && decide own.Nodup then
      some (names.map fun name => members.lookup (some name))
    else none
  | _ => none

def fieldOr {α : Type} (read : Json → Option α) (missing : α) (field : Option Json) : Option α :=
  match field with
  | some j => read j
  | none => some missing

end Json

/-! ## Data -/

def Value.ofJson? (j : Json) : Option Value := do
  match ← j.choice? with
  | ("Null", content) => if content.all (·.isNull) then some .null else none
  | ("Bool", some j) => j.toBool?.map .bool
  | ("Int", some j) => j.toInt32?.map .int
  | ("BigInt", some j) => j.toInt64?.map .bigint
  | ("Float", some j) => j.toDouble?.map fun x => .float (.ofFloat x)
  | ("String", some j) => j.toText?.map .string
  | _ => none

def DataType.ofJson? (j : Json) : Option DataType := do
  match ← j.choice? with
  | ("Varchar", some j) => j.toUInt32?.map .varchar
  | (name, content) =>
    if content.all (·.isNull) then
      [("Int", int), ("BigInt", bigint), ("Boolean", boolean), ("Float", float),
        ("String", string)].lookup name
    else none

def Column.ofJson? (j : Json) : Option Column := do
  match ← j.fields? ["name", "data_type"] with
  | [some name, some type] => return ⟨← name.toText?, ← DataType.ofJson? type⟩
  | _ => none

def Row.ofJson? (j : Json) : Option Row := do
  match ← j.fields? ["values"] with
  | [some values] => (← values.toItems?).mapM Value.ofJson?
  | _ => none

/-! ## Statistics -/

def Statistics.rowCountOfJson? (j : Json) : Option UInt64 := do
  match ← j.fields? ["row_count"] with
  | [some rows] => rows.toUInt64?
  | _ => none

/-- The record is taken as it is, the fraction of nulls whatever it may be. -/
def ColumnStatistics.ofJson? (j : Json) : Option ColumnStatistics := do
  match ← j.fields? ["distinct_count", "null_fraction"] with
  | [some distinct, some nulls] => return ⟨← distinct.toUInt64?, ← nulls.toDouble?⟩
  | _ => none

/-! ## Configurations -/

def CostParameters.ofJson? (j : Json) : Option (CostParameters Float) := do
  let d : CostParameters Float := .default
  match ← j.fields? ["default_row_count", "filter_selectivity", "join_selectivity"] with
  | [rows, filter, join] =>
    return { defaultRowCount := ← Json.fieldOr Json.toDouble? d.defaultRowCount rows
             filterSelectivity := ← Json.fieldOr Json.toDouble? d.filterSelectivity filter
             joinSelectivity := ← Json.fieldOr Json.toDouble? d.joinSelectivity join }
  | _ => none

def Config.ofJson? (j : Json) : Option (Config Float) := do
  let d : Config Float := .default
  match ← j.fields? ["use_memo", "cost_based", "max_pushdown_passes", "cost"] with
  | [memo, costBased, rounds, cost] =>
    return { useMemo := ← Json.fieldOr Json.toBool? d.useMemo memo
             costBased := ← Json.fieldOr Json.toBool? d.costBased costBased
             maxPushRounds :=
               ← Json.fieldOr (fun j => j.toUInt64?.map (·.toNat)) d.maxPushRounds rounds
             cost := ← Json.fieldOr CostParameters.ofJson? d.cost cost }
  | _ => none

end RelQuery
