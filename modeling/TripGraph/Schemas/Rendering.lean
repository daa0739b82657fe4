import Mathlib.Data.List.Sort
import TripGraph.Schemas.Textual

/-! # How values are written

`str` and `json.dumps` with sorted keys. How a float is written is up to the host language, and
so is the text of the exception for keys that cannot be sorted.
-/

namespace TripGraph

open Interaction

structure TextHost where
  showFloat : Rat → String
  sortError : Value → String

namespace Key

/-- `str(key)` -/
def toStr : Key → String
  | .int value => toString value
  | .str value => value

def repr : Key → String
  | .int value => toString value
  | .str value => reprText value

/-- The order of the keys of one type. -/
def le : Key → Key → Bool
  | .int first, .int second => decide (first ≤ second)
  | .str first, .str second => decide (first ≤ second)
  | .int _, .str _ => true
  | .str _, .int _ => false

end Key

/-- A text in JSON, with the characters beyond ASCII as they are. -/
def jsonString (text : String) : String :=
  let escape (c : Char) : List Char :=
    if c = '\\' then ['\\', '\\']
    else if c = '"' then ['\\', '"']
    else if c = '\n' then ['\\', 'n']
    else if c = '\r' then ['\\', 'r']
    else if c = '\t' then ['\\', 't']
    else if c.toNat = 8 then ['\\', 'b']
    else if c.toNat = 12 then ['\\', 'f']
    else if c.toNat < 32 then
      ['\\', 'u', '0', '0', Nat.digitChar (c.toNat / 16), Nat.digitChar (c.toNat % 16)]
    else [c]
  String.ofList ('"' :: text.toList.flatMap escape ++ ['"'])

namespace Value

/-- Whether a value counts as true. -/
def isTrue : Value → Bool
  | .null => false
  | .bool value => value
  | .int value => decide (value ≠ 0)
  | .float value => decide (value ≠ 0)
  | .str value => decide (value ≠ "")
  | .list items => !items.isEmpty
  | .dict items => !items.isEmpty

variable (host : TextHost)

mutual

/-- `repr(value)` -/
def repr : Value → String
  | .null => "None"
  | .bool value => if value then "True" else "False"
  | .int value => toString value
  | .float value => host.showFloat value
  | .str value => reprText value
  | .list items => "[" ++ ", ".intercalate (reprList items) ++ "]"
  | .dict items => "\x7b" ++ ", ".intercalate (reprItems items) ++ "\x7d"

def reprList : List Value → List String
  | [] => []
  | item :: rest => repr item :: reprList rest

def reprItems : List (Key × Value) → List String
  | [] => []
  | (key, item) :: rest => (key.repr ++ ": " ++ repr item) :: reprItems rest

end

/-- `str(value)` -/
def toStr : Value → String
  | .str value => value
  | value => repr host value

mutual

/-- A value in JSON; the keys of its dictionaries are sorted. -/
def json : Value → String
  | .null => "null"
  | .bool value => if value then "true" else "false"
  | .int value => toString value
  | .float value => host.showFloat value
  | .str value => jsonString value
  | .list items => "[" ++ ", ".intercalate (jsonList items) ++ "]"
  | .dict items =>
      let sorted := (jsonItems items).insertionSort fun first second => first.1.le second.1
      "\x7b" ++ ", ".intercalate
        (sorted.map fun item => jsonString item.1.toStr ++ ": " ++ item.2) ++
        "\x7d"

def jsonList : List Value → List String
  | [] => []
  | item :: rest => json item :: jsonList rest

def jsonItems : List (Key × Value) → List (Key × String)
  | [] => []
  | (key, item) :: rest => (key, json item) :: jsonItems rest

end

/-- `json.dumps(value, sort_keys=True, ensure_ascii=False)` -/
def sortedDumps (value : Value) : Except RaisedError String :=
  if value.sortable then .ok (value.json host) else .error (.typeError (host.sortError value))

theorem exists_sortedDumps_iff {value : Value} :
    (∃ text, value.sortedDumps host = .ok text) ↔ value.sortable = true := by
  unfold sortedDumps
  split
  next h => simp [h]
  next h => simp [h]

theorem sortable_of_mem {items : List (Key × Value)} (h : (dict items).sortable = true)
    {entry : Key × Value} (hmem : entry ∈ items) : entry.2.sortable = true :=
  sortableItems_iff.mp (Bool.and_eq_true_iff.mp h).2 entry hmem

theorem sortable_ofEntries {entries : List (String × Value)}
    (h : ∀ entry ∈ entries, entry.2.sortable = true) : (ofEntries entries).sortable = true := by
  rw [ofEntries, sortable, sortableItems_iff.mpr]
  · simp [Key.isText]
  · intro entry hmem
    obtain ⟨own, hown, rfl⟩ := List.mem_map.mp hmem
    exact h own hown

end Value

end TripGraph
