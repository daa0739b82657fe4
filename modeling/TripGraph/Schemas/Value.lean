import Mathlib.Data.Rat.Defs
import TripGraph.Foundation.Dict

/-! # Dynamically typed values and text helpers

Fields the source types as `Any` hold JSON-like values. A dictionary decoded from JSON has
string keys, while the runtime also writes integer step ids, so both kinds of key exist.
-/

namespace TripGraph

open Interaction

/-- A key of a dynamically typed dictionary. -/
inductive Key
  | int (value : Int)
  | str (value : String)
deriving DecidableEq

/-- A dynamically typed value. -/
inductive Value
  | null
  | bool (value : Bool)
  | int (value : Int)
  | float (value : Rat)
  | str (value : String)
  | list (items : List Value)
  | dict (items : List (Key × Value))

namespace Value

mutual

/-- Structural equality, as a test. -/
def same : Value → Value → Bool
  | .null, .null => true
  | .bool a, .bool b => decide (a = b)
  | .int a, .int b => decide (a = b)
  | .float a, .float b => decide (a = b)
  | .str a, .str b => decide (a = b)
  | .list a, .list b => sameList a b
  | .dict a, .dict b => sameItems a b
  | _, _ => false

/-- Structural equality of lists of values. -/
def sameList : List Value → List Value → Bool
  | [], [] => true
  | a :: as, b :: bs => same a b && sameList as bs
  | _, _ => false

/-- Structural equality of the items of two dictionaries. -/
def sameItems : List (Key × Value) → List (Key × Value) → Bool
  | [], [] => true
  | (k, a) :: as, (l, b) :: bs => decide (k = l) && same a b && sameItems as bs
  | _, _ => false

end

mutual

theorem same_iff : (a b : Value) → (same a b = true ↔ a = b)
  | .null, b => by cases b <;> simp [same]
  | .bool _, b => by cases b <;> simp [same]
  | .int _, b => by cases b <;> simp [same]
  | .float _, b => by cases b <;> simp [same]
  | .str _, b => by cases b <;> simp [same]
  | .list items, b => by
      cases b with
      | list others => simp [same, sameList_iff items others]
      | _ => simp [same]
  | .dict items, b => by
      cases b with
      | dict others => simp [same, sameItems_iff items others]
      | _ => simp [same]

theorem sameList_iff : (as bs : List Value) → (sameList as bs = true ↔ as = bs)
  | [], bs => by cases bs <;> simp [sameList]
  | a :: as, bs => by
      cases bs with
      | nil => simp [sameList]
      | cons b bs => simp [sameList, same_iff a b, sameList_iff as bs]

theorem sameItems_iff : (as bs : List (Key × Value)) → (sameItems as bs = true ↔ as = bs)
  | [], bs => by cases bs <;> simp [sameItems]
  | (k, a) :: as, bs => by
      cases bs with
      | nil => simp [sameItems]
      | cons entry bs =>
          obtain ⟨l, b⟩ := entry
          simp [sameItems, same_iff a b, sameItems_iff as bs]

end

instance : DecidableEq Value := fun a b => decidable_of_iff (same a b = true) (same_iff a b)

instance : Inhabited Value := ⟨.null⟩

/-- `None` or the value itself. -/
def ofOption : Option Value → Value
  | none => .null
  | some value => value

/-- `None` or a string. -/
def ofText : Option String → Value
  | none => .null
  | some text => .str text

/-- A dictionary with string keys. -/
def ofEntries (entries : List (String × Value)) : Value :=
  .dict (entries.map fun entry => (.str entry.1, entry.2))

/-- `value[key] = item`; only dictionaries support it. -/
def setItem : Value → Key → Value → Option Value
  | .dict items, key, item => some (.dict (Dict.write items key item))
  | _, _, _ => none

end Value

/-- Named arguments of a tool call. -/
abbrev Args := List (String × Value)

/-! ## Text -/

theorem repr_nat_injective {a b : Nat} (h : Nat.repr a = Nat.repr b) : a = b := by
  have hdigits : Nat.toDigits 10 a = Nat.toDigits 10 b := by
    rw [← Nat.toList_repr, ← Nat.toList_repr, h]
  rw [← Nat.ofDigitChars_ten_toDigits (n := a), hdigits, Nat.ofDigitChars_ten_toDigits]

/-- The characters `str.strip` removes. -/
def isSpace (c : Char) : Bool :=
  let n := c.toNat
  (9 ≤ n && n ≤ 13) || (28 ≤ n && n ≤ 32) || n == 0x85 || n == 0xA0 || n == 0x1680 ||
    (0x2000 ≤ n && n ≤ 0x200A) || n == 0x2028 || n == 0x2029 || n == 0x202F || n == 0x205F ||
    n == 0x3000

/-- `text.strip()`. -/
def strip (text : String) : String :=
  String.ofList ((text.toList.dropWhile isSpace).reverse.dropWhile isSpace).reverse

/-- `not text.strip()`: nothing but white space. -/
def isBlank (text : String) : Bool := text.toList.all isSpace

/-- `repr(text)` for printable text and the usual control characters. -/
def reprText (text : String) : String :=
  let quote := if text.toList.contains '\'' && !text.toList.contains '"' then '"' else '\''
  let escape (c : Char) : List Char :=
    if c = '\\' then ['\\', '\\']
    else if c = quote then ['\\', quote]
    else if c = '\n' then ['\\', 'n']
    else if c = '\r' then ['\\', 'r']
    else if c = '\t' then ['\\', 't']
    else if c.toNat < 32 || c.toNat = 127 then
      ['\\', 'x', Nat.digitChar (c.toNat / 16), Nat.digitChar (c.toNat % 16)]
    else [c]
  String.ofList (quote :: text.toList.flatMap escape ++ [quote])

/-- `str(None)` or the text itself, as an f-string shows it. -/
def showText : Option String → String
  | none => "None"
  | some text => text

/-- `[1, 2, 3]`. -/
def showInts (values : List Int) : String :=
  "[" ++ ", ".intercalate (values.map toString) ++ "]"

/-- `value or fallback` for text: the empty string counts as false. -/
def orText (value : Option String) (fallback : String) : String :=
  match value with
  | none => fallback
  | some text => if text = "" then fallback else text

/-- A text counts as true when it is set and not empty. -/
def truthy (value : Option String) : Bool :=
  match value with
  | none => false
  | some text => decide (text ≠ "")

theorem truthy_iff {value : Option String} :
    truthy value = true ↔ ∃ text, value = some text ∧ text ≠ "" := by
  cases value with
  | none => simp [truthy]
  | some text => simp [truthy]

end TripGraph
