import TripGraph.Foundation.Dict
import TripGraph.Schemas.Plan

/-! # Keys of dictionaries

`json.dumps` with sorted keys compares the keys of each dictionary, and raises on one that
has integers and strings among its keys. Values that come from JSON have text keys only.
-/

namespace TripGraph

open Interaction

/-- The key is a string. -/
def Key.isText : Key → Bool
  | .str _ => true
  | .int _ => false

namespace Value

mutual

/-- All keys in the value are text. -/
def Textual : Value → Prop
  | .list items => TextualList items
  | .dict items => TextualItems items
  | _ => True

/-- The values of the list are textual. -/
def TextualList : List Value → Prop
  | [] => True
  | item :: rest => Textual item ∧ TextualList rest

/-- The keys of the entries are text, and so are those in their values. -/
def TextualItems : List (Key × Value) → Prop
  | [] => True
  | (key, item) :: rest => key.isText = true ∧ Textual item ∧ TextualItems rest

end

mutual

/-- The keys of every dictionary in the value can be sorted. -/
def sortable : Value → Bool
  | .list items => sortableList items
  | .dict items => (items.all (fun entry => entry.1.isText) ||
      items.all (fun entry => !entry.1.isText)) && sortableItems items
  | _ => true

def sortableList : List Value → Bool
  | [] => true
  | item :: rest => sortable item && sortableList rest

def sortableItems : List (Key × Value) → Bool
  | [] => true
  | (_, item) :: rest => sortable item && sortableItems rest

end

theorem textualList_iff {items : List Value} :
    TextualList items ↔ ∀ item ∈ items, item.Textual := by
  induction items with
  | nil => simp [TextualList]
  | cons item rest ih => simp [TextualList, ih]

theorem textualItems_iff {items : List (Key × Value)} :
    TextualItems items ↔ ∀ entry ∈ items, entry.1.isText = true ∧ entry.2.Textual := by
  induction items with
  | nil => simp [TextualItems]
  | cons entry rest ih => simp [TextualItems, ih, and_assoc]

@[simp] theorem textual_null : null.Textual := trivial

@[simp] theorem textual_bool (value : Bool) : (bool value).Textual := trivial

@[simp] theorem textual_int (value : Int) : (int value).Textual := trivial

@[simp] theorem textual_float (value : Rat) : (float value).Textual := trivial

@[simp] theorem textual_str (value : String) : (str value).Textual := trivial

@[simp] theorem textual_list_iff {items : List Value} :
    (list items).Textual ↔ ∀ item ∈ items, item.Textual := textualList_iff

@[simp] theorem textual_dict_iff {items : List (Key × Value)} :
    (dict items).Textual ↔ ∀ entry ∈ items, entry.1.isText = true ∧ entry.2.Textual :=
  textualItems_iff

@[simp] theorem textual_ofText (value : Option String) : (ofText value).Textual := by
  cases value <;> trivial

theorem textual_ofEntries {entries : List (String × Value)}
    (h : ∀ entry ∈ entries, entry.2.Textual) : (ofEntries entries).Textual := by
  rw [ofEntries, textual_dict_iff]
  intro entry hmem
  obtain ⟨own, hown, rfl⟩ := List.mem_map.mp hmem
  exact ⟨rfl, h own hown⟩

/-- Writing under a text key. -/
theorem Textual.setItem {value updated item : Value} (h : value.Textual) (hitem : item.Textual)
    {key : String} (hset : value.setItem (.str key) item = some updated) : updated.Textual := by
  cases value with
  | dict items =>
      cases hset
      rw [textual_dict_iff] at h ⊢
      intro entry hmem
      rcases Dict.mem_write hmem with rfl | hmem
      · exact ⟨rfl, hitem⟩
      · exact h entry hmem
  | _ => cases hset

mutual

theorem Textual.sortable : (value : Value) → value.Textual → value.sortable = true
  | .null, _ => rfl
  | .bool _, _ => rfl
  | .int _, _ => rfl
  | .float _, _ => rfl
  | .str _, _ => rfl
  | .list items, h => Textual.sortableList items h
  | .dict items, h => by
      have hkeys : items.all (fun entry => entry.1.isText) = true :=
        List.all_eq_true.mpr fun entry hmem => (textualItems_iff.mp h entry hmem).1
      simp only [Value.sortable, hkeys, Bool.true_or, Bool.true_and]
      exact Textual.sortableItems items h

theorem Textual.sortableList : (items : List Value) → TextualList items →
    Value.sortableList items = true
  | [], _ => rfl
  | item :: rest, h => by
      rw [Value.sortableList, Textual.sortable item h.1, Textual.sortableList rest h.2]
      rfl

theorem Textual.sortableItems : (items : List (Key × Value)) → TextualItems items →
    Value.sortableItems items = true
  | [], _ => rfl
  | (_, item) :: rest, h => by
      rw [Value.sortableItems, Textual.sortable item h.2.1, Textual.sortableItems rest h.2.2]
      rfl

end

theorem sortableItems_iff {items : List (Key × Value)} :
    sortableItems items = true ↔ ∀ entry ∈ items, entry.2.sortable = true := by
  induction items with
  | nil => simp [sortableItems]
  | cons entry rest ih => simp [sortableItems, ih]

/-! ## Outputs by step id -/

/-- If the value is a dictionary, it is one from step ids. -/
def ByStep : Value → Prop
  | .dict items => ∀ entry ∈ items, entry.1.isText = false ∧ entry.2.Textual
  | value => value.Textual

/-- Textual values are dictionaries from step ids only when they are empty. -/
theorem Textual.byStep {value : Value} (h : value.Textual)
    (hempty : ∀ items, value = .dict items → items = []) : value.ByStep := by
  cases value with
  | dict items =>
      rw [hempty items rfl]
      exact fun entry hmem => absurd hmem List.not_mem_nil
  | _ => exact h

theorem ByStep.setItem {value updated item : Value} (h : value.ByStep) (hitem : item.Textual)
    {key : Int} (hset : value.setItem (.int key) item = some updated) : updated.ByStep := by
  cases value with
  | dict items =>
      cases hset
      intro entry hmem
      rcases Dict.mem_write hmem with rfl | hmem
      · exact ⟨rfl, hitem⟩
      · exact h entry hmem
  | _ => cases hset

theorem ByStep.sortable {value : Value} (h : value.ByStep) : value.sortable = true := by
  cases value with
  | dict items =>
      have hkeys : items.all (fun entry => !entry.1.isText) = true :=
        List.all_eq_true.mpr fun entry hmem => by simp [(h entry hmem).1]
      simp only [Value.sortable, hkeys, Bool.or_true, Bool.true_and]
      exact sortableItems_iff.mpr fun entry hmem => (h entry hmem).2.sortable
  | _ => exact Textual.sortable _ h

end Value

/-! ## What the runtime writes -/

theorem ToolPolicyDecision.textual_entries (decision : ToolPolicyDecision) :
    ∀ entry ∈ decision.entries, entry.2.Textual := by
  have hlatency : (Value.ofOption (decision.latencyMs.map .float)).Textual := by
    cases decision.latencyMs <;> trivial
  simp [ToolPolicyDecision.entries, hlatency]

theorem ToolPolicyTraceEntry.textual_toValue (entry : ToolPolicyTraceEntry) :
    entry.toValue.Textual := by
  refine Value.textual_ofEntries ?_
  have hstep : (Value.ofOption (entry.stepId.map .int)).Textual := by
    cases entry.stepId <;> trivial
  simp only [List.mem_append]
  rintro own (hown | hown)
  · exact entry.decision.textual_entries own hown
  · simp only [List.mem_cons, List.not_mem_nil, or_false] at hown
    rcases hown with rfl | rfl | rfl | rfl
    · exact Value.textual_ofText _
    · exact hstep
    · exact Value.textual_ofText _
    · exact Value.textual_ofText _

end TripGraph
