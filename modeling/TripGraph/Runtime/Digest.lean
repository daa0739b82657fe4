import Mathlib.Data.Countable.Basic
import Mathlib.Data.Rat.Encodable
import Mathlib.Logic.Equiv.List
import Mathlib.Tactic.DeriveCountable
import TripGraph.Runtime.AgentState

/-! # Digests

The engine compares states by a digest of their serialised content. There are countably
many contents, so a digest that tells them all apart exists.
-/

namespace TripGraph

open Interaction

instance countableChar : Countable Char :=
  Function.Injective.countable (f := Char.toNat) fun _ _ => Char.toNat_inj.mp

instance countableString : Countable String :=
  Function.Injective.countable (f := String.toList) fun _ _ => String.toList_inj.mp

deriving instance Countable for Key

/-! ## JSON values -/

/-- A number for each element of a countable type. -/
noncomputable def number (α : Type) [Countable α] : α → Nat :=
  (Countable.exists_injective_nat α).choose

theorem number_injective (α : Type) [Countable α] : Function.Injective (number α) :=
  (Countable.exists_injective_nat α).choose_spec

namespace Value

mutual

/-- A number that determines the value. -/
noncomputable def code : Value → Nat
  | .null => Nat.pair 0 0
  | .bool value => Nat.pair 1 (number Bool value)
  | .int value => Nat.pair 2 (number Int value)
  | .float value => Nat.pair 3 (number Rat value)
  | .str value => Nat.pair 4 (number String value)
  | .list items => Nat.pair 5 (codeList items)
  | .dict items => Nat.pair 6 (codeItems items)

/-- A number that determines the list. -/
noncomputable def codeList : List Value → Nat
  | [] => 0
  | value :: rest => Nat.pair (code value) (codeList rest) + 1

/-- A number that determines the items of a dictionary. -/
noncomputable def codeItems : List (Key × Value) → Nat
  | [] => 0
  | (key, value) :: rest => Nat.pair (number Key key) (Nat.pair (code value) (codeItems rest)) + 1

end

mutual

theorem code_inj : (a b : Value) → code a = code b → a = b
  | .null, b => by cases b <;> simp [code]
  | .bool _, b => by cases b <;> simp [code, (number_injective _).eq_iff]
  | .int _, b => by cases b <;> simp [code, (number_injective _).eq_iff]
  | .float _, b => by cases b <;> simp [code, (number_injective _).eq_iff]
  | .str _, b => by cases b <;> simp [code, (number_injective _).eq_iff]
  | .list items, b => by
      cases b with
      | list others => simpa [code] using codeList_inj items others
      | _ => simp [code]
  | .dict items, b => by
      cases b with
      | dict others => simpa [code] using codeItems_inj items others
      | _ => simp [code]

theorem codeList_inj : (first second : List Value) → codeList first = codeList second →
    first = second
  | [], second => by cases second <;> simp [codeList]
  | a :: first, second => by
      cases second with
      | nil => simp [codeList]
      | cons b second =>
          intro h
          simp only [codeList, Nat.add_right_cancel_iff, Nat.pair_eq_pair] at h
          rw [code_inj a b h.1, codeList_inj first second h.2]

theorem codeItems_inj : (first second : List (Key × Value)) → codeItems first = codeItems second →
    first = second
  | [], second => by cases second <;> simp [codeItems]
  | (key, a) :: first, second => by
      cases second with
      | nil => simp [codeItems]
      | cons entry second =>
          obtain ⟨other, b⟩ := entry
          intro h
          simp only [codeItems, Nat.add_right_cancel_iff, Nat.pair_eq_pair] at h
          rw [number_injective _ h.1, code_inj a b h.2.1, codeItems_inj first second h.2.2]

end

instance : Countable Value := Function.Injective.countable (f := code) fun a b => code_inj a b

end Value

/-! ## Snapshots -/

instance {κ ν : Type} [Countable κ] [Countable ν] : Countable (Dict κ ν) :=
  Function.Injective.countable (f := Dict.entries) fun _ _ => Dict.ext

deriving instance Countable for PlanStep, Plan, StepStatus, ExecutionTraceEntry, GraphTraceEntry,
  ExecutionCritique, ReplanReport, ReplanningResult, CompressionMeta, ToolProvider, ToolFamily,
  ToolPolicyDecision, StoredDecisions, GlobalContext, PlanStateSummary, Snapshot

/-- A text of this length. -/
def unary (length : Nat) : String := String.ofList (List.replicate length 'a')

theorem unary_injective : Function.Injective unary := by
  intro first second h
  have hlength := congrArg List.length (String.ofList_injective h)
  simpa using hlength

/-- Some digest tells all contents apart. -/
theorem exists_injective_digest : ∃ digest : Snapshot → String, Function.Injective digest := by
  obtain ⟨index, hindex⟩ := Countable.exists_injective_nat Snapshot
  exact ⟨unary ∘ index, unary_injective.comp hindex⟩

end TripGraph
