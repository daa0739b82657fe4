import Mathlib.Data.Set.Finite.Basic
import Mathlib.Order.WellFounded
import Mathlib.Logic.Relation

/-! # Cycles and chains of a relation

A node is cleared when no cycle is reached from it, which is a matter of the nodes next to it.
Chains are counted by their edges; without cycles a finite set of nodes has one that leads
nowhere else in the set.
-/

namespace Interaction

open Relation

variable {α : Type} {edge : α → α → Prop}

/-- No cycle is reached from the node. -/
def Cleared (edge : α → α → Prop) (node : α) : Prop :=
  ∀ other, ReflTransGen edge node other → ¬ TransGen edge other other

/-- A chain of so many edges starts in the node. -/
inductive Chained (edge : α → α → Prop) : Nat → α → Prop
  | nil (node : α) : Chained edge 0 node
  | cons {length : Nat} {node next : α} (first : edge node next) (rest : Chained edge length next) :
      Chained edge (length + 1) node

namespace Cleared

variable {node : α}

theorem not_cycle (h : Cleared edge node) : ¬ TransGen edge node node := h node .refl

/-- A cycle that is reached is reached from a node that comes next. -/
theorem of_next (h : ∀ next, edge node next → Cleared edge next) : Cleared edge node := by
  intro other hpath hcycle
  cases hpath.cases_head with
  | inl heq =>
      subst heq
      obtain ⟨next, hfirst, hrest⟩ := TransGen.head'_iff.mp hcycle
      exact h next hfirst node hrest hcycle
  | inr hnext =>
      obtain ⟨next, hfirst, hrest⟩ := hnext
      exact h next hfirst other hrest hcycle

end Cleared

/-- Whoever can always go on among finitely many nodes comes back. -/
theorem exists_cycle_of_next {nodes : List α} (hne : nodes ≠ [])
    (hnext : ∀ node ∈ nodes, ∃ next ∈ nodes, edge node next) : ∃ node, TransGen edge node node := by
  by_contra hnone
  have hirrefl : ∀ node, ¬ TransGen edge node node := fun node hcycle => hnone ⟨node, hcycle⟩
  let after : { node // node ∈ nodes } → { node // node ∈ nodes } → Prop :=
    fun next node => TransGen edge node.1 next.1
  have : IsTrans _ after := ⟨fun _ _ _ hfirst hsecond => hsecond.trans hfirst⟩
  have : Std.Irrefl after := ⟨fun node => hirrefl node.1⟩
  have : Finite { node // node ∈ nodes } := List.finite_toSet nodes
  have hwf : WellFounded after := Finite.wellFounded_of_trans_of_irrefl after
  obtain ⟨first, hfirst⟩ := List.exists_mem_of_ne_nil nodes hne
  obtain ⟨last, -, hlast⟩ := hwf.has_min Set.univ ⟨⟨first, hfirst⟩, trivial⟩
  obtain ⟨next, hmem, hedge⟩ := hnext last.1 last.2
  exact hlast ⟨next, hmem⟩ trivial (.single hedge)

end Interaction
