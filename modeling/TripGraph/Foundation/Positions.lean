import Mathlib.Data.List.Nodup
import TripGraph.Foundation.ThreeWay

/-! # Lists whose items carry their position

A log that gives every item its position as it appends it stays so under further appends.
Two such logs put one after the other do not, unless one of them is empty.
-/

namespace Interaction

variable {α : Type} (index : α → Nat)

/-- Every item carries its position. -/
def Positioned (items : List α) : Prop :=
  ∀ position item, items[position]? = some item → index item = position

/-- Every item carries its position after the first `start` positions. -/
def PositionedFrom (start : Nat) (items : List α) : Prop :=
  ∀ position item, items[position]? = some item → index item = start + position

variable {index}

theorem positioned_nil : Positioned index [] := fun _ _ h => by cases h

theorem positioned_append_iff {first second : List α} :
    Positioned index (first ++ second) ↔
      Positioned index first ∧ PositionedFrom index first.length second := by
  constructor
  · intro h
    refine ⟨fun position item hitem => ?_, fun position item hitem => ?_⟩
    · have hlt := (List.getElem?_eq_some_iff.mp hitem).1
      exact h position item (by rw [List.getElem?_append_left hlt, hitem])
    · exact h _ item
        (by rw [List.getElem?_append_right (Nat.le_add_right _ _), Nat.add_sub_cancel_left, hitem])
  · rintro ⟨hfirst, hsecond⟩ position item hitem
    by_cases hlt : position < first.length
    · rw [List.getElem?_append_left hlt] at hitem
      exact hfirst position item hitem
    · have hle := Nat.le_of_not_lt hlt
      rw [List.getElem?_append_right hle] at hitem
      have hindex := hsecond _ item hitem
      omega

/-- Appending the item that carries the next position. -/
theorem positioned_concat {items : List α} (h : Positioned index items) {item : α}
    (hitem : index item = items.length) : Positioned index (items ++ [item]) := by
  refine positioned_append_iff.mpr ⟨h, fun position own hown => ?_⟩
  cases position with
  | zero =>
      cases hown
      exact hitem
  | succ position => cases hown

/-- Of two such lists, one after the other, one is empty. -/
theorem positioned_append_iff_of_positioned {first second : List α}
    (hfirst : Positioned index first) (hsecond : Positioned index second) :
    Positioned index (first ++ second) ↔ first = [] ∨ second = [] := by
  constructor
  · intro h
    cases second with
    | nil => exact Or.inr rfl
    | cons item rest =>
        have hown : index item = 0 := hsecond 0 item rfl
        have hafter : index item = first.length + 0 := (positioned_append_iff.mp h).2 0 item rfl
        exact Or.inl (List.length_eq_zero_iff.mp (by omega))
  · rintro (rfl | rfl)
    · exact hsecond
    · rwa [List.append_nil]

theorem nodup_of_positioned {items : List α} (h : Positioned index items) : items.Nodup := by
  refine List.nodup_iff_injective_get.mpr fun first second heq => ?_
  have hfirst := h first (items.get first) (List.getElem?_eq_getElem first.isLt)
  have hsecond := h second (items.get second) (List.getElem?_eq_getElem second.isLt)
  exact Fin.ext (hfirst.symm.trans ((congrArg index heq).trans hsecond))

/-- Repetitions dropped, a list followed by a continuation of it is the continuation. -/
theorem eraseDups_append_of_begins [BEq α] [LawfulBEq α] {items longer : List α}
    (hbegins : items <+: longer) (h : Positioned index longer) :
    (items ++ longer).eraseDups = longer := by
  obtain ⟨suffix, rfl⟩ := hbegins
  rw [eraseDups_append_known fun _ hmem => hmem, eraseDups_of_nodup (nodup_of_positioned h)]

end Interaction
