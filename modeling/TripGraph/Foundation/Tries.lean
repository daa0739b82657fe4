import Mathlib.Data.List.Basic

/-! # Trying in order

Several targets are tried one after the other, and the first success ends it. The outcomes
are kept, failures included, so what was tried can be read off them.
-/

namespace Interaction

variable {α β : Type} {succeeds : α → Bool} {target : α → β} {planned rest : List β}
  {made next : List α}

/-- `Tries succeeds target planned made`: of the planned targets, those of the outcomes in
`made` were tried in order, and no further after a success. -/
inductive Tries (succeeds : α → Bool) (target : α → β) : List β → List α → Prop
  | exhausted : Tries succeeds target [] []
  | success (outcome : α) (rest : List β) (h : succeeds outcome = true) :
      Tries succeeds target (target outcome :: rest) [outcome]
  | failure (outcome : α) (rest : List β) (made : List α) (h : succeeds outcome = false)
      (hrest : Tries succeeds target rest made) :
      Tries succeeds target (target outcome :: rest) (outcome :: made)

namespace Tries

theorem isPrefix (h : Tries succeeds target planned made) : made.map target <+: planned := by
  induction h with
  | exhausted => exact List.prefix_rfl
  | success outcome rest _ => exact ⟨rest, rfl⟩
  | failure outcome rest made _ _ ih => exact List.prefix_cons_inj _ |>.mpr ih

theorem length_le (h : Tries succeeds target planned made) : made.length ≤ planned.length := by
  have hlength := h.isPrefix.length_le
  rwa [List.length_map] at hlength

/-- Only the last outcome can be a success. -/
theorem eq_false_of_mem_dropLast (h : Tries succeeds target planned made) :
    ∀ outcome ∈ made.dropLast, succeeds outcome = false := by
  induction h with
  | exhausted => simp
  | success outcome rest _ => simp
  | failure outcome rest made hfails hrest ih =>
      intro own hown
      cases made with
      | nil => simp at hown
      | cons head tail =>
          rw [List.dropLast_cons_cons] at hown
          rcases List.mem_cons.mp hown with rfl | hown
          · exact hfails
          · exact ih own hown

/-- Without a success everything was tried. -/
theorem map_eq_of_fails (h : Tries succeeds target planned made)
    (hfails : ∀ outcome ∈ made, succeeds outcome = false) : made.map target = planned := by
  induction h with
  | exhausted => rfl
  | success outcome rest hsucceeds =>
      cases (hfails outcome List.mem_cons_self).symm.trans hsucceeds
  | failure outcome rest made _ _ ih =>
      rw [List.map_cons, ih fun own hown => hfails own (List.mem_cons_of_mem _ hown)]

/-- Nothing is tried after a success. -/
theorem append_of_success (h : Tries succeeds target planned made) {outcome : α}
    (hmem : outcome ∈ made) (hsucceeds : succeeds outcome = true) (rest : List β) :
    Tries succeeds target (planned ++ rest) made := by
  induction h with
  | exhausted => cases hmem
  | success own tail hown => exact .success own (tail ++ rest) hown
  | failure own tail made hfails _ ih =>
      rcases List.mem_cons.mp hmem with rfl | hmem
      · cases hfails.symm.trans hsucceeds
      · exact .failure own (tail ++ rest) made hfails (ih hmem)

/-- After failures alone, more can be tried. -/
theorem append_of_fails (h : Tries succeeds target planned made)
    (hfails : ∀ outcome ∈ made, succeeds outcome = false)
    (hnext : Tries succeeds target rest next) :
    Tries succeeds target (planned ++ rest) (made ++ next) := by
  induction h with
  | exhausted => exact hnext
  | success outcome tail hsucceeds =>
      cases (hfails outcome List.mem_cons_self).symm.trans hsucceeds
  | failure outcome tail made hown _ ih =>
      exact .failure outcome (tail ++ rest) (made ++ next) hown
        (ih fun own hmem => hfails own (List.mem_cons_of_mem _ hmem))

/-- Either everything failed, or the last outcome is the one success. -/
theorem fails_or_succeeds (h : Tries succeeds target planned made) :
    (∀ outcome ∈ made, succeeds outcome = false) ∨
      ∃ front last, made = front ++ [last] ∧ succeeds last = true ∧
        ∀ outcome ∈ front, succeeds outcome = false := by
  induction h with
  | exhausted => exact Or.inl (by simp)
  | success outcome rest hsucceeds => exact Or.inr ⟨[], outcome, rfl, hsucceeds, by simp⟩
  | failure outcome rest made hfails _ ih =>
      rcases ih with hall | ⟨front, last, rfl, hlast, hfront⟩
      · exact Or.inl (List.forall_mem_cons.mpr ⟨hfails, hall⟩)
      · exact Or.inr ⟨outcome :: front, last, rfl, hlast, List.forall_mem_cons.mpr ⟨hfails, hfront⟩⟩

/-- There is at most one success. -/
theorem eq_of_success (h : Tries succeeds target planned made) {first second : α}
    (hfirst : first ∈ made) (hsecond : second ∈ made) (hsucceeds : succeeds first = true)
    (hsucceeds' : succeeds second = true) : first = second := by
  rcases h.fails_or_succeeds with hall | ⟨front, last, rfl, -, hfront⟩
  · cases (hall first hfirst).symm.trans hsucceeds
  · have hlast : ∀ own ∈ front ++ [last], succeeds own = true → own = last := by
      intro own hown hsuccess
      rcases List.mem_append.mp hown with hown | hown
      · cases (hfront own hown).symm.trans hsuccess
      · exact List.mem_singleton.mp hown
    rw [hlast first hfirst hsucceeds, hlast second hsecond hsucceeds']

end Tries

end Interaction
