import Mathlib.Data.List.MinMax
import Mathlib.Data.List.Nodup
import Mathlib.Data.List.Sort

/-! # Keeping some of the positions of a list

Entries carry their position along, so what is kept can be named by the positions of the
list it was kept from.
-/

namespace Interaction

variable {α κ : Type}

/-- The positions of the entries increase. -/
def Increasing (entries : List (α × Nat)) : Prop := entries.Pairwise fun a b => a.2 < b.2

theorem increasing_zipIdx (items : List α) (start : Nat) : Increasing (items.zipIdx start) := by
  induction items generalizing start with
  | nil => exact List.Pairwise.nil
  | cons item rest ih =>
      apply List.Pairwise.cons
      · intro entry hentry
        exact (List.mem_zipIdx hentry).1
      · exact ih (start + 1)

theorem Increasing.filter {entries : List (α × Nat)} (h : Increasing entries)
    (keep : α × Nat → Bool) : Increasing (entries.filter keep) :=
  h.sublist List.filter_sublist

theorem Increasing.eq_of_position {entries : List (α × Nat)} (h : Increasing entries)
    {a b : α × Nat} (ha : a ∈ entries) (hb : b ∈ entries) (heq : a.2 = b.2) : a = b := by
  have hnodup : (entries.map Prod.snd).Nodup :=
    List.pairwise_map.mpr (h.imp fun hlt => hlt.ne)
  exact List.inj_on_of_nodup_map hnodup ha hb heq

/-- Counting the entries puts them in the order of their positions. -/
theorem Increasing.le_iff {entries : List (α × Nat)} (h : Increasing entries)
    {a b : (α × Nat) × Nat} (ha : a ∈ entries.zipIdx) (hb : b ∈ entries.zipIdx) :
    a.2 ≤ b.2 ↔ a.1.2 ≤ b.1.2 := by
  have hlt : ∀ first ∈ entries.zipIdx, ∀ second ∈ entries.zipIdx, first.2 < second.2 →
      first.1.2 < second.1.2 := by
    intro first hfirst second hsecond hlt
    obtain ⟨hfirstLt, hfirstEq⟩ :=
      List.getElem?_eq_some_iff.mp (List.mem_zipIdx_iff_getElem?.mp hfirst)
    obtain ⟨hsecondLt, hsecondEq⟩ :=
      List.getElem?_eq_some_iff.mp (List.mem_zipIdx_iff_getElem?.mp hsecond)
    rw [← hfirstEq, ← hsecondEq]
    exact List.pairwise_iff_getElem.mp h _ _ hfirstLt hsecondLt hlt
  constructor
  · intro hle
    rcases hle.lt_or_eq with hless | heq
    · exact (hlt a ha b hb hless).le
    · rw [(increasing_zipIdx entries 0).eq_of_position ha hb heq]
  · intro hle
    by_contra hgt
    exact absurd (hlt b hb a ha (not_le.mp hgt)) (not_lt.mpr hle)

/-! ## The first with its key -/

/-- No earlier item has the key of the item at this position. -/
def FirstOf (key : α → κ) (items : List α) (position : Nat) : Prop :=
  ∀ earlier < position, (items[earlier]?).map key ≠ (items[position]?).map key

instance firstOfDecidable [DecidableEq κ] (key : α → κ) (items : List α) (position : Nat) :
    Decidable (FirstOf key items position) :=
  inferInstanceAs (Decidable (∀ earlier < position, _))

theorem firstOf_append_iff {key : α → κ} {before rest : List α} {item : α} :
    FirstOf key (before ++ item :: rest) before.length ↔ key item ∉ before.map key := by
  have hitem : (before ++ item :: rest)[before.length]? = some item := by simp
  unfold FirstOf
  rw [hitem]
  constructor
  · intro h hmem
    obtain ⟨own, hown, heq⟩ := List.mem_map.mp hmem
    obtain ⟨position, hlt, hget⟩ := List.getElem_of_mem hown
    apply h position hlt
    rw [List.getElem?_append_left hlt, List.getElem?_eq_getElem hlt, hget, Option.map_some, heq]
    rfl
  · intro h earlier hlt heq
    rw [List.getElem?_append_left hlt, List.getElem?_eq_getElem hlt] at heq
    apply h
    rw [← Option.some.inj heq]
    exact List.mem_map_of_mem (List.getElem_mem hlt)

/-! ## The first of the largest -/

/-- No entry is larger, and the earlier ones are smaller. -/
def FirstLargest (size : α → Nat) (entries : List (α × Nat)) (entry : α × Nat) : Prop :=
  ∀ other ∈ entries, size other.1 < size entry.1 ∨
    size other.1 = size entry.1 ∧ entry.2 ≤ other.2

instance firstLargestDecidable (size : α → Nat) (entries : List (α × Nat)) (entry : α × Nat) :
    Decidable (FirstLargest size entries entry) :=
  inferInstanceAs (Decidable (∀ other ∈ entries, _))

theorem FirstLargest.eq {size : α → Nat} {entries : List (α × Nat)} (h : Increasing entries)
    {a b : α × Nat} (hmemA : a ∈ entries) (hmemB : b ∈ entries)
    (ha : FirstLargest size entries a) (hb : FirstLargest size entries b) : a = b := by
  apply h.eq_of_position hmemA hmemB
  have hab := ha b hmemB
  have hba := hb a hmemA
  omega

theorem le_of_idxOf_le {β : Type} [DecidableEq β] {items : List β} {position : β → Nat}
    (h : items.Pairwise fun a b => position a < position b) {a b : β} (ha : a ∈ items)
    (hb : b ∈ items) (hle : items.idxOf a ≤ items.idxOf b) : position a ≤ position b := by
  rcases hle.lt_or_eq with hlt | heq
  · obtain ⟨hfirst, hgetA⟩ := List.getElem?_eq_some_iff.mp (List.getElem?_idxOf ha)
    obtain ⟨hsecond, hgetB⟩ := List.getElem?_eq_some_iff.mp (List.getElem?_idxOf hb)
    rw [← hgetA, ← hgetB]
    exact (List.pairwise_iff_getElem.mp h _ _ hfirst hsecond hlt).le
  · rw [(List.idxOf_inj ha).mp heq]

/-- What a scan for the largest entry finds, if it takes a later one only when it is larger. -/
theorem firstLargest_of_argmax {size : α → Nat} [DecidableEq α] {entries : List (α × Nat)}
    (h : Increasing entries) {best : α × Nat}
    (hbest : entries.argmax (fun entry => size entry.1) = some best) :
    best ∈ entries ∧ FirstLargest size entries best := by
  obtain ⟨hmem, hlargest, hfirst⟩ := List.mem_argmax_iff.mp hbest
  refine ⟨hmem, fun other hother => ?_⟩
  rcases (hlargest other hother).lt_or_eq with hlt | heq
  · exact Or.inl hlt
  · refine Or.inr ⟨heq, ?_⟩
    exact le_of_idxOf_le h hmem hother (hfirst other hother heq.ge)

/-! ## The head of a sorted list -/

section Argmax

variable {β : Type} [LinearOrder β] {f : α → β}

/-- Sorting by falling values, and stably, puts the first of the largest in front. -/
theorem head?_insertionSort (items : List α) :
    (items.insertionSort fun a b => f b ≤ f a).head? = items.argmax f := by
  induction items with
  | nil => rfl
  | cons item rest ih =>
      rw [List.insertionSort_cons, List.argmax_cons, ← ih]
      cases rest.insertionSort fun a b => f b ≤ f a with
      | nil => rfl
      | cons head tail =>
          by_cases hle : f head ≤ f item
          · simp [List.orderedInsert, hle, not_lt.mpr hle]
          · simp [List.orderedInsert, hle, not_le.mp hle]

/-- The first of the largest of two lists: that of the first, unless the second has larger. -/
theorem argmax_append (first second : List α) :
    (first ++ second).argmax f = match first.argmax f, second.argmax f with
      | some a, some b => if f a < f b then some b else some a
      | some a, none => some a
      | none, other => other := by
  induction first with
  | nil => simp
  | cons item rest ih =>
      rw [List.cons_append, List.argmax_cons, List.argmax_cons, ih]
      cases rest.argmax f with
      | none => cases second.argmax f <;> simp
      | some a =>
          cases second.argmax f with
          | none => by_cases hlt : f item < f a <;> simp [hlt]
          | some b =>
              by_cases hfirst : f item < f a <;> by_cases hsecond : f a < f b
              · simp [hfirst, hsecond, hfirst.trans hsecond]
              · simp [hfirst, hsecond]
              · simp [hfirst, hsecond]
              · have hnot : ¬ f item < f b :=
                  not_lt.mpr ((not_lt.mp hsecond).trans (not_lt.mp hfirst))
                simp [hfirst, hsecond, hnot]

theorem argmax_cons_of_largest {item : α} {rest : List α} (h : ∀ own ∈ rest, f own ≤ f item) :
    (item :: rest).argmax f = some item := by
  rw [List.argmax_cons]
  cases hrest : rest.argmax f with
  | none => rfl
  | some own => exact if_neg (not_lt.mpr (h own (List.argmax_mem hrest)))

/-- The largest value does not depend on the order. -/
theorem map_argmax_of_perm {items others : List α} (h : items.Perm others) :
    (items.argmax f).map f = (others.argmax f).map f := by
  cases hitems : items.argmax f with
  | none =>
      have hnil := List.argmax_eq_none.mp hitems
      rw [hnil] at h
      rw [h.nil_eq.symm]
      rfl
  | some a =>
      cases hothers : others.argmax f with
      | none =>
          have hnil := List.argmax_eq_none.mp hothers
          rw [hnil] at h
          rw [h.eq_nil] at hitems
          cases hitems
      | some b =>
          have hab := List.le_of_mem_argmax (h.mem_iff.mp (List.argmax_mem hitems)) hothers
          have hba := List.le_of_mem_argmax (h.mem_iff.mpr (List.argmax_mem hothers)) hitems
          exact congrArg some (le_antisymm hab hba)

end Argmax

/-! ## Lists in increasing order -/

/-- In a list that a measure orders strictly, a relation between earlier and later items is
one between smaller and larger ones. -/
theorem pairwise_iff_of_increasing {measure : α → Int} {items : List α} {R : α → α → Prop}
    (h : items.Pairwise fun a b => measure a < measure b) :
    items.Pairwise R ↔ ∀ a ∈ items, ∀ b ∈ items, measure a < measure b → R a b := by
  constructor
  · intro hR
    apply List.Pairwise.forall_of_forall_of_flip
    · intro a _ hlt
      exact absurd hlt (lt_irrefl _)
    · refine hR.imp fun hab => ?_
      exact fun _ => hab
    · refine h.imp fun hlt => ?_
      exact fun hgt => absurd (hlt.trans hgt) (lt_irrefl _)
  · intro hR
    exact h.imp_of_mem fun ha hb hlt => hR _ ha _ hb hlt

end Interaction
