import Mathlib.Data.List.Perm.Basic
import Mathlib.Data.List.Count
import Mathlib.Data.List.Flatten

/-! # Forests in a list

Items that name the key of a parent form a forest when each of these keys belongs to one item
and every item is one step deeper than its parent. Going down from the roots then meets every
item once.
-/

namespace Interaction

variable {ν κ : Type} [DecidableEq κ] (key : ν → κ) (parent : ν → Option κ) (items : List ν)

/-- The items that name this one as their parent, in the order of the list. -/
def childrenOf (own : ν) : List ν := items.filter fun item => decide (parent item = some (key own))

/-- The items without a parent. -/
def rootsOf : List ν := items.filter fun item => (parent item).isNone

/-- An item and all below it, the children in their order, for at most so many levels. -/
def descend : Nat → ν → List ν
  | 0, _ => []
  | fuel + 1, own => own :: (childrenOf key parent items own).flatMap (descend fuel)

/-- The items with this depth. -/
def levelOf (depth : ν → Nat) (level : Nat) : List ν :=
  items.filter fun item => decide (depth item = level)

/-- Every parent is one item, one step above. -/
structure Forest (depth : ν → Nat) : Prop where
  root : ∀ own ∈ items, parent own = none → depth own = 0
  above : ∀ own ∈ items, ∀ up, parent own = some up →
    ∃ above, (items.filter fun item => decide (key item = up)) = [above] ∧
      depth own = depth above + 1

namespace Forest

variable {key parent items} {depth : ν → Nat}

theorem depth_child (h : Forest key parent items depth) {own child : ν} (hown : own ∈ items)
    (hchild : child ∈ childrenOf key parent items own) : depth child = depth own + 1 := by
  obtain ⟨hmem, hparent⟩ := List.mem_filter.mp hchild
  obtain ⟨above, hfilter, hdepth⟩ := h.above child hmem _ (of_decide_eq_true hparent)
  have hself : own ∈ items.filter fun item => decide (key item = key own) :=
    List.mem_filter.mpr ⟨hown, decide_eq_true rfl⟩
  rw [hfilter, List.mem_singleton] at hself
  rw [hdepth, hself]

theorem flatMap_descend (fuel : Nat) (own : List ν) :
    (own.flatMap (descend key parent items (fuel + 1))).Perm
      (own ++
        (own.flatMap (childrenOf key parent items)).flatMap (descend key parent items fuel)) := by
  induction own with
  | nil => exact .nil
  | cons head tail ih =>
      rw [List.flatMap_cons, List.flatMap_cons, List.flatMap_append, descend, List.cons_append,
        List.cons_append]
      refine List.Perm.cons head ((ih.append_left _).trans ?_)
      rw [← List.append_assoc, ← List.append_assoc]
      exact List.perm_append_comm.append_right _

variable [DecidableEq ν]

theorem count_childrenOf (own other : ν) : (childrenOf key parent items own).count other =
    if parent other = some (key own) then items.count other else 0 := by
  split
  next hparent => exact List.count_filter (decide_eq_true hparent)
  next hparent =>
    refine List.count_eq_zero.mpr fun hmem => hparent ?_
    exact of_decide_eq_true (List.mem_filter.mp hmem).2

/-- The children of one level are the next level. -/
theorem children_level (h : Forest key parent items depth) (level : Nat) :
    ((levelOf items depth level).flatMap (childrenOf key parent items)).Perm
      (levelOf items depth (level + 1)) := by
  refine List.perm_iff_count.mpr fun other => ?_
  have hcount : ∀ own : List ν, (own.flatMap (childrenOf key parent items)).count other =
      (own.countP fun item => decide (parent other = some (key item))) * items.count other := by
    intro own
    induction own with
    | nil => simp
    | cons head tail ih =>
        rw [List.flatMap_cons, List.count_append, ih, count_childrenOf, List.countP_cons]
        by_cases hparent : parent other = some (key head)
        · simp [hparent, Nat.add_mul, Nat.add_comm]
        · simp [hparent]
  rw [hcount]
  by_cases hmem : other ∈ items
  swap
  · rw [List.count_eq_zero.mpr hmem, Nat.mul_zero]
    exact (List.count_eq_zero.mpr fun hlevel => hmem (List.mem_filter.mp hlevel).1).symm
  have hlevel : (levelOf items depth (level + 1)).count other =
      if depth other = level + 1 then items.count other else 0 := by
    split
    next hdepth => exact List.count_filter (decide_eq_true hdepth)
    next hdepth =>
      exact List.count_eq_zero.mpr fun hown =>
        hdepth (of_decide_eq_true (List.mem_filter.mp hown).2)
  rw [hlevel]
  cases hparent : parent other with
  | none =>
      have hroot := h.root other hmem hparent
      simp [hroot]
  | some up =>
      obtain ⟨above, hfilter, hdepth⟩ := h.above other hmem up hparent
      -- the parent is the one item with this key, and it is on the level above or not
      have hone :
          (levelOf items depth level).countP (fun item => decide (some up = some (key item))) =
          if depth above = level then 1 else 0 := by
        have hswap : ((levelOf items depth level).filter fun item => decide (key item = up)) =
            [above].filter fun item => decide (depth item = level) := by
          rw [← hfilter, levelOf, List.filter_filter, List.filter_filter]
          exact List.filter_congr fun item _ => Bool.and_comm _ _
        have hsame : (fun item : ν => decide (some up = some (key item))) =
            fun item => decide (key item = up) := by
          funext item
          simp [eq_comm]
        rw [hsame, List.countP_eq_length_filter, hswap]
        by_cases hown : depth above = level <;> simp [hown]
      rw [hone, hdepth]
      by_cases hown : depth above = level <;> simp [hown]

/-- Going down from one level meets every item of the next levels once. -/
theorem descend_level (h : Forest key parent items depth) (fuel level : Nat) :
    ((levelOf items depth level).flatMap (descend key parent items fuel)).Perm
      (items.filter fun item => decide (level ≤ depth item ∧ depth item < level + fuel)) := by
  induction fuel generalizing level with
  | zero =>
      have hnone : (items.filter fun item =>
          decide (level ≤ depth item ∧ depth item < level + 0)) = [] :=
        List.filter_eq_nil_iff.mpr fun item _ hitem => by
          obtain ⟨hle, hlt⟩ := of_decide_eq_true hitem
          omega
      rw [hnone]
      simp [descend]
  | succ fuel ih =>
      refine (flatMap_descend fuel _).trans ?_
      refine (((h.children_level level).flatMap_right _).trans (ih (level + 1))).append_left _
        |>.trans ?_
      refine List.Perm.trans ?_
        (List.filter_append_perm (fun item => decide (depth item = level)) _)
      rw [List.filter_filter, List.filter_filter]
      refine List.Perm.of_eq (congrArg₂ _ ?_ ?_)
      · refine List.filter_congr fun item _ => ?_
        rw [← Bool.decide_and]
        exact decide_eq_decide.mpr (by omega)
      · refine List.filter_congr fun item _ => ?_
        rw [← decide_not, ← Bool.decide_and]
        exact decide_eq_decide.mpr (by omega)

/-- Going down from the roots meets every item once. -/
theorem descend_roots (h : Forest key parent items depth) {fuel : Nat}
    (hfuel : ∀ own ∈ items, depth own < fuel) :
    ((rootsOf parent items).flatMap (descend key parent items fuel)).Perm items := by
  have hroots : rootsOf parent items = levelOf items depth 0 := by
    refine List.filter_congr fun own hown => ?_
    cases hparent : parent own with
    | none => simp [h.root own hown hparent]
    | some up =>
        obtain ⟨above, -, hdepth⟩ := h.above own hown up hparent
        simp [hdepth]
  rw [hroots]
  refine (h.descend_level fuel 0).trans
    (List.Perm.of_eq (List.filter_eq_self.mpr fun own hown => ?_))
  simpa using hfuel own hown

end Forest

end Interaction
