import TripGraph.Foundation.Selection
import TripGraph.Plan.Remap
import TripGraph.Plan.Renewal

/-! # Plans made from the planner's answers

Which steps of an answer are kept can be read off its positions. What is kept is numbered in
the order of the ids it came with.
-/

namespace TripGraph

open Interaction PlanValidator

/-- Exact duplicates are of one kind. -/
def PlanStep.kind (step : PlanStep) : String × Option String := (strip step.task, step.toolHint)

/-- Whether the step is clearly a budget calculation. -/
def PlanStep.isBudget (step : PlanStep) : Bool :=
  decide (step.toolHint = some "budget") || Repair.isBudgetTask step.task

/-- Whether the step calls a tool for a synthesis. -/
def PlanStep.clears (step : PlanStep) : Bool :=
  truthy step.toolHint && Repair.isSynthesisTask step.task

/-- The step as the synthesis cleanup leaves it. -/
def PlanStep.cleared (step : PlanStep) : PlanStep :=
  if step.clears then { step with toolHint := none } else step

namespace PlanStep

@[simp] theorem id_cleared (step : PlanStep) : step.cleared.id = step.id := by
  unfold cleared
  split <;> rfl

@[simp] theorem task_cleared (step : PlanStep) : step.cleared.task = step.task := by
  unfold cleared
  split <;> rfl

theorem toolHint_cleared (step : PlanStep) :
    step.cleared.toolHint = none ∨ step.cleared.toolHint = step.toolHint := by
  unfold cleared
  split
  · exact Or.inl rfl
  · exact Or.inr rfl

theorem clears_cleared (step : PlanStep) : step.cleared.clears = false := by
  unfold cleared
  split
  · rfl
  next h => exact Bool.eq_false_iff.mpr h

theorem isBudget_of_cleared {step : PlanStep} (h : step.cleared.isBudget = true) :
    step.isBudget = true := by
  unfold isBudget at h ⊢
  rw [Bool.or_eq_true, decide_eq_true_eq, task_cleared] at h
  rw [Bool.or_eq_true, decide_eq_true_eq]
  apply h.imp_left
  intro hhint
  rcases step.toolHint_cleared with hnone | hsame
  · exact absurd (hnone.symm.trans hhint) (Option.some_ne_none _).symm
  · exact hsame ▸ hhint

end PlanStep

namespace Repair

/-! ## The steps that are kept -/

/-- A repair keeps the first step of each kind. -/
def Retained (steps : List PlanStep) (position : Nat) (step : PlanStep) : Prop :=
  steps[position]? = some step ∧ FirstOf PlanStep.kind steps position

/-- A normalization keeps of the budget steps only the first with the longest task. -/
def Kept (steps : List PlanStep) (position : Nat) (step : PlanStep) : Prop :=
  Retained steps position step ∧ (step.isBudget = true → ∀ other own, Retained steps other own →
    own.isBudget = true → own.task.length < step.task.length ∨
      own.task.length = step.task.length ∧ position ≤ other)

/-- The steps a repair keeps, with their positions. -/
def retained (steps : List PlanStep) : List (PlanStep × Nat) :=
  steps.zipIdx.filter fun entry => decide (FirstOf PlanStep.kind steps entry.2)

/-- The budget steps a repair keeps. -/
def budgetEntries (entries : List (PlanStep × Nat)) : List (PlanStep × Nat) :=
  entries.filter fun entry => entry.1.isBudget

/-- Not a budget step, or the first of those with the longest task. -/
def keepsBudget (entries : List (PlanStep × Nat)) (entry : PlanStep × Nat) : Bool :=
  !entry.1.isBudget ||
    decide (FirstLargest (fun step => step.task.length) (budgetEntries entries) entry)

/-- The steps a normalization keeps, with their positions. -/
def kept (steps : List PlanStep) : List (PlanStep × Nat) :=
  (retained steps).filter (keepsBudget (retained steps))

theorem keepsBudget_iff {entries : List (PlanStep × Nat)} {entry : PlanStep × Nat} :
    keepsBudget entries entry = true ↔ (entry.1.isBudget = true →
      FirstLargest (fun step => step.task.length) (budgetEntries entries) entry) := by
  rw [keepsBudget, Bool.or_eq_true, Bool.not_eq_true', decide_eq_true_eq, ← Bool.not_eq_true,
    ← imp_iff_not_or]

theorem mem_retained_iff {steps : List PlanStep} {entry : PlanStep × Nat} :
    entry ∈ retained steps ↔ Retained steps entry.2 entry.1 := by
  rw [retained, List.mem_filter, List.mem_zipIdx_iff_getElem?, decide_eq_true_eq]
  exact Iff.rfl

theorem mem_kept_iff {steps : List PlanStep} {entry : PlanStep × Nat} :
    entry ∈ kept steps ↔ Kept steps entry.2 entry.1 := by
  rw [kept, List.mem_filter, mem_retained_iff]
  apply and_congr_right
  intro _
  rw [keepsBudget_iff]
  apply imp_congr_right
  intro _
  constructor
  · intro h other own hretained hbudget
    exact h (own, other) (List.mem_filter.mpr ⟨mem_retained_iff.mpr hretained, hbudget⟩)
  · intro h other hother
    obtain ⟨hretained, hbudget⟩ := List.mem_filter.mp hother
    exact h other.2 other.1 (mem_retained_iff.mp hretained) hbudget

theorem increasing_retained (steps : List PlanStep) : Increasing (retained steps) :=
  (increasing_zipIdx steps 0).filter _

theorem increasing_kept (steps : List PlanStep) : Increasing (kept steps) :=
  (increasing_retained steps).filter _

/-- What has been seen are the kinds of the steps before. -/
theorem removeDuplicateSteps_eq {before rest : List PlanStep} {seen : List (String × Option String)}
    (hseen : ∀ kind, kind ∈ seen ↔ kind ∈ before.map PlanStep.kind) :
    (removeDuplicateSteps seen rest).1 =
      ((rest.zipIdx before.length).filter fun entry =>
        decide (FirstOf PlanStep.kind (before ++ rest) entry.2)).map Prod.fst := by
  induction rest generalizing before seen with
  | nil => rfl
  | cons step rest ih =>
      have hfirst : FirstOf PlanStep.kind (before ++ step :: rest) before.length ↔
          step.kind ∉ before.map PlanStep.kind := firstOf_append_iff
      have hrest : ∀ seen', (∀ kind, kind ∈ seen' ↔ kind ∈ (before ++ [step]).map PlanStep.kind) →
          (removeDuplicateSteps seen' rest).1 =
            ((rest.zipIdx (before.length + 1)).filter fun entry =>
              decide (FirstOf PlanStep.kind (before ++ step :: rest) entry.2)).map Prod.fst := by
        intro seen' hseen'
        have := ih hseen'
        rwa [List.length_append, List.append_assoc] at this
      simp only [removeDuplicateSteps, List.zipIdx_cons, List.filter_cons, decide_eq_true_eq]
      split
      next hmem =>
        have hold : step.kind ∈ before.map PlanStep.kind := (hseen _).mp hmem
        rw [if_neg fun h => hfirst.mp h hold]
        apply hrest
        intro kind
        rw [hseen, List.map_append, List.mem_append, List.map_singleton, List.mem_singleton]
        exact ⟨Or.inl, fun h => h.elim id fun heq => heq ▸ hold⟩
      next hmem =>
        have hnew : step.kind ∉ before.map PlanStep.kind := fun hold => hmem ((hseen _).mpr hold)
        rw [if_pos (hfirst.mpr hnew), List.map_cons]
        apply congrArg (step :: ·)
        apply hrest
        intro kind
        rw [List.mem_cons, hseen, List.map_append, List.mem_append, List.map_singleton,
          List.mem_singleton]
        exact or_comm

theorem survivors_eq (steps : List PlanStep) : survivors steps = (retained steps).map Prod.fst := by
  have hnone : ∀ kind : String × Option String, kind ∈ [] ↔ kind ∈ ([].map PlanStep.kind) :=
    fun _ => Iff.rfl
  exact removeDuplicateSteps_eq hnone

/-- Counting the entries again does not change which one is the first of the largest. -/
theorem firstLargest_count_iff {entries : List (PlanStep × Nat)} (h : Increasing entries)
    {counted : (PlanStep × Nat) × Nat} (hcounted : counted ∈ entries.zipIdx) :
    FirstLargest (fun step => step.task.length)
        (budgetEntries (entries.map Prod.fst).zipIdx) (counted.1.1, counted.2) ↔
      FirstLargest (fun step => step.task.length) (budgetEntries entries) counted.1 := by
  have hmem : ∀ {other : PlanStep × Nat}, other ∈ budgetEntries (entries.map Prod.fst).zipIdx ↔
      ∃ own ∈ entries.zipIdx, own.1.1.isBudget = true ∧ (own.1.1, own.2) = other := by
    intro other
    rw [budgetEntries, List.zipIdx_map, List.mem_filter, List.mem_map]
    constructor
    · rintro ⟨⟨own, hown, rfl⟩, hbudget⟩
      exact ⟨own, hown, hbudget, rfl⟩
    · rintro ⟨own, hown, hbudget, rfl⟩
      exact ⟨⟨own, hown, rfl⟩, hbudget⟩
  constructor
  · intro hfirst other hother
    obtain ⟨hother, hbudget⟩ := List.mem_filter.mp hother
    obtain ⟨index, hindex⟩ := List.getElem?_of_mem hother
    have hown : (other, index) ∈ entries.zipIdx := List.mem_zipIdx_iff_getElem?.mpr hindex
    have hcompare := hfirst (other.1, index) (hmem.mpr ⟨_, hown, hbudget, rfl⟩)
    exact hcompare.imp_right fun heq => ⟨heq.1, (h.le_iff hcounted hown).mp heq.2⟩
  · intro hfirst other hother
    obtain ⟨own, hown, hbudget, rfl⟩ := hmem.mp hother
    have hentry : own.1 ∈ entries :=
      List.mem_of_getElem? (List.mem_zipIdx_iff_getElem?.mp hown)
    have hcompare := hfirst own.1 (List.mem_filter.mpr ⟨hentry, hbudget⟩)
    exact hcompare.imp_right fun heq => ⟨heq.1, (h.le_iff hcounted hown).mpr heq.2⟩

theorem longestTask_eq (entries : List (PlanStep × Nat)) :
    longestTask entries = entries.argmax fun entry => entry.1.task.length := by
  unfold longestTask List.argmax
  congr 1
  funext best entry
  cases best <;> rfl

theorem deduplicateBudgetSteps_eq (steps : List PlanStep) :
    (deduplicateBudgetSteps steps).1 =
      (steps.zipIdx.filter (keepsBudget steps.zipIdx)).map Prod.fst := by
  have hsteps : (deduplicateBudgetSteps steps).1 =
      if (budgetEntries steps.zipIdx).length ≤ 1 then steps
      else (steps.zipIdx.filter fun entry => !(entry.1.isBudget && decide (some entry.2 ≠
        (longestTask (budgetEntries steps.zipIdx)).map Prod.snd))).map Prod.fst := by
    unfold deduplicateBudgetSteps
    exact apply_ite Prod.fst _ _ _
  have hincreasing : Increasing (budgetEntries steps.zipIdx) := (increasing_zipIdx steps 0).filter _
  rw [hsteps]
  split
  -- at most one budget step: nothing is dropped
  next hfew =>
    have hall : steps.zipIdx.filter (keepsBudget steps.zipIdx) = steps.zipIdx := by
      apply List.filter_eq_self.mpr
      intro entry hentry
      rw [keepsBudget_iff]
      intro hbudget other hother
      have hown : entry ∈ budgetEntries steps.zipIdx := List.mem_filter.mpr ⟨hentry, hbudget⟩
      match hentries : budgetEntries steps.zipIdx with
      | [] => simp [hentries] at hown
      | [only] =>
          rw [hentries, List.mem_singleton] at hown hother
          exact Or.inr ⟨by rw [hown, hother], by rw [hown, hother]⟩
      | _ :: _ :: _ => simp [hentries] at hfew
    rw [hall, List.zipIdx_map_fst]
  -- of several the first of the longest stays, which the fold finds
  next hmany =>
    obtain ⟨best, hbest⟩ : ∃ best, longestTask (budgetEntries steps.zipIdx) = some best := by
      apply Option.ne_none_iff_exists'.mp
      rw [longestTask_eq, ne_eq, List.argmax_eq_none]
      intro hnil
      simp [hnil] at hmany
    obtain ⟨hmem, hfirst⟩ : best ∈ budgetEntries steps.zipIdx ∧
        FirstLargest (fun step => step.task.length) (budgetEntries steps.zipIdx) best :=
      firstLargest_of_argmax hincreasing ((longestTask_eq _).symm.trans hbest)
    rw [hbest]
    congr 1
    apply List.filter_congr
    intro entry hentry
    unfold keepsBudget
    cases hbudget : entry.1.isBudget with
    | false => rfl
    | true =>
        have hown : entry ∈ budgetEntries steps.zipIdx := List.mem_filter.mpr ⟨hentry, hbudget⟩
        rw [Bool.eq_iff_iff]
        simp only [Option.map_some, ne_eq, Option.some.injEq, Bool.true_and, Bool.not_true,
          Bool.false_or, Bool.not_eq_true', decide_eq_false_iff_not, not_not, decide_eq_true_eq]
        constructor
        · intro heq
          rw [hincreasing.eq_of_position hown hmem heq]
          exact hfirst
        · intro hlargest
          rw [hlargest.eq hincreasing hown hmem hfirst]

/-- The steps a normalization keeps, before any tool hint is cleared. -/
theorem deduplicateBudgetSteps_survivors (steps : List PlanStep) :
    (deduplicateBudgetSteps (survivors steps)).1 = (kept steps).map Prod.fst := by
  have hincreasing := increasing_retained steps
  rw [deduplicateBudgetSteps_eq, kept, survivors_eq]
  generalize retained steps = entries at hincreasing
  have hcount : ∀ keep : PlanStep × Nat → Bool, entries.filter keep =
      (entries.zipIdx.filter fun counted => keep counted.1).map Prod.fst := by
    intro keep
    conv_lhs => rw [← List.zipIdx_map_fst 0 entries, List.filter_map]
    rfl
  rw [hcount, List.zipIdx_map, List.filter_map, List.map_map, List.map_map]
  congr 1
  apply List.filter_congr
  intro counted hcounted
  have hlargest := firstLargest_count_iff hincreasing hcounted
  rw [List.zipIdx_map] at hlargest
  have hentry : Prod.map Prod.fst id counted = (counted.1.1, counted.2) := rfl
  simp only [keepsBudget, Function.comp_apply, hentry, hlargest]

theorem kept_ne_nil {steps : List PlanStep} (h : steps ≠ []) : kept steps ≠ [] := by
  obtain ⟨first, rest, rfl⟩ := List.exists_cons_of_ne_nil h
  have hfirst : (first, 0) ∈ retained (first :: rest) := by
    apply mem_retained_iff.mpr
    exact ⟨rfl, fun earlier hlt => absurd hlt (Nat.not_lt_zero _)⟩
  by_cases hbudget : budgetEntries (retained (first :: rest)) = []
  · have hplain : first.isBudget = false := by
      by_contra htrue
      rw [Bool.not_eq_false] at htrue
      have hmem : (first, 0) ∈ budgetEntries (retained (first :: rest)) :=
        List.mem_filter.mpr ⟨hfirst, htrue⟩
      rw [hbudget] at hmem
      cases hmem
    refine List.ne_nil_of_mem (List.mem_filter.mpr ⟨hfirst, keepsBudget_iff.mpr ?_⟩)
    intro htrue
    cases hplain.symm.trans htrue
  · obtain ⟨best, hbest⟩ := Option.ne_none_iff_exists'.mp
      (mt (List.argmax_eq_none (f := fun entry : PlanStep × Nat => entry.1.task.length)).mp hbudget)
    obtain ⟨hmem, hlargest⟩ : best ∈ budgetEntries (retained (first :: rest)) ∧
        FirstLargest (fun step => step.task.length)
          (budgetEntries (retained (first :: rest))) best :=
      firstLargest_of_argmax ((increasing_retained _).filter _) hbest
    apply List.ne_nil_of_mem
    exact List.mem_filter.mpr ⟨(List.mem_filter.mp hmem).1, keepsBudget_iff.mpr fun _ => hlargest⟩

/-! ## Distinct ids -/

/-- No two of the chosen steps have the same value. -/
def DistinctBy {κ : Type} (value : PlanStep → κ) (chosen : Nat → PlanStep → Prop) : Prop :=
  ∀ i j a b, chosen i a → chosen j b → value a = value b → i = j

theorem distinctBy_iff {κ : Type} (value : PlanStep → κ) {entries : List (PlanStep × Nat)}
    {chosen : Nat → PlanStep → Prop} (h : Increasing entries)
    (hmem : ∀ {entry}, entry ∈ entries ↔ chosen entry.2 entry.1) :
    (entries.map fun entry => value entry.1).Nodup ↔ DistinctBy value chosen := by
  have hnodup : entries.Nodup := h.imp fun hlt heq => hlt.ne (congrArg Prod.snd heq)
  rw [List.nodup_map_iff_inj_on hnodup]
  constructor
  · intro hinj i j a b ha hb heq
    exact congrArg Prod.snd (hinj (a, i) (hmem.mpr ha) (b, j) (hmem.mpr hb) heq)
  · intro hdistinct a ha b hb heq
    exact h.eq_of_position ha hb (hdistinct _ _ _ _ (hmem.mp ha) (hmem.mp hb) heq)

/-- Renumbered steps depend on prior steps only. -/
theorem deps_renumberSteps {steps : List PlanStep} (hids : (steps.map PlanStep.id).Nodup)
    {step : PlanStep} (hstep : step ∈ (renumberSteps steps).1) {dep : Int}
    (hdep : dep ∈ step.deps) : dep ∈ expectedIds steps.length ∧ dep < step.id := by
  rw [(renumberSteps_eq steps).1, ← (renumberSteps_eq steps).2] at hstep
  obtain ⟨own, -, rfl⟩ := List.mem_map.mp hstep
  rw [deps_remapStep] at hdep
  obtain ⟨hlt, old, -, hold⟩ := mem_remapDeps_iff.mp hdep
  refine ⟨?_, hlt⟩
  rw [← (numbering_renumberSteps hids).values]
  exact List.mem_map_of_mem (Dict.mem_entries_of_get? hold)

/-- Renumbered steps make a well-formed plan if and only if their ids were distinct. -/
theorem wellFormed_renumberSteps_iff {registry : List String} {goal : String}
    {steps : List PlanStep} (hgoal : isBlank goal = false) (hsteps : steps ≠ [])
    (htask : ∀ step ∈ steps, isBlank step.task = false)
    (hhint : ∀ step ∈ steps, ∀ hint, step.toolHint = some hint → hint ∈ registry) :
    (⟨goal, (renumberSteps steps).1⟩ : Plan).WellFormed registry ↔
      (steps.map PlanStep.id).Nodup := by
  constructor
  · intro h
    exact ids_nodup_of_renumbered h.ids_nodup
  intro hids
  have hnumbers := ids_renumberSteps hids
  have hlength : (renumberSteps steps).1.length = steps.length := by
    rw [(renumberSteps_eq steps).1, List.length_map, length_sortById]
  -- A renumbered step has the task and the tool hint of one of the steps.
  have hsource : ∀ step ∈ (renumberSteps steps).1, ∃ own ∈ steps,
      step = (remapStep (renumberSteps steps).2.1 own).1 := by
    intro step hstep
    rw [(renumberSteps_eq steps).1] at hstep
    obtain ⟨own, hown, rfl⟩ := List.mem_map.mp hstep
    exact ⟨own, mem_sortById.mp hown, by rw [(renumberSteps_eq steps).2]⟩
  refine ⟨hgoal, ?_, ?_, ?_, ?_, ?_⟩
  · intro hnil
    apply hsteps
    rw [← List.length_eq_zero_iff, ← hlength]
    exact congrArg List.length hnil
  · intro step hstep
    obtain ⟨own, hown, rfl⟩ := hsource step hstep
    exact htask own hown
  · rw [Plan.ids, hnumbers, hlength]
  · intro step hstep dep hdep
    rw [Plan.ids, hnumbers]
    exact deps_renumberSteps hids hstep hdep
  · intro step hstep
    obtain ⟨own, hown, rfl⟩ := hsource step hstep
    exact hhint own hown

/-! ## The passes of a normalization -/

/-- The steps a normalization puts in order and renumbers. -/
def clearedSteps (steps : List PlanStep) : List PlanStep :=
  (kept steps).map fun entry => entry.1.cleared

theorem perm_preferToolExecutionOrder (steps : List PlanStep) :
    (preferToolExecutionOrder steps).1.Perm steps := by
  unfold preferToolExecutionOrder
  split
  · exact List.Perm.refl _
  dsimp only
  split
  · exact List.Perm.refl _
  · have hperm := (List.perm_insertionSort
      (fun a b : PlanStep × Nat => toolOrder a.1.toolHint ≤ toolOrder b.1.toolHint)
        steps.zipIdx).map
        Prod.fst
    rwa [List.zipIdx_map_fst] at hperm

/-- A normalization renumbers the kept steps, with the tool hints of synthesis steps cleared,
in some order. -/
theorem exists_ordered (plan : Plan) : ∃ ordered, ordered.Perm (clearedSteps plan.steps) ∧
    (normalizePlan plan).plan = ⟨plan.goal, (renumberSteps ordered).1⟩ ∧
    (normalizePlan plan).idMap = (renumberSteps ordered).2.1 := by
  refine ⟨_, ?_, rfl, rfl⟩
  apply (perm_preferToolExecutionOrder _).trans
  have hcleared : (normalizeSynthesisSteps (deduplicateBudgetSteps (survivors plan.steps)).1).1 =
      clearedSteps plan.steps := by
    rw [deduplicateBudgetSteps_survivors]
    exact List.map_map
  rw [← hcleared]
  exact List.Perm.refl _

theorem ids_clearedSteps (steps : List PlanStep) :
    (clearedSteps steps).map PlanStep.id = (kept steps).map fun entry => entry.1.id := by
  rw [clearedSteps, List.map_map]
  apply List.map_congr_left
  intro entry _
  exact entry.1.id_cleared

theorem clearedSteps_ids_nodup_iff {steps : List PlanStep} :
    ((clearedSteps steps).map PlanStep.id).Nodup ↔ DistinctBy PlanStep.id (Kept steps) := by
  rw [ids_clearedSteps]
  exact distinctBy_iff PlanStep.id (increasing_kept steps) mem_kept_iff

theorem survivors_ids_nodup_iff {steps : List PlanStep} :
    ((survivors steps).map PlanStep.id).Nodup ↔ DistinctBy PlanStep.id (Retained steps) := by
  rw [survivors_eq, List.map_map]
  exact distinctBy_iff PlanStep.id (increasing_retained steps) mem_retained_iff

theorem mem_clearedSteps_iff {steps : List PlanStep} {step : PlanStep} :
    step ∈ clearedSteps steps ↔ ∃ position own, Kept steps position own ∧ own.cleared = step := by
  rw [clearedSteps, List.mem_map]
  constructor
  · rintro ⟨entry, hentry, rfl⟩
    exact ⟨entry.2, entry.1, mem_kept_iff.mp hentry, rfl⟩
  · rintro ⟨position, own, hkept, rfl⟩
    exact ⟨(own, position), mem_kept_iff.mpr hkept, rfl⟩

theorem Kept.mem {steps : List PlanStep} {position : Nat} {step : PlanStep}
    (h : Kept steps position step) : step ∈ steps := List.mem_of_getElem? h.1.1

/-- The planner's answers are normalized and repaired to valid plans if and only if the steps
that are kept have distinct ids. -/
theorem valid_iff_distinctBy {registry : List String} {plan : Plan}
    (hgoal : isBlank plan.goal = false) (hsteps : plan.steps ≠ [])
    (htask : ∀ step ∈ plan.steps, isBlank step.task = false)
    (hhint : ∀ step ∈ plan.steps, ∀ hint, step.toolHint = some hint → hint ∈ registry) :
    ((validate registry (normalizePlan plan).plan).success = true ↔
      DistinctBy PlanStep.id (Kept plan.steps)) ∧
    ((validate registry (repairPlan plan).plan).success = true ↔
      DistinctBy PlanStep.id (Retained plan.steps)) := by
  constructor
  · obtain ⟨ordered, hperm, hplan, -⟩ := exists_ordered plan
    have hsource : ∀ step ∈ ordered, ∃ own ∈ plan.steps, own.cleared = step := by
      intro step hstep
      obtain ⟨position, own, hkept, rfl⟩ := mem_clearedSteps_iff.mp (hperm.mem_iff.mp hstep)
      exact ⟨own, hkept.mem, rfl⟩
    rw [validate_success_iff, hplan, wellFormed_renumberSteps_iff hgoal,
      (hperm.map PlanStep.id).nodup_iff, clearedSteps_ids_nodup_iff]
    · intro hnil
      rw [hnil] at hperm
      have hcleared := hperm.nil_eq
      exact kept_ne_nil hsteps (List.map_eq_nil_iff.mp hcleared.symm)
    · intro step hstep
      obtain ⟨own, hown, rfl⟩ := hsource step hstep
      rw [own.task_cleared]
      exact htask own hown
    · intro step hstep hint heq
      obtain ⟨own, hown, rfl⟩ := hsource step hstep
      rcases own.toolHint_cleared with hnone | hsame
      · exact absurd (hnone.symm.trans heq) (Option.some_ne_none _).symm
      · exact hhint own hown hint (hsame ▸ heq)
  · have hsource : ∀ step ∈ survivors plan.steps, step ∈ plan.steps :=
      fun step hstep => (survivors_sublist _).subset hstep
    rw [validate_success_iff, ← survivors_ids_nodup_iff]
    apply wellFormed_renumberSteps_iff hgoal (PlanState.survivors_ne_nil hsteps)
    · exact fun step hstep => htask step (hsource step hstep)
    · exact fun step hstep => hhint step (hsource step hstep)

/-- Two different steps under one id. -/
def twinPlan : Plan :=
  ⟨"上海周末", [⟨1, "查询上海天气", some "weather", none⟩, ⟨1, "规划上海路线", some "map", none⟩]⟩

theorem valid_duplicatePlan :
    (validate ["weather", "budget"] (normalizePlan PlanState.duplicatePlan).plan).success = true ∧
    (validate ["weather", "budget"] (repairPlan PlanState.duplicatePlan).plan).success = true := by
  refine ⟨(valid_iff_distinctBy (by decide) (by decide) (by decide) (by decide)).1.mpr ?_,
    (valid_iff_distinctBy (by decide) (by decide) (by decide) (by decide)).2.mpr ?_⟩
  · exact clearedSteps_ids_nodup_iff.mp (by decide +kernel)
  · exact survivors_ids_nodup_iff.mp (by decide +kernel)

/-- Neither way of making the plan valid gives its steps two ids. -/
theorem invalid_twinPlan :
    isBlank twinPlan.goal = false ∧ twinPlan.steps ≠ [] ∧
    (∀ step ∈ twinPlan.steps, isBlank step.task = false) ∧
    (∀ step ∈ twinPlan.steps, ∀ hint, step.toolHint = some hint → hint ∈ ["weather", "map"]) ∧
    (validate ["weather", "map"] (normalizePlan twinPlan).plan).success = false ∧
    (validate ["weather", "map"] (repairPlan twinPlan).plan).success = false := by
  decide +kernel

/-! ## The order of the result -/

theorem pairwise_sortById {steps : List PlanStep} (h : (steps.map PlanStep.id).Nodup) :
    (sortById steps).Pairwise fun a b => a.id < b.id := by
  have hle : (sortById steps).Pairwise fun a b => a.id ≤ b.id := List.pairwise_insertionSort _ _
  have hne := List.pairwise_map.mp (sortById_ids_nodup h)
  exact (hle.and hne).imp fun h => lt_of_le_of_ne h.1 h.2

/-- The position in the plan of the step that a step of the result comes from. -/
def inputPosition (plan : Plan) (after : PlanStep) : Nat :=
  plan.steps.findIdx fun step =>
    decide ((normalizePlan plan).idMap.get? step.id = some after.id)

/-- Weather steps come first, then map steps, then budget steps, then all others; steps of
one class come in the order of the plan. -/
def CanonicalOrder (plan : Plan) : Prop :=
  (normalizePlan plan).plan.steps.Pairwise fun a b =>
    toolOrder a.toolHint < toolOrder b.toolHint ∨
      toolOrder a.toolHint = toolOrder b.toolHint ∧ inputPosition plan a < inputPosition plan b

instance (plan : Plan) : Decidable (CanonicalOrder plan) :=
  inferInstanceAs (Decidable (List.Pairwise _ _))

theorem kept_distinctBy {plan : Plan} (h : plan.ids.Nodup) :
    DistinctBy PlanStep.id (Kept plan.steps) := by
  intro i j a b ha hb heq
  have hget : ∀ {position : Nat} {step : PlanStep}, plan.steps[position]? = some step →
      plan.ids[position]? = some step.id := by
    intro position step hstep
    rw [Plan.ids, List.getElem?_map, hstep, Option.map_some]
  obtain ⟨hlt, -⟩ := List.getElem?_eq_some_iff.mp (hget ha.1.1)
  apply (List.getElem?_inj hlt h).mp
  rw [hget ha.1.1, hget hb.1.1, heq]

/-- A step of the result leads back to the step it comes from. -/
theorem inputPosition_remapStep {plan : Plan} (hids : plan.ids.Nodup) {position : Nat}
    {step after : PlanStep} (hkept : Kept plan.steps position step)
    (hafter : (normalizePlan plan).idMap.get? step.id = some after.id) :
    inputPosition plan after = position := by
  obtain ⟨ordered, hperm, -, hmap⟩ := exists_ordered plan
  have hnumbers : Numbering ordered (normalizePlan plan).idMap := by
    rw [hmap]
    apply numbering_renumberSteps
    rw [(hperm.map PlanStep.id).nodup_iff, clearedSteps_ids_nodup_iff]
    exact kept_distinctBy hids
  obtain ⟨hlt, hget⟩ := List.getElem?_eq_some_iff.mp hkept.1.1
  apply (List.findIdx_eq hlt).mpr
  rw [hget]
  refine ⟨decide_eq_true hafter, ?_⟩
  intro earlier hearlier
  apply decide_eq_false
  intro hsame
  have hid := hnumbers.inj hsame hafter
  have hnodup := List.pairwise_iff_getElem.mp (List.pairwise_map.mp hids) earlier position
    (hearlier.trans hlt) hlt hearlier
  rw [hget] at hnodup
  exact hnodup hid

/-- The steps of a result, each with the step it comes from. -/
theorem exists_sorted {plan : Plan} (h : DistinctBy PlanStep.id (Kept plan.steps)) :
    ∃ sorted : List PlanStep, sorted.Perm (clearedSteps plan.steps) ∧
      (sorted.Pairwise fun a b => a.id < b.id) ∧
      (normalizePlan plan).plan.steps =
        sorted.map (fun step => (remapStep (normalizePlan plan).idMap step).1) := by
  obtain ⟨ordered, hperm, hplan, hmap⟩ := exists_ordered plan
  have hids : (ordered.map PlanStep.id).Nodup :=
    (hperm.map PlanStep.id).nodup_iff.mpr (clearedSteps_ids_nodup_iff.mpr h)
  refine ⟨sortById ordered, (perm_sortById ordered).trans hperm, pairwise_sortById hids, ?_⟩
  rw [hplan, hmap, (renumberSteps_eq ordered).2]
  exact (renumberSteps_eq ordered).1

/-- What is kept comes in the order of the classes, within a class in the order of the plan,
if and only if the ids are in that order already. -/
theorem canonicalOrder_iff {plan : Plan} (hids : plan.ids.Nodup) :
    CanonicalOrder plan ↔ ∀ i j a b, Kept plan.steps i a → Kept plan.steps j b → a.id < b.id →
      toolOrder a.cleared.toolHint < toolOrder b.cleared.toolHint ∨
        toolOrder a.cleared.toolHint = toolOrder b.cleared.toolHint ∧ i < j := by
  have hdistinct := kept_distinctBy hids
  obtain ⟨sorted, hperm, hsorted, hsteps⟩ := exists_sorted hdistinct
  obtain ⟨ordered, hordered, -, hmap⟩ := exists_ordered plan
  have hnumbers : Numbering ordered (normalizePlan plan).idMap := by
    rw [hmap]
    apply numbering_renumberSteps
    rw [(hordered.map PlanStep.id).nodup_iff, clearedSteps_ids_nodup_iff]
    exact hdistinct
  have hposition : ∀ position own, Kept plan.steps position own →
      inputPosition plan (remapStep (normalizePlan plan).idMap own.cleared).1 = position := by
    intro position own hkept
    have hmem : own.cleared ∈ ordered :=
      hordered.mem_iff.mpr (mem_clearedSteps_iff.mpr ⟨position, own, hkept, rfl⟩)
    obtain ⟨newId, hnewId, -⟩ := hnumbers.mem_values hmem
    rw [own.id_cleared] at hnewId
    apply inputPosition_remapStep hids hkept
    rw [id_remapStep, own.id_cleared, hnewId, Option.getD_some]
  have hkept : ∀ {step}, step ∈ sorted ↔
      ∃ position own, Kept plan.steps position own ∧ own.cleared = step := by
    intro step
    rw [hperm.mem_iff]
    exact mem_clearedSteps_iff
  unfold CanonicalOrder
  rw [hsteps, List.pairwise_map, pairwise_iff_of_increasing hsorted]
  simp only [toolHint_remapStep]
  constructor
  · intro h i j a b ha hb hlt
    have hbefore := h a.cleared (hkept.mpr ⟨i, a, ha, rfl⟩) b.cleared (hkept.mpr ⟨j, b, hb, rfl⟩)
      (by rwa [a.id_cleared, b.id_cleared])
    rwa [hposition i a ha, hposition j b hb] at hbefore
  · intro h first hfirst second hsecond hlt
    obtain ⟨i, a, ha, rfl⟩ := hkept.mp hfirst
    obtain ⟨j, b, hb, rfl⟩ := hkept.mp hsecond
    rw [hposition i a ha, hposition j b hb]
    exact h i j a b ha hb (by rwa [a.id_cleared, b.id_cleared] at hlt)

/-- A budget step numbered before a weather step. -/
def reversedPlan : Plan :=
  ⟨"上海周末", [⟨1, "估算上海预算", some "budget", none⟩, ⟨2, "查询上海天气", some "weather", none⟩]⟩

theorem canonicalOrder_duplicatePlan : CanonicalOrder PlanState.duplicatePlan := by
  have hentries : ∀ first ∈ kept PlanState.duplicatePlan.steps,
      ∀ second ∈ kept PlanState.duplicatePlan.steps, first.1.id < second.1.id →
        toolOrder first.1.cleared.toolHint < toolOrder second.1.cleared.toolHint ∨
          toolOrder first.1.cleared.toolHint = toolOrder second.1.cleared.toolHint ∧
            first.2 < second.2 := by
    decide +kernel
  apply (canonicalOrder_iff (by decide)).mpr
  intro i j a b ha hb hlt
  exact hentries (a, i) (mem_kept_iff.mpr ha) (b, j) (mem_kept_iff.mpr hb) hlt

/-- The steps are put in order and then sorted by their ids again. -/
theorem not_canonicalOrder_reversedPlan :
    reversedPlan.ids.Nodup ∧ (∀ step ∈ reversedPlan.steps, step.deps = []) ∧
      ¬ CanonicalOrder reversedPlan := by
  decide +kernel

/-! ## Normalizing again -/

theorem removeDuplicateSteps_notes_iff {seen : List (String × Option String)}
    {steps : List PlanStep} : (removeDuplicateSteps seen steps).2 = [] ↔
      (steps.map PlanStep.kind).Nodup ∧ ∀ step ∈ steps, step.kind ∉ seen := by
  constructor
  · intro h
    induction steps generalizing seen with
    | nil => exact ⟨List.nodup_nil, fun step hstep => by cases hstep⟩
    | cons step rest ih =>
        simp only [removeDuplicateSteps] at h
        split at h
        next => cases h
        next hnew =>
          obtain ⟨hnodup, hseen⟩ := ih h
          constructor
          · apply List.nodup_cons.mpr
            refine ⟨?_, hnodup⟩
            intro hmem
            obtain ⟨own, hown, heq⟩ := List.mem_map.mp hmem
            exact hseen own hown (heq ▸ List.mem_cons_self)
          · intro own hown hmem
            rcases List.mem_cons.mp hown with rfl | hrest
            · exact hnew hmem
            · exact hseen own hrest (List.mem_cons_of_mem _ hmem)
  · rintro ⟨hnodup, hseen⟩
    rw [removeDuplicateSteps_of_distinct hnodup hseen]

theorem deduplicateBudgetSteps_of_few {steps : List PlanStep}
    (h : steps.countP PlanStep.isBudget ≤ 1) : deduplicateBudgetSteps steps = (steps, []) := by
  have hcount : (budgetEntries steps.zipIdx).length = steps.countP PlanStep.isBudget := by
    conv_rhs => rw [← List.zipIdx_map_fst 0 steps, List.countP_map]
    rw [budgetEntries, ← List.countP_eq_length_filter]
    rfl
  have hfew : (budgetEntries steps.zipIdx).length ≤ 1 := hcount ▸ h
  exact if_pos hfew

theorem normalizeSynthesisSteps_of_clear {steps : List PlanStep}
    (h : ∀ step ∈ steps, step.clears = false) : normalizeSynthesisSteps steps = (steps, []) := by
  have hsame : steps.map PlanStep.cleared = steps := by
    conv_rhs => rw [← List.map_id steps]
    apply List.map_congr_left
    intro step hstep
    rw [PlanStep.cleared, if_neg (Bool.eq_false_iff.mp (h step hstep)), id]
  have hnone : steps.filter PlanStep.clears = [] := by
    apply List.filter_eq_nil_iff.mpr
    intro step hstep
    exact Bool.eq_false_iff.mp (h step hstep)
  apply Prod.ext
  · exact hsame
  · exact List.map_eq_nil_iff.mpr hnone

/-- Nothing is put in another place if and only if the classes are in order. -/
theorem preferToolExecutionOrder_notes_iff {steps : List PlanStep} :
    (preferToolExecutionOrder steps).2 = [] ↔
      steps.Pairwise fun a b => toolOrder a.toolHint ≤ toolOrder b.toolHint := by
  let before (a b : PlanStep × Nat) : Prop := toolOrder a.1.toolHint ≤ toolOrder b.1.toolHint
  have hpairs : steps.zipIdx.Pairwise before ↔
      steps.Pairwise fun a b => toolOrder a.toolHint ≤ toolOrder b.toolHint := by
    conv_rhs => rw [← List.zipIdx_map_fst 0 steps, List.pairwise_map]
  rw [← hpairs]
  unfold preferToolExecutionOrder
  split
  next hfew =>
    refine ⟨fun _ => ?_, fun _ => rfl⟩
    match steps with
    | [] => exact List.Pairwise.nil
    | [_] => exact List.pairwise_singleton _ _
    | _ :: _ :: _ => simp at hfew
  dsimp only
  split
  next hrange =>
    refine ⟨fun _ => ?_, fun _ => rfl⟩
    have hperm : (steps.zipIdx.insertionSort before).Perm steps.zipIdx :=
      List.perm_insertionSort _ _
    have hincreasing : Increasing (steps.zipIdx.insertionSort before) := by
      apply List.pairwise_map.mp
      rw [hrange]
      exact List.pairwise_lt_range
    have hsame : steps.zipIdx.insertionSort before = steps.zipIdx := by
      apply hperm.eq_of_pairwise _ hincreasing (increasing_zipIdx steps 0)
      intro a b _ _ hab hba
      exact absurd (hab.trans hba) (lt_irrefl _)
    rw [← hsame]
    exact List.pairwise_insertionSort _ _
  next hmoved =>
    refine ⟨fun h => absurd h (List.cons_ne_nil _ _), fun h => ?_⟩
    apply absurd _ hmoved
    rw [h.insertionSort_eq, List.zipIdx_map_snd, List.range_eq_range']

/-- Steps that share an id are renumbered with a note. -/
theorem ids_nodup_of_notes {steps : List PlanStep} (h : (renumberSteps steps).2.2 = []) :
    (steps.map PlanStep.id).Nodup := by
  unfold renumberSteps at h
  split at h
  next hnil => exact hnil ▸ List.nodup_nil
  dsimp only at h
  have hkeys : (positions (sortById steps)).keys.insertionSort (· ≤ ·) =
      expectedIds (sortById steps).length := by
    have hrenumbered := (List.append_eq_nil_iff.mp h).1
    split at hrenumbered
    next => cases hrenumbered
    next hsame => exact not_not.mp fun hne => hsame (Or.inl hne)
  have hlength : (positions (sortById steps)).keys.length = (sortById steps).length := by
    have hsame := congrArg List.length hkeys
    rwa [List.length_insertionSort, expectedIds, List.length_map, List.length_range] at hsame
  have hsubset : (positions (sortById steps)).keys ⊆ (sortById steps).map PlanStep.id := by
    intro stepId hmem
    rw [← Dict.contains_iff, positions, Dict.contains_ofList, List.map_map] at hmem
    obtain ⟨entry, hentry, rfl⟩ := List.mem_map.mp hmem
    have hstep : entry.1 ∈ sortById steps := by
      rw [← List.zipIdx_map_fst 0 (sortById steps)]
      exact List.mem_map_of_mem hentry
    exact List.mem_map_of_mem hstep
  have hperm : (positions (sortById steps)).keys.Perm ((sortById steps).map PlanStep.id) := by
    apply ((positions (sortById steps)).nodup.subperm hsubset).perm_of_length_le
    rw [List.length_map]
    exact hlength.ge
  exact ((perm_sortById steps).map _).nodup_iff.mp
    (hperm.nodup_iff.mp (positions (sortById steps)).nodup)

/-- Distinct steps in the order of their classes are only renumbered. -/
theorem normalizePlan_of_ordered {plan : Plan} (hkinds : (plan.steps.map PlanStep.kind).Nodup)
    (hbudget : plan.steps.countP PlanStep.isBudget ≤ 1)
    (hclear : ∀ step ∈ plan.steps, step.clears = false)
    (horder : plan.steps.Pairwise fun a b => toolOrder a.toolHint ≤ toolOrder b.toolHint) :
    normalizePlan plan = ⟨⟨plan.goal, (renumberSteps plan.steps).1⟩,
      decide ((renumberSteps plan.steps).2.2 ≠ []), (renumberSteps plan.steps).2.2,
      (renumberSteps plan.steps).2.1⟩ := by
  have hdistinct : removeDuplicateSteps [] plan.steps = (plan.steps, []) :=
    removeDuplicateSteps_of_distinct hkinds fun _ _ => List.not_mem_nil
  have hordered : preferToolExecutionOrder plan.steps = (plan.steps, []) := by
    have hnotes := preferToolExecutionOrder_notes_iff.mpr horder
    unfold preferToolExecutionOrder at hnotes ⊢
    split
    · rfl
    next hmany =>
      rw [if_neg hmany] at hnotes
      dsimp only at hnotes ⊢
      split
      · rfl
      next hmoved =>
        rw [if_neg hmoved] at hnotes
        cases hnotes
  simp only [normalizePlan, hdistinct, deduplicateBudgetSteps_of_few hbudget,
    normalizeSynthesisSteps_of_clear hclear, hordered, List.nil_append]

/-- In a plan with one budget step at most and no tool for a synthesis, nothing is repaired if
and only if the steps are distinct, in the order of their classes, and numbered. -/
theorem repaired_eq_false_iff {plan : Plan} (hbudget : plan.steps.countP PlanStep.isBudget ≤ 1)
    (hclear : ∀ step ∈ plan.steps, step.clears = false) :
    (normalizePlan plan).repaired = false ↔ (plan.steps.map PlanStep.kind).Nodup ∧
      (plan.steps.Pairwise fun a b => toolOrder a.toolHint ≤ toolOrder b.toolHint) ∧
      (renumberSteps plan.steps).2.2 = [] := by
  constructor
  · intro h
    have hnotes : (normalizePlan plan).notes = [] := not_not.mp (of_decide_eq_false h)
    have hdedup : (removeDuplicateSteps [] plan.steps).2 = [] := by
      have hfirst := (List.append_eq_nil_iff.mp hnotes).1
      have hfirst := (List.append_eq_nil_iff.mp hfirst).1
      have hfirst := (List.append_eq_nil_iff.mp hfirst).1
      exact (List.append_eq_nil_iff.mp hfirst).1
    have hkinds := (removeDuplicateSteps_notes_iff.mp hdedup).1
    have horder : (preferToolExecutionOrder plan.steps).2 = [] := by
      have hdistinct : removeDuplicateSteps [] plan.steps = (plan.steps, []) :=
        removeDuplicateSteps_of_distinct hkinds fun _ _ => List.not_mem_nil
      simp only [normalizePlan, hdistinct, deduplicateBudgetSteps_of_few hbudget,
        normalizeSynthesisSteps_of_clear hclear, List.nil_append] at hnotes
      exact (List.append_eq_nil_iff.mp hnotes).1
    have horder := preferToolExecutionOrder_notes_iff.mp horder
    rw [normalizePlan_of_ordered hkinds hbudget hclear horder] at hnotes
    exact ⟨hkinds, horder, hnotes⟩
  · rintro ⟨hkinds, horder, hnotes⟩
    rw [normalizePlan_of_ordered hkinds hbudget hclear horder]
    exact decide_eq_false (not_not.mpr hnotes)

/-- At most one budget step is kept. -/
theorem countP_clearedSteps (steps : List PlanStep) :
    (clearedSteps steps).countP PlanStep.isBudget ≤ 1 := by
  have hfew : ((kept steps).filter fun entry => entry.1.isBudget).length ≤ 1 := by
    have hall : ∀ a ∈ (kept steps).filter (fun entry => entry.1.isBudget),
        ∀ b ∈ (kept steps).filter (fun entry => entry.1.isBudget), a = b := by
      intro a ha b hb
      obtain ⟨ha, hbudgetA⟩ := List.mem_filter.mp ha
      obtain ⟨hb, hbudgetB⟩ := List.mem_filter.mp hb
      obtain ⟨hmemA, hkeepsA⟩ := List.mem_filter.mp ha
      obtain ⟨hmemB, hkeepsB⟩ := List.mem_filter.mp hb
      apply (keepsBudget_iff.mp hkeepsA hbudgetA).eq ((increasing_retained steps).filter _)
      · exact List.mem_filter.mpr ⟨hmemA, hbudgetA⟩
      · exact List.mem_filter.mpr ⟨hmemB, hbudgetB⟩
      · exact keepsBudget_iff.mp hkeepsB hbudgetB
    have hincreasing := (increasing_kept steps).filter fun entry => entry.1.isBudget
    match hentries : (kept steps).filter fun entry => entry.1.isBudget with
    | [] => simp [hentries]
    | [_] => simp [hentries]
    | first :: second :: _ =>
        rw [hentries] at hall hincreasing
        have heq := hall first List.mem_cons_self second (List.mem_cons_of_mem _ List.mem_cons_self)
        have hlt := (List.pairwise_cons.mp hincreasing).1 second List.mem_cons_self
        exact absurd (congrArg Prod.snd heq) hlt.ne
  calc (clearedSteps steps).countP PlanStep.isBudget
      = (kept steps).countP fun entry => entry.1.cleared.isBudget := List.countP_map
    _ ≤ (kept steps).countP fun entry => entry.1.isBudget :=
        List.countP_mono_left fun _ _ h => PlanStep.isBudget_of_cleared h
    _ = ((kept steps).filter fun entry => entry.1.isBudget).length := List.countP_eq_length_filter
    _ ≤ 1 := hfew

/-- What a normalization returns has one budget step at most and no tool for a synthesis. -/
theorem normalized_few {plan : Plan} :
    (normalizePlan plan).plan.steps.countP PlanStep.isBudget ≤ 1 ∧
      ∀ step ∈ (normalizePlan plan).plan.steps, step.clears = false := by
  obtain ⟨ordered, hperm, hplan, -⟩ := exists_ordered plan
  rw [hplan, (renumberSteps_eq ordered).1]
  constructor
  · rw [List.countP_map]
    apply le_of_eq_of_le _ (countP_clearedSteps plan.steps)
    exact ((perm_sortById ordered).trans hperm).countP_eq _
  · intro step hstep
    obtain ⟨own, hown, rfl⟩ := List.mem_map.mp hstep
    obtain ⟨_, source, -, rfl⟩ := mem_clearedSteps_iff.mp (hperm.mem_iff.mp (mem_sortById.mp hown))
    exact source.clears_cleared

/-- Renumbering numbered steps that depend on prior ones leaves them as they are. -/
theorem steps_renumberSteps_of_numbered {steps : List PlanStep}
    (hids : steps.map PlanStep.id = expectedIds steps.length)
    (hprior : ∀ step ∈ steps, ∀ dep ∈ step.deps, 1 ≤ dep ∧ dep < step.id)
    (hnormal : ∀ step ∈ steps, step.dependency = normalizeDeps step.deps) :
    (renumberSteps steps).1 = steps := by
  have hsorted : sortById steps = steps := sortById_of_sorted (hids ▸ pairwise_expectedIds _)
  rw [(renumberSteps_eq steps).1, hsorted]
  conv_rhs => rw [← List.map_id steps]
  apply List.map_congr_left
  intro step hstep
  rw [remapStep_of_numbered hids hstep (hprior step hstep), ← hnormal step hstep, id]

section Normalized

variable {plan : Plan} (h : DistinctBy PlanStep.id (Kept plan.steps))

include h

theorem kinds_normalizePlan_iff :
    ((normalizePlan plan).plan.steps.map PlanStep.kind).Nodup ↔
      DistinctBy (fun step => step.cleared.kind) (Kept plan.steps) := by
  obtain ⟨sorted, hperm, -, hsteps⟩ := exists_sorted h
  have hkinds : (normalizePlan plan).plan.steps.map PlanStep.kind = sorted.map PlanStep.kind := by
    rw [hsteps, List.map_map]
    rfl
  rw [hkinds, (hperm.map PlanStep.kind).nodup_iff, clearedSteps, List.map_map]
  exact distinctBy_iff (fun step => step.cleared.kind) (increasing_kept plan.steps) mem_kept_iff

theorem order_normalizePlan_iff :
    ((normalizePlan plan).plan.steps.Pairwise fun a b =>
        toolOrder a.toolHint ≤ toolOrder b.toolHint) ↔
      ∀ i j a b, Kept plan.steps i a → Kept plan.steps j b → a.id < b.id →
        toolOrder a.cleared.toolHint ≤ toolOrder b.cleared.toolHint := by
  obtain ⟨sorted, hperm, hsorted, hsteps⟩ := exists_sorted h
  have hkept : ∀ {step}, step ∈ sorted ↔
      ∃ position own, Kept plan.steps position own ∧ own.cleared = step := by
    intro step
    rw [hperm.mem_iff]
    exact mem_clearedSteps_iff
  rw [hsteps, List.pairwise_map]
  simp only [toolHint_remapStep]
  constructor
  · intro horder i j a b ha hb hlt
    apply (pairwise_iff_of_increasing hsorted).mp horder a.cleared (hkept.mpr ⟨i, a, ha, rfl⟩)
      b.cleared (hkept.mpr ⟨j, b, hb, rfl⟩)
    rwa [a.id_cleared, b.id_cleared]
  · intro horder
    apply (pairwise_iff_of_increasing hsorted).mpr
    intro first hfirst second hsecond hlt
    obtain ⟨i, a, ha, rfl⟩ := hkept.mp hfirst
    obtain ⟨j, b, hb, rfl⟩ := hkept.mp hsecond
    rw [a.id_cleared, b.id_cleared] at hlt
    exact horder i j a b ha hb hlt

/-- Renumbering the steps of a result again does nothing. -/
theorem renumberSteps_normalizePlan :
    (renumberSteps (normalizePlan plan).plan.steps).1 = (normalizePlan plan).plan.steps ∧
      (renumberSteps (normalizePlan plan).plan.steps).2.2 = [] := by
  obtain ⟨ordered, hperm, hplan, -⟩ := exists_ordered plan
  have hids : (ordered.map PlanStep.id).Nodup :=
    (hperm.map PlanStep.id).nodup_iff.mpr (clearedSteps_ids_nodup_iff.mpr h)
  have hlength : (renumberSteps ordered).1.length = ordered.length := by
    rw [(renumberSteps_eq ordered).1, List.length_map, length_sortById]
  have hnumbers : (renumberSteps ordered).1.map PlanStep.id =
      expectedIds (renumberSteps ordered).1.length := by
    rw [hlength]
    exact ids_renumberSteps hids
  have hprior : ∀ step ∈ (renumberSteps ordered).1, ∀ dep ∈ step.deps,
      1 ≤ dep ∧ dep < step.id := by
    intro step hstep dep hdep
    obtain ⟨hmem, hlt⟩ := deps_renumberSteps hids hstep hdep
    exact ⟨(mem_expectedIds.mp hmem).1, hlt⟩
  have hnormal : ∀ step ∈ (renumberSteps ordered).1,
      step.dependency = normalizeDeps step.deps := by
    intro step hstep
    rw [(renumberSteps_eq ordered).1] at hstep
    obtain ⟨own, -, rfl⟩ := List.mem_map.mp hstep
    rw [deps_remapStep]
    rfl
  rw [hplan]
  exact ⟨steps_renumberSteps_of_numbered hnumbers hprior hnormal,
    renumberSteps_of_numbered hnumbers hprior⟩

end Normalized

/-- A plan that is renumbered without a note comes from steps with distinct ids. -/
theorem distinctBy_of_notes {plan : Plan}
    (h : (renumberSteps (normalizePlan plan).plan.steps).2.2 = []) :
    DistinctBy PlanStep.id (Kept plan.steps) := by
  obtain ⟨ordered, hperm, hplan, -⟩ := exists_ordered plan
  rw [hplan] at h
  have hids := ids_nodup_of_renumbered (ids_nodup_of_notes h)
  exact clearedSteps_ids_nodup_iff.mp ((hperm.map PlanStep.id).nodup_iff.mp hids)

/-- Normalizing a normalized plan returns it as it is, and reports no repair, if and only if
the kept steps have distinct ids, are still distinct once tool hints are cleared, and come in
the order of their classes when sorted by id. -/
theorem normalizePlan_idempotent_iff (plan : Plan) :
    ((normalizePlan (normalizePlan plan).plan).plan = (normalizePlan plan).plan ∧
      (normalizePlan (normalizePlan plan).plan).repaired = false) ↔
    DistinctBy PlanStep.id (Kept plan.steps) ∧
      DistinctBy (fun step => step.cleared.kind) (Kept plan.steps) ∧
      ∀ i j a b, Kept plan.steps i a → Kept plan.steps j b → a.id < b.id →
        toolOrder a.cleared.toolHint ≤ toolOrder b.cleared.toolHint := by
  have hfew : (normalizePlan plan).plan.steps.countP PlanStep.isBudget ≤ 1 := normalized_few.1
  have hclear : ∀ step ∈ (normalizePlan plan).plan.steps, step.clears = false := normalized_few.2
  rw [repaired_eq_false_iff hfew hclear]
  constructor
  · rintro ⟨-, hkinds, horder, hnotes⟩
    have hids := distinctBy_of_notes hnotes
    exact ⟨hids, (kinds_normalizePlan_iff hids).mp hkinds, (order_normalizePlan_iff hids).mp horder⟩
  · rintro ⟨hids, hkinds, horder⟩
    have hkinds := (kinds_normalizePlan_iff hids).mpr hkinds
    have horder := (order_normalizePlan_iff hids).mpr horder
    obtain ⟨hsteps, hnotes⟩ := renumberSteps_normalizePlan hids
    refine ⟨?_, hkinds, horder, hnotes⟩
    rw [normalizePlan_of_ordered hkinds hfew hclear horder, hsteps]

/-- Two steps that differ in the tool a synthesis does not need. -/
def synthesisPlan : Plan :=
  ⟨"上海周末", [⟨1, "综合建议", some "weather", none⟩, ⟨2, "综合建议", some "map", none⟩]⟩

/-- Duplicates among the synthesis steps are removed by the second normalization only, the
order of classes is announced each time, and of two steps with one id neither gets another. -/
theorem not_idempotent_plans :
    (normalizePlan (normalizePlan synthesisPlan).plan).plan ≠ (normalizePlan synthesisPlan).plan ∧
    (normalizePlan (normalizePlan reversedPlan).plan).repaired = true ∧
    (normalizePlan (normalizePlan twinPlan).plan).repaired = true := by
  decide +kernel

/-! ## Dependencies under a repair -/

/-- After the repair the one step depends on the other. -/
def DependsAfter (plan : Plan) (waiting prior : PlanStep) : Prop :=
  ∃ after ∈ (repairPlan plan).plan.steps,
    (repairPlan plan).idMap.get? waiting.id = some after.id ∧
      ∃ dep ∈ after.deps, (repairPlan plan).idMap.get? prior.id = some dep

/-- The step at this position is an exact duplicate of a retained step with a smaller id. -/
def Duplicates (steps : List PlanStep) (position : Nat) (removed equivalent : PlanStep) : Prop :=
  steps[position]? = some removed ∧ ¬ FirstOf PlanStep.kind steps position ∧
    (∃ first, Retained steps first equivalent) ∧ equivalent.kind = removed.kind ∧
    equivalent.id < removed.id

/-- A dependency on a removed duplicate becomes one on the step it duplicates, and one on a
step that is not removed is kept. -/
structure KeepsConstraints (plan : Plan) : Prop where
  redirected : ∀ i j waiting removed equivalent, Retained plan.steps i waiting →
    Duplicates plan.steps j removed equivalent → removed.id ∈ waiting.deps →
      DependsAfter plan waiting equivalent
  kept : ∀ i j waiting prior, Retained plan.steps i waiting → Retained plan.steps j prior →
    prior.id ∈ waiting.deps → DependsAfter plan waiting prior

theorem Retained.mem_survivors {steps : List PlanStep} {position : Nat} {step : PlanStep}
    (h : Retained steps position step) : step ∈ survivors steps := by
  rw [survivors_eq]
  exact List.mem_map.mpr ⟨(step, position), mem_retained_iff.mpr h, rfl⟩

/-- A repair neither adds dependencies between the retained steps nor drops them. -/
theorem dependsAfter_iff {registry : List String} {plan : Plan} (h : plan.WellFormed registry)
    {waiting prior : PlanStep} (hwaiting : waiting ∈ survivors plan.steps)
    (hprior : prior ∈ survivors plan.steps) :
    DependsAfter plan waiting prior ↔ prior.id ∈ waiting.deps := by
  have hids := survivors_ids_nodup h.ids_nodup
  have hnumbers := numbering_repairPlan hids
  constructor
  · rintro ⟨after, hafter, hown, dep, hdep, htarget⟩
    rw [steps_repairPlan, ← idMap_repairPlan] at hafter
    obtain ⟨own, hmem, rfl⟩ := List.mem_map.mp hafter
    have hmem := mem_sortById.mp hmem
    obtain ⟨newId, hnewId, -⟩ := hnumbers.mem_values hmem
    rw [id_remapStep, hnewId, Option.getD_some] at hown
    have hsame : own = waiting :=
      List.inj_on_of_nodup_map hids hmem hwaiting (hnumbers.inj hnewId hown)
    rw [deps_remapStep, hsame] at hdep
    obtain ⟨-, old, hold, hget⟩ := mem_remapDeps_iff.mp hdep
    exact hnumbers.inj hget htarget ▸ hold
  · intro hdep
    obtain ⟨newId, hnewId, -⟩ := hnumbers.mem_values hwaiting
    obtain ⟨dep, htarget, -⟩ := hnumbers.mem_values hprior
    have hlt := (h.deps waiting ((survivors_sublist _).subset hwaiting) _ hdep).2
    refine ⟨(remapStep (repairPlan plan).idMap waiting).1, ?_, ?_, dep, ?_, htarget⟩
    · rw [steps_repairPlan, ← idMap_repairPlan]
      exact List.mem_map_of_mem (mem_sortById.mpr hwaiting)
    · rw [id_remapStep, hnewId, Option.getD_some]
    · rw [deps_remapStep, hnewId, Option.getD_some]
      exact mem_remapDeps_iff.mpr ⟨hnumbers.lt htarget hnewId hlt, prior.id, hdep, htarget⟩

/-- A repair loses no ordering constraint if and only if every retained step that waits for a
duplicate waits for the step it duplicates, too. -/
theorem keepsConstraints_iff {registry : List String} {plan : Plan}
    (hvalid : (validate registry plan).success = true) :
    KeepsConstraints plan ↔ ∀ i j waiting removed equivalent, Retained plan.steps i waiting →
      Duplicates plan.steps j removed equivalent → removed.id ∈ waiting.deps →
        equivalent.id ∈ waiting.deps := by
  have hplan := wellFormed_of_validate hvalid
  constructor
  · intro h i j waiting removed equivalent hwaiting hduplicates hdep
    obtain ⟨_, hequivalent⟩ := hduplicates.2.2.1
    apply (dependsAfter_iff hplan hwaiting.mem_survivors hequivalent.mem_survivors).mp
    exact h.redirected i j waiting removed equivalent hwaiting hduplicates hdep
  · intro h
    constructor
    · intro i j waiting removed equivalent hwaiting hduplicates hdep
      obtain ⟨_, hequivalent⟩ := hduplicates.2.2.1
      apply (dependsAfter_iff hplan hwaiting.mem_survivors hequivalent.mem_survivors).mpr
      exact h i j waiting removed equivalent hwaiting hduplicates hdep
    · intro i j waiting prior hwaiting hprior hdep
      exact (dependsAfter_iff hplan hwaiting.mem_survivors hprior.mem_survivors).mpr hdep

/-- A weather step, its duplicate, and a budget step that waits for the given ones. -/
def relayPlan (deps : List Int) : Plan :=
  ⟨"上海周末", [⟨1, "查询上海天气", some "weather", none⟩, ⟨2, "查询上海天气", some "weather", none⟩,
    ⟨3, "估算上海预算", some "budget", some deps⟩]⟩

theorem keepsConstraints_relayPlan : KeepsConstraints (relayPlan [1, 2]) := by
  have hentries : ∀ waiting ∈ (relayPlan [1, 2]).steps, ∀ removed ∈ (relayPlan [1, 2]).steps,
      removed.id ∈ waiting.deps → ∀ equivalent ∈ (relayPlan [1, 2]).steps,
        equivalent.id < removed.id → equivalent.id ∈ waiting.deps := by
    decide
  have hvalid : (validate ["weather", "budget"] (relayPlan [1, 2])).success = true := by
    decide +kernel
  apply (keepsConstraints_iff hvalid).mpr
  rintro i j waiting removed equivalent hwaiting ⟨hremoved, -, ⟨first, hfirst⟩, -, hlt⟩ hdep
  exact hentries waiting (List.mem_of_getElem? hwaiting.1) removed (List.mem_of_getElem? hremoved)
    hdep equivalent (List.mem_of_getElem? hfirst.1) hlt

/-- The budget step waits for the duplicate, and for nothing after the repair. -/
theorem not_keepsConstraints_relayPlan :
    (validate ["weather", "budget"] (relayPlan [2])).success = true ∧
      ¬ KeepsConstraints (relayPlan [2]) := by
  refine ⟨by decide +kernel, ?_⟩
  intro h
  obtain ⟨after, hafter, -, dep, hdep, -⟩ := h.redirected 2 1 ⟨3, "估算上海预算", some "budget", some [2]⟩
    ⟨2, "查询上海天气", some "weather", none⟩ ⟨1, "查询上海天气", some "weather", none⟩
    ⟨by decide, by decide⟩ ⟨by decide, by decide, ⟨0, by decide, by decide⟩, by decide, by decide⟩
    (by decide)
  have hnone : ∀ step ∈ (repairPlan (relayPlan [2])).plan.steps, step.deps = [] := by
    decide +kernel
  rw [hnone after hafter] at hdep
  cases hdep

end Repair

end TripGraph
