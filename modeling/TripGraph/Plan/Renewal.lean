import Mathlib.Data.List.TakeWhile
import TripGraph.Runtime.Components

/-! # What a replan leaves

The replacement steps are put after the finished ones, wherever the answer comes from; what
a rollback brings back is what the objects of the snapshot hold by then.
-/

namespace TripGraph

open Interaction PlanValidator

/-! ## Answers that need no repair -/

theorem strip_eq_empty_iff {text : String} : strip text = "" ↔ isBlank text = true := by
  rw [strip, isBlank, List.all_eq_true, String.ofList_eq_empty_iff, List.reverse_eq_nil_iff,
    List.dropWhile_eq_nil_iff]
  simp only [List.mem_reverse]
  constructor
  · intro h character hmem
    cases hleft : text.toList.dropWhile isSpace with
    | nil => exact List.dropWhile_eq_nil_iff.mp hleft character hmem
    | cons first rest =>
        have hnot := List.head_dropWhile_not isSpace (l := text.toList) (by simp [hleft])
        simp [hleft] at hnot
        rw [h first (by simp [hleft])] at hnot
        cases hnot
  · intro h character hmem
    exact h character ((List.dropWhile_sublist _).subset hmem)

namespace Repair

theorem sortById_of_sorted {steps : List PlanStep}
    (h : (steps.map PlanStep.id).Pairwise (· ≤ ·)) : sortById steps = steps :=
  (List.pairwise_map.mp h).insertionSort_eq

/-- Each step under its position. -/
theorem entries_positions {steps : List PlanStep}
    (hids : steps.map PlanStep.id = expectedIds steps.length) :
    (positions steps).entries = (expectedIds steps.length).map fun stepId => (stepId, stepId) := by
  have hkeys : (steps.zipIdx.map fun entry => (entry.1.id, (entry.2 : Int) + 1)).map Prod.fst =
      expectedIds steps.length := by
    rw [List.map_map, ← hids]
    conv_rhs => rw [← List.zipIdx_map_fst 0 steps, List.map_map]
    rfl
  have hvalues : (steps.zipIdx.map fun entry => (entry.1.id, (entry.2 : Int) + 1)).map Prod.snd =
      expectedIds steps.length := by
    rw [List.map_map, expectedIds, List.range_eq_range', ← List.zipIdx_map_snd 0 steps,
      List.map_map]
    rfl
  rw [positions, Dict.entries_ofList (by rw [hkeys]; exact expectedIds_nodup _), ← hkeys,
    List.map_map]
  have hsame := List.map_inj_left.mp (hkeys.trans hvalues.symm)
  refine (List.map_id _).symm.trans (List.map_inj_left.mpr fun entry hentry => ?_)
  exact Prod.ext rfl (hsame entry hentry).symm

theorem remapDeps_of_prior {idMap : Dict Int Int} {stepId newId : Int} {deps : List Int}
    (h : ∀ dep ∈ deps, idMap.get? dep = some dep ∧ dep < newId) :
    remapDeps idMap stepId newId deps = (deps, []) := by
  induction deps with
  | nil => rfl
  | cons dep rest ih =>
      obtain ⟨⟨hget, hlt⟩, hrest⟩ := List.forall_mem_cons.mp h
      simp only [remapDeps, hget, if_neg (not_le.mpr hlt), ih hrest]

/-- Among steps numbered in order each id is its own position. -/
theorem get?_positions {steps : List PlanStep}
    (hids : steps.map PlanStep.id = expectedIds steps.length) {stepId : Int}
    (h : stepId ∈ expectedIds steps.length) : (positions steps).get? stepId = some stepId := by
  apply Dict.get?_of_mem_entries
  rw [entries_positions hids]
  exact List.mem_map.mpr ⟨stepId, h, rfl⟩

/-- A step that depends on prior steps is left as it is. -/
theorem remapStep_of_numbered {steps : List PlanStep}
    (hids : steps.map PlanStep.id = expectedIds steps.length) {step : PlanStep}
    (hstep : step ∈ steps) (hprior : ∀ dep ∈ step.deps, 1 ≤ dep ∧ dep < step.id) :
    remapStep (positions steps) step =
      ({ step with dependency := normalizeDeps step.deps }, []) := by
  have hstepId : step.id ∈ expectedIds steps.length := hids ▸ List.mem_map_of_mem hstep
  have hbounds := mem_expectedIds.mp hstepId
  have hown := get?_positions hids hstepId
  have hdeps : remapDeps (positions steps) step.id step.id step.deps = (step.deps, []) := by
    apply remapDeps_of_prior
    intro dep hdep
    have hdep := hprior dep hdep
    exact ⟨get?_positions hids (mem_expectedIds.mpr (by omega)), hdep.2⟩
  simp only [remapStep, hown, Option.getD_some, hdeps]

/-- Steps numbered in order that depend on prior steps need no repair. -/
theorem renumberSteps_of_numbered {steps : List PlanStep}
    (hids : steps.map PlanStep.id = expectedIds steps.length)
    (hprior : ∀ step ∈ steps, ∀ dep ∈ step.deps, 1 ≤ dep ∧ dep < step.id) :
    (renumberSteps steps).2.2 = [] := by
  have hsorted : sortById steps = steps := sortById_of_sorted (hids ▸ pairwise_expectedIds _)
  have hentries := entries_positions hids
  have hkeys : (positions steps).keys = expectedIds steps.length := by
    simp [Dict.keys, hentries, Function.comp_def]
  have hvalues : (positions steps).values = expectedIds steps.length := by
    simp [Dict.values, hentries, Function.comp_def]
  unfold renumberSteps
  split
  · rfl
  have hnotes : (steps.map (remapStep (positions steps))).flatMap Prod.snd = [] := by
    rw [List.flatMap_map, List.flatMap_eq_nil_iff]
    intro step hstep
    rw [remapStep_of_numbered hids hstep (hprior step hstep)]
  have hexpected : (expectedIds steps.length).insertionSort (· ≤ ·) =
      expectedIds steps.length := (pairwise_expectedIds _).insertionSort_eq
  simp only [hsorted, hkeys, hvalues, hnotes, hexpected, List.append_nil]
  simp [expectedIds]

theorem removeDuplicateSteps_of_distinct {seen : List (String × Option String)}
    {steps : List PlanStep}
    (hdistinct : (steps.map fun step => (strip step.task, step.toolHint)).Nodup)
    (hseen : ∀ step ∈ steps, (strip step.task, step.toolHint) ∉ seen) :
    removeDuplicateSteps seen steps = (steps, []) := by
  induction steps generalizing seen with
  | nil => rfl
  | cons step rest ih =>
      obtain ⟨hnot, hdistinct⟩ := List.nodup_cons.mp hdistinct
      simp only [removeDuplicateSteps, if_neg (hseen step List.mem_cons_self)]
      rw [ih hdistinct fun own hown hmem => ?_]
      rcases List.mem_cons.mp hmem with heq | hmem
      · exact hnot (List.mem_map.mpr ⟨own, hown, heq⟩)
      · exact hseen own (List.mem_cons_of_mem _ hown) hmem

/-- Distinct steps numbered in order that depend on prior steps need no repair. -/
theorem not_repaired_of_numbered {steps : List PlanStep}
    (hids : steps.map PlanStep.id = expectedIds steps.length)
    (hprior : ∀ step ∈ steps, ∀ dep ∈ step.deps, 1 ≤ dep ∧ dep < step.id)
    (hdistinct : (steps.map fun step => (strip step.task, step.toolHint)).Nodup) :
    (repairSteps steps).repaired = false := by
  have hdeduped := removeDuplicateSteps_of_distinct hdistinct fun _ _ => List.not_mem_nil
  simp [repairSteps, repairPlan, hdeduped, renumberSteps_of_numbered hids hprior]

/-- The key of every step is kept. -/
theorem exists_mem_removeDuplicateSteps {seen : List (String × Option String)}
    {steps : List PlanStep} {step : PlanStep} (hstep : step ∈ steps)
    (hseen : (strip step.task, step.toolHint) ∉ seen) :
    ∃ own ∈ (removeDuplicateSteps seen steps).1, strip own.task = strip step.task := by
  induction steps generalizing seen with
  | nil => cases hstep
  | cons first rest ih =>
      simp only [removeDuplicateSteps]
      split
      next hfirst =>
        rcases List.mem_cons.mp hstep with rfl | hrest
        · exact absurd hfirst hseen
        · exact ih hrest hseen
      next hfirst =>
        by_cases hsame : strip first.task = strip step.task
        · exact ⟨first, List.mem_cons_self, hsame⟩
        have hseen :
            (strip step.task, step.toolHint) ∉ (strip first.task, first.toolHint) :: seen :=
          fun hmem => (List.mem_cons.mp hmem).elim
            (fun heq => hsame (Prod.mk.inj heq).1.symm) hseen
        rcases List.mem_cons.mp hstep with rfl | hrest
        · exact absurd rfl hsame
        · obtain ⟨own, hown, htask⟩ := ih hrest hseen
          exact ⟨own, List.mem_cons_of_mem _ hown, htask⟩

theorem exists_mem_renumberSteps {steps : List PlanStep} {step : PlanStep} (hstep : step ∈ steps) :
    ∃ own ∈ (renumberSteps steps).1, own.task = step.task := by
  have hne : steps ≠ [] := List.ne_nil_of_mem hstep
  simp only [renumberSteps, if_neg hne, List.map_map]
  exact ⟨_, List.mem_map.mpr ⟨step, (List.mem_insertionSort _).mpr hstep, rfl⟩, rfl⟩

theorem exists_mem_repairPlan {plan : Plan} {step : PlanStep} (hstep : step ∈ plan.steps) :
    ∃ own ∈ (repairPlan plan).plan.steps, isBlank own.task = isBlank step.task := by
  obtain ⟨kept, hkept, htask⟩ := exists_mem_removeDuplicateSteps hstep List.not_mem_nil
  obtain ⟨own, hown, heq⟩ := exists_mem_renumberSteps hkept
  refine ⟨own, hown, Bool.eq_iff_iff.mpr ?_⟩
  rw [← strip_eq_empty_iff, ← strip_eq_empty_iff, heq, htask]

end Repair

/-! ## Applied answers -/

namespace PlanState

/-- A step moved behind the finished ones. -/
def shift (maxId : Int) (step : PlanStep) : PlanStep :=
  { id := maxId + step.id, task := step.task, toolHint := step.toolHint,
    dependency := normalizeDeps step.deps }

theorem renumberFrom_of_numbered {maxId : Int} {index : Nat} {steps : List PlanStep}
    (hids : steps.map PlanStep.id = (List.range' index steps.length).map Nat.cast) :
    renumberFrom maxId index steps = steps.map (shift maxId) := by
  induction steps generalizing index with
  | nil => rfl
  | cons step rest ih =>
      simp only [List.map_cons, List.length_cons, List.range'_succ, List.cons.injEq] at hids
      rw [renumberFrom, List.map_cons, ih hids.2, shift, hids.1]

theorem expectedIds_eq_range' (n : Nat) : expectedIds n = (List.range' 1 n).map Nat.cast := by
  simp [expectedIds, List.range'_eq_map_range, Function.comp_def, Int.add_comm]

theorem expectedIds_add (first second : Nat) : expectedIds (first + second) =
    expectedIds first ++ (expectedIds second).map fun stepId => (first : Int) + stepId := by
  simp [expectedIds, List.range_add, Function.comp_def, Int.add_assoc]

theorem maxFinishedId_of_finished {state : PlanState} {finished : Nat}
    (h : ∀ stepId, stepId ∈ state.finishedStepIds ↔ 1 ≤ stepId ∧ stepId ≤ finished) :
    state.maxFinishedId = finished := by
  rcases Nat.eq_zero_or_pos finished with rfl | hpos
  · have hnil : state.finishedStepIds = [] :=
      List.eq_nil_iff_forall_not_mem.mpr fun stepId hmem => by
        have := (h stepId).mp hmem
        omega
    simp [maxFinishedId, hnil]
  · have hmax : state.finishedStepIds.max? = some (finished : Int) :=
      List.max?_eq_some_iff.mpr ⟨(h _).mpr (by omega), fun stepId hmem => ((h stepId).mp hmem).2⟩
    simp [maxFinishedId, hmax]

theorem find?_id {steps : List PlanStep} {step : PlanStep} (hids : (steps.map PlanStep.id).Nodup)
    (hmem : step ∈ steps) : (steps.find? fun own => decide (own.id = step.id)) = some step := by
  obtain ⟨own, hown⟩ : ∃ own, steps.find? (fun own => decide (own.id = step.id)) = some own :=
    Option.isSome_iff_exists.mp (List.find?_isSome.mpr ⟨step, hmem, by simp⟩)
  have hsame : own = step := List.inj_on_of_nodup_map hids (List.mem_of_find?_eq_some hown) hmem
    (by simpa using List.find?_some hown)
  rw [hown, hsame]

/-- The step is restored as it is. -/
theorem restoreStep_self {original : PlanStep} {steps : List PlanStep}
    (hids : (steps.map PlanStep.id).Nodup) (hmem : original ∈ steps) :
    restoreStep original.id original steps = (steps, false) := by
  induction steps with
  | nil => cases hmem
  | cons step rest ih =>
      obtain ⟨hnot, hids⟩ := List.nodup_cons.mp hids
      rw [restoreStep]
      split
      next hne =>
        have hrest := (List.mem_cons.mp hmem).resolve_left fun heq => hne (heq ▸ rfl)
        rw [ih hids hrest]
      next heq =>
        have hown : original = step := by
          refine (List.mem_cons.mp hmem).resolve_right fun hrest => hnot ?_
          rw [not_not.mp heq]
          exact List.mem_map_of_mem hrest
        simp [hown, sameStep]

/-- Completed steps that are still there are restored as they are. -/
theorem restoreCompletedStepSnapshots_self {steps : List PlanStep} {snapshots : Dict Int PlanStep}
    (hids : (steps.map PlanStep.id).Nodup)
    (h : ∀ entry ∈ snapshots.entries, entry.1 = entry.2.id ∧ entry.2 ∈ steps) :
    restoreCompletedStepSnapshots steps snapshots = (steps, []) := by
  unfold restoreCompletedStepSnapshots
  generalize snapshots.entries = entries at h
  induction entries with
  | nil => rfl
  | cons entry rest ih =>
      obtain ⟨⟨hid, hmem⟩, hrest⟩ := List.forall_mem_cons.mp h
      rw [List.foldl_cons, hid, restoreStep_self hids hmem]
      exact ih hrest

end PlanState

namespace LivePlanState

variable (live : LivePlanState)

@[simp] theorem view_applyReplannedSteps (newSteps : List PlanStep) :
    (live.applyReplannedSteps newSteps).view = live.view.applyReplannedSteps newSteps := by
  simp [applyReplannedSteps, view, writeCell, PlanState.applyReplannedSteps]

@[simp] theorem view_restoreCompletedStepSnapshots (snapshots : Dict Int PlanStep) :
    (live.restoreCompletedStepSnapshots snapshots).1.view = { live.view with
      plan := { live.view.plan with
        steps :=
          (PlanState.restoreCompletedStepSnapshots live.view.plan.steps snapshots).1 } } := by
  simp [restoreCompletedStepSnapshots, view, writeCell]

@[simp] theorem plan_view_assignPlan (plan : Plan) : (live.assignPlan plan).view.plan = plan := by
  simp [assignPlan, view, writeCell]

@[simp] theorem plan_view_assignStatus (statuses : Dict Int StepStatus) :
    (live.assignStatus statuses).view.plan = live.view.plan := rfl

@[simp] theorem plan_view_remapStepStatus (idMap : Dict Int Int) :
    (live.remapStepStatus idMap).view.plan = live.view.plan := by
  unfold remapStepStatus
  split <;> rfl

@[simp] theorem view_appendTrace (entry : ExecutionTraceEntry) :
    (live.appendTrace entry).view = live.view.appendTrace entry := by
  simp [appendTrace, view, writeCell, PlanState.appendTrace]

end LivePlanState

/-! ## Answers that copy the completed steps -/

namespace ReplanningController

variable {registry : List String}

/-- The answer obeys the replan prompt: it is numbered in order, starts with exact copies of
the finished steps, and has prior dependencies, registered tools and no duplicates. -/
structure ObeysPrompt (registry : List String) (state : PlanState) (finished : Nat)
    (answer : List PlanStep) : Prop where
  finished_iff : ∀ stepId, stepId ∈ state.finishedStepIds ↔ 1 ≤ stepId ∧ stepId ≤ finished
  copies : answer.take finished = state.keptSteps
  kept : state.keptSteps.length = finished
  ids : answer.map PlanStep.id = expectedIds answer.length
  prior : ∀ step ∈ answer, ∀ dep ∈ step.deps, 1 ≤ dep ∧ dep < step.id
  distinct : (answer.map fun step => (strip step.task, step.toolHint)).Nodup
  hints : ∀ step ∈ answer, ∀ hint, step.toolHint = some hint → hint ∈ registry

/-- The plan has become the answer: its steps are those of the answer, the finished ones
with their statuses and results, and no completed step is pending in a second copy. -/
structure BecomesAnswer (before : PlanState) (answer : List PlanStep) (after : PlanState) :
    Prop where
  steps : List.Forall₂ (fun own given => own.id = given.id ∧ PlanState.sameStep own given = true)
    after.plan.steps answer
  finished : ∀ stepId ∈ before.finishedStepIds,
    after.stepStatus.get? stepId = before.stepStatus.get? stepId ∧
    after.stepResults.get? stepId = before.stepResults.get? stepId
  noCopy : ∀ step ∈ after.plan.steps, after.stepStatus.get? step.id = some .pending →
    ∀ kept ∈ before.keptSteps, (strip step.task, step.toolHint) ≠ (strip kept.task, kept.toolHint)

namespace ObeysPrompt

variable {state : PlanState} {finished : Nat} {answer : List PlanStep}

theorem le_length (h : ObeysPrompt registry state finished answer) : finished ≤ answer.length := by
  have := congrArg List.length h.copies
  rw [List.length_take, h.kept] at this
  omega

theorem ids_kept (h : ObeysPrompt registry state finished answer) :
    state.keptSteps.map PlanStep.id = expectedIds finished := by
  rw [← h.copies, List.map_take, h.ids, ← Nat.add_sub_cancel' h.le_length,
    PlanState.expectedIds_add, List.take_append_of_le_length (by simp [expectedIds]),
    List.take_of_length_le (by simp [expectedIds])]

theorem mem_of_kept (h : ObeysPrompt registry state finished answer) {step : PlanStep}
    (hstep : step ∈ state.keptSteps) : step ∈ answer :=
  List.take_subset finished answer (h.copies ▸ hstep)

/-- The whole answer is put behind the finished steps. -/
theorem steps_applied (h : ObeysPrompt registry state finished answer) :
    (state.applyReplannedSteps answer).plan.steps =
      state.keptSteps ++ answer.map (PlanState.shift finished) := by
  simp only [PlanState.applyReplannedSteps, PlanState.maxFinishedId_of_finished h.finished_iff]
  rw [PlanState.renumberFrom_of_numbered (by rw [h.ids, PlanState.expectedIds_eq_range'])]

theorem ids_applied (h : ObeysPrompt registry state finished answer) :
    (state.applyReplannedSteps answer).plan.ids = expectedIds (finished + answer.length) := by
  rw [Plan.ids, h.steps_applied, List.map_append, h.ids_kept, PlanState.expectedIds_add, ← h.ids,
    List.map_map, List.map_map]
  rfl

theorem wellFormed_applied (h : ObeysPrompt registry state finished answer)
    (hgoal : isBlank state.plan.goal = false) (hne : answer ≠ [])
    (htask : ∀ step ∈ answer, isBlank step.task = false) :
    (state.applyReplannedSteps answer).plan.WellFormed registry := by
  have hlength :
      (state.applyReplannedSteps answer).plan.steps.length = finished + answer.length := by
    rw [h.steps_applied, List.length_append, List.length_map, h.kept]
  have hcases : ∀ step ∈ (state.applyReplannedSteps answer).plan.steps, ∃ own ∈ answer,
      step.task = own.task ∧ step.toolHint = own.toolHint ∧ step.deps = own.deps ∧
      own.id ≤ step.id := by
    intro step hstep
    rw [h.steps_applied, List.mem_append, List.mem_map] at hstep
    rcases hstep with hkept | ⟨own, hown, rfl⟩
    · exact ⟨step, h.mem_of_kept hkept, rfl, rfl, rfl, le_rfl⟩
    · exact ⟨own, hown, rfl, rfl, getD_normalizeDeps _, by simp [PlanState.shift]⟩
  have hids := h.ids_applied
  refine ⟨hgoal, ?_, fun step hstep => ?_, by rw [hids, hlength], fun step hstep dep hdep => ?_,
    fun step hstep hint hhint => ?_⟩
  · rw [h.steps_applied]
    simp [hne]
  · obtain ⟨own, hown, heq, -⟩ := hcases step hstep
    rw [heq]
    exact htask own hown
  · obtain ⟨own, hown, -, -, hdeps, hle⟩ := hcases step hstep
    have hprior := h.prior own hown dep (hdeps ▸ hdep)
    have hmem : step.id ∈ (state.applyReplannedSteps answer).plan.ids := List.mem_map_of_mem hstep
    have hstepId := mem_expectedIds.mp (hids ▸ hmem)
    refine ⟨?_, by omega⟩
    rw [hids, mem_expectedIds]
    omega
  · obtain ⟨own, hown, -, heq, -⟩ := hcases step hstep
    exact h.hints own hown hint (heq ▸ hhint)

end ObeysPrompt

theorem repairedSteps_of_obeys {state : PlanState} {finished : Nat} {answer : List PlanStep}
    (h : ObeysPrompt registry state finished answer) : repairedSteps answer = answer := by
  simp [repairedSteps, Repair.not_repaired_of_numbered h.ids h.prior h.distinct]

/-- A plan is accepted as it is or after a repair. -/
theorem validate_of_applied {live : LivePlanState} {statuses : Dict Int StepStatus}
    {notes : ReplanApplyMeta}
    (h : (validateOrRepairPlan registry live statuses notes).applied = true) :
    (validate registry live.view.plan).success = true ∨
      (validate registry (Repair.repairPlan live.view.plan).plan).success = true := by
  unfold validateOrRepairPlan at h
  dsimp only at h
  split at h
  next hvalid => exact Or.inl hvalid
  split at h
  · cases h
  generalize hremapped : (if (Repair.repairPlan live.view.plan).idMap.entries ≠ [] then _ else _) =
    remapped at h
  have hplan : remapped.view.plan = (Repair.repairPlan live.view.plan).plan := by
    rw [← hremapped]
    split <;> simp
  split at h
  next hvalid => exact Or.inr (hplan ▸ hvalid)
  next => cases h

/-- An answer that obeys the prompt is applied without repair. -/
theorem validate_applied {live : LivePlanState} {finished : Nat} {answer : List PlanStep}
    {statuses : Dict Int StepStatus} {notes : ReplanApplyMeta}
    (h : ObeysPrompt registry live.view finished answer)
    (happlied : (validateOrRepairPlan registry (live.applyReplannedSteps answer) statuses
      notes).applied = true) :
    (validate registry (live.applyReplannedSteps answer).view.plan).success = true := by
  rcases validate_of_applied happlied with hvalid | hsecond
  · exact hvalid
  have hwell := wellFormed_of_validate hsecond
  rw [LivePlanState.view_applyReplannedSteps] at hwell ⊢
  have hblank : ∀ step ∈ (live.view.applyReplannedSteps answer).plan.steps,
      isBlank step.task = false := by
    intro step hstep
    obtain ⟨own, hown, heq⟩ := Repair.exists_mem_repairPlan hstep
    rw [← heq]
    exact hwell.task own hown
  refine validate_success_iff.mpr (h.wellFormed_applied hwell.goal ?_ fun step hstep => ?_)
  · rintro rfl
    have hkept : live.view.keptSteps = [] := by simpa using h.copies.symm
    refine hwell.nonempty ?_
    have hsteps := h.steps_applied
    rw [hkept] at hsteps
    simp [Repair.repairPlan, hsteps, Repair.removeDuplicateSteps, Repair.renumberSteps]
  · refine hblank (PlanState.shift finished step) ?_
    rw [h.steps_applied]
    exact List.mem_append_right _ (List.mem_map_of_mem hstep)

theorem keptSteps_completedStepSnapshot {state : PlanState}
    (hids : (state.keptSteps.map PlanStep.id).Nodup) {entry : Int × PlanStep}
    (hentry : entry ∈ (completedStepSnapshot state).entries) :
    entry.1 = entry.2.id ∧ entry.2 ∈ state.keptSteps := by
  rw [completedStepSnapshot,
    Dict.entries_ofList (by simpa [Function.comp_def] using hids)] at hentry
  obtain ⟨step, hstep, rfl⟩ := List.mem_map.mp hentry
  exact ⟨rfl, hstep⟩

/-- The plan after such an answer is applied. -/
theorem plan_tryApplyReplanSteps {live : LivePlanState} {finished : Nat} {answer : List PlanStep}
    {notes : ReplanApplyMeta} (h : ObeysPrompt registry live.view finished answer)
    (happlied : (tryApplyReplanSteps registry live answer (completedStepSnapshot live.view)
      notes).applied = true) :
    (tryApplyReplanSteps registry live answer (completedStepSnapshot live.view) notes).live.view =
      live.view.applyReplannedSteps answer := by
  simp only [tryApplyReplanSteps, repairedSteps_of_obeys h] at happlied ⊢
  have hvalidated : ∀ statuses notes, (validateOrRepairPlan registry
      (live.applyReplannedSteps answer) statuses notes).applied = true →
      validateOrRepairPlan registry (live.applyReplannedSteps answer) statuses notes =
        ⟨live.applyReplannedSteps answer, notes, true⟩ := fun statuses notes hvalid => by
    simp only [validateOrRepairPlan, validate_applied h hvalid, if_true]
  split at happlied
  next hvalid =>
    rw [if_pos hvalid, hvalidated _ _ hvalid]
    have hids : ((live.view.applyReplannedSteps answer).plan.steps.map PlanStep.id).Nodup := by
      have := h.ids_applied
      rw [Plan.ids] at this
      rw [this]
      exact expectedIds_nodup _
    have hkept : ∀ entry ∈ (completedStepSnapshot live.view).entries, entry.1 = entry.2.id ∧
        entry.2 ∈ (live.view.applyReplannedSteps answer).plan.steps := by
      intro entry hentry
      obtain ⟨hid, hmem⟩ := keptSteps_completedStepSnapshot
        (h.ids_kept ▸ expectedIds_nodup _) hentry
      exact ⟨hid, h.steps_applied ▸ List.mem_append_left _ hmem⟩
    have hrestored := PlanState.restoreCompletedStepSnapshots_self hids hkept
    simp only [restoreAndCheck]
    split <;> simp [hrestored]
  next hinvalid => exact absurd happlied hinvalid

/-- An answer that obeys the prompt becomes the plan if and only if no step was completed. -/
theorem becomesAnswer_iff {live : LivePlanState} {finished : Nat} {answer : List PlanStep}
    {notes : ReplanApplyMeta} (h : ObeysPrompt registry live.view finished answer)
    (happlied : (tryApplyReplanSteps registry live answer (completedStepSnapshot live.view)
      notes).applied = true) :
    BecomesAnswer live.view answer (tryApplyReplanSteps registry live answer
      (completedStepSnapshot live.view) notes).live.view ↔ finished = 0 := by
  rw [plan_tryApplyReplanSteps h happlied]
  constructor
  · intro hanswer
    have hlength := hanswer.steps.length_eq
    rw [h.steps_applied, List.length_append, List.length_map, h.kept] at hlength
    omega
  · rintro rfl
    have hkept : live.view.keptSteps = [] := List.length_eq_zero_iff.mp h.kept
    refine ⟨?_, fun stepId hmem => ?_, fun _ _ _ kept hmem => ?_⟩
    · rw [h.steps_applied, hkept, List.nil_append, List.forall₂_map_left_iff, List.forall₂_same]
      intro step _
      simp [PlanState.shift, PlanState.sameStep, PlanStep.deps]
    · have := (h.finished_iff stepId).mp hmem
      omega
    · rw [hkept] at hmem
      cases hmem

/-- A plan of two independent steps. -/
def tripPlan : Plan :=
  ⟨"上海周末", [⟨1, "查询上海天气", some "weather", none⟩, ⟨2, "估算上海预算", some "budget", none⟩]⟩

/-- The plan with its first step completed. -/
def halfwayTrip : PlanState :=
  (PlanState.fromPlan tripPlan "default").recordStepResult
    { stepId := 1, task := "查询上海天气", status := .completed }

/-- The answer that keeps to the plan of the trip. -/
def tripAttempt (state : PlanState) : Attempt :=
  tryApplyReplanSteps ["weather", "budget"] (.ofValue state) tripPlan.steps
    (completedStepSnapshot state) {}

theorem obeysPrompt_trip {state : PlanState} {finished : Nat}
    (hfinished : state.finishedStepIds = expectedIds finished)
    (hkept : tripPlan.steps.take finished = state.keptSteps)
    (hlength : state.keptSteps.length = finished) :
    ObeysPrompt ["weather", "budget"] state finished tripPlan.steps where
  finished_iff stepId := by rw [hfinished, mem_expectedIds]
  copies := hkept
  kept := hlength
  ids := by decide
  prior := by decide
  distinct := by decide
  hints := by simp [tripPlan]

theorem becomesAnswer_freshTrip :
    BecomesAnswer (PlanState.fromPlan tripPlan "default") tripPlan.steps
      (tripAttempt (PlanState.fromPlan tripPlan "default")).live.view := by
  have hobeys : ObeysPrompt ["weather", "budget"]
      (LivePlanState.ofValue (PlanState.fromPlan tripPlan "default")).view 0 tripPlan.steps :=
    obeysPrompt_trip (by decide) (by decide) (by decide)
  exact (becomesAnswer_iff hobeys (by decide)).mpr rfl

/-- Once the first step is completed, the copy the prompt asks for is scheduled again. -/
theorem halfwayTrip_repeats_completed_step :
    ObeysPrompt ["weather", "budget"] halfwayTrip 1 tripPlan.steps ∧
      (tripAttempt halfwayTrip).applied = true ∧
      ¬ BecomesAnswer halfwayTrip tripPlan.steps (tripAttempt halfwayTrip).live.view := by
  refine ⟨obeysPrompt_trip (by decide) (by decide) (by decide), by decide, fun hanswer => ?_⟩
  have hlength : (tripAttempt halfwayTrip).live.view.plan.steps.length = 3 := by decide
  have := hanswer.steps.length_eq
  rw [hlength] at this
  exact absurd this (by decide)

end ReplanningController

/-! ## Failed replans -/

/-- The cells at these references are the same in both heaps. -/
structure PlanHeap.Agree (keep : Ref → Prop) (heap after : PlanHeap) : Prop where
  next : heap.next ≤ after.next
  plans : ∀ ref, keep ref → after.plans ref = heap.plans ref
  statuses : ∀ ref, keep ref → after.statuses ref = heap.statuses ref
  results : ∀ ref, keep ref → after.results ref = heap.results ref
  completed : ∀ ref, keep ref → after.completed ref = heap.completed ref
  traces : ∀ ref, keep ref → after.traces ref = heap.traces ref

namespace PlanHeap.Agree

variable {keep : Ref → Prop} {live : LivePlanState}

theorem rfl {heap : PlanHeap} : Agree keep heap heap :=
  ⟨le_rfl, fun _ _ => .refl _, fun _ _ => .refl _, fun _ _ => .refl _, fun _ _ => .refl _,
    fun _ _ => .refl _⟩

theorem trans {first second third : PlanHeap} (h : Agree keep first second)
    (h' : Agree keep second third) : Agree keep first third where
  next := h.next.trans h'.next
  plans ref hkeep := (h'.plans ref hkeep).trans (h.plans ref hkeep)
  statuses ref hkeep := (h'.statuses ref hkeep).trans (h.statuses ref hkeep)
  results ref hkeep := (h'.results ref hkeep).trans (h.results ref hkeep)
  completed ref hkeep := (h'.completed ref hkeep).trans (h.completed ref hkeep)
  traces ref hkeep := (h'.traces ref hkeep).trans (h.traces ref hkeep)

end PlanHeap.Agree

theorem writeCell_of_not {keep : Ref → Prop} {α : Type} {cells : Ref → α} {target : Ref} {value : α}
    (htarget : ¬ keep target) (ref : Ref) (hkeep : keep ref) :
    writeCell cells target value ref = cells ref :=
  if_neg fun heq : ref = target => htarget (heq ▸ hkeep)

namespace LivePlanState

open PlanHeap

variable {live : LivePlanState} {keep : Ref → Prop}

theorem agree_applyReplannedSteps (newSteps : List PlanStep) (hplan : ¬ keep live.refs.plan)
    (hstatus : ¬ keep live.refs.stepStatus) (hresults : ¬ keep live.refs.stepResults) :
    Agree keep live.heap (live.applyReplannedSteps newSteps).heap :=
  ⟨le_rfl, writeCell_of_not hplan, writeCell_of_not hstatus, writeCell_of_not hresults,
    fun _ _ => rfl, fun _ _ => rfl⟩

theorem agree_assignPlan (plan : Plan) (hnext : ¬ keep live.heap.next) :
    Agree keep live.heap (live.assignPlan plan).heap :=
  ⟨Nat.le_succ _, writeCell_of_not hnext, fun _ _ => rfl, fun _ _ => rfl, fun _ _ => rfl,
    fun _ _ => rfl⟩

theorem agree_assignStatus (statuses : Dict Int StepStatus) (hnext : ¬ keep live.heap.next) :
    Agree keep live.heap (live.assignStatus statuses).heap :=
  ⟨Nat.le_succ _, fun _ _ => rfl, writeCell_of_not hnext, fun _ _ => rfl, fun _ _ => rfl,
    fun _ _ => rfl⟩

theorem agree_remapStepStatus (idMap : Dict Int Int) (hnext : ¬ keep live.heap.next) :
    Agree keep live.heap (live.remapStepStatus idMap).heap := by
  unfold remapStepStatus
  split
  · exact .rfl
  · exact ⟨Nat.le_succ _, fun _ _ => rfl, writeCell_of_not hnext, writeCell_of_not hnext,
      writeCell_of_not hnext, fun _ _ => rfl⟩

theorem agree_restoreCompletedStepSnapshots (snapshots : Dict Int PlanStep)
    (hplan : ¬ keep live.refs.plan) :
    Agree keep live.heap (live.restoreCompletedStepSnapshots snapshots).1.heap :=
  ⟨le_rfl, writeCell_of_not hplan, fun _ _ => rfl, fun _ _ => rfl, fun _ _ => rfl, fun _ _ => rfl⟩

end LivePlanState

namespace ReplanningController

open PlanHeap

variable {registry : List String} {keep : Ref → Prop}

/-- A repair works on objects of its own. -/
theorem agree_validateOrRepairPlan (registry : List String) (live : LivePlanState)
    (statuses : Dict Int StepStatus) (notes : ReplanApplyMeta)
    (hkeep : ∀ ref, keep ref → ref < live.heap.next) :
    Agree keep live.heap (validateOrRepairPlan registry live statuses notes).live.heap ∧
      ((validateOrRepairPlan registry live statuses notes).live = live ∧
          ((validateOrRepairPlan registry live statuses notes).applied = true →
            (validate registry live.view.plan).success = true) ∨
        live.heap.next ≤ (validateOrRepairPlan registry live statuses notes).live.refs.plan) := by
  have hfresh : ∀ ref, live.heap.next ≤ ref → ¬ keep ref :=
    fun ref hle hmem => absurd (hkeep ref hmem) (not_lt.mpr hle)
  unfold validateOrRepairPlan
  dsimp only
  split
  next hvalid => exact ⟨.rfl, Or.inl ⟨rfl, fun _ => hvalid⟩⟩
  split
  · exact ⟨.rfl, Or.inl ⟨rfl, fun happlied => Bool.noConfusion happlied⟩⟩
  generalize hremapped : (if (Repair.repairPlan live.view.plan).idMap.entries ≠ [] then _ else _) =
    remapped
  have hagree : Agree keep live.heap remapped.heap ∧ live.heap.next ≤ remapped.refs.plan := by
    rw [← hremapped]
    have hreplaced : Agree keep live.heap
        (live.assignPlan (Repair.repairPlan live.view.plan).plan).heap :=
      LivePlanState.agree_assignPlan _ (hfresh _ le_rfl)
    have hnext : ¬ keep (live.assignPlan (Repair.repairPlan live.view.plan).plan).heap.next :=
      hfresh _ hreplaced.next
    split
    · refine ⟨hreplaced.trans (LivePlanState.agree_remapStepStatus _ hnext), ?_⟩
      unfold LivePlanState.remapStepStatus
      split <;> exact le_rfl
    · exact ⟨hreplaced.trans (LivePlanState.agree_assignStatus _ hnext), le_rfl⟩
  split <;> exact ⟨hagree.1, Or.inr hagree.2⟩

theorem agree_restoreAndCheck {valid : Attempt} {completedBefore : Dict Int PlanStep}
    (hplan : ¬ keep valid.live.refs.plan) :
    Agree keep valid.live.heap (restoreAndCheck valid completedBefore).live.heap := by
  have hrestored : Agree keep valid.live.heap
      (valid.live.restoreCompletedStepSnapshots completedBefore).1.heap :=
    LivePlanState.agree_restoreCompletedStepSnapshots completedBefore hplan
  unfold restoreAndCheck
  dsimp only
  split <;> exact hrestored

/-- An attempt leaves the objects alone that are not those of the plan state. -/
theorem agree_tryApplyReplanSteps {live : LivePlanState} {newSteps : List PlanStep}
    {completedBefore : Dict Int PlanStep} {notes : ReplanApplyMeta}
    (hkeep : ∀ ref, keep ref → ref < live.heap.next) (hplan : ¬ keep live.refs.plan)
    (hstatus : ¬ keep live.refs.stepStatus) (hresults : ¬ keep live.refs.stepResults) :
    Agree keep live.heap
      (tryApplyReplanSteps registry live newSteps completedBefore notes).live.heap := by
  have happlied : Agree keep live.heap (live.applyReplannedSteps (repairedSteps newSteps)).heap :=
    LivePlanState.agree_applyReplannedSteps _ hplan hstatus hresults
  obtain ⟨hvalid, hrefs⟩ := agree_validateOrRepairPlan registry
    (live.applyReplannedSteps (repairedSteps newSteps)) live.view.stepStatus
    (repairedNotes newSteps notes) hkeep
  unfold tryApplyReplanSteps
  dsimp only
  split
  · refine (happlied.trans hvalid).trans (agree_restoreAndCheck fun hmem => ?_)
    rcases hrefs with ⟨hsame, -⟩ | hfresh
    · rw [hsame] at hmem
      exact hplan hmem
    · exact absurd (hkeep _ hmem) (not_lt.mpr hfresh)
  · exact happlied.trans hvalid

/-- What is restored and found unchanged passes the check. -/
theorem applied_restoreAndCheck {valid : Attempt} {state : PlanState}
    (hids : (valid.live.view.plan.steps.map PlanStep.id).Nodup)
    (hkept : ∀ step ∈ state.keptSteps, step ∈ valid.live.view.plan.steps)
    (hkeptIds : (state.keptSteps.map PlanStep.id).Nodup) :
    (restoreAndCheck valid (completedStepSnapshot state)).applied = true := by
  have hrestored := PlanState.restoreCompletedStepSnapshots_self hids fun entry hentry =>
    (keptSteps_completedStepSnapshot hkeptIds hentry).imp_right (hkept entry.2)
  have hpreserved : assertCompletedStepsPreserved valid.live.view.plan.steps
      (completedStepSnapshot state) = none := by
    refine List.findSome?_eq_none_iff.mpr fun entry hentry => ?_
    obtain ⟨hid, hmem⟩ := keptSteps_completedStepSnapshot hkeptIds hentry
    simp [checkPreserved, hid, PlanState.find?_id hids (hkept entry.2 hmem), PlanState.sameStep]
  simp [restoreAndCheck, hrestored, hpreserved]

/-- A failed attempt leaves the objects of the plan state as the replacement steps made
them. -/
theorem heap_of_failed {live : LivePlanState} {newSteps : List PlanStep} {state : PlanState}
    {notes : ReplanApplyMeta} (hkept : state.keptSteps = live.view.keptSteps)
    (hfailed : (tryApplyReplanSteps registry live newSteps (completedStepSnapshot state)
      notes).applied = false) :
    Agree (· < live.heap.next) (live.applyReplannedSteps (repairedSteps newSteps)).heap
      (tryApplyReplanSteps registry live newSteps (completedStepSnapshot state)
        notes).live.heap := by
  obtain ⟨hvalid, hrefs⟩ := agree_validateOrRepairPlan registry
    (live.applyReplannedSteps (repairedSteps newSteps)) live.view.stepStatus
    (repairedNotes newSteps notes) fun ref (h : ref < live.heap.next) => h
  unfold tryApplyReplanSteps at hfailed ⊢
  dsimp only at hfailed ⊢
  split at hfailed
  next hok =>
    rw [if_pos hok]
    refine hvalid.trans (agree_restoreAndCheck fun hmem => ?_)
    rcases hrefs with ⟨hsame, hsuccess⟩ | hfresh
    · have hids := (wellFormed_of_validate (hsuccess hok)).ids_nodup
      have hview := congrArg LivePlanState.view hsame
      rw [LivePlanState.view_applyReplannedSteps] at hview hids
      have hsteps : ∀ step ∈ state.keptSteps,
          step ∈ (live.view.applyReplannedSteps (repairedSteps newSteps)).plan.steps :=
        fun step hstep => List.mem_append_left _ (hkept ▸ hstep)
      have hkeptIds : (state.keptSteps.map PlanStep.id).Nodup := by
        rw [Plan.ids, PlanState.applyReplannedSteps, List.map_append] at hids
        exact hkept ▸ hids.of_append_left
      rw [applied_restoreAndCheck (by rw [hview]; exact hids) (by rw [hview]; exact hsteps)
        hkeptIds] at hfailed
      cases hfailed
    · exact absurd hmem (not_lt.mpr hfresh)
  next hok =>
    rw [if_neg hok]
    exact hvalid

/-- The steps, statuses, results and completed steps are those before. -/
structure Untouched (before after : PlanState) : Prop where
  steps : after.plan.steps = before.plan.steps
  statuses : ∀ stepId, after.stepStatus.get? stepId = before.stepStatus.get? stepId
  results : ∀ stepId, after.stepResults.get? stepId = before.stepResults.get? stepId
  completed : after.completedSteps = before.completedSteps

/-- The replacement steps, numbered on from the finished ones, are the rest of the plan as
it is, still pending. -/
structure SameReplacement (state : PlanState) (newSteps : List PlanStep) : Prop where
  steps : state.plan.steps =
    state.keptSteps ++ PlanState.renumberFrom state.maxFinishedId 1 newSteps
  pending : ∀ stepId, state.Renumbered newSteps stepId →
    state.stepStatus.get? stepId = some .pending ∧ state.stepResults.get? stepId = none

theorem untouched_applyReplannedSteps_iff {state : PlanState} {newSteps : List PlanStep} :
    Untouched state (state.applyReplannedSteps newSteps) ↔ SameReplacement state newSteps := by
  constructor
  · intro h
    refine ⟨h.steps.symm, fun stepId hnew => ?_⟩
    have hstatus := h.statuses stepId
    rw [PlanState.get?_status_applyReplannedSteps, if_pos hnew] at hstatus
    refine ⟨hstatus.symm, ?_⟩
    have hremoved : stepId ∈ state.removedIds := by
      refine (PlanState.mem_removedIds_iff state).mpr ⟨?_, fun hfinished => ?_⟩
      · rw [Plan.ids, ← h.steps, PlanState.applyReplannedSteps, List.map_append]
        exact List.mem_append_right _ ((PlanState.mem_ids_remapped state newSteps).mpr hnew)
      · obtain ⟨status, hget, hdone⟩ :=
        (PlanState.mem_finishedStepIds_iff state stepId).mp hfinished
        rw [← hstatus] at hget
        cases hget
        cases hdone
    rw [← h.results stepId, PlanState.get?_result_applyReplannedSteps, if_pos hremoved]
  · intro h
    have hremoved : ∀ stepId ∈ state.removedIds, state.Renumbered newSteps stepId := by
      intro stepId hmem
      obtain ⟨hid, hfinished⟩ := (PlanState.mem_removedIds_iff state).mp hmem
      rw [Plan.ids, h.steps, List.map_append, List.mem_append] at hid
      refine (PlanState.mem_ids_remapped state newSteps).mp (hid.resolve_left fun hkept => ?_)
      obtain ⟨step, hstep, rfl⟩ := List.mem_map.mp hkept
      exact hfinished (of_decide_eq_true (List.mem_filter.mp hstep).2)
    refine ⟨h.steps.symm, fun stepId => ?_, fun stepId => ?_, rfl⟩
    · rw [PlanState.get?_status_applyReplannedSteps]
      split
      next hnew => exact (h.pending stepId hnew).1.symm
      next hnew => rw [if_neg fun hmem => hnew (hremoved stepId hmem)]
    · rw [PlanState.get?_result_applyReplannedSteps]
      split
      next hmem => exact (h.pending stepId (hremoved stepId hmem)).2.symm
      next => rfl

theorem untouched_congr {before after other : PlanState} (hplan : after.plan = other.plan)
    (hstatus : after.stepStatus = other.stepStatus)
    (hresults : after.stepResults = other.stepResults)
    (hcompleted : after.completedSteps = other.completedSteps) :
    Untouched before after ↔ Untouched before other :=
  ⟨fun h => ⟨hplan ▸ h.steps, hstatus ▸ h.statuses, hresults ▸ h.results, hcompleted ▸ h.completed⟩,
    fun h =>
      ⟨hplan ▸ h.steps, hstatus ▸ h.statuses, hresults ▸ h.results, hcompleted ▸ h.completed⟩⟩

/-- The state before the first attempt, with one trace entry more. -/
def tracedState (state : PlanState) (entry : ExecutionTraceEntry) : LivePlanState :=
  (LivePlanState.ofValue state).appendTrace entry

theorem view_of_refs {live : LivePlanState} {ref : Ref}
    (h : live.refs = ⟨ref, ref, ref, ref, ref⟩) :
    live.heap.plans ref = live.view.plan ∧ live.heap.statuses ref = live.view.stepStatus ∧
      live.heap.results ref = live.view.stepResults ∧
      live.heap.completed ref = live.view.completedSteps := by
  simp [LivePlanState.view, h]

/-- The second attempt runs on the objects of the snapshot, so the last rollback brings back
what it made of them. -/
theorem view_of_failed {state : PlanState} {entry : ExecutionTraceEntry}
    {newSteps fallbackSteps : List PlanStep} {anchorStepId : Int}
    {first last : Attempt}
    (hfirst : first = tryApplyReplanSteps registry (tracedState state entry).snapshotForReplan.2
      newSteps (completedStepSnapshot state) {})
    (hlast : last = fallbackAttempt registry
      (first.live.restoreSnapshot (tracedState state entry).snapshotForReplan.1) fallbackSteps
      (completedStepSnapshot state) anchorStepId) (hfailed : last.applied = false) :
    let after := (conclude last (tracedState state entry).snapshotForReplan.1
      anchorStepId).live.view
    let applied := state.applyReplannedSteps (repairedSteps fallbackSteps)
    after.plan = applied.plan ∧ after.stepStatus = applied.stepStatus ∧
      after.stepResults = applied.stepResults ∧ after.completedSteps = state.completedSteps := by
  -- the first attempt leaves the snapshot at reference 1 alone
  have hkept :
      Agree (· = 1) (tracedState state entry).snapshotForReplan.2.heap first.live.heap := by
    rw [hfirst]
    refine agree_tryApplyReplanSteps (fun ref heq => ?_) ?_ ?_ ?_
    · rw [heq]
      exact Nat.lt_succ_self 1
    all_goals exact Nat.zero_ne_one
  generalize hrestored : first.live.restoreSnapshot (tracedState state entry).snapshotForReplan.1 =
    restored at hlast
  have hrefs : restored.refs = ⟨1, 1, 1, 1, 1⟩ := by rw [← hrestored]; rfl
  have hheap : restored.heap = first.live.heap := by rw [← hrestored]; rfl
  have hview : restored.view = { state with
      sessionId := restored.sessionId
      currentStep := restored.currentStep
      globalContext := restored.globalContext
      executionTrace := restored.heap.traces 1 } := by
    simp only [LivePlanState.view, hrefs, hheap, hkept.plans 1 rfl, hkept.statuses 1 rfl,
      hkept.results 1 rfl, hkept.completed 1 rfl]
    rfl
  have htry : last = tryApplyReplanSteps registry restored fallbackSteps
      (completedStepSnapshot state) { fallbackUsed := true } := by
    rw [hlast, fallbackAttempt] at hfailed ⊢
    dsimp only at hfailed ⊢
    split at hfailed
    next hok => rw [hok] at hfailed; cases hfailed
    next hok => rw [if_neg hok]
  -- the fallback works on the snapshot itself, and its failure is not rolled back
  have hagree : Agree (· < restored.heap.next)
      (restored.applyReplannedSteps (repairedSteps fallbackSteps)).heap last.live.heap := by
    rw [htry] at hfailed ⊢
    exact heap_of_failed (by rw [hview]; rfl) hfailed
  have hone : 1 < restored.heap.next := hheap ▸ hkept.next
  have hconcluded : (conclude last (tracedState state entry).snapshotForReplan.1
      anchorStepId).live.view.plan = last.live.heap.plans 1 ∧
    (conclude last (tracedState state entry).snapshotForReplan.1
      anchorStepId).live.view.stepStatus = last.live.heap.statuses 1 ∧
    (conclude last (tracedState state entry).snapshotForReplan.1
      anchorStepId).live.view.stepResults = last.live.heap.results 1 ∧
    (conclude last (tracedState state entry).snapshotForReplan.1
      anchorStepId).live.view.completedSteps = last.live.heap.completed 1 := by
    simp only [conclude, hfailed, Bool.false_eq_true, if_false, LivePlanState.view_appendTrace]
    exact ⟨rfl, rfl, rfl, rfl⟩
  have happlied : (restored.applyReplannedSteps (repairedSteps fallbackSteps)).view =
      restored.view.applyReplannedSteps (repairedSteps fallbackSteps) :=
    LivePlanState.view_applyReplannedSteps _ _
  dsimp only
  rw [hconcluded.1, hconcluded.2.1, hconcluded.2.2.1, hconcluded.2.2.2, hagree.plans 1 hone,
    hagree.statuses 1 hone, hagree.results 1 hone, hagree.completed 1 hone]
  obtain ⟨hplan, hstatus, hresults, hcompleted⟩ := view_of_refs
    (show (restored.applyReplannedSteps (repairedSteps fallbackSteps)).refs = _ from hrefs)
  rw [hplan, hstatus, hresults, hcompleted, happlied, hview]
  exact ⟨rfl, rfl, rfl, rfl⟩

/-- The answers of the rule-based planner in a trace. -/
def fallbackAnswer (event : Event) : Option (List PlanStep) :=
  match event with
  | ⟨.rulebasedReplanFromCritique _ _ _, .ok steps⟩ => some steps
  | _ => none

def fallbackAnswers (trace : List Event) : List (List PlanStep) := trace.filterMap fallbackAnswer

/-- A failed replan leaves the plan as it was if and only if the fallback's steps, numbered
on from the finished ones, are the rest of the plan as it was. -/
theorem untouched_iff {config : ReplanningConfig} {critique : ExecutionCritique} {state : PlanState}
    {trace : List Event} {outcome : ReplanningOutcome} {fallback : List PlanStep}
    (h : Runs (handle registry config critique state) trace (.ok outcome))
    (hskipped : outcome.result.skippedReason = some "replan_validation_failed")
    (hfallback : fallback ∈ fallbackAnswers trace) :
    Untouched state outcome.updatedState ↔ SameReplacement state (repairedSteps fallback) := by
  -- the exits before the fallback planner is asked
  have hnoReplan : ∀ reason trace, Runs (noReplan state reason) trace (.ok outcome) →
      fallback ∉ fallbackAnswers trace := by
    intro reason trace hrun hmem
    obtain ⟨_, rest, rfl, hpure⟩ := runs_asking_iff.mp hrun
    obtain ⟨rfl, -⟩ := runs_pure_iff.mp hpure
    cases hmem
  unfold handle at h
  split at h
  · exact absurd hfallback (hnoReplan _ _ h)
  split at h
  · exact absurd hfallback (hnoReplan _ _ h)
  obtain ⟨attempts, rest, rfl, h₁⟩ := runs_asking_iff.mp h
  replace hfallback : fallback ∈ fallbackAnswers rest := hfallback
  split at h₁
  · exact absurd hfallback (hnoReplan _ _ h₁)
  obtain ⟨_, rest, rfl, h₂⟩ := runs_asking_iff.mp h₁
  replace hfallback : fallback ∈ fallbackAnswers rest := hfallback
  obtain ⟨anchor, _, _, hanchor, h₃, rfl⟩ := runs_bind_ok_iff.mp h₂
  obtain ⟨rfl, -⟩ := runs_ofExcept_iff.mp hanchor
  obtain ⟨answer, rest, rfl, h₄⟩ := runs_asking_iff.mp h₃
  replace hfallback : fallback ∈ fallbackAnswers rest := hfallback
  obtain ⟨newSteps, _, _, hsteps, h₅, rfl⟩ := runs_bind_ok_iff.mp h₄
  obtain ⟨rfl, -⟩ := runs_ofExcept_iff.mp hsteps
  dsimp only at h₅
  split at h₅
  · obtain ⟨again, _, rfl, hpure⟩ := runs_asking_iff.mp h₅
    obtain ⟨rfl, -⟩ := runs_pure_iff.mp hpure
    cases hfallback
  next hfirst =>
    obtain ⟨reply, _, rfl, h₆⟩ := runs_asking_iff.mp h₅
    obtain ⟨fallbackSteps, _, _, hmore, h₇, rfl⟩ := runs_bind_ok_iff.mp h₆
    obtain ⟨rfl, hreply⟩ := runs_ofExcept_iff.mp hmore
    obtain ⟨again, _, rfl, hpure⟩ := runs_asking_iff.mp h₇
    obtain ⟨rfl, houtcome⟩ := runs_pure_iff.mp hpure
    subst hreply
    obtain rfl : fallback = fallbackSteps := List.mem_singleton.mp hfallback
    obtain rfl := Except.ok.inj houtcome
    let traced := tracedState state (replanTraceEntry (buildReplanReason critique) anchor)
    let first := tryApplyReplanSteps registry traced.snapshotForReplan.2 newSteps
      (completedStepSnapshot state) {}
    let last := fallbackAttempt registry (first.live.restoreSnapshot traced.snapshotForReplan.1)
      fallback (completedStepSnapshot state) anchor
    have hfailed : last.applied = false := by
      replace hskipped : (resultOf (conclude last traced.snapshotForReplan.1 anchor)
        (buildReplanReason critique) again).skippedReason = some "replan_validation_failed" :=
      hskipped
      by_contra happlied
      rw [Bool.not_eq_false] at happlied
      simp only [conclude, happlied, if_true] at hskipped
      split at hskipped <;> simp [resultOf, happlied] at hskipped
    obtain ⟨hplan, hstatus, hresults, hcompleted⟩ := view_of_failed (show first = _ from rfl)
      (show last = _ from rfl) hfailed
    rw [← untouched_applyReplannedSteps_iff]
    exact untouched_congr hplan hstatus hresults hcompleted

/-- A critique that asks for a replan. -/
def demand : ExecutionCritique := ⟨0, "incomplete", true, false, []⟩

/-- A planner whose answers are all the same. -/
def refusedReplan (state : PlanState) (answer : List PlanStep) :
    Outcome runtimeSig RaisedError ReplanningOutcome (SharedObjects × Unit) :=
  let components : Components :=
    { replanFromCritique := fun _ _ _ => .ok answer
      rulebasedReplanFromCritique := fun _ _ _ => .ok answer }
  components.exec {} (handle ["weather", "budget"] {} demand state)

/-- A step with a tool that is not registered. -/
def trainStep : PlanStep := ⟨1, "购买火车票", some "train", none⟩

theorem untouched_trainPlan :
    ∃ trace outcome, Runs (handle ["weather", "budget"] {} demand
        (PlanState.fromPlan ⟨"北京之行", [trainStep]⟩ "default")) trace (.ok outcome) ∧
      Untouched (PlanState.fromPlan ⟨"北京之行", [trainStep]⟩ "default") outcome.updatedState := by
  obtain ⟨outcome, hrun, -, hskipped⟩ := Components.exists_runs_exec_map
    (show (refusedReplan (PlanState.fromPlan ⟨"北京之行", [trainStep]⟩ "default")
        [trainStep]).result.map (fun outcome => outcome.result.skippedReason) =
      .ok (some "replan_validation_failed") by decide +kernel)
  have hfallback : [trainStep] ∈ fallbackAnswers (refusedReplan
      (PlanState.fromPlan ⟨"北京之行", [trainStep]⟩ "default") [trainStep]).trace := by decide +kernel
  refine ⟨_, outcome, hrun, (untouched_iff hrun hskipped hfallback).mpr
    ⟨by decide, fun stepId hnew => ?_⟩⟩
  obtain rfl : stepId = 1 := by
    have hone : repairedSteps [trainStep] = [trainStep] := by decide
    rw [hone] at hnew
    obtain ⟨hlow, hhigh⟩ := hnew
    change (0 : Int) < stepId at hlow
    change stepId ≤ (0 : Int) + 1 at hhigh
    omega
  decide

/-- After two answers that are refused, the halfway trip has the second answer's step. -/
theorem halfwayTrip_touched :
    ∃ trace outcome objects, Runs (handle ["weather", "budget"] {} demand halfwayTrip) trace
        (.ok outcome) ∧ Follows SharedObjects.Step {} trace objects ∧
      outcome.result.skippedReason = some "replan_validation_failed" ∧
      ¬ Untouched halfwayTrip outcome.updatedState := by
  obtain ⟨outcome, hrun, hfollows, hview⟩ := Components.exists_runs_exec_map
    (show (refusedReplan halfwayTrip [trainStep]).result.map (fun outcome =>
        (outcome.result.skippedReason, outcome.updatedState.plan.steps.map PlanStep.task)) =
      .ok (some "replan_validation_failed", ["查询上海天气", "购买火车票"]) by decide +kernel)
  obtain ⟨hskipped, htasks⟩ := Prod.mk.inj hview
  refine ⟨_, outcome, _, hrun, hfollows, hskipped, fun huntouched => ?_⟩
  rw [huntouched.steps] at htasks
  exact absurd htasks (by decide)

end ReplanningController

end TripGraph
