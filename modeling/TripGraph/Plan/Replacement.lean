import TripGraph.Plan.Remap
import TripGraph.Plan.Renewal

/-! # What a successful replan does to the steps

The finished steps and the replacement steps are merged, the merged plan is repaired if it
is not valid, and at the end each step that has the id of a finished one is put back. A
repair gives the steps new ids, but what is put back is looked up by the old ones.
-/

namespace TripGraph

open Interaction PlanValidator

/-! ## Restored steps -/

namespace PlanState

/-- The step, or the completed step of its id if it differs from that one. -/
def restoredStep (snapshots : Dict Int PlanStep) (step : PlanStep) : PlanStep :=
  match snapshots.get? step.id with
  | some original => if sameStep step original then step else original
  | none => step

theorem restoreStep_eq_map {stepId : Int} {original : PlanStep} {steps : List PlanStep}
    (hids : (steps.map PlanStep.id).Nodup) :
    (restoreStep stepId original steps).1 = steps.map fun step =>
      if step.id = stepId then (if sameStep step original then step else original) else step := by
  induction steps with
  | nil => rfl
  | cons step rest ih =>
      obtain ⟨hnot, hids⟩ := List.nodup_cons.mp hids
      rw [restoreStep, List.map_cons]
      by_cases hstep : step.id = stepId
      · have hrest : rest.map (fun own =>
            if own.id = stepId then (if sameStep own original then own else original) else own) =
            rest := by
          apply (List.map_congr_left fun own hown => ?_).trans (List.map_id rest)
          apply if_neg
          intro heq
          rw [hstep, ← heq] at hnot
          exact hnot (List.mem_map_of_mem hown)
        rw [hrest, if_neg (not_not.mpr hstep), if_pos hstep]
        split <;> rfl
      · rw [if_pos hstep, if_neg hstep, ← ih hids]

theorem ids_restoreStep {stepId : Int} {original : PlanStep} {steps : List PlanStep}
    (hids : (steps.map PlanStep.id).Nodup) (hown : original.id = stepId) :
    (restoreStep stepId original steps).1.map PlanStep.id = steps.map PlanStep.id := by
  rw [restoreStep_eq_map hids, List.map_map]
  apply List.map_congr_left
  intro step _
  simp only [Function.comp_apply]
  split
  next heq => split <;> simp [hown, heq]
  next => rfl

theorem foldl_restoreStep {entries : List (Int × PlanStep)} {steps : List PlanStep}
    (hids : (steps.map PlanStep.id).Nodup) (hown : ∀ entry ∈ entries, entry.2.id = entry.1)
    (hkeys : (entries.map Prod.fst).Nodup) :
    entries.foldl (fun acc entry => (restoreStep entry.1 entry.2 acc).1) steps =
      steps.map fun step =>
        match Dict.lookup entries step.id with
        | some original => if sameStep step original then step else original
        | none => step := by
  induction entries generalizing steps with
  | nil => simp [Dict.lookup]
  | cons entry rest ih =>
      obtain ⟨hentry, hown⟩ := List.forall_mem_cons.mp hown
      obtain ⟨hnot, hkeys⟩ := List.nodup_cons.mp hkeys
      have hnone : Dict.lookup rest entry.1 = none := by
        rw [← Option.not_isSome_iff_eq_none, Dict.lookup_isSome]
        exact hnot
      rw [List.foldl_cons, ih ((ids_restoreStep hids hentry).symm ▸ hids) hown hkeys,
        restoreStep_eq_map hids, List.map_map]
      apply List.map_congr_left
      intro step _
      simp only [Function.comp_apply, Dict.lookup]
      by_cases hstep : step.id = entry.1
      · rw [if_pos hstep, if_pos hstep.symm]
        by_cases hsame : sameStep step entry.2
        · simp only [hsame, if_true, hstep, hnone]
        · simp only [if_neg hsame, hentry, hnone]
      · rw [if_neg hstep, if_neg (Ne.symm hstep)]

/-- Each step is restored for itself. -/
theorem restoreCompletedStepSnapshots_eq_map {steps : List PlanStep}
    {snapshots : Dict Int PlanStep} (hids : (steps.map PlanStep.id).Nodup)
    (hown : ∀ entry ∈ snapshots.entries, entry.2.id = entry.1) :
    (restoreCompletedStepSnapshots steps snapshots).1 = steps.map (restoredStep snapshots) :=
  (List.foldl_hom Prod.fst fun _ _ => rfl).symm.trans (foldl_restoreStep hids hown snapshots.nodup)

@[simp] theorem id_restoredStep {snapshots : Dict Int PlanStep}
    (hown : ∀ entry ∈ snapshots.entries, entry.2.id = entry.1) (step : PlanStep) :
    (restoredStep snapshots step).id = step.id := by
  unfold restoredStep
  split
  next original horiginal =>
    split
    · rfl
    · exact hown _ (Dict.mem_entries_of_get? horiginal)
  next => rfl

end PlanState

namespace ReplanningController

theorem mem_of_get?_completedStepSnapshot {state : PlanState} {stepId : Int} {step : PlanStep}
    (h : (completedStepSnapshot state).get? stepId = some step) :
    step ∈ state.keptSteps ∧ step.id = stepId := by
  obtain ⟨own, hown, heq⟩ := List.mem_map.mp (Dict.mem_of_get?_ofList h)
  cases heq
  exact ⟨hown, rfl⟩

theorem id_completedStepSnapshot {state : PlanState} :
    ∀ entry ∈ (completedStepSnapshot state).entries, entry.2.id = entry.1 := fun _ hentry =>
  (mem_of_get?_completedStepSnapshot (Dict.get?_of_mem_entries hentry)).2

theorem get?_completedStepSnapshot {state : PlanState}
    (hids : (state.keptSteps.map PlanStep.id).Nodup) {step : PlanStep}
    (hstep : step ∈ state.keptSteps) :
    (completedStepSnapshot state).get? step.id = some step := by
  apply Dict.get?_ofList
  · rw [List.map_map]
    exact hids
  · exact List.mem_map.mpr ⟨step, hstep, rfl⟩

/-! ## The merged plan -/

section Merged

variable {registry : List String} {state : PlanState} {newSteps : List PlanStep}

/-- The plan state with the replacement steps behind the finished ones. -/
def mergedState (state : PlanState) (newSteps : List PlanStep) : PlanState :=
  state.applyReplannedSteps (repairedSteps newSteps)

/-- The replacement steps under the ids they get in the merged plan. -/
def addedSteps (state : PlanState) (newSteps : List PlanStep) : List PlanStep :=
  PlanState.renumberFrom state.maxFinishedId 1 (repairedSteps newSteps)

/-- The merged plan is valid as it is. -/
def ValidMerge (registry : List String) (state : PlanState) (newSteps : List PlanStep) : Prop :=
  (validate registry (mergedState state newSteps).plan).success = true

instance : Decidable (ValidMerge registry state newSteps) := inferInstanceAs (Decidable (_ = _))

theorem steps_mergedState : (mergedState state newSteps).plan.steps =
    state.keptSteps ++ addedSteps state newSteps := rfl

/-- The state with each step that has the id of a finished one put back. -/
def restoredState (before state : PlanState) : PlanState :=
  { state with plan := { state.plan with
      steps := (PlanState.restoreCompletedStepSnapshots state.plan.steps
        (completedStepSnapshot before)).1 } }

/-- What a successful replan leaves: the merged plan, or its repair with the finished steps
put back. -/
inductive Outcome (registry : List String) (state : PlanState) (newSteps : List PlanStep) :
    PlanState → Prop
  | merged (hvalid : ValidMerge registry state newSteps) :
      Outcome registry state newSteps (restoredState state (mergedState state newSteps))
  | repaired (hinvalid : ¬ ValidMerge registry state newSteps)
      (hrepaired : (Repair.repairPlan (mergedState state newSteps).plan).plan.WellFormed registry) :
      Outcome registry state newSteps
        (restoredState state (mergedState state newSteps).installRepair)

theorem restoreAndCheck_view {valid : Attempt} :
    (restoreAndCheck valid (completedStepSnapshot state)).live.view =
      restoredState state valid.live.view := by
  rw [restoreAndCheck]
  split <;> exact LivePlanState.view_restoreCompletedStepSnapshots _ _

theorem view_assignPlan (live : LivePlanState) (plan : Plan) :
    (live.assignPlan plan).view = { live.view with plan := plan } := by
  simp [LivePlanState.assignPlan, LivePlanState.view, writeCell]

theorem view_remapStepStatus (live : LivePlanState) (idMap : Dict Int Int) :
    (live.remapStepStatus idMap).view = live.view.remapStepStatus idMap := by
  unfold LivePlanState.remapStepStatus
  split
  next hempty => rw [PlanState.remapStepStatus, if_pos hempty]
  next hne => simp [LivePlanState.view, writeCell, PlanState.remapStepStatus, hne]

theorem outcome_of_applied {live : LivePlanState} {notes : ReplanApplyMeta}
    (h : (tryApplyReplanSteps registry live newSteps (completedStepSnapshot live.view)
      notes).applied = true) :
    Outcome registry live.view newSteps (tryApplyReplanSteps registry live newSteps
      (completedStepSnapshot live.view) notes).live.view := by
  have hmerged : (live.applyReplannedSteps (repairedSteps newSteps)).view =
      mergedState live.view newSteps := LivePlanState.view_applyReplannedSteps _ _
  simp only [tryApplyReplanSteps] at h ⊢
  split at h
  next hvalid =>
    rw [if_pos hvalid, restoreAndCheck_view]
    unfold validateOrRepairPlan at hvalid ⊢
    simp only [hmerged] at hvalid ⊢
    split at hvalid
    next haccepted =>
      rw [if_pos haccepted, hmerged]
      exact .merged haccepted
    next hrejected =>
      rw [if_neg hrejected]
      split at hvalid
      next => cases hvalid
      next hrepair =>
        rw [if_neg hrepair]
        generalize hremapped : (if (Repair.repairPlan
          (mergedState live.view newSteps).plan).idMap.entries ≠ [] then _ else _) =
          remapped at hvalid
        have hplan : remapped.view.plan =
            (Repair.repairPlan (mergedState live.view newSteps).plan).plan := by
          rw [← hremapped]
          split <;> simp
        split at hvalid
        next hsecond =>
          have hrepaired := wellFormed_of_validate (hplan ▸ hsecond)
          rw [if_pos hsecond]
          have hview : remapped.view = (mergedState live.view newSteps).installRepair := by
            rw [← hremapped, if_pos (Repair.entries_ne_nil_of_steps hrepaired.nonempty),
              view_remapStepStatus, view_assignPlan, hmerged]
            rfl
          rw [hview]
          exact .repaired hrejected hrepaired
        next => cases hvalid
  next hfailed => exact absurd h hfailed

/-! ## Statuses and results of the merged plan -/

theorem finished_of_mem_keptSteps {step : PlanStep} (h : step ∈ state.keptSteps) :
    step.id ∈ state.finishedStepIds := by
  simpa using (List.mem_filter.mp h).2

theorem mem_ids_addedSteps {stepId : Int} :
    stepId ∈ (addedSteps state newSteps).map PlanStep.id ↔
      state.Renumbered (repairedSteps newSteps) stepId := PlanState.mem_ids_remapped _ _

theorem maxFinishedId_lt {step : PlanStep} (h : step ∈ addedSteps state newSteps) :
    state.maxFinishedId < step.id := (mem_ids_addedSteps.mp (List.mem_map_of_mem h)).1

theorem not_finished_of_mem_addedSteps {step : PlanStep} (h : step ∈ addedSteps state newSteps) :
    step.id ∉ state.finishedStepIds := fun hfinished =>
  absurd (maxFinishedId_lt h) (not_lt.mpr (PlanState.le_maxFinishedId hfinished))

/-- A finished step keeps its status and its result when the plan is merged. -/
theorem get?_mergedState_of_finished {stepId : Int} (h : stepId ∈ state.finishedStepIds) :
    (mergedState state newSteps).stepStatus.get? stepId = state.stepStatus.get? stepId ∧
      (mergedState state newSteps).stepResults.get? stepId = state.stepResults.get? stepId := by
  have hremoved : stepId ∉ state.removedIds := fun hmem =>
    ((PlanState.mem_removedIds_iff state).mp hmem).2 h
  have hrenumbered : ¬ state.Renumbered (repairedSteps newSteps) stepId := fun hmem =>
    absurd hmem.1 (not_lt.mpr (PlanState.le_maxFinishedId h))
  rw [mergedState, PlanState.get?_status_applyReplannedSteps,
    PlanState.get?_result_applyReplannedSteps, if_neg hrenumbered, if_neg hremoved, if_neg hremoved]
  exact ⟨rfl, rfl⟩

theorem get?_status_addedStep {step : PlanStep} (h : step ∈ addedSteps state newSteps) :
    (mergedState state newSteps).stepStatus.get? step.id = some .pending := by
  rw [mergedState, PlanState.get?_status_applyReplannedSteps,
    if_pos (mem_ids_addedSteps.mp (List.mem_map_of_mem h))]

theorem isSome_status_mergedState {step : PlanStep}
    (h : step ∈ (mergedState state newSteps).plan.steps) :
    ((mergedState state newSteps).stepStatus.get? step.id).isSome := by
  rw [steps_mergedState] at h
  rcases List.mem_append.mp h with hkept | hadded
  · have hfinished := finished_of_mem_keptSteps hkept
    rw [(get?_mergedState_of_finished hfinished).1]
    obtain ⟨status, hstatus, -⟩ := (PlanState.mem_finishedStepIds_iff _ _).mp hfinished
    exact Option.isSome_of_eq_some hstatus
  · rw [get?_status_addedStep hadded]
    rfl

/-! ## Work kept -/

/-- What a plan state tells about a step, whatever its id. -/
structure StepRecord where
  task : String
  toolHint : Option String
  status : Option StepStatus
  result : Option StepResult
deriving DecidableEq

/-- The record of a step, its result apart from the step id it names. -/
def recordOf (state : PlanState) (step : PlanStep) : StepRecord :=
  ⟨step.task, step.toolHint, state.stepStatus.get? step.id,
    (state.stepResults.get? step.id).map (PlanState.withStepId 0)⟩

/-- The record of a step that is still to be run. -/
def pendingRecord (step : PlanStep) : StepRecord := ⟨step.task, step.toolHint, some .pending, none⟩

/-- The replacement steps that survive the repairs, under the ids they had in the merged
plan. -/
def survivingSteps (registry : List String) (state : PlanState) (newSteps : List PlanStep) :
    List PlanStep :=
  let merged := (mergedState state newSteps).plan.steps
  (if ValidMerge registry state newSteps then merged else Repair.survivors merged).filter
    fun step => decide (step.id ∉ state.finishedStepIds)

/-- The plan holds each finished step once, with the status and the result it had, and each
surviving replacement step once, pending and without a result. -/
def KeepsWork (registry : List String) (before : PlanState) (newSteps : List PlanStep)
    (after : PlanState) : Prop :=
  (after.plan.steps.map (recordOf after)).Perm
    (before.keptSteps.map (recordOf before) ++
      (survivingSteps registry before newSteps).map pendingRecord)

/-- The ids the repair of the merged plan maps to new ones. -/
def mergedIdMap (state : PlanState) (newSteps : List PlanStep) : Dict Int Int :=
  (Repair.repairPlan (mergedState state newSteps).plan).idMap

/-- No result is kept under the id of a replacement step; if the merged plan needs a repair,
no two finished steps are duplicates, the moves do not get in each other's way, and a
finished id is also a new one only if its step keeps it. -/
structure Undisturbed (registry : List String) (state : PlanState) (newSteps : List PlanStep) :
    Prop where
  fresh : ∀ step ∈ survivingSteps registry state newSteps,
    (mergedState state newSteps).stepResults.get? step.id = none
  distinct : ¬ ValidMerge registry state newSteps →
    Repair.survivors state.keptSteps = state.keptSteps
  renamable : ¬ ValidMerge registry state newSteps →
    PlanState.Renamable (mergedIdMap state newSteps) (mergedState state newSteps)
  placed : ¬ ValidMerge registry state newSteps → ∀ step ∈ state.keptSteps,
    step.id ∈ (mergedIdMap state newSteps).values →
      (mergedIdMap state newSteps).get? step.id = some step.id

theorem filter_keptSteps :
    state.keptSteps.filter (fun step => decide (step.id ∉ state.finishedStepIds)) = [] := by
  apply List.filter_eq_nil_iff.mpr
  intro step hstep
  simpa using finished_of_mem_keptSteps hstep

theorem filter_addedSteps {steps : List PlanStep} (h : steps ⊆ addedSteps state newSteps) :
    steps.filter (fun step => decide (step.id ∉ state.finishedStepIds)) = steps := by
  apply List.filter_eq_self.mpr
  intro step hstep
  simpa using not_finished_of_mem_addedSteps (h hstep)

/-! ### Merged plans that are valid -/

theorem survivingSteps_of_valid (h : ValidMerge registry state newSteps) :
    survivingSteps registry state newSteps = addedSteps state newSteps := by
  simp only [survivingSteps, if_pos h, steps_mergedState, List.filter_append, filter_keptSteps,
    filter_addedSteps (List.Subset.refl _), List.nil_append]

/-- A step that is still there is restored as it is. -/
theorem restoredState_of_valid (h : ValidMerge registry state newSteps) :
    restoredState state (mergedState state newSteps) = mergedState state newSteps := by
  have hwell := wellFormed_of_validate h
  have hids := hwell.ids_nodup
  have hsteps : (PlanState.restoreCompletedStepSnapshots (mergedState state newSteps).plan.steps
      (completedStepSnapshot state)).1 = (mergedState state newSteps).plan.steps := by
    rw [PlanState.restoreCompletedStepSnapshots_self hids]
    intro entry hentry
    obtain ⟨hmem, hid⟩ := mem_of_get?_completedStepSnapshot (Dict.get?_of_mem_entries hentry)
    exact ⟨hid.symm, List.mem_append_left _ hmem⟩
  rw [restoredState, hsteps]

theorem recordOf_mergedState {step : PlanStep} (h : step ∈ state.keptSteps) :
    recordOf (mergedState state newSteps) step = recordOf state step := by
  have hfinished := finished_of_mem_keptSteps h
  rw [recordOf, (get?_mergedState_of_finished hfinished).1,
    (get?_mergedState_of_finished hfinished).2, recordOf]

theorem keepsWork_merged_iff (h : ValidMerge registry state newSteps) :
    KeepsWork registry state newSteps (mergedState state newSteps) ↔
      Undisturbed registry state newSteps := by
  have hkept : state.keptSteps.map (recordOf (mergedState state newSteps)) =
      state.keptSteps.map (recordOf state) :=
    List.map_congr_left fun step hstep => recordOf_mergedState hstep
  rw [KeepsWork, steps_mergedState, List.map_append, hkept, List.perm_append_left_iff,
    survivingSteps_of_valid h]
  constructor
  · intro hperm
    refine ⟨fun step hstep => ?_, fun hnot => absurd h hnot, fun hnot => absurd h hnot,
      fun hnot => absurd h hnot⟩
    rw [survivingSteps_of_valid h] at hstep
    obtain ⟨own, -, heq⟩ := List.mem_map.mp (hperm.subset (List.mem_map_of_mem hstep))
    have hresult := congrArg StepRecord.result heq
    exact Option.map_eq_none_iff.mp hresult.symm
  · intro hfresh
    apply List.Perm.of_eq
    apply List.map_congr_left
    intro step hstep
    have hresult := hfresh.fresh step ((survivingSteps_of_valid h).symm ▸ hstep)
    rw [recordOf, get?_status_addedStep hstep, hresult]
    rfl

/-! ### Merged plans that need a repair -/

/-- The steps of the merged plan that its repair keeps. -/
def keptByRepair (state : PlanState) (newSteps : List PlanStep) : List PlanStep :=
  Repair.survivors (mergedState state newSteps).plan.steps

/-- The step of the resulting plan that a step of the merged plan becomes. -/
def resultingStep (state : PlanState) (newSteps : List PlanStep) (step : PlanStep) : PlanStep :=
  PlanState.restoredStep (completedStepSnapshot state)
    (Repair.remapStep (mergedIdMap state newSteps) step).1

/-- The record a step of the merged plan should have in the end. -/
def dueRecord (state : PlanState) (step : PlanStep) : StepRecord :=
  if step.id ∈ state.finishedStepIds then recordOf state step else pendingRecord step

theorem survivingSteps_of_invalid (h : ¬ ValidMerge registry state newSteps) :
    ∃ rest, rest ⊆ addedSteps state newSteps ∧
      keptByRepair state newSteps = Repair.survivors state.keptSteps ++ rest ∧
      survivingSteps registry state newSteps = rest := by
  obtain ⟨rest, hrest, heq⟩ := Repair.removeDuplicateSteps_append [] state.keptSteps
    (addedSteps state newSteps)
  have hsurvivors : Repair.survivors (mergedState state newSteps).plan.steps =
      Repair.survivors state.keptSteps ++ rest := heq
  refine ⟨rest, hrest.subset, hsurvivors, ?_⟩
  have hkept : (Repair.survivors state.keptSteps).filter
      (fun step => decide (step.id ∉ state.finishedStepIds)) = [] := by
    have := (Repair.survivors_sublist state.keptSteps).filter
      fun step => decide (step.id ∉ state.finishedStepIds)
    rw [filter_keptSteps] at this
    exact List.sublist_nil.mp this
  simp only [survivingSteps, if_neg h, hsurvivors, List.filter_append, hkept, List.nil_append]
  exact filter_addedSteps hrest.subset

theorem mem_of_keptByRepair {step : PlanStep} (h : step ∈ keptByRepair state newSteps) :
    step ∈ (mergedState state newSteps).plan.steps := (Repair.survivors_sublist _).subset h

theorem id_resultingStep {step : PlanStep} {newId : Int}
    (hnewId : (mergedIdMap state newSteps).get? step.id = some newId) :
    (resultingStep state newSteps step).id = newId := by
  rw [resultingStep, PlanState.id_restoredStep id_completedStepSnapshot, Repair.id_remapStep,
    hnewId, Option.getD_some]

theorem recordOf_resultingStep {step : PlanStep} {newId : Int}
    (hnewId : (mergedIdMap state newSteps).get? step.id = some newId) :
    recordOf (restoredState state (mergedState state newSteps).installRepair)
        (resultingStep state newSteps step) =
      ⟨(resultingStep state newSteps step).task, (resultingStep state newSteps step).toolHint,
        (mergedState state newSteps).installRepair.stepStatus.get? newId,
        ((mergedState state newSteps).installRepair.stepResults.get? newId).map
          (PlanState.withStepId 0)⟩ := by
  rw [recordOf, id_resultingStep hnewId]
  rfl

/-- Where the step has the id of a finished one, it gets the task of that one. -/
theorem key_resultingStep_of_finished {step original : PlanStep} {newId : Int}
    (hnewId : (mergedIdMap state newSteps).get? step.id = some newId)
    (horiginal : (completedStepSnapshot state).get? newId = some original) :
    (resultingStep state newSteps step).task = original.task ∧
      (resultingStep state newSteps step).toolHint = original.toolHint := by
  rw [resultingStep, PlanState.restoredStep, Repair.id_remapStep, hnewId, Option.getD_some,
    horiginal]
  dsimp only
  split
  next hsame =>
    simp only [PlanState.sameStep, decide_eq_true_eq] at hsame
    exact ⟨hsame.1, hsame.2.1⟩
  next => exact ⟨rfl, rfl⟩

theorem key_resultingStep_of_none {step : PlanStep} {newId : Int}
    (hnewId : (mergedIdMap state newSteps).get? step.id = some newId)
    (hnone : (completedStepSnapshot state).get? newId = none) :
    resultingStep state newSteps step = (Repair.remapStep (mergedIdMap state newSteps) step).1 := by
  rw [resultingStep, PlanState.restoredStep, Repair.id_remapStep, hnewId, Option.getD_some, hnone]

theorem key_dueRecord (step : PlanStep) :
    ((dueRecord state step).task, (dueRecord state step).toolHint) =
      (step.task, step.toolHint) := by
  unfold dueRecord
  split <;> rfl

/-- What is due to the steps of the merged plan that its repair keeps. -/
theorem map_dueRecord {rest : List PlanStep} (hrest : rest ⊆ addedSteps state newSteps) :
    (state.keptSteps ++ rest).map (dueRecord state) =
      state.keptSteps.map (recordOf state) ++ rest.map pendingRecord := by
  rw [List.map_append]
  congr 1
  · apply List.map_congr_left
    intro step hstep
    exact if_pos (finished_of_mem_keptSteps hstep)
  · apply List.map_congr_left
    intro step hstep
    exact if_neg (not_finished_of_mem_addedSteps (hrest hstep))

/-- The tasks of the steps that a repair keeps tell them apart. -/
theorem keptByRepair_keys_nodup : ((sortById (keptByRepair state newSteps)).map fun step =>
    (step.task, step.toolHint)).Nodup := by
  have hdistinct := Repair.survivors_distinct (mergedState state newSteps).plan.steps
  have hkeys :
      ((keptByRepair state newSteps).map fun step => (step.task, step.toolHint)).Nodup := by
    apply List.Nodup.of_map fun key => (strip key.1, key.2)
    rw [List.map_map]
    exact hdistinct
  exact ((perm_sortById _).map _).nodup_iff.mpr hkeys

/-- Two lists of records in which each key occurs once agree record by record. -/
theorem eq_of_perm_of_key {α β γ : Type} {f g : α → β} {k : β → γ} {items : List α}
    (hperm : (items.map f).Perm (items.map g)) (hnodup : (items.map fun item => k (g item)).Nodup)
    (hkey : ∀ item ∈ items, k (f item) = k (g item)) {item : α} (hitem : item ∈ items) :
    f item = g item := by
  obtain ⟨own, hown, heq⟩ := List.mem_map.mp (hperm.subset (List.mem_map_of_mem hitem))
  have hsame : own = item := by
    apply List.inj_on_of_nodup_map hnodup hown hitem
    rw [heq, hkey item hitem]
  rw [← heq, hsame]

section Repaired

variable (hrepaired :
  (Repair.repairPlan (mergedState state newSteps).plan).plan.WellFormed registry)
include hrepaired

theorem keptByRepair_ids_nodup : ((keptByRepair state newSteps).map PlanStep.id).Nodup :=
  Repair.survivors_ids_nodup_of_repaired hrepaired.ids_nodup

theorem numbering_mergedIdMap :
    Repair.Numbering (keptByRepair state newSteps) (mergedIdMap state newSteps) :=
  Repair.numbering_repairPlan (keptByRepair_ids_nodup hrepaired)

theorem steps_restoredState :
    (restoredState state (mergedState state newSteps).installRepair).plan.steps =
      (sortById (keptByRepair state newSteps)).map (resultingStep state newSteps) := by
  have hids : ((Repair.repairPlan (mergedState state newSteps).plan).plan.steps.map
      PlanStep.id).Nodup := hrepaired.ids_nodup
  have hplan : (mergedState state newSteps).installRepair.plan =
      (Repair.repairPlan (mergedState state newSteps).plan).plan :=
        PlanState.plan_remapStepStatus _ _
  rw [restoredState, hplan]
  simp only [PlanState.restoreCompletedStepSnapshots_eq_map hids id_completedStepSnapshot]
  rw [Repair.steps_repairPlan, List.map_map, ← Repair.idMap_repairPlan]
  rfl

theorem keptSteps_ids_nodup (hdistinct : Repair.survivors state.keptSteps = state.keptSteps) :
    (state.keptSteps.map PlanStep.id).Nodup ∧ state.keptSteps ⊆ keptByRepair state newSteps := by
  obtain ⟨rest, -, heq⟩ := Repair.removeDuplicateSteps_append [] state.keptSteps
    (addedSteps state newSteps)
  have hsurvivors : keptByRepair state newSteps = Repair.survivors state.keptSteps ++ rest := heq
  have hids := keptByRepair_ids_nodup hrepaired
  rw [hsurvivors, hdistinct, List.map_append] at hids
  refine ⟨(List.nodup_append'.mp hids).1, fun step hstep => ?_⟩
  rw [hsurvivors, hdistinct]
  exact List.mem_append_left _ hstep

/-- If finished ids are new ids of their own steps only, all steps keep their tasks. -/
theorem key_resultingStep (hdistinct : Repair.survivors state.keptSteps = state.keptSteps)
    (hplaced : ∀ step ∈ state.keptSteps, step.id ∈ (mergedIdMap state newSteps).values →
      (mergedIdMap state newSteps).get? step.id = some step.id) {step : PlanStep}
    (hstep : step ∈ keptByRepair state newSteps) :
    (resultingStep state newSteps step).task = step.task ∧
      (resultingStep state newSteps step).toolHint = step.toolHint := by
  have hnumbering := numbering_mergedIdMap hrepaired
  obtain ⟨newId, hnewId, hvalue⟩ := hnumbering.mem_values hstep
  cases horiginal : (completedStepSnapshot state).get? newId with
  | none =>
      rw [key_resultingStep_of_none hnewId horiginal]
      exact ⟨rfl, rfl⟩
  | some original =>
      obtain ⟨hkept, hid⟩ := mem_of_get?_completedStepSnapshot horiginal
      have hsame := hplaced original hkept (hid ▸ hvalue)
      have hstepId : step.id = original.id := hnumbering.inj hnewId (hid ▸ hsame)
      have hown : step = original := List.inj_on_of_nodup_map (keptByRepair_ids_nodup hrepaired)
        hstep ((keptSteps_ids_nodup hrepaired hdistinct).2 hkept) hstepId
      rw [hown] at hnewId ⊢
      exact key_resultingStep_of_finished hnewId horiginal

theorem keepsWork_of_undisturbed (hinvalid : ¬ ValidMerge registry state newSteps)
    (h : Undisturbed registry state newSteps) :
    KeepsWork registry state newSteps
      (restoredState state (mergedState state newSteps).installRepair) := by
  have hnumbering := numbering_mergedIdMap hrepaired
  have hids := keptByRepair_ids_nodup hrepaired
  obtain ⟨rest, hrest, hkeptByRepair, hsurviving⟩ := survivingSteps_of_invalid hinvalid
  rw [h.distinct hinvalid] at hkeptByRepair
  have hrenamed := (h.renamable hinvalid).renamed hids fun step hstep =>
    isSome_status_mergedState (mem_of_keptByRepair hstep)
  have hrecords : ∀ step ∈ keptByRepair state newSteps,
      recordOf (restoredState state (mergedState state newSteps).installRepair)
        (resultingStep state newSteps step) = dueRecord state step := by
    intro step hstep
    obtain ⟨newId, hnewId, -⟩ := hnumbering.mem_values hstep
    have hentry := Dict.mem_entries_of_get? hnewId
    obtain ⟨htask, hhint⟩ := key_resultingStep hrepaired (h.distinct hinvalid) (h.placed hinvalid)
      hstep
    have hstatus := hrenamed.status _ hentry
    have hresult := hrenamed.result _ hentry
    rw [recordOf_resultingStep hnewId, htask, hhint, hstatus, hresult, Option.map_map]
    by_cases hfinished : step.id ∈ state.finishedStepIds
    · rw [dueRecord, if_pos hfinished, (get?_mergedState_of_finished hfinished).1,
        (get?_mergedState_of_finished hfinished).2]
      rfl
    · have hadded : step ∈ survivingSteps registry state newSteps := by
        simp only [survivingSteps, if_neg hinvalid, List.mem_filter, decide_eq_true_eq]
        exact ⟨hstep, hfinished⟩
      have hmem := hrest (hsurviving ▸ hadded)
      rw [dueRecord, if_neg hfinished, get?_status_addedStep hmem, h.fresh step hadded]
      rfl
  rw [KeepsWork, steps_restoredState hrepaired, List.map_map, hsurviving, ← map_dueRecord hrest,
    ← hkeptByRepair]
  apply List.Perm.trans _ ((perm_sortById _).map _)
  apply List.Perm.of_eq
  exact List.map_congr_left fun step hstep => hrecords step (mem_sortById.mp hstep)

theorem exists_step_of_entry {entry : Int × Int}
    (hentry : entry ∈ (mergedIdMap state newSteps).entries) :
    ∃ step ∈ keptByRepair state newSteps, step.id = entry.1 ∧
      (mergedIdMap state newSteps).get? step.id = some entry.2 := by
  obtain ⟨step, hstep, hid⟩ := List.mem_map.mp ((numbering_mergedIdMap hrepaired).keys.mem_iff.mp
    (List.mem_map_of_mem hentry))
  exact ⟨step, hstep, hid, hid ▸ Dict.get?_of_mem_entries hentry⟩

/-- If the resulting steps have different tasks, finished ids are new ids of their own steps
only. -/
theorem placed_of_keys_nodup (hdistinct : Repair.survivors state.keptSteps = state.keptSteps)
    (hkeys : ((sortById (keptByRepair state newSteps)).map fun step =>
      ((resultingStep state newSteps step).task,
        (resultingStep state newSteps step).toolHint)).Nodup) :
    ∀ step ∈ state.keptSteps, step.id ∈ (mergedIdMap state newSteps).values →
      (mergedIdMap state newSteps).get? step.id = some step.id := by
  have hnumbering := numbering_mergedIdMap hrepaired
  obtain ⟨hids, hsubset⟩ := keptSteps_ids_nodup hrepaired hdistinct
  have hmem : ∀ {step}, step ∈ keptByRepair state newSteps →
      step ∈ sortById (keptByRepair state newSteps) := mem_sortById.mpr
  -- The finished ids that are new ids are renumbered among themselves.
  let met : Set Int := { stepId | ∃ step ∈ state.keptSteps, step.id = stepId ∧
    stepId ∈ (mergedIdMap state newSteps).values }
  let rename : Int → Int := fun stepId => ((mergedIdMap state newSteps).get? stepId).getD stepId
  have hfinite : met.Finite := by
    apply (List.finite_toSet (state.keptSteps.map PlanStep.id)).subset
    rintro stepId ⟨step, hstep, rfl, -⟩
    exact List.mem_map_of_mem hstep
  have hrename : ∀ step ∈ state.keptSteps, ∃ newId,
      (mergedIdMap state newSteps).get? step.id = some newId ∧
      newId ∈ (mergedIdMap state newSteps).values ∧ rename step.id = newId := by
    intro step hstep
    obtain ⟨newId, hnewId, hvalue⟩ := hnumbering.mem_values (hsubset hstep)
    exact ⟨newId, hnewId, hvalue, by simp only [rename, hnewId, Option.getD_some]⟩
  -- a strictly monotone map of a finite set into itself is the identity
  have hmono : StrictMonoOn rename met := by
    rintro first ⟨step, hstep, rfl, -⟩ second ⟨other, hother, rfl, -⟩ hlt
    obtain ⟨firstNew, hfirst, -, heq⟩ := hrename step hstep
    obtain ⟨secondNew, hsecond, -, heq'⟩ := hrename other hother
    rw [heq, heq']
    exact hnumbering.lt hfirst hsecond hlt
  have hmaps : Set.MapsTo rename met met := by
    rintro stepId ⟨step, hstep, rfl, hvalue⟩
    obtain ⟨newId, hnewId, hnewValue, heq⟩ := hrename step hstep
    rw [heq]
    by_contra hnot
    -- Then the step keeps its task, and so does the step that takes its id.
    have hnone : (completedStepSnapshot state).get? newId = none := by
      by_contra hsome
      obtain ⟨original, horiginal⟩ := Option.ne_none_iff_exists'.mp hsome
      obtain ⟨hkept, hid⟩ := mem_of_get?_completedStepSnapshot horiginal
      exact hnot ⟨original, hkept, hid, hnewValue⟩
    obtain ⟨entry, hentry, htarget⟩ := List.mem_map.mp hvalue
    obtain ⟨taker, htaker, -, htakerNew⟩ := exists_step_of_entry hrepaired hentry
    rw [htarget] at htakerNew
    have htask := key_resultingStep_of_finished htakerNew (get?_completedStepSnapshot hids hstep)
    have hown := key_resultingStep_of_none hnewId hnone
    have hsame : taker = step := by
      apply List.inj_on_of_nodup_map hkeys (hmem htaker) (hmem (hsubset hstep))
      simp only [htask, hown]
      rfl
    rw [hsame, hnewId, Option.some.injEq] at htakerNew
    exact hnot ⟨step, hstep, htakerNew.symm, hnewValue⟩
  intro step hstep hvalue
  obtain ⟨newId, hnewId, -, heq⟩ := hrename step hstep
  have hfixed := eq_self_of_strictMonoOn hfinite hmono hmaps
    (show step.id ∈ met from ⟨step, hstep, rfl, hvalue⟩)
  rw [hnewId, ← hfixed, heq]

/-- No result is left behind if none is found where a replacement step ends up. -/
theorem fresh_of_missing (hids : ((keptByRepair state newSteps).map PlanStep.id).Nodup)
    (hmissing : ∀ step ∈ keptByRepair state newSteps, step.id ∉ state.finishedStepIds →
      ∀ newId, (mergedIdMap state newSteps).get? step.id = some newId →
        (mergedState state newSteps).installRepair.stepResults.get? newId = none)
    {step : PlanStep} (hstep : step ∈ keptByRepair state newSteps)
    (hadded : step ∈ addedSteps state newSteps) :
    (mergedState state newSteps).stepResults.get? step.id = none := by
  have hnumbering := numbering_mergedIdMap hrepaired
  have hne : (mergedState state newSteps).plan.steps ≠ [] :=
    List.ne_nil_of_mem (mem_of_keptByRepair hstep)
  obtain ⟨newId, hnewId, -⟩ := hnumbering.mem_values hstep
  have hentry := Dict.mem_entries_of_get? hnewId
  by_contra hsome
  obtain ⟨last, hlast, hmoved⟩ := @Dict.exists_moved _ _ _ PlanState.withStepId _ _ _
    (mergedIdMap state newSteps).nodup hentry (Option.isSome_iff_ne_none.mpr hsome)
  have hlastEntry : last ∈ (mergedIdMap state newSteps).entries := by
    rcases hlast with rfl | horder
    · exact hentry
    · exact horder.subset (by simp)
  -- the entry that moved there last has an id no smaller, so its step is not finished either
  have hle : step.id ≤ last.1 := by
    rcases hlast with rfl | horder
    · exact le_rfl
    · have hsorted : (mergedIdMap state newSteps).entries.Pairwise fun a b => a.1 < b.1 :=
        List.pairwise_map.mp hnumbering.sorted
      exact (List.pairwise_iff_forall_sublist.mp hsorted horder).le
  obtain ⟨own, hown, hownId, hlastId⟩ := exists_step_of_entry hrepaired hlastEntry
  have hunfinished : own.id ∉ state.finishedStepIds := fun hfinished => by
    have := PlanState.le_maxFinishedId hfinished
    have := maxFinishedId_lt hadded
    omega
  have hnone := hmissing own hown hunfinished last.2 hlastId
  rw [PlanState.get?_result_moved hne hids hlastEntry] at hnone
  exact absurd hmoved (by rw [mergedIdMap, hnone]; simp)

theorem undisturbed_of_keepsWork (hinvalid : ¬ ValidMerge registry state newSteps)
    (h : KeepsWork registry state newSteps
      (restoredState state (mergedState state newSteps).installRepair)) :
    Undisturbed registry state newSteps := by
  have hnumbering := numbering_mergedIdMap hrepaired
  have hids := keptByRepair_ids_nodup hrepaired
  obtain ⟨rest, hrest, hkeptByRepair, hsurviving⟩ := survivingSteps_of_invalid hinvalid
  rw [KeepsWork, steps_restoredState hrepaired, List.map_map, hsurviving] at h
  have hdistinct : Repair.survivors state.keptSteps = state.keptSteps := by
    apply (Repair.survivors_sublist _).eq_of_length
    have hlength := h.length_eq
    simp only [List.length_map, Repair.length_sortById, hkeptByRepair, List.length_append]
      at hlength
    omega
  rw [hdistinct] at hkeptByRepair
  rw [← map_dueRecord hrest, ← hkeptByRepair] at h
  have hperm := h.trans ((perm_sortById _).map (dueRecord state)).symm
  have hdue : ((sortById (keptByRepair state newSteps)).map fun step =>
      ((dueRecord state step).task, (dueRecord state step).toolHint)).Nodup := by
    simp only [key_dueRecord]
    exact keptByRepair_keys_nodup
  have hplaced := placed_of_keys_nodup hrepaired hdistinct (by
    have hkeys := hperm.map fun record : StepRecord => (record.task, record.toolHint)
    rw [List.map_map, List.map_map] at hkeys
    exact hkeys.nodup_iff.mpr hdue)
  -- task and hint are a key on both sides, so the records agree one by one
  have hrecords : ∀ step ∈ keptByRepair state newSteps, ∀ newId,
      (mergedIdMap state newSteps).get? step.id = some newId →
      (mergedState state newSteps).installRepair.stepStatus.get? newId =
          (dueRecord state step).status ∧
        ((mergedState state newSteps).installRepair.stepResults.get? newId).map
          (PlanState.withStepId 0) = (dueRecord state step).result := by
    intro step hstep newId hnewId
    have hsame := eq_of_perm_of_key (k := fun record : StepRecord =>
      (record.task, record.toolHint)) hperm hdue (fun own hown => by
        obtain ⟨htask, hhint⟩ := key_resultingStep hrepaired hdistinct hplaced
          (mem_sortById.mp hown)
        rw [key_dueRecord, ← htask, ← hhint]
        rfl) (mem_sortById.mpr hstep)
    rw [Function.comp_apply, recordOf_resultingStep hnewId] at hsame
    exact ⟨congrArg StepRecord.status hsame, congrArg StepRecord.result hsame⟩
  have hfresh : ∀ step ∈ keptByRepair state newSteps, step ∈ addedSteps state newSteps →
      (mergedState state newSteps).stepResults.get? step.id = none := by
    intro step hstep hadded
    refine fresh_of_missing hrepaired hids
      (fun own hown hunfinished newId hnewId => ?_) hstep hadded
    have hresult := (hrecords own hown newId hnewId).2
    rw [dueRecord, if_neg hunfinished] at hresult
    exact Option.map_eq_none_iff.mp hresult
  refine ⟨fun step hstep => ?_, fun _ => hdistinct, fun _ => ?_, fun _ => hplaced⟩
  · rw [hsurviving] at hstep
    exact hfresh step (hkeptByRepair ▸ List.mem_append_right _ hstep) (hrest hstep)
  by_cases hne : (mergedState state newSteps).plan.steps = []
  · refine absurd ?_ hrepaired.nonempty
    rw [Repair.steps_repairPlan, hne]
    rfl
  apply PlanState.renamable_of_missing_iff hne hids fun step hstep =>
    isSome_status_mergedState (mem_of_keptByRepair hstep)
  · intro entry hentry
    obtain ⟨step, hstep, hid, hnewId⟩ := exists_step_of_entry hrepaired hentry
    rw [(hrecords step hstep _ hnewId).1, ← hid, dueRecord]
    split
    next hfinished => exact (get?_mergedState_of_finished hfinished).1.symm
    next hunfinished =>
      have hadded := (List.mem_append.mp (mem_of_keptByRepair hstep)).resolve_left fun hkept =>
        hunfinished (finished_of_mem_keptSteps hkept)
      exact (get?_status_addedStep hadded).symm
  · intro entry hentry
    obtain ⟨step, hstep, hid, hnewId⟩ := exists_step_of_entry hrepaired hentry
    have hresult := (hrecords step hstep _ hnewId).2
    rw [← hid, ← Option.map_eq_none_iff (f := PlanState.withStepId 0), hresult, dueRecord]
    split
    next hfinished =>
      rw [(get?_mergedState_of_finished hfinished).2]
      exact Option.map_eq_none_iff
    next hunfinished =>
      have hadded := (List.mem_append.mp (mem_of_keptByRepair hstep)).resolve_left fun hkept =>
        hunfinished (finished_of_mem_keptSteps hkept)
      exact iff_of_true rfl (hfresh step hstep hadded)

end Repaired

end Merged

/-- A successful replan keeps finished work, and adds the rest as pending, if and only if
what it puts back and renumbers is not disturbed. -/
theorem keepsWork_iff {registry : List String} {live : LivePlanState} {newSteps : List PlanStep}
    {notes : ReplanApplyMeta}
    (h : (tryApplyReplanSteps registry live newSteps (completedStepSnapshot live.view)
      notes).applied = true) :
    KeepsWork registry live.view newSteps (tryApplyReplanSteps registry live newSteps
      (completedStepSnapshot live.view) notes).live.view ↔
      Undisturbed registry live.view newSteps := by
  have houtcome := outcome_of_applied h
  generalize (tryApplyReplanSteps registry live newSteps (completedStepSnapshot live.view)
    notes).live.view = after at houtcome
  cases houtcome with
  | merged hvalid =>
      rw [restoredState_of_valid hvalid]
      exact keepsWork_merged_iff hvalid
  | repaired hinvalid hrepaired =>
      exact ⟨undisturbed_of_keepsWork hrepaired hinvalid,
        keepsWork_of_undisturbed hrepaired hinvalid⟩

/-- A plan of three independent steps. -/
def scatteredPlan : Plan :=
  ⟨"上海周末", [⟨1, "查询上海天气", some "weather", none⟩, ⟨2, "规划上海路线", some "map", none⟩,
    ⟨3, "估算上海预算", some "budget", none⟩]⟩

/-- The state after one of its steps has been completed. -/
def scatteredState (done : Int) : PlanState :=
  (PlanState.fromPlan scatteredPlan "default").recordStepResult
    { stepId := done, task := "已完成", status := .completed }

def otherSteps : List PlanStep :=
  [⟨1, "查询杭州天气", some "weather", none⟩, ⟨2, "估算杭州预算", some "budget", none⟩]

def scatteredAttempt (done : Int) : Attempt :=
  tryApplyReplanSteps ["weather", "map", "budget"] (.ofValue (scatteredState done)) otherSteps
    (completedStepSnapshot (scatteredState done)) {}

theorem keepsWork_firstDone : KeepsWork ["weather", "map", "budget"] (scatteredState 1) otherSteps
    (scatteredAttempt 1).live.view :=
  (@keepsWork_iff _ (.ofValue (scatteredState 1)) _ _ (by decide +kernel)).mpr
    ⟨by decide +kernel, fun h => absurd (by decide +kernel) h,
      fun h => absurd (by decide +kernel) h, fun h => absurd (by decide +kernel) h⟩

/-- With the last step completed first, the second replacement step is overwritten by it. -/
theorem not_keepsWork_lastDone : (scatteredAttempt 3).applied = true ∧
    ¬ KeepsWork ["weather", "map", "budget"] (scatteredState 3) otherSteps
      (scatteredAttempt 3).live.view := by
  unfold KeepsWork
  decide +kernel

/-! ## Dependencies of replacement steps -/

/-- The step came from this replacement step, under the id the replan gave it. -/
structure CameFrom (newId : Int → Int) (replacement step : PlanStep) : Prop where
  id : step.id = newId replacement.id
  task : step.task = replacement.task
  toolHint : step.toolHint = replacement.toolHint

/-- A step depends on another one that replaces a step if and only if the planner's answer
listed the dependency. -/
def KeepsDependencies (newId : Int → Int) (newSteps steps : List PlanStep) : Prop :=
  ∀ first ∈ newSteps, ∀ second ∈ newSteps,
    (∃ step ∈ steps, CameFrom newId first step ∧
      ∃ other ∈ steps, CameFrom newId second other ∧ other.id ∈ step.deps) ↔
      second.id ∈ first.deps

/-- Replacement steps numbered from one that depend on earlier ones. -/
structure Numbered (newSteps : List PlanStep) : Prop where
  ids : newSteps.map PlanStep.id = expectedIds newSteps.length
  prior : ∀ step ∈ newSteps, ∀ dep ∈ step.deps, 1 ≤ dep ∧ dep < step.id

/-- Finished ids start from zero, or no replacement step depends on another. -/
def Unshifted (state : PlanState) (newSteps : List PlanStep) : Prop :=
  state.maxFinishedId = 0 ∨ ∀ step ∈ newSteps, step.deps = []

namespace Numbered

variable {newSteps : List PlanStep} (h : Numbered newSteps)
include h

theorem nodup : (newSteps.map PlanStep.id).Nodup := h.ids ▸ expectedIds_nodup _

theorem eq_of_id_eq {first second : PlanStep} (hfirst : first ∈ newSteps)
    (hsecond : second ∈ newSteps) (heq : first.id = second.id) : first = second :=
  List.inj_on_of_nodup_map h.nodup hfirst hsecond heq

theorem one_le {step : PlanStep} (hstep : step ∈ newSteps) :
    1 ≤ step.id ∧ step.id ≤ newSteps.length :=
  mem_expectedIds.mp (h.ids ▸ List.mem_map_of_mem hstep)

theorem exists_of_dep {step : PlanStep} (hstep : step ∈ newSteps) {dep : Int}
    (hdep : dep ∈ step.deps) : ∃ other ∈ newSteps, other.id = dep := by
  have hprior := h.prior step hstep dep hdep
  have hbounds := h.one_le hstep
  apply List.mem_map.mp
  rw [h.ids, mem_expectedIds]
  omega

theorem renumberFrom_eq (maxId : Int) :
    PlanState.renumberFrom maxId 1 newSteps = newSteps.map (PlanState.shift maxId) :=
  PlanState.renumberFrom_of_numbered (h.ids.trans (PlanState.expectedIds_eq_range' _))

/-- A list of dependencies is finite, so it is not closed under a shift. -/
theorem unshifted_of_closed {state : PlanState}
    (hclosed : ∀ first ∈ newSteps, ∀ second ∈ newSteps, second.id ∈ first.deps →
      state.maxFinishedId + second.id ∈ first.deps) : Unshifted state newSteps := by
  by_contra hnot
  simp only [Unshifted, not_or, not_forall] at hnot
  obtain ⟨hmax, first, hfirst, hdeps⟩ := hnot
  obtain ⟨dep, hdep⟩ := List.exists_mem_of_ne_nil _ hdeps
  have hall : ∀ count : Nat, dep + count * state.maxFinishedId ∈ first.deps := by
    intro count
    induction count with
    | zero => simpa using hdep
    | succ count ih =>
        obtain ⟨other, hother, hid⟩ := h.exists_of_dep hfirst ih
        have hnext := hclosed first hfirst other hother (hid ▸ ih)
        rw [hid] at hnext
        have heq : dep + (count + 1 : Nat) * state.maxFinishedId =
            state.maxFinishedId + (dep + count * state.maxFinishedId) := by
          push_cast
          ring
        rwa [heq]
  have hlow := h.prior first hfirst dep hdep
  have hfar := h.prior first hfirst _ (hall first.id.toNat)
  have hcast : (first.id.toNat : Int) = first.id := Int.toNat_of_nonneg (by omega)
  rw [hcast] at hfar
  rcases lt_or_gt_of_ne hmax with hneg | hpos
  · have : first.id * state.maxFinishedId ≤ first.id * (-1) :=
      mul_le_mul_of_nonneg_left (by omega) (by omega)
    omega
  · have : first.id * 1 ≤ first.id * state.maxFinishedId :=
      mul_le_mul_of_nonneg_left (by omega) (by omega)
    omega

end Numbered

section Dependencies

variable {registry : List String} {state : PlanState} {newSteps : List PlanStep}

/-- In the merged plan a replacement step depends on the ids its list names, whichever
steps these are. -/
theorem dependsOn_applied_iff (h : Numbered newSteps) {first second : PlanStep}
    (hfirst : first ∈ newSteps) (hsecond : second ∈ newSteps) :
    (∃ step ∈ (state.applyReplannedSteps newSteps).plan.steps,
      CameFrom (state.maxFinishedId + ·) first step ∧
      ∃ other ∈ (state.applyReplannedSteps newSteps).plan.steps,
        CameFrom (state.maxFinishedId + ·) second other ∧ other.id ∈ step.deps) ↔
      state.maxFinishedId + second.id ∈ first.deps := by
  have hsteps : (state.applyReplannedSteps newSteps).plan.steps =
      state.keptSteps ++ newSteps.map (PlanState.shift state.maxFinishedId) := by
    rw [← h.renumberFrom_eq]
    rfl
  rw [hsteps]
  have hdeps : ∀ own : PlanStep, (PlanState.shift state.maxFinishedId own).deps = own.deps :=
    fun own => getD_normalizeDeps _
  constructor
  · rintro ⟨step, hstep, hfrom, other, -, hother, hdep⟩
    rw [hother.id] at hdep
    rcases List.mem_append.mp hstep with hkept | hadded
    · have hle := PlanState.le_maxFinishedId (finished_of_mem_keptSteps hkept)
      have hlow := (h.one_le hfirst).1
      have hid := hfrom.id
      omega
    · obtain ⟨own, hown, rfl⟩ := List.mem_map.mp hadded
      have hsame : own = first := h.eq_of_id_eq hown hfirst (add_left_cancel hfrom.id)
      rwa [hdeps, hsame] at hdep
  · intro hdep
    refine ⟨_, List.mem_append_right _ (List.mem_map_of_mem hfirst), ⟨rfl, rfl, rfl⟩, _,
      List.mem_append_right _ (List.mem_map_of_mem hsecond), ⟨rfl, rfl, rfl⟩, ?_⟩
    rw [hdeps]
    exact hdep

theorem keepsDependencies_applied_iff (h : Numbered newSteps) :
    KeepsDependencies (state.maxFinishedId + ·) newSteps
        (state.applyReplannedSteps newSteps).plan.steps ↔ Unshifted state newSteps := by
  constructor
  · intro hkeeps
    apply h.unshifted_of_closed
    intro first hfirst second hsecond hdep
    exact (dependsOn_applied_iff h hfirst hsecond).mp
      ((hkeeps first hfirst second hsecond).mpr hdep)
  · intro hunshifted first hfirst second hsecond
    rw [dependsOn_applied_iff h hfirst hsecond]
    rcases hunshifted with hzero | hempty
    · rw [hzero, zero_add]
    · simp [hempty first hfirst]

/-- The id a replacement step has in the end. -/
def finalId (registry : List String) (state : PlanState) (newSteps : List PlanStep)
    (stepId : Int) : Int :=
  if ValidMerge registry state newSteps then state.maxFinishedId + stepId
  else ((mergedIdMap state newSteps).get? (state.maxFinishedId + stepId)).getD
    (state.maxFinishedId + stepId)

/-- Neither repair removes a step. -/
structure RemovesNothing (registry : List String) (state : PlanState) (newSteps : List PlanStep) :
    Prop where
  answer : Repair.survivors newSteps = newSteps
  merged : ¬ ValidMerge registry state newSteps →
    keptByRepair state newSteps = (mergedState state newSteps).plan.steps

theorem repairedSteps_eq (h : Numbered newSteps) (hanswer : Repair.survivors newSteps = newSteps) :
    repairedSteps newSteps = newSteps := by
  have hdistinct := Repair.survivors_distinct newSteps
  rw [hanswer] at hdistinct
  simp [repairedSteps, Repair.not_repaired_of_numbered h.ids h.prior hdistinct]

section Repaired

variable (hnumbered : Numbered newSteps) (hinvalid : ¬ ValidMerge registry state newSteps)
  (hnothing : RemovesNothing registry state newSteps)
include hnumbered hinvalid hnothing

/-- The replacement step is one of the steps of the merged plan. -/
theorem shift_mem_keptByRepair {step : PlanStep} (hstep : step ∈ newSteps) :
    PlanState.shift state.maxFinishedId step ∈ addedSteps state newSteps ∧
      PlanState.shift state.maxFinishedId step ∈ keptByRepair state newSteps := by
  have hadded : addedSteps state newSteps =
      newSteps.map (PlanState.shift state.maxFinishedId) := by
    rw [addedSteps, repairedSteps_eq hnumbered hnothing.answer, hnumbered.renumberFrom_eq]
  have hmem : PlanState.shift state.maxFinishedId step ∈ addedSteps state newSteps :=
    hadded ▸ List.mem_map_of_mem hstep
  refine ⟨hmem, ?_⟩
  rw [hnothing.merged hinvalid, steps_mergedState]
  exact List.mem_append_right _ hmem

variable
  (hrepaired : (Repair.repairPlan (mergedState state newSteps).plan).plan.WellFormed registry)
include hrepaired

theorem exists_finalId {step : PlanStep} (hstep : step ∈ newSteps) :
    ∃ newId, (mergedIdMap state newSteps).get? (state.maxFinishedId + step.id) = some newId ∧
      newId ∈ (mergedIdMap state newSteps).values ∧
      finalId registry state newSteps step.id = newId := by
  obtain ⟨-, hmem⟩ := shift_mem_keptByRepair hnumbered hinvalid hnothing hstep
  obtain ⟨newId, hnewId, hvalue⟩ := (numbering_mergedIdMap hrepaired).mem_values hmem
  refine ⟨newId, hnewId, hvalue, ?_⟩
  rw [finalId, if_neg hinvalid, show (mergedIdMap state newSteps).get?
    (state.maxFinishedId + step.id) = some newId from hnewId, Option.getD_some]

/-- A step that came from a replacement has not been overwritten by a finished one. -/
theorem eq_remapStep_of_cameFrom {replacement step : PlanStep}
    (hreplacement : replacement ∈ newSteps)
    (hstep : step ∈ (restoredState state (mergedState state newSteps).installRepair).plan.steps)
    (hfrom : CameFrom (finalId registry state newSteps) replacement step) :
    step = (Repair.remapStep (mergedIdMap state newSteps)
      (PlanState.shift state.maxFinishedId replacement)).1 := by
  rw [steps_restoredState hrepaired] at hstep
  obtain ⟨own, hown, rfl⟩ := List.mem_map.mp hstep
  rw [mem_sortById] at hown
  have hnumbering := numbering_mergedIdMap hrepaired
  obtain ⟨hadded, hmem⟩ :=
    shift_mem_keptByRepair hnumbered hinvalid hnothing hreplacement
  obtain ⟨newId, hnewId, -, hfinal⟩ :=
    exists_finalId hnumbered hinvalid hnothing hrepaired hreplacement
  obtain ⟨ownId, hownId, -⟩ := hnumbering.mem_values hown
  have hsameId : ownId = newId := by rw [← id_resultingStep hownId, hfrom.id, hfinal]
  rw [hsameId] at hownId
  have hsame : own = PlanState.shift state.maxFinishedId replacement :=
    List.inj_on_of_nodup_map (keptByRepair_ids_nodup hrepaired) hown hmem
      (hnumbering.inj hownId hnewId)
  rw [hsame] at hownId hfrom ⊢
  apply key_resultingStep_of_none hownId
  by_contra hsome
  obtain ⟨original, horiginal⟩ := Option.ne_none_iff_exists'.mp hsome
  obtain ⟨hkept, -⟩ := mem_of_get?_completedStepSnapshot horiginal
  obtain ⟨htask, hhint⟩ := key_resultingStep_of_finished hownId horiginal
  have hkeptMem : original ∈ keptByRepair state newSteps := by
    rw [hnothing.merged hinvalid, steps_mergedState]
    exact List.mem_append_left _ hkept
  have hduplicate : original = PlanState.shift state.maxFinishedId replacement := by
    apply List.inj_on_of_nodup_map (Repair.survivors_distinct _) hkeptMem hmem
    rw [← htask, ← hhint, hfrom.task, hfrom.toolHint]
    rfl
  exact not_finished_of_mem_addedSteps hadded (hduplicate ▸ finished_of_mem_keptSteps hkept)

/-- If finished ids start from zero, no replacement step is overwritten. -/
theorem remapStep_mem_of_zero (hzero : state.maxFinishedId = 0) {replacement : PlanStep}
    (hreplacement : replacement ∈ newSteps) :
    (Repair.remapStep (mergedIdMap state newSteps)
      (PlanState.shift state.maxFinishedId replacement)).1 ∈
      (restoredState state (mergedState state newSteps).installRepair).plan.steps := by
  have hnumbering := numbering_mergedIdMap hrepaired
  obtain ⟨-, hmem⟩ := shift_mem_keptByRepair hnumbered hinvalid hnothing hreplacement
  obtain ⟨newId, hnewId, hvalue, -⟩ :=
    exists_finalId hnumbered hinvalid hnothing hrepaired hreplacement
  rw [steps_restoredState hrepaired]
  refine List.mem_map.mpr ⟨_, mem_sortById.mpr hmem, key_resultingStep_of_none hnewId ?_⟩
  by_contra hsome
  obtain ⟨original, horiginal⟩ := Option.ne_none_iff_exists'.mp hsome
  obtain ⟨hkept, hid⟩ := mem_of_get?_completedStepSnapshot horiginal
  have hle := PlanState.le_maxFinishedId (finished_of_mem_keptSteps hkept)
  rw [hnumbering.values, mem_expectedIds] at hvalue
  omega

theorem keepsDependencies_repaired (hunshifted : Unshifted state newSteps) :
    KeepsDependencies (finalId registry state newSteps) newSteps
      (restoredState state (mergedState state newSteps).installRepair).plan.steps := by
  have hnumbering := numbering_mergedIdMap hrepaired
  intro first hfirst second hsecond
  obtain ⟨firstId, hfirstId, -, hfirstFinal⟩ :=
    exists_finalId hnumbered hinvalid hnothing hrepaired hfirst
  obtain ⟨secondId, hsecondId, -, hsecondFinal⟩ :=
    exists_finalId hnumbered hinvalid hnothing hrepaired hsecond
  have hdeps : secondId ∈ (Repair.remapStep (mergedIdMap state newSteps)
      (PlanState.shift state.maxFinishedId first)).1.deps ↔
      secondId < firstId ∧ state.maxFinishedId + second.id ∈ first.deps := by
    rw [Repair.deps_remapStep, Repair.mem_remapDeps_iff, PlanState.shift, hfirstId,
      Option.getD_some, PlanStep.deps, getD_normalizeDeps]
    refine and_congr_right fun _ => ⟨?_, fun hdep => ⟨_, hdep, hsecondId⟩⟩
    rintro ⟨dep, hdep, htarget⟩
    rwa [hnumbering.inj hsecondId htarget]
  constructor
  · rintro ⟨step, hstep, hfrom, other, -, hother, hdep⟩
    rw [eq_remapStep_of_cameFrom hnumbered hinvalid hnothing hrepaired hfirst hstep hfrom,
      hother.id, hsecondFinal, hdeps] at hdep
    -- dependencies keep the planner's numbers, so they point right only if nothing is shifted
    rcases hunshifted with hzero | hempty
    · rw [hzero, zero_add] at hdep
      exact hdep.2
    · rw [hempty first hfirst] at hdep
      cases hdep.2
  · intro hlisted
    have hzero : state.maxFinishedId = 0 := by
      apply hunshifted.resolve_right
      intro hempty
      rw [hempty first hfirst] at hlisted
      cases hlisted
    have hid : ∀ own ∈ newSteps, (Repair.remapStep (mergedIdMap state newSteps)
        (PlanState.shift state.maxFinishedId own)).1.id =
          finalId registry state newSteps own.id := by
      intro own hown
      obtain ⟨newId, hnewId, -, hfinal⟩ :=
        exists_finalId hnumbered hinvalid hnothing hrepaired hown
      rw [Repair.id_remapStep, PlanState.shift, hnewId, hfinal, Option.getD_some]
    refine ⟨_, remapStep_mem_of_zero hnumbered hinvalid hnothing hrepaired hzero hfirst,
      ⟨hid first hfirst, rfl, rfl⟩, _,
      remapStep_mem_of_zero hnumbered hinvalid hnothing hrepaired hzero hsecond,
      ⟨hid second hsecond, rfl, rfl⟩, ?_⟩
    rw [hid second hsecond, hsecondFinal, hdeps, hzero, zero_add]
    refine ⟨hnumbering.lt hsecondId hfirstId ?_, hlisted⟩
    have := hnumbered.prior first hfirst second.id hlisted
    omega

end Repaired

end Dependencies

/-- The dependencies of replacement steps keep their meaning, when the steps are put into the
plan and when they are repaired as well, if and only if they are not shifted. -/
theorem keepsDependencies_iff {live : LivePlanState} {newSteps : List PlanStep}
    (h : Numbered newSteps) :
    (KeepsDependencies (live.view.maxFinishedId + ·) newSteps
        (live.view.applyReplannedSteps newSteps).plan.steps ∧
      ∀ registry notes, (tryApplyReplanSteps registry live newSteps
          (completedStepSnapshot live.view) notes).applied = true →
        RemovesNothing registry live.view newSteps →
        KeepsDependencies (finalId registry live.view newSteps) newSteps
          (tryApplyReplanSteps registry live newSteps (completedStepSnapshot live.view)
            notes).live.view.plan.steps) ↔
      Unshifted live.view newSteps := by
  rw [keepsDependencies_applied_iff h, and_iff_left_iff_imp]
  intro hunshifted registry notes happlied hnothing
  have houtcome := outcome_of_applied happlied
  generalize (tryApplyReplanSteps registry live newSteps (completedStepSnapshot live.view)
    notes).live.view = after at houtcome
  cases houtcome with
  | merged hvalid =>
      have hfinal : finalId registry live.view newSteps = (live.view.maxFinishedId + ·) := by
        funext stepId
        exact if_pos hvalid
      rw [restoredState_of_valid hvalid, hfinal, mergedState,
        repairedSteps_eq h hnothing.answer]
      exact (keepsDependencies_applied_iff h).mpr hunshifted
  | repaired hinvalid hrepaired =>
      exact keepsDependencies_repaired h hinvalid hnothing hrepaired hunshifted

/-- Two replacement steps of which the second uses the first. -/
def chainedSteps : List PlanStep :=
  [⟨1, "规划杭州路线", some "map", none⟩, ⟨2, "估算杭州预算", some "budget", some [1]⟩]

/-- Replacement steps that do not depend on each other do not do so in the plan. -/
theorem keepsDependencies_otherSteps :
    KeepsDependencies ((scatteredState 1).maxFinishedId + ·) otherSteps
      ((scatteredState 1).applyReplannedSteps otherSteps).plan.steps :=
  ((@keepsDependencies_iff (.ofValue (scatteredState 1)) _ ⟨by decide, by decide⟩).mpr
    (Or.inr (by decide))).1

/-- After one finished step, the second replacement step depends on that one. -/
theorem not_keepsDependencies_chainedSteps : (scatteredState 1).finishedStepIds = [1] ∧
    Numbered chainedSteps ∧ ¬ KeepsDependencies ((scatteredState 1).maxFinishedId + ·) chainedSteps
      ((scatteredState 1).applyReplannedSteps chainedSteps).plan.steps := by
  have hnumbered : Numbered chainedSteps := ⟨by decide, by decide⟩
  refine ⟨by decide, hnumbered, fun h => ?_⟩
  have hunshifted := (keepsDependencies_applied_iff hnumbered).mp h
  revert hunshifted
  unfold Unshifted
  decide

end ReplanningController

end TripGraph
