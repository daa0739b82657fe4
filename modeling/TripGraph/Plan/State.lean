import Mathlib.Data.List.Sort
import TripGraph.Schemas.Plan

/-! # The plan execution state

`PlanState` tracks the progress of one plan. Its methods are pure functions on the record;
a lookup the source performs on a dictionary raises `KeyError` when the key is absent.
-/

namespace TripGraph

open Interaction

structure CompressionMeta where
  compressionCount : Nat
  triggeredAtStep : Option Int
  sizeBefore : Nat
  sizeAfter : Nat
deriving DecidableEq

/-- Policy decisions, as the context has them. -/
def dumpDecisions (decisions : Dict String ToolPolicyDecision) : Value :=
  .dict (decisions.entries.map fun entry => (.str entry.1, .ofEntries entry.2.entries))

/-- The policy decisions of the steps, and the keys of `misc` that stand before them. -/
structure StoredDecisions where
  decisions : Dict String ToolPolicyDecision
  before : List String
deriving DecidableEq

/-- The shared context of a plan run. The keys the runtime itself writes have fields of
their own; every other key is in `misc`. -/
structure GlobalContext where
  misc : Dict String Value := .empty
  stepOutputs : Option (Dict Int Value) := none
  toolOutputs : Option (Dict String Value) := none
  toolPolicyDecisions : Option StoredDecisions := none
  toolArgs : Option (Dict String Args) := none
  compressedContext : Option String := none
  keyFacts : Option (List String) := none
  compressionMeta : Option CompressionMeta := none
deriving DecidableEq

namespace GlobalContext

/-- `context.get("tool_policy_decisions", {})`. -/
def policyDecisions (context : GlobalContext) : Dict String ToolPolicyDecision :=
  (context.toolPolicyDecisions.map StoredDecisions.decisions).getD .empty

/-- `context["tool_policy_decisions"] = decisions`: a key that is there keeps its place. -/
def setPolicyDecisions (context : GlobalContext) (decisions : Dict String ToolPolicyDecision) :
    GlobalContext :=
  let before := match context.toolPolicyDecisions with
    | some stored => stored.before
    | none => context.misc.keys
  { context with toolPolicyDecisions := some { decisions, before } }

/-- The keys without a field of their own and the policy decisions, in the order in which they
came into the dictionary. -/
def items (context : GlobalContext) : List (String × Value) :=
  match context.toolPolicyDecisions with
  | none => context.misc.entries
  | some stored =>
      (context.misc.entries.filter fun entry => decide (entry.1 ∈ stored.before)) ++
        ("tool_policy_decisions", dumpDecisions stored.decisions) ::
          context.misc.entries.filter fun entry => decide (entry.1 ∉ stored.before)

end GlobalContext

/-- Tracks plan progress, results, shared context and execution trace. -/
structure PlanState where
  plan : Plan
  sessionId : String
  currentStep : Option Int
  completedSteps : List Int
  stepResults : Dict Int StepResult
  globalContext : GlobalContext
  executionTrace : List ExecutionTraceEntry
  stepStatus : Dict Int StepStatus
deriving DecidableEq

/-- The part of the plan state a snapshot records. -/
structure PlanStateSummary where
  sessionId : String
  goal : String
  currentStep : Option Int
  completedSteps : List Int
  globalContext : GlobalContext
  stepStatus : List (String × String)
  executionTraceCount : Nat
  compressionCount : Nat
deriving DecidableEq

/-- The steps in increasing order of their ids; steps with equal ids keep their order. -/
def sortById (steps : List PlanStep) : List PlanStep :=
  steps.insertionSort fun a b => a.id ≤ b.id

theorem perm_sortById (steps : List PlanStep) : (sortById steps).Perm steps :=
  List.perm_insertionSort _ _

theorem mem_sortById {steps : List PlanStep} {step : PlanStep} :
    step ∈ sortById steps ↔ step ∈ steps := List.mem_insertionSort _

namespace PlanState

/-- `PlanState.from_plan`. -/
def fromPlan (plan : Plan) (sessionId : String) : PlanState where
  plan := plan
  sessionId := sessionId
  currentStep := none
  completedSteps := []
  stepResults := .empty
  globalContext := {}
  executionTrace := []
  stepStatus := .ofList (plan.steps.map fun step => (step.id, .pending))

/-! ## Status and results -/

def getStepStatus (state : PlanState) (stepId : Int) : Except RaisedError StepStatus :=
  match state.stepStatus.get? stepId with
  | some status => .ok status
  | none => .error (.keyError (toString stepId))

def setStepStatus (state : PlanState) (stepId : Int) (status : StepStatus) : PlanState :=
  { state with
    stepStatus := state.stepStatus.set stepId status
    completedSteps :=
      if status = .completed ∧ stepId ∉ state.completedSteps then state.completedSteps ++ [stepId]
      else state.completedSteps }

def recordStepResult (state : PlanState) (result : StepResult) : PlanState :=
  { state with stepResults := state.stepResults.set result.stepId result }.setStepStatus
    result.stepId result.status

def appendTrace (state : PlanState) (entry : ExecutionTraceEntry) : PlanState :=
  { state with executionTrace := state.executionTrace ++ [entry] }

def resetStepForRetry (state : PlanState) (stepId : Int) : PlanState :=
  { state with
    stepStatus := state.stepStatus.set stepId .pending
    stepResults := state.stepResults.erase stepId
    completedSteps := state.completedSteps.erase stepId }

def finishedStepIds (state : PlanState) : List Int :=
  (state.stepStatus.entries.filter fun entry => entry.2.finished).map Prod.fst

def unfinishedStepIds (state : PlanState) : Except RaisedError (List Int) :=
  state.plan.steps.foldr (fun step acc => do
    let status ← state.getStepStatus step.id
    let rest ← acc
    return if status.finished then rest else step.id :: rest) (.ok [])

/-! ## Ready steps -/

def findStep (state : PlanState) (stepId : Int) : Except RaisedError PlanStep :=
  match state.plan.steps.find? fun step => decide (step.id = stepId) with
  | some step => .ok step
  | none => .error (.keyError s!"Step not found: {stepId}")

def dependenciesMet (state : PlanState) (stepId : Int) : Except RaisedError Bool := do
  let step ← state.findStep stepId
  return step.deps.all fun dep => decide (dep ∈ state.finishedStepIds)

/-- The scan of `next_executable_step` over the sorted steps. -/
def firstExecutable (state : PlanState) : List PlanStep → Except RaisedError (Option Int)
  | [] => .ok none
  | step :: rest => do
      let status ← state.getStepStatus step.id
      if status ≠ .pending then state.firstExecutable rest
      else if ← state.dependenciesMet step.id then return some step.id
      else state.firstExecutable rest

def nextExecutableStep (state : PlanState) : Except RaisedError (Option Int) :=
  state.firstExecutable (sortById state.plan.steps)

/-- The scan of `all_steps_finished`: it stops at the first step that is not settled. -/
def allSettled (state : PlanState) : List PlanStep → Except RaisedError Bool
  | [] => .ok true
  | step :: rest => do
      let status ← state.getStepStatus step.id
      if status.settled then state.allSettled rest else return false

def allStepsFinished (state : PlanState) : Except RaisedError Bool :=
  state.allSettled state.plan.steps

/-! ## Replanning -/

/-- The replacement steps, numbered on from `maxId`. -/
def renumberFrom (maxId : Int) : Nat → List PlanStep → List PlanStep
  | _, [] => []
  | index, step :: rest =>
      { id := maxId + index, task := step.task, toolHint := step.toolHint,
        dependency := normalizeDeps step.deps } :: renumberFrom maxId (index + 1) rest

/-- The largest finished id, or `0`. -/
def maxFinishedId (state : PlanState) : Int := state.finishedStepIds.max?.getD 0

/-- The finished steps of the plan, in plan order. -/
def keptSteps (state : PlanState) : List PlanStep :=
  state.plan.steps.filter fun step => decide (step.id ∈ state.finishedStepIds)

/-- The ids of the steps a replan drops. -/
def removedIds (state : PlanState) : List Int :=
  (state.plan.steps.filter fun step => decide (step.id ∉ state.finishedStepIds)).map PlanStep.id

/-- Replace unfinished steps while preserving completed ones. -/
def applyReplannedSteps (state : PlanState) (newSteps : List PlanStep) : PlanState :=
  let remapped := renumberFrom state.maxFinishedId 1 newSteps
  { state with
    plan := { state.plan with steps := state.keptSteps ++ remapped }
    stepStatus := remapped.foldl (fun acc step => acc.set step.id .pending)
      (state.removedIds.foldl Dict.erase state.stepStatus)
    stepResults := state.removedIds.foldl Dict.erase state.stepResults }

/-- The two steps agree in everything a completed step must keep. -/
def sameStep (a b : PlanStep) : Bool :=
  decide (a.task = b.task ∧ a.toolHint = b.toolHint ∧ a.deps = b.deps)

/-- Put `original` in the place of the first step with this id, if that one differs. The
flag tells whether it did. -/
def restoreStep (stepId : Int) (original : PlanStep) : List PlanStep → List PlanStep × Bool
  | [] => ([], false)
  | step :: rest =>
      if step.id ≠ stepId then
        let restored := restoreStep stepId original rest
        (step :: restored.1, restored.2)
      else if sameStep step original then (step :: rest, false)
      else (original :: rest, true)

/-- Restore completed steps when the replan output modified them; returns the warnings. -/
def restoreCompletedStepSnapshots (steps : List PlanStep) (snapshots : Dict Int PlanStep) :
    List PlanStep × List String :=
  snapshots.entries.foldl (fun acc entry =>
    let restored := restoreStep entry.1 entry.2 acc.1
    (restored.1, if restored.2 then
      acc.2 ++ [s!"Restored immutable completed step {entry.1}: kept task={reprText entry.2.task}"]
      else acc.2)) (steps, [])

/-- Move the entry of `old` to `new`, if there is one. -/
def moveStatus (statuses : Dict Int StepStatus) (old new : Int) : Dict Int StepStatus :=
  match statuses.get? old with
  | some status => (statuses.erase old).set new status
  | none => statuses

/-- Move the result of `old` to `new`, if there is one. -/
def moveResult (results : Dict Int StepResult) (old new : Int) : Dict Int StepResult :=
  match results.get? old with
  | some result => (results.erase old).set new { result with stepId := new }
  | none => results

/-- Rebuild step status and results after plan step ids are renumbered. -/
def remapStepStatus (state : PlanState) (idMap : Dict Int Int) : PlanState :=
  if idMap.entries = [] then state
  else
    let moved := idMap.entries.foldl (fun acc entry => moveStatus acc entry.1 entry.2)
      state.stepStatus
    let results := idMap.entries.foldl (fun acc entry => moveResult acc entry.1 entry.2)
      state.stepResults
    let kept := moved.filterKeys fun stepId => decide (stepId ∈ state.plan.ids)
    let statuses := state.plan.steps.foldl (fun acc step =>
      if acc.contains step.id then acc else acc.set step.id .pending) kept
    { state with
      stepStatus := statuses
      stepResults := results.filterKeys fun stepId => decide (stepId ∈ state.plan.ids)
      completedSteps :=
        (statuses.entries.filter fun entry => decide (entry.2 = .completed)).map Prod.fst }

def summary (state : PlanState) : PlanStateSummary where
  sessionId := state.sessionId
  goal := state.plan.goal
  currentStep := state.currentStep
  completedSteps := state.completedSteps
  globalContext := state.globalContext
  stepStatus := state.stepStatus.entries.map fun entry => (toString entry.1, entry.2.text)
  executionTraceCount := state.executionTrace.length
  compressionCount :=
    match state.globalContext.compressionMeta with
    | some info => info.compressionCount
    | none => 0

/-! ## Lookups after the mutators -/

section Lookups

variable (state : PlanState) (stepId : Int)

@[simp] theorem setStepStatus_plan (status : StepStatus) :
    (state.setStepStatus stepId status).plan = state.plan := rfl

@[simp] theorem setStepStatus_stepStatus (status : StepStatus) :
    (state.setStepStatus stepId status).stepStatus = state.stepStatus.set stepId status := rfl

@[simp] theorem setStepStatus_stepResults (status : StepStatus) :
    (state.setStepStatus stepId status).stepResults = state.stepResults := rfl

@[simp] theorem setStepStatus_globalContext (status : StepStatus) :
    (state.setStepStatus stepId status).globalContext = state.globalContext := rfl

@[simp] theorem recordStepResult_plan (result : StepResult) :
    (state.recordStepResult result).plan = state.plan := rfl

@[simp] theorem recordStepResult_stepStatus (result : StepResult) :
    (state.recordStepResult result).stepStatus =
      state.stepStatus.set result.stepId result.status := rfl

@[simp] theorem recordStepResult_stepResults (result : StepResult) :
    (state.recordStepResult result).stepResults =
      state.stepResults.set result.stepId result := rfl

@[simp] theorem recordStepResult_globalContext (result : StepResult) :
    (state.recordStepResult result).globalContext = state.globalContext := rfl

@[simp] theorem appendTrace_plan (entry : ExecutionTraceEntry) :
    (state.appendTrace entry).plan = state.plan := rfl

@[simp] theorem appendTrace_stepStatus (entry : ExecutionTraceEntry) :
    (state.appendTrace entry).stepStatus = state.stepStatus := rfl

@[simp] theorem appendTrace_stepResults (entry : ExecutionTraceEntry) :
    (state.appendTrace entry).stepResults = state.stepResults := rfl

@[simp] theorem appendTrace_globalContext (entry : ExecutionTraceEntry) :
    (state.appendTrace entry).globalContext = state.globalContext := rfl

@[simp] theorem resetStepForRetry_plan :
    (state.resetStepForRetry stepId).plan = state.plan := rfl

@[simp] theorem resetStepForRetry_stepStatus :
    (state.resetStepForRetry stepId).stepStatus = state.stepStatus.set stepId .pending := rfl

@[simp] theorem resetStepForRetry_stepResults :
    (state.resetStepForRetry stepId).stepResults = state.stepResults.erase stepId := rfl

@[simp] theorem resetStepForRetry_globalContext :
    (state.resetStepForRetry stepId).globalContext = state.globalContext := rfl

theorem mem_finishedStepIds_iff :
    stepId ∈ state.finishedStepIds ↔
      ∃ status, state.stepStatus.get? stepId = some status ∧ status.finished = true := by
  simp only [finishedStepIds, List.mem_map, List.mem_filter, Prod.exists, exists_and_right,
    exists_eq_right]
  constructor
  · rintro ⟨status, hmem, hfinished⟩
    exact ⟨status, Dict.get?_of_mem_entries hmem, hfinished⟩
  · rintro ⟨status, hget, hfinished⟩
    exact ⟨status, Dict.mem_entries_of_get? hget, hfinished⟩

theorem mem_of_findStep {state : PlanState} {stepId : Int} {step : PlanStep}
    (h : state.findStep stepId = .ok step) : step.id = stepId ∧ step ∈ state.plan.steps := by
  unfold PlanState.findStep at h
  split at h
  next own hfind =>
    cases h
    exact ⟨by simpa using List.find?_some hfind, List.mem_of_find?_eq_some hfind⟩
  next => cases h

theorem mem_ids_of_findStep {state : PlanState} {stepId : Int} {step : PlanStep}
    (h : state.findStep stepId = .ok step) : step.id = stepId ∧ stepId ∈ state.plan.ids := by
  obtain ⟨rfl, hmem⟩ := mem_of_findStep h
  exact ⟨rfl, List.mem_map_of_mem hmem⟩

/-- The scan stops at a pending step. -/
theorem pending_of_firstExecutable {state : PlanState} {steps : List PlanStep} {stepId : Int}
    (h : state.firstExecutable steps = .ok (some stepId)) :
    state.stepStatus.get? stepId = some .pending := by
  induction steps with
  | nil => cases h
  | cons step rest ih =>
      simp only [firstExecutable, getStepStatus] at h
      split at h
      next status hstatus =>
        change (if status ≠ .pending then _ else _) = _ at h
        split at h
        next => exact ih h
        next hpending =>
          cases hmet : state.dependenciesMet step.id with
          | error error =>
              rw [hmet] at h
              cases h
          | ok met =>
              rw [hmet] at h
              cases met with
              | true =>
                  cases h
                  rw [hstatus, not_not.mp hpending]
              | false => exact ih h
      next => cases h

theorem pending_of_nextExecutableStep {state : PlanState} {stepId : Int}
    (h : state.nextExecutableStep = .ok (some stepId)) :
    state.stepStatus.get? stepId = some .pending := pending_of_firstExecutable h

end Lookups

/-- A fresh state has exactly the steps of its plan, all pending. -/
theorem fromPlan_status {plan : Plan} (hnodup : plan.ids.Nodup) (sessionId : String)
    (stepId : Int) :
    (fromPlan plan sessionId).stepStatus.get? stepId =
      if stepId ∈ plan.ids then some .pending else none := by
  have hkeys : (plan.steps.map fun step => (step.id, StepStatus.pending)).map Prod.fst =
      plan.ids := by
    simp [Plan.ids, Function.comp_def]
  split
  next hmem =>
    obtain ⟨step, hstep, rfl⟩ := List.mem_map.mp hmem
    exact Dict.get?_ofList (by rw [hkeys]; exact hnodup) (List.mem_map.mpr ⟨step, hstep, rfl⟩)
  next hmem => exact Dict.get?_ofList_none (by rwa [hkeys])

/-! ## Replanned steps -/

section Replanned

variable (state : PlanState) (newSteps : List PlanStep)

theorem mem_ids_renumberFrom {maxId : Int} {index : Nat} {steps : List PlanStep} {stepId : Int} :
    stepId ∈ (renumberFrom maxId index steps).map PlanStep.id ↔
      maxId + index ≤ stepId ∧ stepId < maxId + index + steps.length := by
  induction steps generalizing index with
  | nil =>
      simp only [renumberFrom, List.map_nil, List.not_mem_nil, List.length_nil, false_iff]
      omega
  | cons step rest ih =>
      simp only [renumberFrom, List.map_cons, List.mem_cons, ih, List.length_cons]
      omega

@[simp] theorem length_renumberFrom (maxId : Int) (index : Nat) (steps : List PlanStep) :
    (renumberFrom maxId index steps).length = steps.length := by
  induction steps generalizing index with
  | nil => rfl
  | cons step rest ih => simp [renumberFrom, ih]

theorem get?_foldl_erase {ν : Type} (ids : List Int) (d : Dict Int ν) (stepId : Int) :
    (ids.foldl Dict.erase d).get? stepId = if stepId ∈ ids then none else d.get? stepId := by
  induction ids generalizing d with
  | nil => simp
  | cons own rest ih =>
      rw [List.foldl_cons, ih, Dict.get?_erase]
      by_cases hrest : stepId ∈ rest <;> by_cases hown : stepId = own <;> simp [hrest, hown]

theorem get?_foldl_pending (steps : List PlanStep) (d : Dict Int StepStatus) (stepId : Int) :
    (steps.foldl (fun acc step => acc.set step.id .pending) d).get? stepId =
      if stepId ∈ steps.map PlanStep.id then some .pending else d.get? stepId := by
  induction steps generalizing d with
  | nil => simp
  | cons step rest ih =>
      rw [List.foldl_cons, ih, Dict.get?_set, List.map_cons]
      by_cases hrest : stepId ∈ rest.map PlanStep.id <;> by_cases hown : stepId = step.id <;>
        simp [hrest, hown]

/-- The ids the replacement steps get. -/
def Renumbered (stepId : Int) : Prop :=
  state.maxFinishedId < stepId ∧ stepId ≤ state.maxFinishedId + newSteps.length

instance (stepId : Int) : Decidable (state.Renumbered newSteps stepId) :=
  inferInstanceAs (Decidable (_ ∧ _))

theorem mem_ids_remapped {stepId : Int} :
    stepId ∈ (renumberFrom state.maxFinishedId 1 newSteps).map PlanStep.id ↔
      state.Renumbered newSteps stepId := by
  rw [mem_ids_renumberFrom, Renumbered]
  omega

theorem get?_status_applyReplannedSteps (stepId : Int) :
    (state.applyReplannedSteps newSteps).stepStatus.get? stepId =
      if state.Renumbered newSteps stepId then some .pending
      else if stepId ∈ state.removedIds then none else state.stepStatus.get? stepId := by
  simp only [applyReplannedSteps, get?_foldl_pending, get?_foldl_erase, mem_ids_remapped]

theorem get?_result_applyReplannedSteps (stepId : Int) :
    (state.applyReplannedSteps newSteps).stepResults.get? stepId =
      if stepId ∈ state.removedIds then none else state.stepResults.get? stepId :=
  get?_foldl_erase _ _ _

theorem mem_removedIds_iff {stepId : Int} :
    stepId ∈ state.removedIds ↔ stepId ∈ state.plan.ids ∧ stepId ∉ state.finishedStepIds := by
  simp only [removedIds, Plan.ids, List.mem_map, List.mem_filter, decide_eq_true_eq]
  constructor
  · rintro ⟨step, ⟨hmem, hnot⟩, rfl⟩
    exact ⟨⟨step, hmem, rfl⟩, hnot⟩
  · rintro ⟨⟨step, hmem, rfl⟩, hnot⟩
    exact ⟨step, ⟨hmem, hnot⟩, rfl⟩

theorem le_maxFinishedId {state : PlanState} {stepId : Int} (h : stepId ∈ state.finishedStepIds) :
    stepId ≤ state.maxFinishedId := by
  cases hmax : state.finishedStepIds.max? with
  | none =>
      rw [List.max?_eq_none_iff] at hmax
      rw [hmax] at h
      cases h
  | some last =>
      rw [maxFinishedId, hmax, Option.getD_some]
      exact (List.max?_eq_some_iff.mp hmax).2 stepId h

/-- The largest finished id depends on which steps are finished only. -/
theorem maxFinishedId_congr {state state' : PlanState}
    (h : ∀ stepId, stepId ∈ state'.finishedStepIds ↔ stepId ∈ state.finishedStepIds) :
    state'.maxFinishedId = state.maxFinishedId := by
  have hmax : state'.finishedStepIds.max? = state.finishedStepIds.max? := by
    cases hown : state.finishedStepIds.max? with
    | none =>
        rw [List.max?_eq_none_iff] at hown ⊢
        exact List.eq_nil_iff_forall_not_mem.mpr fun stepId hmem => by
          simpa [hown] using (h stepId).mp hmem
    | some own =>
        rw [List.max?_eq_some_iff] at hown ⊢
        exact ⟨(h own).mpr hown.1, fun other hother => hown.2 other ((h other).mp hother)⟩
  simp only [maxFinishedId, hmax]

end Replanned

end PlanState

end TripGraph
