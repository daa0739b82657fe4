import Mathlib.Data.Rat.Floor
import TripGraph.Plan.Repair
import TripGraph.Plan.Validator
import TripGraph.Runtime.Operation

/-! # Critic-driven replanning

A failed replan is rolled back to a snapshot. The snapshot is made of mutable objects, and
restoring it installs these very objects in the state, so the model keeps the objects of
the state and of the snapshot in a heap and both as references into it.
-/

namespace TripGraph

open Interaction

structure ReplanningConfig where
  enabled : Bool := true
  maxReplanAttempts : Nat := 2
deriving DecidableEq

/-! ## Plan states on a heap -/

/-- The mutable objects of plan states, by reference. -/
structure PlanHeap where
  plans : Ref → Plan
  statuses : Ref → Dict Int StepStatus
  results : Ref → Dict Int StepResult
  completed : Ref → List Int
  traces : Ref → List ExecutionTraceEntry
  next : Ref

/-- The references to the five mutable objects of a plan state; what
`snapshot_for_replan` returns is made of the same five. -/
structure PlanRefs where
  plan : Ref
  stepStatus : Ref
  stepResults : Ref
  completedSteps : Ref
  executionTrace : Ref

/-- A plan state as the controller holds it: its mutable objects are on the heap. -/
structure LivePlanState where
  heap : PlanHeap
  refs : PlanRefs
  sessionId : String
  currentStep : Option Int
  globalContext : GlobalContext

/-- A store with one cell changed. -/
def writeCell {α : Type} (cells : Ref → α) (ref : Ref) (value : α) : Ref → α :=
  fun own => if own = ref then value else cells own

namespace PlanHeap

/-- Five new objects at the next free reference. -/
def allocate (heap : PlanHeap) (plan : Plan) (stepStatus : Dict Int StepStatus)
    (stepResults : Dict Int StepResult) (completedSteps : List Int)
    (executionTrace : List ExecutionTraceEntry) : PlanRefs × PlanHeap :=
  (⟨heap.next, heap.next, heap.next, heap.next, heap.next⟩,
    { plans := writeCell heap.plans heap.next plan
      statuses := writeCell heap.statuses heap.next stepStatus
      results := writeCell heap.results heap.next stepResults
      completed := writeCell heap.completed heap.next completedSteps
      traces := writeCell heap.traces heap.next executionTrace
      next := heap.next + 1 })

end PlanHeap

namespace LivePlanState

/-- The value of the state: its references followed. -/
def view (live : LivePlanState) : PlanState where
  plan := live.heap.plans live.refs.plan
  sessionId := live.sessionId
  currentStep := live.currentStep
  completedSteps := live.heap.completed live.refs.completedSteps
  stepResults := live.heap.results live.refs.stepResults
  globalContext := live.globalContext
  executionTrace := live.heap.traces live.refs.executionTrace
  stepStatus := live.heap.statuses live.refs.stepStatus

/-- A plan state put on an empty heap. -/
def ofValue (state : PlanState) : LivePlanState where
  heap :=
    { plans := fun _ => state.plan
      statuses := fun _ => state.stepStatus
      results := fun _ => state.stepResults
      completed := fun _ => state.completedSteps
      traces := fun _ => state.executionTrace
      next := 1 }
  refs := ⟨0, 0, 0, 0, 0⟩
  sessionId := state.sessionId
  currentStep := state.currentStep
  globalContext := state.globalContext

/-- `append_trace`: the entry goes into the trace object. -/
def appendTrace (live : LivePlanState) (entry : ExecutionTraceEntry) : LivePlanState :=
  { live with heap := { live.heap with
      traces := writeCell live.heap.traces live.refs.executionTrace
        (live.view.appendTrace entry).executionTrace } }

/-- `snapshot_for_replan`: copies of the five objects. -/
def snapshotForReplan (live : LivePlanState) : PlanRefs × LivePlanState :=
  let state := live.view
  let copied := live.heap.allocate state.plan state.stepStatus state.stepResults
    state.completedSteps state.executionTrace
  (copied.1, { live with heap := copied.2 })

/-- `restore_snapshot`: the state takes over the objects of the snapshot. -/
def restoreSnapshot (live : LivePlanState) (snapshot : PlanRefs) : LivePlanState :=
  { live with refs := snapshot }

/-- `apply_replanned_steps` changes the plan, the statuses and the results in place. -/
def applyReplannedSteps (live : LivePlanState) (newSteps : List PlanStep) : LivePlanState :=
  let applied := live.view.applyReplannedSteps newSteps
  { live with heap := { live.heap with
      plans := writeCell live.heap.plans live.refs.plan applied.plan
      statuses := writeCell live.heap.statuses live.refs.stepStatus applied.stepStatus
      results := writeCell live.heap.results live.refs.stepResults applied.stepResults } }

/-- `state.plan = plan`: another plan object. -/
def assignPlan (live : LivePlanState) (plan : Plan) : LivePlanState :=
  { live with
    heap := { live.heap with
      plans := writeCell live.heap.plans live.heap.next plan
      next := live.heap.next + 1 }
    refs := { live.refs with plan := live.heap.next } }

/-- `state._step_status = statuses`: another status map. -/
def assignStatus (live : LivePlanState) (statuses : Dict Int StepStatus) : LivePlanState :=
  { live with
    heap := { live.heap with
      statuses := writeCell live.heap.statuses live.heap.next statuses
      next := live.heap.next + 1 }
    refs := { live.refs with stepStatus := live.heap.next } }

/-- `remap_step_status` builds a status map, a result map and a list of completed steps. -/
def remapStepStatus (live : LivePlanState) (idMap : Dict Int Int) : LivePlanState :=
  if idMap.entries = [] then live
  else
    let remapped := live.view.remapStepStatus idMap
    { live with
      heap := { live.heap with
        statuses := writeCell live.heap.statuses live.heap.next remapped.stepStatus
        results := writeCell live.heap.results live.heap.next remapped.stepResults
        completed := writeCell live.heap.completed live.heap.next remapped.completedSteps
        next := live.heap.next + 1 }
      refs := { live.refs with
        stepStatus := live.heap.next
        stepResults := live.heap.next
        completedSteps := live.heap.next } }

/-- `restore_completed_step_snapshots` changes the steps of the plan object in place. -/
def restoreCompletedStepSnapshots (live : LivePlanState) (snapshots : Dict Int PlanStep) :
    LivePlanState × List String :=
  let plan := live.view.plan
  let restored := PlanState.restoreCompletedStepSnapshots plan.steps snapshots
  ({ live with heap := { live.heap with
      plans := writeCell live.heap.plans live.refs.plan { plan with steps := restored.1 } } },
    restored.2)

end LivePlanState

/-! ## The controller -/

/-- What is noted while replacement steps are applied. -/
structure ReplanApplyMeta where
  repairApplied : Bool := false
  fallbackUsed : Bool := false
  repairNotes : List String := []
  validationErrors : List String := []
  completedStepOverrides : List String := []
deriving DecidableEq

/-- Runtime outcome including the plan state. -/
structure ReplanningOutcome where
  result : ReplanningResult
  updatedState : PlanState
deriving DecidableEq

/-- `f"{value:.2f}"`. -/
def showFixed2 (value : Rat) : String :=
  let scaled := |value| * 100
  let low := scaled.floor.toNat
  let rest := scaled - low
  let rounded := if rest < 1 / 2 ∨ (rest = 1 / 2 ∧ low % 2 = 0) then low else low + 1
  let cents := rounded % 100
  (if value < 0 then "-" else "") ++ s!"{rounded / 100}." ++ (if cents < 10 then "0" else "") ++
    toString cents

namespace ReplanningController

/-- An attempt to apply replacement steps: the state, the notes and whether it succeeded. -/
structure Attempt where
  live : LivePlanState
  notes : ReplanApplyMeta
  applied : Bool

variable (registry : List String)

/-- `_validate_or_repair_plan`. -/
def validateOrRepairPlan (live : LivePlanState) (preApplyStatus : Dict Int StepStatus)
    (notes : ReplanApplyMeta) : Attempt :=
  let report := PlanValidator.validate registry live.view.plan
  if report.success then ⟨live, notes, true⟩
  else
    let repair := Repair.repairPlan live.view.plan
    if !repair.repaired then ⟨live, { notes with validationErrors := report.errors }, false⟩
    else
      let repairedNotes := { notes with
        validationErrors := report.errors
        repairApplied := true
        repairNotes := notes.repairNotes ++ repair.notes }
      let replaced := live.assignPlan repair.plan
      let remapped :=
        if repair.idMap.entries ≠ [] then replaced.remapStepStatus repair.idMap
        else replaced.assignStatus preApplyStatus
      let second := PlanValidator.validate registry remapped.view.plan
      if second.success then ⟨remapped, { repairedNotes with validationErrors := [] }, true⟩
      else ⟨remapped, { repairedNotes with validationErrors := second.errors }, false⟩

/-- The check of one completed step in `_assert_completed_steps_preserved`. -/
def checkPreserved (steps : List PlanStep) (stepId : Int) (original : PlanStep) : Option String :=
  match steps.find? fun step => decide (step.id = stepId) with
  | none =>
      if steps.any fun step => decide (step.task = original.task) then none
      else some s!"Completed step {stepId} was removed during replan"
  | some step =>
      if PlanState.sameStep step original then none
      else some s!"Completed step {stepId} task was modified during replan"

/-- `_assert_completed_steps_preserved`: the message of the first violation. -/
def assertCompletedStepsPreserved (steps : List PlanStep) (completedBefore : Dict Int PlanStep) :
    Option String :=
  completedBefore.entries.findSome? fun entry => checkPreserved steps entry.1 entry.2

/-- The replacement steps after `repair_steps`. -/
def repairedSteps (newSteps : List PlanStep) : List PlanStep :=
  let repair := Repair.repairSteps newSteps
  if repair.repaired then repair.plan.steps else newSteps

/-- The notes after `repair_steps`. -/
def repairedNotes (newSteps : List PlanStep) (notes : ReplanApplyMeta) : ReplanApplyMeta :=
  let repair := Repair.repairSteps newSteps
  if repair.repaired then
    { notes with repairApplied := true, repairNotes := notes.repairNotes ++ repair.notes }
  else notes

/-- What follows a valid plan: completed steps are restored and then checked. -/
def restoreAndCheck (valid : Attempt) (completedBefore : Dict Int PlanStep) : Attempt :=
  let restored := valid.live.restoreCompletedStepSnapshots completedBefore
  let notes :=
    if restored.2 = [] then valid.notes
    else { valid.notes with
      completedStepOverrides := valid.notes.completedStepOverrides ++ restored.2
      repairApplied := true }
  match assertCompletedStepsPreserved restored.1.view.plan.steps completedBefore with
  | none => ⟨restored.1, notes, true⟩
  | some message => ⟨restored.1, { notes with validationErrors := [message] }, false⟩

/-- `_try_apply_replan_steps`. -/
def tryApplyReplanSteps (live : LivePlanState) (newSteps : List PlanStep)
    (completedBefore : Dict Int PlanStep) (notes : ReplanApplyMeta) : Attempt :=
  let preApplyStatus := live.view.stepStatus
  let applied := live.applyReplannedSteps (repairedSteps newSteps)
  let valid := validateOrRepairPlan registry applied preApplyStatus (repairedNotes newSteps notes)
  if valid.applied then restoreAndCheck valid completedBefore else valid

/-! ## Traces and reasons -/

/-- `_build_replan_reason`. -/
def buildReplanReason (critique : ExecutionCritique) : String :=
  " | ".intercalate ([critique.critique] ++
    (if critique.missingInfo = [] then []
      else ["Missing: " ++ ", ".intercalate critique.missingInfo]) ++
    [s!"score={showFixed2 critique.score}"])

/-- `_replan_anchor_step_id`. -/
def replanAnchorStepId (state : PlanState) : Except RaisedError Int := do
  let unfinished ← state.unfinishedStepIds
  match unfinished with
  | stepId :: _ => return stepId
  | [] =>
      match (state.stepStatus.entries.filter fun entry => decide (entry.2 = .failed)).head? with
      | some entry => return entry.1
      | none => return state.completedSteps.getLast?.getD 0

def replanTraceEntry (replanReason : String) (anchorStepId : Int) : ExecutionTraceEntry where
  stepId := anchorStepId
  task := "[replan] critic-driven plan rewrite"
  status := .pending
  error := some replanReason
  recoveryAction := some "critic_replan"

def recoveryTraceEntry (anchorStepId : Int) (recoveryAction detail : String) :
    ExecutionTraceEntry where
  stepId := anchorStepId
  task := s!"[replan] {recoveryAction}"
  status := .pending
  success := some (decide (recoveryAction ≠ "replan_failed"))
  error := some detail
  recoveryAction := some recoveryAction

/-- `_completed_step_snapshot`. -/
def completedStepSnapshot (state : PlanState) : Dict Int PlanStep :=
  .ofList (state.keptSteps.map fun step => (step.id, step))

/-- `"; ".join(items) or fallback`. -/
def joinOr (items : List String) (fallback : String) : String :=
  orText (some ("; ".intercalate items)) fallback

/-! ## Handling a critique -/

/-- `_no_replan`. -/
def noReplan (state : PlanState) (skippedReason : String) : Runtime ReplanningOutcome := do
  let attempts ← ask .attemptsUsed
  pure ⟨{ replanned := false, newPlan := state.plan, replanAttempt := attempts,
          skippedReason := some skippedReason }, state⟩

/-- The result fields taken from the notes of the last attempt. -/
def resultOf (attempt : Attempt) (replanReason : String) (attempts : Nat) : ReplanningResult where
  replanned := attempt.applied
  newPlan := attempt.live.view.plan
  replanReason := some replanReason
  replanAttempt := attempts
  skippedReason := if attempt.applied then none else some "replan_validation_failed"
  repairApplied := attempt.notes.repairApplied
  fallbackUsed := attempt.notes.fallbackUsed
  repairNotes := attempt.notes.repairNotes
  validationErrors := attempt.notes.validationErrors
  completedStepOverrides := attempt.notes.completedStepOverrides

/-- The last attempt with the trace entries and the rollback that follow it. -/
def conclude (attempt : Attempt) (snapshot : PlanRefs) (anchorStepId : Int) : Attempt :=
  let notes := attempt.notes
  if attempt.applied then
    if notes.repairApplied then
      let entry := recoveryTraceEntry anchorStepId "replan_repair"
        (joinOr notes.repairNotes "plan repair applied")
      { attempt with live := attempt.live.appendTrace entry }
    else attempt
  else
    let entry := recoveryTraceEntry anchorStepId "replan_failed"
      (joinOr notes.validationErrors "validation failed")
    { attempt with live := (attempt.live.restoreSnapshot snapshot).appendTrace entry }

/-- The second attempt, with the answer of the rule-based planner. It runs on the objects of
the snapshot, which the first rollback has installed. -/
def fallbackAttempt (live : LivePlanState) (fallbackSteps : List PlanStep)
    (completedBefore : Dict Int PlanStep) (anchorStepId : Int) : Attempt :=
  let attempt := tryApplyReplanSteps registry live fallbackSteps completedBefore
    { fallbackUsed := true }
  if attempt.applied then
    let entry := recoveryTraceEntry anchorStepId "replan_fallback"
      "RuleBased replan fallback applied after validation failure"
    { attempt with live := attempt.live.appendTrace entry }
  else attempt

/-- `_replan`. -/
def replan (critique : ExecutionCritique) (state : PlanState) : Runtime ReplanningOutcome := do
  ask .countAttempt
  let reason := buildReplanReason critique
  let completedBefore := completedStepSnapshot state
  let anchorStepId ← Program.ofExcept (replanAnchorStepId state)
  let traced := (LivePlanState.ofValue state).appendTrace (replanTraceEntry reason anchorStepId)
  let (snapshot, live) := traced.snapshotForReplan
  let answer ← ask (.replanFromCritique live.view critique anchorStepId)
  let newSteps ← Program.ofExcept answer
  let first := tryApplyReplanSteps registry live newSteps completedBefore {}
  let last ←
    if first.applied then pure first
    else
      let restored := first.live.restoreSnapshot snapshot
      let answer ← ask (.rulebasedReplanFromCritique restored.view critique anchorStepId)
      let fallbackSteps ← Program.ofExcept answer
      pure (fallbackAttempt registry restored fallbackSteps completedBefore anchorStepId)
  let concluded := conclude last snapshot anchorStepId
  let attempts ← ask .attemptsUsed
  pure ⟨resultOf concluded reason attempts, concluded.live.view⟩

/-- `ReplanningController.handle`. -/
def handle (config : ReplanningConfig) (critique : ExecutionCritique) (state : PlanState) :
    Runtime ReplanningOutcome :=
  if !critique.needReplan then noReplan state "critic_need_replan=false"
  else if !config.enabled then noReplan state "critic_replan_disabled"
  else do
    let attempts ← ask .attemptsUsed
    if config.maxReplanAttempts ≤ attempts then
      noReplan state s!"max_replan_attempts={config.maxReplanAttempts}"
    else replan registry critique state

end ReplanningController

end TripGraph
