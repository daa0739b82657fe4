import TripGraph.Plan.Executor
import TripGraph.Plan.Replanning
import TripGraph.Schemas.Textual

/-! # Decoded values in plan states

A tool answers with decoded JSON. As long as the tools do, no dictionary among the results and
in the context of a plan state has a key that is not text.
-/

namespace TripGraph

open Interaction

/-! ## Hashes and replies -/

/-- What stands for the exception `hash_state` raises. -/
def raisedHash : String := ""

/-- The hashes an event of the engine shows. -/
def GraphEvent.hashes : GraphEvent → List String
  | .nodeStart _ _ inputStateHash _ => [inputStateHash]
  | .nodeEnd _ _ inputStateHash outputStateHash _ => [inputStateHash, outputStateHash]
  | .parallelNodeStart _ inputStateHash _ => [inputStateHash]
  | .parallelNodeEnd _ inputStateHash outputStateHash _ => [inputStateHash, outputStateHash]
  | _ => []

/-- The hashes an operation is given. -/
def Op.hashes : Op → List String
  | .maybePause _ _ inputStateHash _ => [inputStateHash]
  | .addNodeRecord _ record => [record.inputStateHash, record.outputStateHash]
  | .yield event => event.hashes
  | .pushEvent _ event => event.hashes
  | _ => []

/-- Each hash the operation is given has been computed. What a commit hashes is hashed for a node
record or an event as well. -/
def Op.Hashed (op : Op) : Prop := raisedHash ∉ op.hashes

/-! ## Plan states -/

/-- A dictionary of textual values. -/
abbrev TextualValues {κ : Type} (values : Dict κ Value) : Prop :=
  values.Each fun _ value => value.Textual

/-- All values of the context are textual. -/
structure GlobalContext.Textual (context : GlobalContext) : Prop where
  misc : TextualValues context.misc
  stepOutputs : ∀ outputs, context.stepOutputs = some outputs → TextualValues outputs
  toolOutputs : ∀ outputs, context.toolOutputs = some outputs → TextualValues outputs
  toolArgs : ∀ args, context.toolArgs = some args →
    args.Each fun _ own => ∀ entry ∈ own, entry.2.Textual

/-- The observations of the results are textual. -/
abbrev TextualResults (results : Dict Int StepResult) : Prop :=
  results.Each fun _ result => result.observation.Textual

/-- All values in the results and in the context are textual. -/
structure PlanState.Textual (state : PlanState) : Prop where
  results : TextualResults state.stepResults
  context : state.globalContext.Textual

theorem textualValues_getD {κ : Type} {values : Option (Dict κ Value)}
    (h : ∀ own, values = some own → TextualValues own) :
    TextualValues (values.getD .empty) := by
  cases values with
  | none => exact Dict.each_empty
  | some own => exact h own rfl

namespace PlanState.Textual

variable {state : PlanState}

theorem of_same (h : state.Textual) {after : PlanState}
    (hresults : after.stepResults = state.stepResults)
    (hcontext : after.globalContext = state.globalContext) : after.Textual :=
  ⟨hresults ▸ h.results, hcontext ▸ h.context⟩

theorem fromPlan (plan : Plan) (sessionId : String) : (fromPlan plan sessionId).Textual where
  results := Dict.each_empty
  context := ⟨Dict.each_empty, nofun, nofun, nofun⟩

theorem recordStepResult (h : state.Textual) {result : StepResult}
    (hresult : result.observation.Textual) : (state.recordStepResult result).Textual :=
  ⟨h.results.set hresult, h.context⟩

theorem resetStepForRetry (h : state.Textual) (stepId : Int) :
    (state.resetStepForRetry stepId).Textual := ⟨h.results.erase stepId, h.context⟩

theorem applyReplannedSteps (h : state.Textual) (newSteps : List PlanStep) :
    (state.applyReplannedSteps newSteps).Textual := by
  refine ⟨?_, h.context⟩
  change TextualResults (state.removedIds.foldl Dict.erase state.stepResults)
  have herase : ∀ (ids : List Int) {results : Dict Int StepResult}, TextualResults results →
      TextualResults (ids.foldl Dict.erase results) := by
    intro ids
    induction ids with
    | nil => exact id
    | cons stepId rest ih => exact fun hresults => ih (hresults.erase stepId)
  exact herase _ h.results

theorem setPolicyDecision (h : state.Textual) (stepId : Int) (decision : ToolPolicyDecision) :
    (state.setPolicyDecision stepId decision).Textual :=
  ⟨h.results, h.context.misc, h.context.stepOutputs, h.context.toolOutputs, h.context.toolArgs⟩

theorem mergeObservation (h : state.Textual) (stepId : Int) {result : StepResult}
    (hresult : result.observation.Textual) : (state.mergeObservation stepId result).Textual := by
  have houtputs : TextualValues ((state.globalContext.stepOutputs.getD .empty).set stepId
      result.observation) := (textualValues_getD h.context.stepOutputs).set hresult
  have hcontext : GlobalContext.Textual { state.globalContext with
      stepOutputs := some ((state.globalContext.stepOutputs.getD .empty).set stepId
        result.observation) } :=
    ⟨h.context.misc, fun _ hown => Option.some.inj hown ▸ houtputs, h.context.toolOutputs,
      h.context.toolArgs⟩
  unfold PlanState.mergeObservation
  dsimp only
  split
  next tool htool =>
    split
    · exact ⟨h.results, hcontext⟩
    · have htools : TextualValues ((state.globalContext.toolOutputs.getD .empty).set tool
          result.observation) := (textualValues_getD h.context.toolOutputs).set hresult
      exact ⟨h.results, h.context.misc, hcontext.stepOutputs,
        fun _ hown => Option.some.inj hown ▸ htools, h.context.toolArgs⟩
  next => exact ⟨h.results, hcontext⟩

theorem compressed (h : state.Textual) (config : ExecutorConfig)
    (summary : ContextCompressionResult) (size : Nat) :
    PlanState.Textual { state with globalContext :=
      ContextCompressor.buildReplacedContext config state summary size } :=
  ⟨h.results, h.context.misc.filterKeys _, h.context.stepOutputs, h.context.toolOutputs,
    h.context.toolArgs⟩

theorem textualResults_moveResult {results : Dict Int StepResult} (h : TextualResults results)
    (old new : Int) : TextualResults (moveResult results old new) := by
  unfold moveResult
  split
  next result hresult =>
    have hobservation : result.observation.Textual := h.of_get? hresult
    exact (h.erase old).set hobservation
  next => exact h

theorem remapStepStatus (h : state.Textual) (idMap : Dict Int Int) :
    (state.remapStepStatus idMap).Textual := by
  have hmove : ∀ (entries : List (Int × Int)) {results : Dict Int StepResult},
      TextualResults results →
      TextualResults (entries.foldl (fun acc entry => moveResult acc entry.1 entry.2) results) := by
    intro entries
    induction entries with
    | nil => exact id
    | cons entry rest ih => exact fun hresults => ih (textualResults_moveResult hresults _ _)
  unfold PlanState.remapStepStatus
  split
  · exact h
  · exact ⟨(hmove _ h.results).filterKeys _, h.context⟩

end PlanState.Textual

/-- The values can be serialised with their keys sorted. -/
def sortableValues {κ : Type} (values : Dict κ Value) : Bool :=
  values.entries.all fun entry => entry.2.sortable

def GlobalContext.sortable (context : GlobalContext) : Bool :=
  sortableValues context.misc && context.stepOutputs.all sortableValues &&
    context.toolOutputs.all sortableValues && context.toolArgs.all fun args =>
      args.entries.all fun own => own.2.all fun entry => entry.2.sortable

theorem TextualValues.sortable {κ : Type} {values : Dict κ Value} (h : TextualValues values) :
    sortableValues values = true :=
  List.all_eq_true.mpr fun entry hmem => (h entry hmem).sortable

theorem GlobalContext.Textual.sortable {context : GlobalContext} (h : context.Textual) :
    context.sortable = true := by
  have hargs : (context.toolArgs.all fun args =>
      args.entries.all fun own => own.2.all fun entry => entry.2.sortable) = true := by
    simp only [Option.all_eq_true, List.all_eq_true]
    exact fun args hsome own hown entry hentry =>
      (h.toolArgs args hsome own hown entry hentry).sortable
  simp only [GlobalContext.sortable, hargs, Bool.and_true, Bool.and_eq_true, Option.all_eq_true]
  exact ⟨⟨TextualValues.sortable h.misc,
    fun own hown => TextualValues.sortable (h.stepOutputs own hown)⟩,
    fun own hown => TextualValues.sortable (h.toolOutputs own hown)⟩

/-! ## Snapshots -/

/-- Step outputs are kept by step id; all other observations are textual. -/
abbrev Noted (observations : Dict String Value) : Prop :=
  observations.Each fun key value => if key = "step_outputs" then value.ByStep else value.Textual

/-- What a snapshot restores is textual, save for the step outputs. -/
structure Snapshot.Textual (snap : Snapshot) : Prop where
  messages : ∀ message ∈ snap.messages, message.Textual
  observations : Noted snap.observations
  shortTermMemory : ∀ entry ∈ snap.shortTermMemory, entry.Textual
  longTermMemory : ∀ entry ∈ snap.longTermMemory, entry.Textual
  episodicMemory : ∀ entry ∈ snap.episodicMemory, entry.Textual
  memory : TextualValues snap.memory

/-- Tools and the memory store reply with decoded values, and a replay with such snapshots. -/
def Op.Decoded : (op : Op) → op.Reply → Prop
  | .executeLlmCall .., observation => observation.output.Textual
  | .memoryGet _, answer => ∀ entries, answer = .ok entries → ∀ entry ∈ entries, entry.Textual
  | .peekReplayRecord _, record => ∀ own, record = some own →
      ∀ snapshot, own.outputStateSnapshot = some snapshot → snapshot.Textual
  | _, _ => True

/-- On decoded replies, the program is given no raised hash and returns values in `Q`. -/
abbrev Hashes {ε α : Type} (Q : α → Prop) (p : Effect ε α) : Prop :=
  Program.Ensures (S := runtimeSig) Op.Decoded Op.Hashed Q p

theorem hashes_ofExcept {ε α : Type} {value : Except ε α} :
    Hashes (fun _ => True) (Program.ofExcept value : Effect ε α) := by simp

/-- An operation without hashes. -/
theorem hashes_asking {ε α : Type} {op : Op} {Q : α → Prop} {f : op.Reply → Effect ε α}
    (hop : op.hashes = []) (hf : ∀ reply, op.Decoded reply → Hashes Q (f reply)) :
    Hashes Q (ask op >>= f) := by
  refine ensures_asking ?_ hf
  rw [Op.Hashed, hop]
  exact List.not_mem_nil

/-! ## What the executor leaves -/

namespace PlanExecutor

variable {config : ExecutorConfig} {step : PlanStep} {state : PlanState}

theorem hashes_orRaise {α : Type} (state : PlanState) (value : Except RaisedError α) :
    Hashes (fun _ => True) (orRaise state value) := by
  cases value <;> trivial

/-- A fallback leaves textual values, in the plan state and in what it has observed. -/
theorem hashes_tryCandidates (h : state.Textual) {toolArgs : Args} {attempt : Nat}
    {failedTool failureReason : String} {decision : ToolPolicyDecision} (candidates : List String) :
    Hashes (fun fallback => (∀ own, fallback.1 = some own → own.1.output.Textual) ∧
        fallback.2.Textual)
      (tryCandidates config step toolArgs attempt failedTool decision failureReason candidates
        state) := by
  induction candidates generalizing state with
  | nil => exact ⟨nofun, h⟩
  | cons tool rest ih =>
      have hleaf : ∀ (observation : ToolObservation), observation.output.Textual →
          ∀ own : ToolPolicyDecision, Hashes
            (fun fallback : Option (ToolObservation × String × String) × PlanState =>
              (∀ own, fallback.1 = some own → own.1.output.Textual) ∧ fallback.2.Textual)
            (if observation.success then
              pure (some (observation, tool, recoveryActionForFallback failedTool tool),
                (state.setPolicyDecision step.id own).setToolHint step.id tool)
            else tryCandidates config step toolArgs attempt failedTool decision failureReason rest
              (state.setPolicyDecision step.id own) : Execution _) := by
        intro observation hobservation own
        have hnext := h.setPolicyDecision step.id own
        split
        · refine ⟨fun fallback hfallback => ?_, hnext.of_same rfl rfl⟩
          rw [← Option.some.inj hfallback]
          exact hobservation
        · exact ih hnext
      rw [tryCandidates]
      split
      · exact ih h
      · refine hashes_asking rfl fun observation hobservation => ?_
        dsimp only
        split
        · exact hashes_asking rfl fun _ _ => hleaf observation hobservation _
        · exact hleaf observation hobservation _

theorem textual_toolResult {toolArgs : Args} {attempt : Nat} {observation : ToolObservation}
    (h : observation.output.Textual) (finalTool : String) (recoveryAction : Option String) :
    (toolResult step toolArgs attempt observation finalTool
      recoveryAction).observation.Textual := by
  unfold toolResult
  split
  · exact h
  · trivial

theorem hashes_executeStep (h : state.Textual) (step : PlanStep) (attempt : Nat) :
    Hashes (fun executed => executed.1.observation.Textual ∧ executed.2.2.Textual)
      (executeStep config step state attempt) := by
  have hnone : (executeStep.withoutTool step attempt).observation.Textual :=
    Value.textual_ofEntries (by simp)
  unfold executeStep
  split
  · exact ⟨hnone, h⟩
  next hint _ =>
    split
    · exact ⟨hnone, h⟩
    split
    · exact ⟨trivial, h⟩
    next toolArgs _ =>
      refine hashes_asking rfl fun observation hobservation => ?_
      split
      · exact ⟨textual_toolResult hobservation _ _, h⟩
      split
      · exact ⟨textual_toolResult hobservation _ _, h⟩
      next decision _ =>
        refine Program.Ensures.bind (Q := fun fallback =>
          (∀ own, fallback.1 = some own → own.1.output.Textual) ∧ fallback.2.Textual) ?_ ?_
        · unfold tryPolicyFallback
          split
          · exact hashes_tryCandidates h _
          · exact ⟨nofun, h⟩
        · rintro ⟨found, after⟩ ⟨hfound, hafter⟩
          cases found with
          | none => exact ⟨textual_toolResult hobservation _ _, hafter⟩
          | some own => exact ⟨textual_toolResult (hfound own rfl) _ _, hafter⟩

theorem hashes_syncGraph (state : PlanState) : Hashes (fun _ => True) (syncGraph state) :=
  hashes_asking rfl fun _ _ => hashes_orRaise _ _

theorem hashes_updateGraphNode (state : PlanState) (stepId : Int) (status : GraphNodeStatus) :
    Hashes (fun _ => True) (updateGraphNode state stepId status) :=
  hashes_asking rfl fun _ _ => hashes_orRaise _ _

theorem hashes_handleReplan (h : state.Textual) (step : PlanStep) (error : String) :
    Hashes PlanState.Textual (handleReplan config step state error) := by
  have hmarked : (traceReplan step state).Textual := by
    unfold traceReplan
    split
    · exact h.of_same rfl rfl
    · exact h
  unfold handleReplan
  split
  · refine hashes_asking rfl fun answer _ => ?_
    refine (hashes_orRaise _ _).bind fun newSteps _ => ?_
    have hreplanned := hmarked.applyReplannedSteps newSteps
    have htail : Hashes PlanState.Textual (do
        ask (.rebuildPlanGraph ((traceReplan step state).applyReplannedSteps newSteps).plan)
        syncGraph ((traceReplan step state).applyReplannedSteps newSteps)
        pure ((traceReplan step state).applyReplannedSteps newSteps) : Execution PlanState) :=
      hashes_asking rfl fun _ _ => (hashes_syncGraph _).bind fun _ _ => hreplanned
    dsimp only
    split
    · exact (hashes_orRaise _ _).bind fun _ _ => htail
    · exact htail
  · trivial

theorem hashes_recover (h : state.Textual) (step : PlanStep) {result : StepResult}
    (hresult : result.observation.Textual) :
    Hashes PlanState.Textual (recover config step result state) := by
  unfold recover
  split
  · have hskipped : (state.recordStepResult
        { result with status := .skipped, recoveryAction := some "skip" }).Textual :=
      h.recordStepResult hresult
    exact hskipped.of_same rfl rfl
  · refine hashes_asking rfl fun spent _ => ?_
    split
    · trivial
    · refine hashes_asking rfl fun _ _ => ?_
      exact (hashes_handleReplan h _ _).bind fun _ hreplanned => hreplanned.of_same rfl rfl
  · trivial

theorem hashes_maybeCompress (h : state.Textual) :
    Hashes PlanState.Textual (ContextCompressor.maybeCompress config state) := by
  unfold ContextCompressor.maybeCompress
  split
  · refine hashes_asking rfl fun answer _ => ?_
    exact (hashes_orRaise _ _).bind fun summary _ => h.compressed _ _ _
  · exact h

theorem hashes_runAttempts (remaining : Nat) (step : PlanStep) (h : state.Textual) :
    Hashes PlanState.Textual (runAttempts config remaining step state) := by
  induction remaining generalizing step state with
  | zero => trivial
  | succ remaining ih =>
      have hstarted : (startAttempt step state).Textual := h.of_same rfl rfl
      refine (hashes_updateGraphNode _ _ _).bind fun _ _ => ?_
      refine (hashes_executeStep hstarted _ _).bind fun executed hexecuted => ?_
      obtain ⟨hresult, hafter⟩ := hexecuted
      have hrecorded : (recordAttempt executed.2.1 executed.1 executed.2.2).Textual :=
        (hafter.recordStepResult hresult).of_same rfl rfl
      dsimp only
      split
      · refine (hashes_maybeCompress (hrecorded.mergeObservation _ hresult)).bind fun _ hown => ?_
        exact hown.of_same rfl rfl
      split
      · exact (hashes_updateGraphNode _ _ _).bind fun _ _ => ih _ (hrecorded.resetStepForRetry _)
      · exact hashes_recover hrecorded _ hresult

/-- Running a step leaves textual values. -/
theorem hashes_runStepWithRecovery (h : state.Textual) (step : PlanStep) :
    Hashes PlanState.Textual (runStepWithRecovery config step state) := hashes_runAttempts _ _ h

theorem hashes_executeLoop (fuel : Nat) (h : state.Textual) :
    Hashes PlanState.Textual (executeLoop config fuel state) := by
  induction fuel generalizing state with
  | zero => trivial
  | succ fuel ih =>
      refine (hashes_orRaise _ _).bind fun finished _ => ?_
      split
      · exact h
      refine (hashes_orRaise _ _).bind fun next _ => ?_
      split
      · refine (hashes_orRaise _ _).bind fun pending _ => ?_
        split
        · exact h
        · trivial
      · refine (hashes_orRaise _ _).bind fun step _ => ?_
        refine (hashes_runStepWithRecovery h step).bind fun after hafter => ?_
        exact (hashes_syncGraph _).bind fun _ _ => ih hafter

/-- The plan loop leaves textual values. -/
theorem hashes_execute (fuel : Nat) (plan : Plan) (h : state.Textual) :
    Hashes PlanState.Textual (execute config fuel plan state) :=
  hashes_asking rfl fun _ _ => (hashes_syncGraph _).bind fun _ _ =>
    (hashes_executeLoop fuel h).bind fun _ hended =>
      (hashes_syncGraph _).bind fun _ _ => hended.of_same rfl rfl

end PlanExecutor

/-! ## What the replanning controller leaves -/

/-- Whatever the references of the state, there are textual results behind them. -/
structure LivePlanState.Textual (live : LivePlanState) : Prop where
  results : ∀ ref, TextualResults (live.heap.results ref)
  context : live.globalContext.Textual

namespace LivePlanState.Textual

variable {live : LivePlanState}

theorem view (h : live.Textual) : live.view.Textual := ⟨h.results _, h.context⟩

theorem ofValue {state : PlanState} (h : state.Textual) : (ofValue state).Textual :=
  ⟨fun _ => h.results, h.context⟩

theorem writeResults (h : live.Textual) (ref : Ref) {results : Dict Int StepResult}
    (hresults : TextualResults results) (own : Ref) :
    TextualResults (writeCell live.heap.results ref results own) := by
  unfold writeCell
  split
  · exact hresults
  · exact h.results own

theorem snapshotForReplan (h : live.Textual) : live.snapshotForReplan.2.Textual :=
  ⟨h.writeResults _ h.view.results, h.context⟩

theorem restoreSnapshot (h : live.Textual) (snapshot : PlanRefs) :
    (live.restoreSnapshot snapshot).Textual := ⟨h.results, h.context⟩

theorem appendTrace (h : live.Textual) (entry : ExecutionTraceEntry) :
    (live.appendTrace entry).Textual := ⟨h.results, h.context⟩

theorem applyReplannedSteps (h : live.Textual) (newSteps : List PlanStep) :
    (live.applyReplannedSteps newSteps).Textual :=
  ⟨h.writeResults _ (h.view.applyReplannedSteps newSteps).results, h.context⟩

theorem assignPlan (h : live.Textual) (plan : Plan) : (live.assignPlan plan).Textual :=
  ⟨h.results, h.context⟩

theorem assignStatus (h : live.Textual) (statuses : Dict Int StepStatus) :
    (live.assignStatus statuses).Textual := ⟨h.results, h.context⟩

theorem remapStepStatus (h : live.Textual) (idMap : Dict Int Int) :
    (live.remapStepStatus idMap).Textual := by
  unfold LivePlanState.remapStepStatus
  split
  · exact h
  · exact ⟨h.writeResults _ (h.view.remapStepStatus idMap).results, h.context⟩

theorem restoreCompletedStepSnapshots (h : live.Textual) (snapshots : Dict Int PlanStep) :
    (live.restoreCompletedStepSnapshots snapshots).1.Textual := ⟨h.results, h.context⟩

end LivePlanState.Textual

namespace ReplanningController

variable {registry : List String} {live : LivePlanState}

theorem textual_validateOrRepairPlan (h : live.Textual) (preApplyStatus : Dict Int StepStatus)
    (notes : ReplanApplyMeta) :
    (validateOrRepairPlan registry live preApplyStatus notes).live.Textual := by
  unfold validateOrRepairPlan
  dsimp only
  split
  · exact h
  split
  · exact h
  split
  · split
    · exact (h.assignPlan _).remapStepStatus _
    · exact (h.assignPlan _).remapStepStatus _
  · split
    · exact (h.assignPlan _).assignStatus _
    · exact (h.assignPlan _).assignStatus _

theorem textual_tryApplyReplanSteps (h : live.Textual) (newSteps : List PlanStep)
    (completedBefore : Dict Int PlanStep) (notes : ReplanApplyMeta) :
    (tryApplyReplanSteps registry live newSteps completedBefore notes).live.Textual := by
  have hvalid : LivePlanState.Textual (validateOrRepairPlan registry
      (live.applyReplannedSteps (repairedSteps newSteps)) live.view.stepStatus
      (repairedNotes newSteps notes)).live :=
    textual_validateOrRepairPlan (h.applyReplannedSteps _) _ _
  unfold tryApplyReplanSteps
  dsimp only
  split
  · unfold restoreAndCheck
    dsimp only
    split
    · exact hvalid.restoreCompletedStepSnapshots _
    · exact hvalid.restoreCompletedStepSnapshots _
  · exact hvalid

theorem textual_fallbackAttempt (h : live.Textual) (fallbackSteps : List PlanStep)
    (completedBefore : Dict Int PlanStep) (anchorStepId : Int) :
    (fallbackAttempt registry live fallbackSteps completedBefore anchorStepId).live.Textual := by
  have happlied : LivePlanState.Textual (tryApplyReplanSteps registry live fallbackSteps
      completedBefore { fallbackUsed := true }).live := textual_tryApplyReplanSteps h _ _ _
  unfold fallbackAttempt
  dsimp only
  split
  · exact happlied.appendTrace _
  · exact happlied

theorem textual_conclude {attempt : Attempt} (h : attempt.live.Textual) (snapshot : PlanRefs)
    (anchorStepId : Int) : (conclude attempt snapshot anchorStepId).live.Textual := by
  unfold conclude
  dsimp only
  split
  · split
    · exact h.appendTrace _
    · exact h
  · exact (h.restoreSnapshot snapshot).appendTrace _

theorem hashes_noReplan {state : PlanState} (h : state.Textual) (skippedReason : String) :
    Hashes (fun outcome => outcome.updatedState.Textual) (noReplan state skippedReason) :=
  hashes_asking rfl fun _ _ => h

theorem hashes_replan {critique : ExecutionCritique} {state : PlanState} (h : state.Textual) :
    Hashes (fun outcome => outcome.updatedState.Textual) (replan registry critique state) := by
  unfold replan
  refine hashes_asking rfl fun _ _ => ?_
  dsimp only
  refine hashes_ofExcept.bind fun anchorStepId _ => ?_
  have hcopied := ((LivePlanState.Textual.ofValue h).appendTrace
    (replanTraceEntry (buildReplanReason critique) anchorStepId)).snapshotForReplan
  generalize LivePlanState.snapshotForReplan _ = copied at hcopied ⊢
  have htail : ∀ last : Attempt, last.live.Textual →
      Hashes (fun outcome => outcome.updatedState.Textual) (do
        let attempts ← ask .attemptsUsed
        pure (⟨resultOf (conclude last copied.1 anchorStepId) (buildReplanReason critique) attempts,
          (conclude last copied.1 anchorStepId).live.view⟩ : ReplanningOutcome) : Runtime _) :=
    fun last hlast => hashes_asking rfl fun _ _ => (textual_conclude hlast _ _).view
  refine hashes_asking rfl fun answer _ => ?_
  refine hashes_ofExcept.bind fun newSteps _ => ?_
  have hfirst : LivePlanState.Textual (tryApplyReplanSteps registry copied.2 newSteps
      (completedStepSnapshot state) {}).live := textual_tryApplyReplanSteps hcopied _ _ _
  split
  · exact htail _ hfirst
  · refine hashes_asking rfl fun answer _ => ?_
    refine hashes_ofExcept.bind fun fallbackSteps _ => ?_
    exact htail _ (textual_fallbackAttempt (hfirst.restoreSnapshot _) _ _ _)

/-- Replanning leaves textual values. -/
theorem hashes_handle (config : ReplanningConfig) (critique : ExecutionCritique) {state : PlanState}
    (h : state.Textual) : Hashes (fun outcome => outcome.updatedState.Textual)
      (handle registry config critique state) := by
  unfold handle
  split
  · exact hashes_noReplan h _
  split
  · exact hashes_noReplan h _
  · refine hashes_asking rfl fun attempts _ => ?_
    split
    · exact hashes_noReplan h _
    · exact hashes_replan h

end ReplanningController

end TripGraph
