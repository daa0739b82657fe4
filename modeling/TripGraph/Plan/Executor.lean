import TripGraph.Plan.Validator
import TripGraph.Runtime.Operation

/-! # Executing structured plans with failure recovery

The executor changes the plan state in place, and an exception leaves it as far as it got;
so an exception carries the state it leaves behind.
-/

namespace TripGraph

open Interaction

inductive FailurePolicy
  | retry
  | skip
  | replan
deriving DecidableEq

/-- What an executor is constructed with. Lower-casing and the size of a serialised context
are those of the host language. -/
structure ExecutorConfig where
  failurePolicy : FailurePolicy
  stepMaxRetries : Nat
  maxReplanAttempts : Nat
  plannerConfigured : Bool
  validatorConfigured : Bool
  toolPolicyEnabled : Bool
  mcpFallbackEnabled : Bool
  policyEngineConfigured : Bool
  policyTracerConfigured : Bool
  compressionEnabled : Bool
  maxChars : Nat
  registry : List String
  lower : String → String
  contextSize : GlobalContext → Nat

/-- An exception with the plan state it leaves behind. -/
structure Raised where
  error : RaisedError
  state : PlanState
deriving DecidableEq

/-- A program of the executor. -/
abbrev Execution (α : Type) := Effect Raised α

/-- Raise the error of a failed computation on this state. -/
def orRaise {α : Type} (state : PlanState) (value : Except RaisedError α) : Execution α :=
  Program.ofExcept (value.mapError fun error => ⟨error, state⟩)

/-! ## Tool arguments -/

namespace StepToolResolver

/-- `ctx.get(key, fallback)` for a key the runtime does not write itself. -/
def contextValue (context : GlobalContext) (key : String) (fallback : Value) : Value :=
  (context.misc.get? key).getD fallback

/-- Maps a step with a tool hint to concrete tool arguments. -/
def resolve (lower : String → String) (step : PlanStep) (state : PlanState) : Option Args :=
  if truthy step.toolHint then
    let context := state.globalContext
    let get := contextValue context
    match lower (orText step.toolHint "") with
    | "weather" => some [("city", get "city" (.str "上海")), ("date", get "date" (.str "today"))]
    | "map" => some
        [("origin", get "origin" (.str "上海站")), ("destination", get "destination" (.str "外滩")),
          ("mode", get "transport_mode" (.str "transit"))]
    | "budget" => some
        [("days", get "days" (.int 3)), ("daily_food", get "daily_food" (.float 200)),
          ("daily_transport", get "daily_transport" (.float 50)),
          ("daily_accommodation", get "daily_accommodation" (.float 400)),
          ("activities", get "activities" (.float 500)), ("currency", get "currency" (.str "CNY"))]
    | "mcp_weather" => some
        [("city", get "city" (.str "上海")), ("date", get "date" (.str "today"))]
    | "mcp_map" => some
        [("origin", get "origin" (.str "酒店")),
          ("destination", get "destination" (get "city" (.str "外滩"))), ("day", get "days" (.int 1))]
    | "mcp_budget" => some
        [("city", get "city" (.str "上海")), ("days", get "days" (.int 3)),
          ("currency", get "currency" (.str "CNY"))]
    | hint => (context.toolArgs.getD .empty).get? hint
  else none

end StepToolResolver

/-! ## Context compression -/

namespace ContextCompressor

/-- `PRESERVED_CONTEXT_KEYS`, less the keys that have fields of their own. -/
def preservedKeys : List String :=
  ["user_query", "city", "days", "date", "destination", "origin", "transport_mode", "currency",
    "daily_food", "daily_transport", "daily_accommodation", "activities"]

def extractCompressible (state : PlanState) : CompressionPayload where
  goal := state.plan.goal
  stepOutputs := state.globalContext.stepOutputs.getD .empty
  toolOutputs := state.globalContext.toolOutputs.getD .empty
  misc := state.globalContext.items.filter fun entry =>
    decide (entry.1 ∉ preservedKeys) && !("_".toList.isPrefixOf entry.1.toList)
  stepStatus := state.stepStatus.entries.map fun entry => (toString entry.1, entry.2.text)

/-- The context after compression: the preserved keys, the summary and its metadata. -/
def buildReplacedContext (config : ExecutorConfig) (state : PlanState)
    (summary : ContextCompressionResult) (originalSize : Nat) : GlobalContext :=
  let context := state.globalContext
  let priorCount := context.compressionMeta.elim 0 CompressionMeta.compressionCount
  let preserved : GlobalContext :=
    { misc := context.misc.filterKeys fun key => decide (key ∈ preservedKeys)
      stepOutputs := context.stepOutputs
      toolOutputs := context.toolOutputs
      toolArgs := context.toolArgs
      compressedContext := some summary.compressedContext
      keyFacts := some summary.keyFacts }
  { preserved with
    compressionMeta := some
      { compressionCount := priorCount + 1
        triggeredAtStep := state.currentStep
        sizeBefore := originalSize
        sizeAfter := config.contextSize preserved } }

def compress (config : ExecutorConfig) (state : PlanState) : Execution PlanState := do
  let originalSize := config.contextSize state.globalContext
  let answer ← ask (.summarize (extractCompressible state))
  let summary ← orRaise state answer
  pure { state with globalContext := buildReplacedContext config state summary originalSize }

def maybeCompress (config : ExecutorConfig) (state : PlanState) : Execution PlanState :=
  if config.compressionEnabled && decide (config.maxChars < config.contextSize state.globalContext)
  then compress config state
  else pure state

end ContextCompressor

/-! ## One step -/

namespace PlanState

/-- `state.global_context.setdefault("tool_policy_decisions", {})[str(step_id)] = decision`. -/
def setPolicyDecision (state : PlanState) (stepId : Int) (decision : ToolPolicyDecision) :
    PlanState :=
  let decisions := state.globalContext.policyDecisions.set (toString stepId) decision
  { state with globalContext := state.globalContext.setPolicyDecisions decisions }

/-- Set the tool hint of the first step with this id. -/
def setHintIn (stepId : Int) (hint : String) : List PlanStep → List PlanStep
  | [] => []
  | step :: rest =>
      if step.id = stepId then { step with toolHint := some hint } :: rest
      else step :: setHintIn stepId hint rest

/-- `step.tool_hint = hint` on the step object the plan holds. -/
def setToolHint (state : PlanState) (stepId : Int) (hint : String) : PlanState :=
  { state with plan := { state.plan with steps := setHintIn stepId hint state.plan.steps } }

/-- `_get_policy_decision`. -/
def policyDecision (state : PlanState) (stepId : Int) : Option ToolPolicyDecision :=
  state.globalContext.policyDecisions.get? (toString stepId)

/-- `_merge_observation_into_context`. -/
def mergeObservation (state : PlanState) (stepId : Int) (result : StepResult) : PlanState :=
  let outputs := (state.globalContext.stepOutputs.getD .empty).set stepId result.observation
  let context := { state.globalContext with stepOutputs := some outputs }
  match result.toolName with
  | some tool =>
      if tool = "" then { state with globalContext := context }
      else { state with globalContext := { context with
        toolOutputs := some ((context.toolOutputs.getD .empty).set tool result.observation) } }
  | none => { state with globalContext := context }

/-- `_record_trace`. -/
def recordTrace (state : PlanState) (step : PlanStep) (result : StepResult)
    (recoveryAction : Option String) (overrideStatus : Option StepStatus) : PlanState :=
  state.appendTrace
    { stepId := step.id
      task := step.task
      status := overrideStatus.getD result.status
      toolName := if truthy result.toolName then result.toolName else step.toolHint
      success := some (decide (result.status = .completed))
      error := result.error
      attempt := result.attempt
      recoveryAction := if truthy recoveryAction then recoveryAction else result.recoveryAction }

end PlanState

/-- `ToolPolicyEngine.recovery_action_for_fallback`. -/
def recoveryActionForFallback (failedTool fallbackTool : String) : String :=
  match toolProvider (some failedTool), toolProvider (some fallbackTool) with
  | .mcp, .builtin => "mcp_to_builtin_fallback"
  | .builtin, .mcp => "builtin_to_mcp_fallback"
  | _, _ => "tool_policy_fallback"

namespace PlanExecutor

variable (config : ExecutorConfig)

/-- Try the fallback candidates until one succeeds. -/
def tryCandidates (step : PlanStep) (toolArgs : Args) (attempt : Nat) (failedTool : String)
    (decision : ToolPolicyDecision) (failureReason : String) :
    List String → PlanState → Execution (Option (ToolObservation × String × String) × PlanState)
  | [], state => pure (none, state)
  | tool :: rest, state =>
      -- a candidate the registry does not know is passed over
      if tool ∉ config.registry then
        tryCandidates step toolArgs attempt failedTool decision failureReason rest state
      else do
        let observation ← ask (.executeLlmCall tool toolArgs
          s!"plan-step-{step.id}-a{attempt}-policy-fb")
        let action := recoveryActionForFallback failedTool tool
        if config.policyTracerConfigured then
          ask (.recordFallback { decision, stepId := some step.id, task := some step.task } tool
            failureReason action)
        let recorded := state.setPolicyDecision step.id
          { decision with
            fallbackUsed := true, fallbackTool := some tool, failureReason := some failureReason }
        if observation.success then
          pure (some (observation, tool, action), recorded.setToolHint step.id tool)
        else tryCandidates step toolArgs attempt failedTool decision failureReason rest recorded

/-- `_try_policy_fallback`. -/
def tryPolicyFallback (step : PlanStep) (state : PlanState) (toolArgs : Args) (attempt : Nat)
    (failedTool : String) (decision : ToolPolicyDecision) (failureReason : String) :
    Execution (Option (ToolObservation × String × String) × PlanState) :=
  if config.policyEngineConfigured then
    tryCandidates config step toolArgs attempt failedTool decision failureReason
      decision.fallbackCandidates state
  else pure (none, state)

/-- The result of a tool call, successful or not. -/
def toolResult (step : PlanStep) (toolArgs : Args) (attempt : Nat) (observation : ToolObservation)
    (finalTool : String) (recoveryAction : Option String) : StepResult :=
  if observation.success then
    { stepId := step.id, task := step.task, status := .completed, toolName := some finalTool,
      toolArgs := some toolArgs, observation := observation.output, attempt := attempt,
      recoveryAction := recoveryAction }
  else
    { stepId := step.id, task := step.task, status := .failed, toolName := some finalTool,
      toolArgs := some toolArgs, error := observation.error, attempt := attempt,
      recoveryAction := recoveryAction }

/-- The policy decision whose fallback applies to a failed call. -/
def applicableDecision (state : PlanState) (stepId : Int) : Option ToolPolicyDecision :=
  match state.policyDecision stepId with
  | some decision =>
      if config.toolPolicyEnabled && config.mcpFallbackEnabled &&
        decide (decision.fallbackCandidates ≠ []) then some decision else none
  | none => none

/-- Execute one step; also returns the step and the state, which a fallback may change. -/
def executeStep (step : PlanStep) (state : PlanState) (attempt : Nat) :
    Execution (StepResult × PlanStep × PlanState) :=
  match step.toolHint with
  | none => pure (withoutTool, step, state)
  | some hint =>
      if hint = "" then pure (withoutTool, step, state)
      else
        -- a hint whose arguments cannot be resolved skips the step, whatever the failure policy
        match StepToolResolver.resolve config.lower step state with
        | none => pure
            ({ stepId := step.id, task := step.task, status := .skipped, toolName := some hint,
               error := some s!"No arguments resolved for tool_hint={hint}", attempt := attempt },
              step, state)
        | some toolArgs => do
            let observation ← ask (.executeLlmCall hint toolArgs s!"plan-step-{step.id}-a{attempt}")
            if observation.success then
              pure (toolResult step toolArgs attempt observation hint none, step, state)
            else
              match applicableDecision config state step.id with
              | none => pure (toolResult step toolArgs attempt observation hint none, step, state)
              | some decision =>
                  let fallback ← tryPolicyFallback config step state toolArgs attempt hint decision
                    (orText observation.error "tool execution failed")
                  match fallback.1 with
                  | none =>
                      pure
                        (toolResult step toolArgs attempt observation hint none, step, fallback.2)
                  | some (other, tool, action) =>
                      pure (toolResult step toolArgs attempt other tool (some action),
                        { step with toolHint := some tool }, fallback.2)
where
  /-- The result of a step without a tool. -/
  withoutTool : StepResult :=
    { stepId := step.id, task := step.task, status := .completed,
      observation := .ofEntries [("message", .str s!"Completed without tool: {step.task}")],
      attempt := attempt }

/-! ## Recovery -/

/-- `_sync_graph`. -/
def syncGraph (state : PlanState) : Execution Unit := do
  let answer ← ask (.syncPlanGraph state)
  orRaise state answer

/-- `_update_graph_node`. -/
def updateGraphNode (state : PlanState) (stepId : Int) (status : GraphNodeStatus) :
    Execution Unit := do
  let answer ← ask (.updatePlanNode stepId status)
  orRaise state answer

/-- Trace that the failed step, which has a result, is to be replanned. -/
def traceReplan (failedStep : PlanStep) (state : PlanState) : PlanState :=
  match state.stepResults.get? failedStep.id with
  | some failed => state.recordTrace failedStep { failed with recoveryAction := some "replan" }
      (some "replan") (some .failed)
  | none => state

/-- `_handle_replan`. -/
def handleReplan (failedStep : PlanStep) (state : PlanState) (error : String) :
    Execution PlanState :=
  if config.plannerConfigured then do
    let marked := traceReplan failedStep state
    let answer ← ask (.replanUnfinishedSteps marked failedStep.id error)
    let newSteps ← orRaise marked answer
    let replanned := marked.applyReplannedSteps newSteps
    if config.validatorConfigured then
      -- the live state has been replaced by now: an invalid plan raises and is not taken back
      orRaise replanned (PlanValidator.assertValid config.registry replanned.plan)
    ask (.rebuildPlanGraph replanned.plan)
    syncGraph replanned
    pure replanned
  else raise ⟨.agentLoop "Replan policy requires a PlannerAgent instance", state⟩

/-- What follows a failed attempt that is not retried. -/
def recover (step : PlanStep) (result : StepResult) (state : PlanState) : Execution PlanState :=
  match config.failurePolicy with
  | .skip =>
      let skipped := { result with status := .skipped, recoveryAction := some "skip" }
      let recorded := (state.recordStepResult skipped).recordTrace step skipped (some "skip")
        (some .skipped)
      pure { recorded with currentStep := none }
  | .replan => do
      let spent ← ask (.replanBudgetSpent config.maxReplanAttempts)
      if spent then
        raise ⟨.agentLoop (s!"Step {step.id} failed and max replan attempts " ++
          s!"({config.maxReplanAttempts}) exceeded"), state⟩
      else
        -- counted before the planner is asked, so a failed replan is counted too
        ask .countReplan
        let replanned ← handleReplan config step state (orText result.error "unknown error")
        pure { replanned with currentStep := none }
  | .retry => raise ⟨.agentLoop (orText result.error s!"Step {step.id} failed"), state⟩

/-- `1 + step_max_retries` attempts under `RETRY`, otherwise one. -/
def maxAttempts : Nat :=
  match config.failurePolicy with
  | .retry => 1 + config.stepMaxRetries
  | _ => 1

/-- Record the start of an attempt. -/
def startAttempt (step : PlanStep) (state : PlanState) : PlanState :=
  { state with currentStep := some step.id }.setStepStatus step.id .running

/-- Record the result of an attempt. -/
def recordAttempt (step : PlanStep) (result : StepResult) (state : PlanState) : PlanState :=
  (state.recordStepResult result).recordTrace step result none none

/-- The attempts of one step, of which `remaining` are left. -/
def runAttempts : Nat → PlanStep → PlanState → Execution PlanState
  | 0, step, state =>
      raise ⟨.agentLoop s!"Step {step.id} failed after {maxAttempts config} attempts", state⟩
  | remaining + 1, step, state => do
      let attempt := maxAttempts config - remaining
      let started := startAttempt step state
      updateGraphNode started step.id .running
      let (result, step, executed) ← executeStep config step started attempt
      let recorded := recordAttempt step result executed
      if result.status ≠ .failed then
        let compressed ← ContextCompressor.maybeCompress config
          (recorded.mergeObservation step.id result)
        pure { compressed with currentStep := none }
      else if config.failurePolicy = .retry ∧ remaining ≠ 0 then
        -- a retry starts from a state without the failed result
        let reset := recorded.resetStepForRetry step.id
        updateGraphNode reset step.id .pending
        runAttempts remaining step reset
      else recover config step result recorded

/-- `_run_step_with_recovery`. -/
def runStepWithRecovery (step : PlanStep) (state : PlanState) : Execution PlanState :=
  runAttempts config (maxAttempts config) step state

/-! ## The plan loop -/

/-- The loop of `execute`, for at most `fuel` rounds. -/
def executeLoop : Nat → PlanState → Execution PlanState
  | 0, state => raise ⟨.outOfFuel, state⟩
  | fuel + 1, state => do
      let finished ← orRaise state state.allStepsFinished
      if finished then pure state
      else
        let next ← orRaise state state.nextExecutableStep
        match next with
        | none =>
            -- no step can run: either all are finished, or the rest waits for each other
            let pending ← orRaise state state.unfinishedStepIds
            if pending = [] then pure state
            else raise ⟨.agentLoop (s!"Plan deadlock: steps {showInts pending} cannot run " ++
              "(unmet dependencies?)"), state⟩
        | some stepId =>
            let step ← orRaise state (state.findStep stepId)
            let after ← runStepWithRecovery config step state
            syncGraph after
            executeLoop fuel after

/-- `PlanExecutor.execute`. -/
def execute (fuel : Nat) (plan : Plan) (state : PlanState) : Execution PlanState := do
  -- replaces the graph an earlier run has left on the executor
  ask (.newPlanGraph plan state.sessionId)
  syncGraph state
  let ended ← executeLoop config fuel state
  let cleared := { ended with currentStep := none }
  syncGraph cleared
  pure cleared

end PlanExecutor

end TripGraph
