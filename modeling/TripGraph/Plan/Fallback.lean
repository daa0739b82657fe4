import TripGraph.Foundation.Oracle
import TripGraph.Foundation.Tries
import TripGraph.Plan.Attempts
import TripGraph.Plan.Scheduler
import TripGraph.Runtime.Components

/-! # The tools a step falls back to

A failed tool call is followed by calls of the registered fallback candidates, in their
order, until one succeeds. All of them are called with the arguments of the first.
-/

namespace TripGraph

open Interaction

/-! ## Tool calls of a trace -/

/-- A tool call with the observation it brought. -/
structure Call where
  tool : String
  args : Args
  observation : ToolObservation
deriving DecidableEq

namespace Call

def success (call : Call) : Bool := call.observation.success

/-- The tool call of an exchange. -/
def of? : Event → Option Call
  | ⟨.executeLlmCall tool args _, observation⟩ => some ⟨tool, args, observation⟩
  | _ => none

end Call

/-- The tool calls of a trace, in this order. -/
def calls (trace : List Event) : List Call := trace.filterMap Call.of?

@[simp] theorem calls_nil : calls [] = [] := rfl

@[simp] theorem calls_executeLlmCall (tool : String) (args : Args) (callId : String)
    (observation : ToolObservation) (trace : List Event) :
    calls (⟨.executeLlmCall tool args callId, observation⟩ :: trace) =
      ⟨tool, args, observation⟩ :: calls trace := rfl

@[simp] theorem calls_recordFallback (entry : ToolPolicyTraceEntry)
    (fallbackTool failureReason recoveryAction : String) (reply : Unit) (trace : List Event) :
    calls (⟨.recordFallback entry fallbackTool failureReason recoveryAction, reply⟩ :: trace) =
      calls trace := rfl

theorem mem_calls {trace : List Event} {call : Call} : call ∈ calls trace ↔
    ∃ callId, (⟨.executeLlmCall call.tool call.args callId, call.observation⟩ : Event) ∈ trace := by
  constructor
  · intro h
    obtain ⟨event, hevent, hcall⟩ := List.mem_filterMap.mp h
    obtain ⟨op, reply⟩ := event
    cases op <;> cases hcall
    exact ⟨_, hevent⟩
  · rintro ⟨callId, h⟩
    exact List.mem_filterMap.mpr ⟨_, h, rfl⟩

namespace PlanExecutor

variable {config : ExecutorConfig} {step after : PlanStep} {state last : PlanState}
  {toolArgs : Args} {attempt : Nat} {hint failedTool failureReason : String}
  {decision : ToolPolicyDecision} {trace : List Event}

/-! ## The fallback candidates -/

/-- The candidates that are called: those in the registry. -/
def registered (config : ExecutorConfig) (candidates : List String) : List String :=
  candidates.filter fun tool => decide (tool ∈ config.registry)

/-- What trying the candidates comes to: no success and the plan as it was, or the success of
the last call, whose tool the step of the plan takes over. -/
def FallsBackTo (step : PlanStep) (state : PlanState) (made : List Call)
    (fallback : Option (ToolObservation × String × String) × PlanState) : Prop :=
  (∀ call ∈ made, call.success = false) ∧ fallback.1 = none ∧ fallback.2.plan = state.plan ∨
    ∃ call ∈ made, ∃ action, call.success = true ∧
      fallback.1 = some (call.observation, call.tool, action) ∧
      fallback.2.plan = (state.setToolHint step.id call.tool).plan

theorem runs_tryCandidates (candidates : List String) {state : PlanState} {trace : List Event}
    {fallback : Option (ToolObservation × String × String) × PlanState}
    (h : Runs (tryCandidates config step toolArgs attempt failedTool decision failureReason
      candidates state) trace (.ok fallback)) :
    Tries Call.success Call.tool (registered config candidates) (calls trace) ∧
      (∀ call ∈ calls trace, call.args = toolArgs) ∧
        FallsBackTo step state (calls trace) fallback := by
  induction candidates generalizing state trace with
  | nil =>
      obtain ⟨rfl, hfallback⟩ := runs_pure_iff.mp h
      cases hfallback
      exact ⟨.exhausted, by simp, Or.inl ⟨by simp, rfl, rfl⟩⟩
  | cons tool rest ih =>
      rw [tryCandidates] at h
      split at h
      next hmissing =>
        have hskipped : registered config (tool :: rest) = registered config rest :=
          List.filter_cons_of_neg (by simpa using hmissing)
        rw [hskipped]
        exact ih h
      next hknown =>
        have hnext : registered config (tool :: rest) = tool :: registered config rest :=
          List.filter_cons_of_pos (by simpa using hknown)
        obtain ⟨observation, tail, rfl, hrest⟩ := runs_asking_iff.mp h
        have hleaf : ∀ (own : ToolPolicyDecision) {tail : List Event},
            Runs (if observation.success then
                pure (some (observation, tool, recoveryActionForFallback failedTool tool),
                  (state.setPolicyDecision step.id own).setToolHint step.id tool)
              else tryCandidates config step toolArgs attempt failedTool decision failureReason rest
                (state.setPolicyDecision step.id own) : Execution _) tail (.ok fallback) →
            Tries Call.success Call.tool (tool :: registered config rest)
                (⟨tool, toolArgs, observation⟩ :: calls tail) ∧
              (∀ call ∈ calls tail, call.args = toolArgs) ∧
              FallsBackTo step state (⟨tool, toolArgs, observation⟩ :: calls tail) fallback := by
          intro own tail hrun
          split at hrun
          next hsuccess =>
            obtain ⟨rfl, hfallback⟩ := runs_pure_iff.mp hrun
            cases hfallback
            refine ⟨.success (⟨tool, toolArgs, observation⟩ : Call) _ hsuccess, by simp, Or.inr ?_⟩
            exact ⟨_, List.mem_cons_self, _, hsuccess, rfl, rfl⟩
          next hfails =>
            have hfailed : observation.success = false := Bool.eq_false_of_not_eq_true hfails
            obtain ⟨htries, hargs, hresult⟩ := ih hrun
            refine ⟨.failure ⟨tool, toolArgs, observation⟩ _ _ hfailed htries, hargs, ?_⟩
            rcases hresult with ⟨hall, hnone, hkept⟩ | ⟨call, hcall, hchosen⟩
            · exact Or.inl ⟨List.forall_mem_cons.mpr ⟨hfailed, hall⟩, hnone, hkept⟩
            · exact Or.inr ⟨call, List.mem_cons_of_mem _ hcall, hchosen⟩
        dsimp only at hrest
        rw [hnext, calls_executeLlmCall, List.forall_mem_cons]
        split at hrest
        · obtain ⟨reply, tail, rfl, hown⟩ := runs_asking_iff.mp hrest
          obtain ⟨htries, hargs, hresult⟩ := hleaf _ hown
          exact ⟨htries, ⟨rfl, hargs⟩, hresult⟩
        · obtain ⟨htries, hargs, hresult⟩ := hleaf _ hrest
          exact ⟨htries, ⟨rfl, hargs⟩, hresult⟩

theorem runs_tryPolicyFallback {fallback : Option (ToolObservation × String × String) × PlanState}
    (h : Runs (tryPolicyFallback config step state toolArgs attempt failedTool decision
      failureReason) trace (.ok fallback)) :
    Tries Call.success Call.tool
        (if config.policyEngineConfigured then registered config decision.fallbackCandidates
          else [])
        (calls trace) ∧
      (∀ call ∈ calls trace, call.args = toolArgs) ∧
        FallsBackTo step state (calls trace) fallback := by
  unfold tryPolicyFallback at h
  split at h
  next hengine =>
    rw [if_pos hengine]
    exact runs_tryCandidates _ h
  next hengine =>
    obtain ⟨rfl, hfallback⟩ := runs_pure_iff.mp h
    cases hfallback
    rw [if_neg hengine]
    exact ⟨.exhausted, by simp, Or.inl ⟨by simp, rfl, rfl⟩⟩

/-! ## Executing a step -/

theorem findStep_setToolHint {own : PlanStep} {stepId : Int} {tool : String}
    (h : state.findStep stepId = .ok own)
    (hplan : last.plan = (state.setToolHint stepId tool).plan) :
    last.findStep stepId = .ok { own with toolHint := some tool } := by
  have hsteps : ∀ steps : List PlanStep,
      (PlanState.setHintIn stepId tool steps).find? (fun step => decide (step.id = stepId)) =
        (steps.find? fun step => decide (step.id = stepId)).map
          fun step => { step with toolHint := some tool } := by
    intro steps
    induction steps with
    | nil => rfl
    | cons step rest ih =>
        rw [PlanState.setHintIn]
        by_cases hid : step.id = stepId
        · simp [hid]
        · simp [hid, ih]
  unfold PlanState.findStep at h ⊢
  rw [hplan, PlanState.setToolHint, hsteps]
  split at h
  next hfind =>
    rw [hfind]
    obtain rfl := Except.ok.inj h
    rfl
  · cases h

/-- What executing a step with tool arguments comes to: the success of the last call, whose
tool the step takes over, or the failure of the first. -/
structure Concludes (step : PlanStep) (state : PlanState) (hint : String) (first : Call)
    (made : List Call) (executed : StepResult × PlanStep × PlanState) : Prop where
  success : ∀ call ∈ made, call.success = true → executed.1.status = .completed ∧
    executed.1.toolName = some call.tool ∧ executed.2.1 = { step with toolHint := some call.tool }
  failure : (∀ call ∈ made, call.success = false) → executed.1.status = .failed ∧
    executed.1.toolName = some hint ∧ executed.1.error = first.observation.error ∧
    executed.2.1 = step
  held : ∀ own, state.findStep step.id = .ok own → own.toolHint = some hint →
    executed.2.2.findStep step.id = .ok { own with toolHint := executed.2.1.toolHint }

/-- The candidates that follow a failed call of the step. -/
def fallbacks (config : ExecutorConfig) (state : PlanState) (stepId : Int) : List String :=
  match applicableDecision config state stepId with
  | some decision =>
      if config.policyEngineConfigured then registered config decision.fallbackCandidates else []
  | none => []

/-- Without a success, the result is that of the first call. -/
theorem concludes_of_fails {observation : ToolObservation} {made : List Call}
    (hhint : step.toolHint = some hint) (hfails : ∀ call ∈ made, call.success = false)
    (hobservation : observation.success = false) (hplan : last.plan = state.plan) :
    Concludes step state hint ⟨hint, toolArgs, observation⟩ made
      (toolResult step toolArgs attempt observation hint none, step, last) := by
  have hresult : toolResult step toolArgs attempt observation hint none =
      { stepId := step.id, task := step.task, status := .failed, toolName := some hint,
        toolArgs := some toolArgs, error := observation.error, attempt := attempt } := by
    rw [toolResult, if_neg (by simp [hobservation])]
  refine ⟨?_, fun _ => ?_, ?_⟩
  · intro call hcall hsuccess
    cases (hfails call hcall).symm.trans hsuccess
  · rw [hresult]
    exact ⟨rfl, rfl, rfl, rfl⟩
  · intro own hown hsame
    have hkept : last.findStep step.id = state.findStep step.id := by
      rw [PlanState.findStep, PlanState.findStep, hplan]
    rw [hkept, hown, hhint, ← hsame]

/-- With a success, the result is that of the successful call. -/
theorem concludes_of_success {observation : ToolObservation} {made : List Call} {call first : Call}
    {action : Option String} (hmade : ∀ own ∈ made, own.success = true → own = call)
    (hcall : call ∈ made) (hsuccess : call.success = true)
    (hobservation : observation = call.observation)
    (hplan : ∀ own, state.findStep step.id = .ok own → own.toolHint = some hint →
      last.findStep step.id = .ok { own with toolHint := some call.tool }) :
    Concludes step state hint first made
      (toolResult step toolArgs attempt observation call.tool action,
        { step with toolHint := some call.tool }, last) := by
  have hresult : toolResult step toolArgs attempt observation call.tool action =
      { stepId := step.id, task := step.task, status := .completed, toolName := some call.tool,
        toolArgs := some toolArgs, observation := observation.output, attempt := attempt,
        recoveryAction := action } := by
    have hown : call.observation.success = true := hsuccess
    rw [toolResult, hobservation, if_pos hown]
  refine ⟨?_, fun hfails => ?_, hplan⟩
  · intro own hown hsucceeds
    obtain rfl := hmade own hown hsucceeds
    rw [hresult]
    exact ⟨rfl, rfl, rfl⟩
  · cases (hfails call hcall).symm.trans hsuccess

/-- The calls of a step: the hinted tool, then the registered candidates, all with the same
arguments. -/
theorem runs_executeStep (hhint : step.toolHint = some hint) (hne : hint ≠ "")
    (hargs : StepToolResolver.resolve config.lower step state = some toolArgs)
    {executed : StepResult × PlanStep × PlanState}
    (h : Runs (executeStep config step state attempt) trace (.ok executed)) :
    ∃ first, (calls trace).head? = some first ∧ (∀ call ∈ calls trace, call.args = toolArgs) ∧
      Tries Call.success Call.tool (hint :: fallbacks config state step.id) (calls trace) ∧
      Concludes step state hint first (calls trace) executed := by
  have hsame : { step with toolHint := some hint } = step := by rw [← hhint]
  unfold executeStep at h
  rw [hhint] at h
  dsimp only at h
  rw [if_neg hne, hargs] at h
  dsimp only at h
  obtain ⟨observation, tail, rfl, hrest⟩ := runs_asking_iff.mp h
  refine ⟨⟨hint, toolArgs, observation⟩, rfl, ?_⟩
  rw [calls_executeLlmCall, List.forall_mem_cons]
  split at hrest
  next hsuccess =>
    obtain ⟨rfl, hexecuted⟩ := runs_pure_iff.mp hrest
    cases hexecuted
    refine ⟨⟨rfl, by simp⟩, .success (⟨hint, toolArgs, observation⟩ : Call) _ hsuccess, ?_⟩
    have hconcludes : Concludes step state hint ⟨hint, toolArgs, observation⟩
        [⟨hint, toolArgs, observation⟩]
        (toolResult step toolArgs attempt observation hint none,
          { step with toolHint := some hint }, state) :=
      concludes_of_success (by simp) List.mem_cons_self hsuccess rfl
        fun own hown howns => by rw [hown, ← howns]
    rw [hsame] at hconcludes
    exact hconcludes
  next hfails =>
    have hfailed : observation.success = false := Bool.eq_false_of_not_eq_true hfails
    have hfirst : Call.success ⟨hint, toolArgs, observation⟩ = false := hfailed
    have honly : Tries Call.success Call.tool [hint] [⟨hint, toolArgs, observation⟩] :=
      .failure _ _ _ hfirst .exhausted
    unfold fallbacks
    split at hrest
    next hnone =>
      obtain ⟨rfl, hexecuted⟩ := runs_pure_iff.mp hrest
      cases hexecuted
      rw [hnone]
      exact ⟨⟨rfl, by simp⟩, honly, concludes_of_fails hhint (by simp [hfirst]) hfailed rfl⟩
    next decision hdecision =>
      rw [hdecision]
      obtain ⟨fallback, first, second, hfallback, hend, rfl⟩ := runs_bind_ok_iff.mp hrest
      obtain ⟨htries, hsameArgs, hresult⟩ := runs_tryPolicyFallback hfallback
      have hall := Tries.failure _ _ _ hfirst htries
      rcases hresult with ⟨hfails, hnone, hplan⟩ | ⟨call, hcall, action, hsuccess, hsome, hplan⟩
      · rw [hnone] at hend
        obtain ⟨rfl, hexecuted⟩ := runs_pure_iff.mp hend
        cases hexecuted
        rw [List.append_nil]
        refine ⟨⟨rfl, hsameArgs⟩, hall, ?_⟩
        exact concludes_of_fails hhint (List.forall_mem_cons.mpr ⟨hfirst, hfails⟩) hfailed hplan
      · rw [hsome] at hend
        obtain ⟨rfl, hexecuted⟩ := runs_pure_iff.mp hend
        cases hexecuted
        rw [List.append_nil]
        refine ⟨⟨rfl, hsameArgs⟩, hall, ?_⟩
        apply concludes_of_success _ (List.mem_cons_of_mem _ hcall) hsuccess rfl
        · exact fun own hown _ => findStep_setToolHint hown hplan
        · exact fun own hown hsucceeds =>
            hall.eq_of_success hown (List.mem_cons_of_mem _ hcall) hsucceeds hsuccess

/-- With fallback enabled, a step with a tool calls the hinted tool and then, as long as every
call fails, the registered candidates of its decision in their order. It is completed if and
only if one of the calls succeeds, with the tool of that call; otherwise it has failed with
the error of the first call. -/
theorem executeStep_follows_candidates {result : Except Raised (StepResult × PlanStep × PlanState)}
    (hpolicy : config.toolPolicyEnabled = true) (henabled : config.mcpFallbackEnabled = true)
    (hengine : config.policyEngineConfigured = true) (hhint : step.toolHint = some hint)
    (hne : hint ≠ "") (hargs : StepToolResolver.resolve config.lower step state = some toolArgs)
    (hdecision : state.policyDecision step.id = some decision)
    (h : Runs (executeStep config step state attempt) trace result) :
    ∃ executed first, result = .ok executed ∧ (calls trace).head? = some first ∧
      Tries Call.success Call.tool (hint :: registered config decision.fallbackCandidates)
        (calls trace) ∧
      (executed.1.status = .completed ↔ ∃ call ∈ calls trace, call.success = true) ∧
      Concludes step state hint first (calls trace) executed := by
  obtain ⟨executed, rfl⟩ := (unfailing_executeStep step state attempt).exists_value h
  obtain ⟨first, hfirst, -, htries, hconcludes⟩ := runs_executeStep hhint hne hargs h
  have hcandidates : fallbacks config state step.id =
      registered config decision.fallbackCandidates := by
    unfold fallbacks applicableDecision
    rw [hdecision]
    dsimp only
    split
    next own howns =>
      split at howns
      · obtain rfl := Option.some.inj howns
        exact if_pos hengine
      · cases howns
    next hnone =>
      split at hnone
      · cases hnone
      next hempty =>
        have hnil : decision.fallbackCandidates = [] := by
          simpa [hpolicy, henabled] using hempty
        rw [hnil]
        rfl
  rw [hcandidates] at htries
  refine ⟨executed, first, rfl, hfirst, htries, ?_, hconcludes⟩
  constructor
  · intro hcompleted
    by_contra hnone
    push Not at hnone
    have hfailed := hconcludes.failure fun call hcall =>
      Bool.eq_false_of_not_eq_true (hnone call hcall)
    cases hcompleted.symm.trans hfailed.1
  · rintro ⟨call, hcall, hsuccess⟩
    exact (hconcludes.success call hcall hsuccess).1

/-- A step with the decision to fall back from the builtin map to that of MCP. -/
def mapStep : PlanStep := ⟨1, "规划路线", some "map", none⟩

def mapState : PlanState :=
  (begun ⟨"规划路线", [mapStep]⟩ "default" {}).setPolicyDecision 1
    { fallbackCandidates := ["gone", "mcp_map"] }

/-- An executor that falls back, and knows the two maps. -/
def mapExecutor : ExecutorConfig :=
  { plainExecutor .skip ["map", "mcp_map"] with
    toolPolicyEnabled := true, mcpFallbackEnabled := true, policyEngineConfigured := true }

/-- Only the map of MCP answers. -/
def mapComponents : Components where
  executeLlmCall tool args _ := { success := decide (tool = "mcp_map"), tool := tool, args := args }

def mapRun : Outcome runtimeSig Raised (StepResult × PlanStep × PlanState) (SharedObjects × Unit) :=
  mapComponents.exec {} (executeStep mapExecutor mapStep mapState 1)

theorem executeStep_follows_candidates_mapStep :
    ∃ executed first, mapRun.result = .ok executed ∧ (calls mapRun.trace).head? = some first ∧
      Tries Call.success Call.tool ("map" :: registered mapExecutor ["gone", "mcp_map"])
        (calls mapRun.trace) ∧
      (executed.1.status = .completed ↔ ∃ call ∈ calls mapRun.trace, call.success = true) ∧
      Concludes mapStep mapState "map" first (calls mapRun.trace) executed := by
  have hargs : ∃ toolArgs,
      StepToolResolver.resolve mapExecutor.lower mapStep mapState = some toolArgs :=
    Option.isSome_iff_exists.mp (by decide +kernel)
  obtain ⟨toolArgs, hargs⟩ := hargs
  obtain ⟨hrun, -⟩ := Components.runs_exec mapComponents {}
    (executeStep mapExecutor mapStep mapState 1)
  have hdecision : mapState.policyDecision mapStep.id =
      some { fallbackCandidates := ["gone", "mcp_map"] } := by
    decide +kernel
  exact executeStep_follows_candidates rfl rfl rfl rfl (by decide) hargs hdecision hrun

/-! ## The arguments of the calls -/

/-- In every run, every tool the step calls gets the arguments that are resolved for this tool
in the context, whatever policy decisions are stored in it by then. -/
def ArgumentsFit (config : ExecutorConfig) (step : PlanStep) (state : PlanState) (attempt : Nat) :
    Prop :=
  ∀ trace result, Runs (executeStep config step state attempt) trace result →
    ∀ call ∈ calls trace, ∀ decisions,
      StepToolResolver.resolve config.lower { step with toolHint := some call.tool }
        { state with globalContext :=
          { state.globalContext with toolPolicyDecisions := decisions } } =
          some call.args

/-- Policy decisions play no part in the arguments. -/
theorem resolve_withDecisions (lower : String → String) (step : PlanStep) (state : PlanState)
    (decisions : Option StoredDecisions) : StepToolResolver.resolve lower step
      { state with globalContext :=
        { state.globalContext with toolPolicyDecisions := decisions } } =
        StepToolResolver.resolve lower step state := rfl

/-- There is a run in which every tool call fails. -/
theorem exists_runs_executeStep_failing (config : ExecutorConfig) (step : PlanStep)
    (state : PlanState) (attempt : Nat) : ∃ trace executed,
      Runs (executeStep config step state attempt) trace (.ok executed) ∧
        ∀ call ∈ calls trace, call.success = false := by
  let failing : (op : Op) → op.Reply
    | .executeLlmCall tool args _ => { tool := tool, args := args, success := false }
    | op => op.plainReply
  obtain ⟨trace, result, hrun, hanswers⟩ :=
    exists_runs_answers failing (executeStep config step state attempt)
  obtain ⟨executed, rfl⟩ := (unfailing_executeStep step state attempt).exists_value hrun
  refine ⟨trace, executed, hrun, ?_⟩
  intro call hcall
  obtain ⟨callId, hevent⟩ := mem_calls.mp hcall
  have hreply := hanswers _ hevent _ rfl
  exact congrArg ToolObservation.success hreply

/-- A step without a tool or without arguments calls nothing. -/
theorem calls_eq_nil (h : ¬ ∃ hint toolArgs, step.toolHint = some hint ∧ hint ≠ "" ∧
      StepToolResolver.resolve config.lower step state = some toolArgs)
    {result : Except Raised (StepResult × PlanStep × PlanState)}
    (hrun : Runs (executeStep config step state attempt) trace result) : calls trace = [] := by
  unfold executeStep at hrun
  split at hrun
  · rw [(runs_pure_iff.mp hrun).1, calls_nil]
  next hint hhint =>
    split at hrun
    · rw [(runs_pure_iff.mp hrun).1, calls_nil]
    next hne =>
      split at hrun
      · rw [(runs_pure_iff.mp hrun).1, calls_nil]
      next toolArgs hargs => exact absurd ⟨hint, toolArgs, hhint, hne, hargs⟩ h

/-- The arguments fit in all runs if and only if those of the hinted tool are also those of
every candidate that can be called. -/
theorem argumentsFit_iff : ArgumentsFit config step state attempt ↔
    ∀ hint toolArgs, step.toolHint = some hint → hint ≠ "" →
      StepToolResolver.resolve config.lower step state = some toolArgs →
        ∀ tool ∈ fallbacks config state step.id,
          StepToolResolver.resolve config.lower { step with toolHint := some tool } state =
            some toolArgs := by
  constructor
  · intro hfit hint toolArgs hhint hne hargs tool htool
    -- when all calls fail, every candidate is called, and with the arguments of the first
    obtain ⟨trace, executed, hrun, hfails⟩ :=
      exists_runs_executeStep_failing config step state attempt
    obtain ⟨-, -, hsame, htries, -⟩ := runs_executeStep hhint hne hargs hrun
    have hmem : tool ∈ (calls trace).map Call.tool := by
      rw [htries.map_eq_of_fails hfails]
      exact List.mem_cons_of_mem _ htool
    obtain ⟨call, hcall, rfl⟩ := List.mem_map.mp hmem
    have hown := hfit trace _ hrun call hcall none
    rwa [resolve_withDecisions, hsame call hcall] at hown
  · intro hcandidates trace result hrun call hcall decisions
    rw [resolve_withDecisions]
    by_cases hcalls : ∃ hint toolArgs, step.toolHint = some hint ∧ hint ≠ "" ∧
        StepToolResolver.resolve config.lower step state = some toolArgs
    · obtain ⟨hint, toolArgs, hhint, hne, hargs⟩ := hcalls
      obtain ⟨executed, rfl⟩ := (unfailing_executeStep step state attempt).exists_value hrun
      obtain ⟨-, -, hsame, htries, -⟩ := runs_executeStep hhint hne hargs hrun
      rw [hsame call hcall]
      have hmem := htries.isPrefix.subset (List.mem_map_of_mem hcall)
      rcases List.mem_cons.mp hmem with htool | htool
      · rw [htool, ← hhint]
        exact hargs
      · exact hcandidates hint toolArgs hhint hne hargs call.tool htool
    · rw [calls_eq_nil hcalls hrun] at hcall
      cases hcall

/-- The map of MCP is asked for a transport mode and not for a day. -/
theorem not_argumentsFit_mapStep :
    (calls mapRun.trace).map (fun call => (call.tool, call.args)) =
      [("map", [("origin", .str "上海站"), ("destination", .str "外滩"), ("mode", .str "transit")]),
        ("mcp_map",
          [("origin", .str "上海站"), ("destination", .str "外滩"), ("mode", .str "transit")])] ∧
    StepToolResolver.resolve mapExecutor.lower
      { mapStep with toolHint := some "mcp_map" } mapState =
      some [("origin", .str "酒店"), ("destination", .str "外滩"), ("day", .int 1)] ∧
    ¬ ArgumentsFit mapExecutor mapStep mapState 1 := by
  have hcalls : (calls mapRun.trace).map (fun call => (call.tool, call.args)) =
      [("map", [("origin", .str "上海站"), ("destination", .str "外滩"), ("mode", .str "transit")]),
        ("mcp_map", [("origin", .str "上海站"), ("destination", .str "外滩"),
          ("mode", .str "transit")])] := by
    decide +kernel
  have hresolves : StepToolResolver.resolve mapExecutor.lower
      { mapStep with toolHint := some "mcp_map" } mapState =
        some [("origin", .str "酒店"), ("destination", .str "外滩"), ("day", .int 1)] := by
    decide +kernel
  refine ⟨hcalls, hresolves, ?_⟩
  intro hfit
  obtain ⟨hrun, -⟩ := Components.runs_exec mapComponents {}
    (executeStep mapExecutor mapStep mapState 1)
  have hmem : ("mcp_map", ([("origin", .str "上海站"), ("destination", .str "外滩"),
      ("mode", .str "transit")] : Args)) ∈
        (calls mapRun.trace).map fun call => (call.tool, call.args) := by
    rw [hcalls]
    exact List.mem_cons_of_mem _ List.mem_cons_self
  obtain ⟨call, hcall, heq⟩ := List.mem_map.mp hmem
  obtain ⟨htool, hargs⟩ := Prod.mk.inj heq
  have hown := hfit _ _ hrun call hcall none
  rw [resolve_withDecisions, htool, hargs, hresolves] at hown
  exact absurd hown (by decide +kernel)

end PlanExecutor

end TripGraph
