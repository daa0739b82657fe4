import TripGraph.Plan.Recovery
import TripGraph.Runtime.Shared

/-! # The attempts of a step

What a trace tells about the attempts of a step, and how these end when the failure policy
does not replan: the step has ended, or it has failed as often as the configuration allows.
-/

namespace TripGraph

open Interaction PlanValidator

/-! ## What a trace tells -/

/-- The step that an exchange starts an attempt of. -/
def attempted (event : Event) : Option Int :=
  match event.op with
  | .updatePlanNode stepId .running => some stepId
  | _ => none

/-- The steps attempted, in this order. -/
def attempts (trace : List Event) : List Int := trace.filterMap attempted

@[simp] theorem attempts_nil : attempts [] = [] := rfl

@[simp] theorem attempts_append (first second : List Event) :
    attempts (first ++ second) = attempts first ++ attempts second := List.filterMap_append

/-- The plan state last handed to the execution graph. -/
def synced (state : PlanState) (event : Event) : PlanState :=
  match event.op with
  | .syncPlanGraph own => own
  | _ => state

/-- The operations by which a step is executed and its context compressed. -/
def Op.withinStep : Op → Bool
  | .executeLlmCall .. | .recordFallback .. | .summarize _ => true
  | _ => false

theorem attempted_of_withinStep {event : Event} (h : event.op.withinStep = true) :
    attempted event = none := by
  obtain ⟨op, reply⟩ := event
  cases op <;> simp [Op.withinStep, attempted] at h ⊢

theorem attempts_of_withinStep {trace : List Event}
    (h : ∀ event ∈ trace, event.op.withinStep = true) : attempts trace = [] :=
  List.filterMap_eq_nil_iff.mpr fun event hevent => attempted_of_withinStep (h event hevent)

theorem synced_of_withinStep {event : Event} (h : event.op.withinStep = true) (state : PlanState) :
    synced state event = state := by
  obtain ⟨op, reply⟩ := event
  cases op <;> simp [Op.withinStep, synced] at h ⊢

namespace PlanExecutor

/-! ## One execution of a step -/

/-- What the scheduler sees of the steps of a plan. -/
def outline (state : PlanState) : List (Int × Option (List Int)) :=
  state.plan.steps.map fun step => (step.id, step.dependency)

/-- The two states agree on everything but the context and the tool hints. -/
structure Unmoved (before after : PlanState) : Prop where
  unadvanced : Unadvanced before after
  outline : outline after = outline before
  log : after.executionTrace = before.executionTrace

theorem Unmoved.refl (state : PlanState) : Unmoved state state := ⟨.rfl, rfl, rfl⟩

theorem Unmoved.trans {first second third : PlanState} (h : Unmoved first second)
    (h' : Unmoved second third) : Unmoved first third :=
  ⟨h.unadvanced.trans h'.unadvanced, h'.outline.trans h.outline, h'.log.trans h.log⟩

theorem outline_setHintIn (stepId : Int) (hint : String) (steps : List PlanStep) :
    (PlanState.setHintIn stepId hint steps).map (fun step => (step.id, step.dependency)) =
      steps.map fun step => (step.id, step.dependency) := by
  induction steps with
  | nil => rfl
  | cons step rest ih =>
      rw [PlanState.setHintIn]
      split
      · rfl
      · rw [List.map_cons, List.map_cons, ih]

/-- What executing a step brings; a step that fails leaves the plan as it is. -/
structure Attempted (step : PlanStep) (state : PlanState)
    (executed : StepResult × PlanStep × PlanState) : Prop where
  stepId : executed.1.stepId = step.id
  status : executed.1.status = .failed ∨ executed.1.status.finished = true
  sameStep : executed.2.1.id = step.id
  unmoved : Unmoved state executed.2.2
  plan : executed.1.status = .failed → executed.2.2.plan = state.plan

variable {config : ExecutorConfig}

/-- What a fallback brings: a successful observation, or the plan as it was. -/
structure FellBack (state : PlanState)
    (fallback : Option (ToolObservation × String × String) × PlanState) : Prop where
  unmoved : Unmoved state fallback.2
  success : ∀ found, fallback.1 = some found → found.1.success = true
  plan : fallback.1 = none → fallback.2.plan = state.plan

theorem within_tryCandidates {step : PlanStep} {toolArgs : Args} {attempt : Nat}
    {failedTool failureReason : String} {decision : ToolPolicyDecision} (candidates : List String)
    (state : PlanState) :
    Program.Respects (fun op : Op => op.withinStep = true) (FellBack state)
      (tryCandidates config step toolArgs attempt failedTool decision failureReason candidates
        state) := by
  induction candidates generalizing state with
  | nil => exact ⟨.refl state, by simp, fun _ => rfl⟩
  | cons tool rest ih =>
      rw [tryCandidates]
      split
      · exact ih state
      · refine respects_asking rfl fun observation => ?_
        have hrecorded : ∀ own, Unmoved state (state.setPolicyDecision step.id own) :=
          fun _ => ⟨⟨rfl, rfl, rfl⟩, rfl, rfl⟩
        have hleaf : ∀ own, Program.Respects (fun op : Op => op.withinStep = true) (FellBack state)
            (if observation.success then
              pure (some (observation, tool, recoveryActionForFallback failedTool tool),
                (state.setPolicyDecision step.id own).setToolHint step.id tool)
            else tryCandidates config step toolArgs attempt failedTool decision failureReason rest
              (state.setPolicyDecision step.id own) : Execution _) := by
          intro own
          split
          next hsuccess =>
            refine ⟨(hrecorded own).trans
              ⟨unadvanced_setToolHint _ step.id tool, outline_setHintIn _ _ _, rfl⟩, ?_,
              fun hnone => by cases hnone⟩
            rintro found heq
            cases heq
            exact hsuccess
          next =>
            apply (ih _).mono (fun _ h => h)
            intro fallback h
            exact ⟨(hrecorded own).trans h.unmoved, h.success, h.plan⟩
        dsimp only
        split
        next => exact respects_asking rfl fun _ => hleaf _
        next => exact hleaf _

theorem attempted_toolResult {step own : PlanStep} {state after : PlanState} {toolArgs : Args}
    {attempt : Nat} {observation : ToolObservation} {tool : String} {action : Option String}
    (hown : own.id = step.id) (hafter : Unmoved state after)
    (hplan : observation.success = false → after.plan = state.plan) :
    Attempted step state
      (toolResult step toolArgs attempt observation tool action, own, after) := by
  unfold toolResult
  split
  next => exact ⟨rfl, Or.inr rfl, hown, hafter, fun hfailed => by cases hfailed⟩
  next hfailed => exact ⟨rfl, Or.inl rfl, hown, hafter, fun _ => hplan (by simpa using hfailed)⟩

/-- Executing a step calls tools and brings a result of this step. -/
theorem within_executeStep (step : PlanStep) (state : PlanState) (attempt : Nat) :
    Program.Respects (fun op : Op => op.withinStep = true) (Attempted step state)
      (executeStep config step state attempt) := by
  have hfinished : ∀ result : StepResult, result.stepId = step.id → result.status.finished = true →
      Attempted step state (result, step, state) := fun result hid hstatus =>
    ⟨hid, Or.inr hstatus, rfl, .refl state, fun _ => rfl⟩
  unfold executeStep
  split
  · exact hfinished _ rfl rfl
  split
  · exact hfinished _ rfl rfl
  split
  · exact hfinished _ rfl rfl
  refine respects_asking rfl fun observation => ?_
  split
  · exact attempted_toolResult rfl (.refl state) fun _ => rfl
  split
  · exact attempted_toolResult rfl (.refl state) fun _ => rfl
  next decision =>
    refine Program.Respects.bind (Q := FellBack state) ?_ fun fallback hfallback => ?_
    · unfold tryPolicyFallback
      split
      next => exact within_tryCandidates _ _
      next => exact ⟨.refl state, by simp, fun _ => rfl⟩
    · split
      next hnone => exact attempted_toolResult rfl hfallback.unmoved fun _ => hfallback.plan hnone
      next other tool action hfound =>
        have hsuccess : other.success = true := hfallback.success _ hfound
        refine Program.respects_pure_iff.mpr (attempted_toolResult rfl hfallback.unmoved ?_)
        intro hfailed
        rw [hsuccess] at hfailed
        cases hfailed

theorem unfailing_tryCandidates {step : PlanStep} {toolArgs : Args} {attempt : Nat}
    {failedTool failureReason : String} {decision : ToolPolicyDecision} (candidates : List String)
    (state : PlanState) : (tryCandidates config step toolArgs attempt failedTool decision
      failureReason candidates state).Unfailing := by
  induction candidates generalizing state with
  | nil => trivial
  | cons tool rest ih =>
      rw [tryCandidates]
      split
      · exact ih state
      · refine unfailing_asking fun observation => ?_
        dsimp only
        split
        · refine unfailing_asking fun _ => ?_
          split
          · trivial
          · exact ih _
        · split
          · trivial
          · exact ih _

theorem unfailing_executeStep (step : PlanStep) (state : PlanState) (attempt : Nat) :
    (executeStep config step state attempt).Unfailing := by
  unfold executeStep
  split
  · trivial
  split
  · trivial
  split
  · trivial
  refine unfailing_asking fun observation => ?_
  split
  · trivial
  split
  · trivial
  · refine Program.Unfailing.bind ?_ fun fallback => ?_
    · unfold tryPolicyFallback
      split
      · exact unfailing_tryCandidates _ _
      · trivial
    · split <;> trivial

theorem within_maybeCompress (state : PlanState) :
    Program.Respects (fun op : Op => op.withinStep = true) (Unmoved state)
      (ContextCompressor.maybeCompress config state) := by
  unfold ContextCompressor.maybeCompress
  split
  next =>
    refine respects_asking rfl fun answer => ?_
    cases answer with
    | ok summary => exact ⟨⟨rfl, rfl, rfl⟩, rfl, rfl⟩
    | error error => trivial
  next => exact .refl state

theorem unmoved_mergeObservation (state : PlanState) (stepId : Int) (result : StepResult) :
    Unmoved state (state.mergeObservation stepId result) := by
  unfold PlanState.mergeObservation
  dsimp only
  split
  · split <;> exact ⟨⟨rfl, rfl, rfl⟩, rfl, rfl⟩
  · exact ⟨⟨rfl, rfl, rfl⟩, rfl, rfl⟩

/-! ## The executor's own objects -/

/-- The executor has a graph with a node for each of these steps, and has replanned this many
times. -/
structure Keeping (ids : List Int) (spent : Nat) (objects : SharedObjects) : Prop where
  graph : ∃ graph, objects.planGraph = some graph ∧ ∀ stepId ∈ ids,
    graph.steps.contains stepId = true
  spent : objects.replanAttempts = spent

variable {ids : List Int} {spent : Nat} {objects next : SharedObjects}

theorem Keeping.of_withinStep {trace : List Event} {last : SharedObjects}
    (h : Keeping ids spent objects) (htools : ∀ event ∈ trace, event.op.withinStep = true)
    (hfollows : Follows SharedObjects.Step objects trace last) : Keeping ids spent last := by
  refine hfollows.preserves (I := Keeping ids spent)
    (fun before event after hevent hkeeping hstep => ?_) h
  have hop := htools event hevent
  obtain ⟨op, reply⟩ := event
  cases op with
  | executeLlmCall => exact hstep ▸ hkeeping
  | summarize => exact hstep ▸ hkeeping
  | recordFallback => exact hstep.2 ▸ ⟨hkeeping.graph, hkeeping.spent⟩
  | _ => cases hop

/-- A node of a listed step can be updated. -/
theorem Keeping.updatePlanNode {stepId : Int} {status : GraphNodeStatus}
    {reply : Except RaisedError Unit} (h : Keeping ids spent objects) (hmem : stepId ∈ ids)
    (hstep : SharedObjects.Step objects ⟨.updatePlanNode stepId status, reply⟩ next) :
    reply = .ok () ∧ Keeping ids spent next := by
  obtain ⟨graph, hgraph, hlists⟩ := h.graph
  have hnode := hlists stepId hmem
  simp only [SharedObjects.Step, SharedObjects.answer, SharedObjects.updatePlanNode, hgraph,
    PlanExecutionGraph.setNodeStatus, hnode, if_true] at hstep
  obtain ⟨rfl, rfl⟩ := hstep
  exact ⟨rfl, ⟨_, rfl, hlists⟩, h.spent⟩

theorem syncSteps_ok {state : PlanState} {steps : List PlanStep}
    (h : ∀ step ∈ steps, (state.stepStatus.get? step.id).isSome) (graph : PlanExecutionGraph) :
    (PlanExecutionGraph.syncSteps state steps graph).1 = .ok () := by
  induction steps generalizing graph with
  | nil => rfl
  | cons step rest ih =>
      obtain ⟨hown, hrest⟩ := List.forall_mem_cons.mp h
      obtain ⟨status, hstatus⟩ := Option.isSome_iff_exists.mp hown
      simp only [PlanExecutionGraph.syncSteps, PlanState.getStepStatus, hstatus]
      exact ih hrest _

/-- A state in which each step has a status can be handed to the graph. -/
theorem Keeping.syncPlanGraph {state : PlanState} {reply : Except RaisedError Unit}
    (h : Keeping ids spent objects)
    (hstatus : ∀ step ∈ state.plan.steps, (state.stepStatus.get? step.id).isSome)
    (hstep : SharedObjects.Step objects ⟨.syncPlanGraph state, reply⟩ next) :
    reply = .ok () ∧ Keeping state.plan.ids spent next := by
  obtain ⟨graph, hgraph, -⟩ := h.graph
  simp only [SharedObjects.Step, SharedObjects.answer, SharedObjects.syncPlanGraph, hgraph] at hstep
  obtain ⟨rfl, rfl⟩ := hstep
  refine ⟨syncSteps_ok hstatus _, ⟨_, rfl, fun stepId hmem => ?_⟩, h.spent⟩
  rw [PlanExecutionGraph.syncFromState_steps, PlanExecutionGraph.contains_stepsById]
  exact hmem

/-! ## The attempts of a step -/

variable (config) in
/-- What follows an attempt. -/
def afterAttempt (remaining : Nat) (executed : StepResult × PlanStep × PlanState) :
    Execution PlanState :=
  let recorded := recordAttempt executed.2.1 executed.1 executed.2.2
  if executed.1.status ≠ .failed then do
    let compressed ← ContextCompressor.maybeCompress config
      (recorded.mergeObservation executed.2.1.id executed.1)
    pure { compressed with currentStep := none }
  else if config.failurePolicy = .retry ∧ remaining ≠ 0 then do
    let reset := recorded.resetStepForRetry executed.2.1.id
    updateGraphNode reset executed.2.1.id .pending
    runAttempts config remaining executed.2.1 reset
  else recover config executed.2.1 executed.1 recorded

theorem runs_updateGraphNode {state : PlanState} {stepId : Int} {status : GraphNodeStatus}
    {trace : List Event} {result : Except Raised Unit} {last : SharedObjects}
    (h : Keeping ids spent objects) (hmem : stepId ∈ ids)
    (hfollows : Follows SharedObjects.Step objects trace last)
    (hrun : Runs (updateGraphNode state stepId status) trace result) :
    trace = [⟨.updatePlanNode stepId status, .ok ()⟩] ∧ result = .ok () ∧
      Keeping ids spent last := by
  obtain ⟨reply, rest, rfl, hrest⟩ := runs_asking_iff.mp hrun
  obtain ⟨middle, hstep, htail⟩ := Follows.cons_iff.mp hfollows
  obtain ⟨rfl, hkeeping⟩ := h.updatePlanNode hmem hstep
  obtain ⟨rfl, rfl⟩ := runs_ofExcept_iff.mp hrest
  cases Follows.nil_iff.mp htail
  exact ⟨rfl, rfl, hkeeping⟩

/-- An attempt starts, executes the step, and goes on with the result. -/
theorem runs_attempt {remaining : Nat} {step : PlanStep} {state : PlanState} {trace : List Event}
    {result : Except Raised PlanState} {last : SharedObjects} (h : Keeping ids spent objects)
    (hmem : step.id ∈ ids) (hfollows : Follows SharedObjects.Step objects trace last)
    (hrun : Runs (runAttempts config (remaining + 1) step state) trace result) :
    ∃ called rest executed middle,
      trace = (⟨.updatePlanNode step.id .running, .ok ()⟩ : Event) :: (called ++ rest) ∧
      (∀ event ∈ called, event.op.withinStep = true) ∧
      Attempted step (startAttempt step state) executed ∧
      Runs (afterAttempt config remaining executed) rest result ∧
      Keeping ids spent middle ∧ Follows SharedObjects.Step middle rest last := by
  have hsplit : runAttempts config (remaining + 1) step state = (do
      updateGraphNode (startAttempt step state) step.id .running
      let executed ← executeStep config step (startAttempt step state)
        (maxAttempts config - remaining)
      afterAttempt config remaining executed) := rfl
  rw [hsplit] at hrun
  rcases runs_bind_iff.mp hrun with ⟨_, started, rest, hstarted, hrest, rfl⟩ | ⟨error, hstarted, -⟩
  · obtain ⟨first, hfirst, hsecond⟩ := Follows.append_iff.mp hfollows
    obtain ⟨rfl, -, hkeeping⟩ := runs_updateGraphNode h hmem hfirst hstarted
    rcases runs_bind_iff.mp hrest with
      ⟨executed, called, rest, hcalled, hafter, rfl⟩ | ⟨error, hcalled, -⟩
    · obtain ⟨middle, hmiddle, hlast⟩ := Follows.append_iff.mp hsecond
      obtain ⟨htools, hreturns⟩ := (within_executeStep _ _ _).of_runs hcalled
      exact ⟨called, rest, executed, middle, rfl, htools, hreturns executed rfl, hafter,
        hkeeping.of_withinStep htools hmiddle, hlast⟩
    · obtain ⟨value, hvalue⟩ := (unfailing_executeStep _ _ _).exists_value hcalled
      cases hvalue
  · obtain ⟨-, hresult, -⟩ := runs_updateGraphNode h hmem hfollows hstarted
    cases hresult

/-- A step that has ended leaves the outline, and all that is new in the log is about it. -/
structure Ended (stepId : Int) (before after : PlanState) : Prop where
  settled : Settled stepId before after
  outline : outline after = outline before
  log : ∃ entries, after.executionTrace = before.executionTrace ++ entries ∧
    ∀ entry ∈ entries, entry.stepId = stepId

section AfterAttempt

variable {remaining : Nat} {step : PlanStep} {state : PlanState}
  {executed : StepResult × PlanStep × PlanState} {trace : List Event}
  {result : Except Raised PlanState}

/-- A recorded attempt is the last entry of the log. -/
theorem executionTrace_recordAttempt (h : Attempted step (startAttempt step state) executed) :
    ∃ entry : ExecutionTraceEntry, entry.stepId = step.id ∧ entry.status = executed.1.status ∧
      (recordAttempt executed.2.1 executed.1 executed.2.2).executionTrace =
        state.executionTrace ++ [entry] := by
  refine ⟨_, h.sameStep, ?_, congrArg (· ++ _) h.unmoved.log⟩
  rfl

/-- An attempt that does not fail ends the step, unless the compression raises. -/
theorem runs_afterAttempt_finished (h : Attempted step (startAttempt step state) executed)
    (hfinished : executed.1.status ≠ .failed)
    (hrun : Runs (afterAttempt config remaining executed) trace result) :
    (∀ event ∈ trace, event.op.withinStep = true) ∧
      (config.compressionEnabled = false → ∃ after, result = .ok after) ∧
      ∀ after, result = .ok after → Ended step.id state after := by
  rw [afterAttempt, if_pos hfinished] at hrun
  have hcompress := @within_maybeCompress config
    ((recordAttempt executed.2.1 executed.1 executed.2.2).mergeObservation executed.2.1.id
      executed.1)
  have hrespects := hcompress.bind (f := fun compressed =>
    (pure { compressed with currentStep := none } : Execution PlanState))
    (R := fun _ => True) fun _ _ => trivial
  refine ⟨(hrespects.of_runs hrun).1, fun hdisabled => ?_, fun after hafter => ?_⟩
  · simp only [ContextCompressor.maybeCompress, hdisabled, Bool.false_and, Bool.false_eq_true,
      if_false] at hrun
    exact ⟨_, (runs_pure_iff.mp hrun).2⟩
  · subst hafter
    obtain ⟨compressed, first, rest, hfirst, hrest, rfl⟩ := runs_bind_ok_iff.mp hrun
    obtain ⟨-, hafter⟩ := runs_pure_iff.mp hrest
    cases hafter
    obtain ⟨hstatus, hresults, hids⟩ :=
      get?_recordAttempt executed.2.1 h.stepId h.unmoved.unadvanced
    have hsame := (unmoved_mergeObservation _ _ _).trans (hcompress.returns_of_runs hfirst)
    obtain ⟨entry, hentry, -, hlog⟩ := executionTrace_recordAttempt h
    constructor
    · refine ⟨executed.1, h.status.resolve_left hfinished, fun other => ?_, fun other => ?_,
        hsame.unadvanced.ids.trans hids⟩
      · exact (congrArg (Dict.get? · other) hsame.unadvanced.status).trans (hstatus other)
      · exact (congrArg (Dict.get? · other) hsame.unadvanced.results).trans (hresults other)
    · exact hsame.outline.trans h.unmoved.outline
    · exact ⟨[entry], hsame.log.trans hlog, List.forall_mem_singleton.mpr hentry⟩

/-- Under `SKIP` a failed attempt ends the step. -/
theorem runs_recover_skip (hpolicy : config.failurePolicy = .skip)
    (h : Attempted step (startAttempt step state) executed)
    (hrun : Runs (recover config executed.2.1 executed.1
      (recordAttempt executed.2.1 executed.1 executed.2.2)) trace result) :
    trace = [] ∧ ∃ after, result = .ok after ∧ Ended step.id state after := by
  rw [recover, hpolicy] at hrun
  obtain ⟨rfl, rfl⟩ := runs_pure_iff.mp hrun
  obtain ⟨hstatus, hresults, hids⟩ :=
    get?_recordAttempt executed.2.1 h.stepId h.unmoved.unadvanced
  obtain ⟨entry, hentry, -, hlog⟩ := executionTrace_recordAttempt h
  refine ⟨rfl, _, rfl, ⟨{ executed.1 with status := .skipped, recoveryAction := some "skip" }, rfl,
    fun other => ?_, fun other => ?_, hids⟩, h.unmoved.outline, ?_⟩
  · simp only [PlanState.recordTrace, PlanState.appendTrace_stepStatus,
      PlanState.recordStepResult_stepStatus, Dict.get?_set, h.stepId, hstatus]
    split <;> rfl
  · simp only [PlanState.recordTrace, PlanState.appendTrace_stepResults,
      PlanState.recordStepResult_stepResults, Dict.get?_set, h.stepId, hresults]
    split <;> rfl
  · refine ⟨[entry, _], (congrArg (· ++ _) hlog).trans (List.append_assoc _ _ _), ?_⟩
    rintro own hown
    rcases List.mem_cons.mp hown with rfl | hown
    · exact hentry
    · rw [List.mem_singleton.mp hown]
      exact h.sameStep

end AfterAttempt

/-! ## All attempts of a step, without replanning -/

/-- The state in which a failed step is tried again. -/
structure Retried (stepId : Int) (before after : PlanState) : Prop where
  status : ∀ other, other ≠ stepId → after.stepStatus.get? other = before.stepStatus.get? other
  results : ∀ other, other ≠ stepId → after.stepResults.get? other = before.stepResults.get? other
  outline : outline after = outline before
  log : ∃ entry, after.executionTrace = before.executionTrace ++ [entry] ∧
    (entry.stepId, entry.status) = (stepId, .failed)

/-- The step has failed this many times, the last time with the error that is raised. -/
structure Exhausted (stepId : Int) (before : PlanState) (count : Nat) (raised : Raised) : Prop where
  status : ∀ other, other ≠ stepId →
    raised.state.stepStatus.get? other = before.stepStatus.get? other
  failed : ∃ failed, failed.status = .failed ∧ raised.state.stepResults.get? stepId = some failed ∧
    raised.error = .agentLoop (orText failed.error s!"Step {stepId} failed")
  log : ∃ entries, raised.state.executionTrace = before.executionTrace ++ entries ∧
    entries.map (fun entry => (entry.stepId, entry.status)) = List.replicate count (stepId, .failed)

theorem ids_of_outline {before after : PlanState} (h : outline after = outline before) :
    after.plan.ids = before.plan.ids := by
  have hfirst := congrArg (List.map Prod.fst) h
  simpa [outline, Plan.ids, Function.comp_def] using hfirst

section Retrying

variable {stepId : Int} {before middle after : PlanState}

theorem Ended.of_retried (h : Ended stepId middle after) (hretried : Retried stepId before middle) :
    Ended stepId before after := by
  obtain ⟨entry, hfirst, hentry⟩ := hretried.log
  obtain ⟨entries, hrest, hentries⟩ := h.log
  refine ⟨h.settled.of_agree hretried.status hretried.results (ids_of_outline hretried.outline),
    h.outline.trans hretried.outline, entry :: entries, ?_, ?_⟩
  · rw [hrest, hfirst, List.append_assoc, List.singleton_append]
  · exact List.forall_mem_cons.mpr ⟨(Prod.mk.inj hentry).1, hentries⟩

theorem Exhausted.of_retried {count : Nat} {raised : Raised}
    (h : Exhausted stepId middle count raised)
    (hretried : Retried stepId before middle) : Exhausted stepId before (count + 1) raised := by
  obtain ⟨entry, hfirst, hentry⟩ := hretried.log
  obtain ⟨entries, hrest, hentries⟩ := h.log
  refine ⟨fun other hother => (h.status other hother).trans (hretried.status other hother),
    h.failed, entry :: entries, ?_, ?_⟩
  · rw [hrest, hfirst, List.append_assoc, List.singleton_append]
  · rw [List.map_cons, hentry, hentries, List.replicate_succ]

end Retrying

section Attempts

variable {remaining : Nat} {step : PlanStep} {state : PlanState}
  {executed : StepResult × PlanStep × PlanState}

theorem retried_resetStepForRetry (h : Attempted step (startAttempt step state) executed)
    (hfailed : executed.1.status = .failed) :
    Retried step.id state ((recordAttempt executed.2.1 executed.1 executed.2.2).resetStepForRetry
      executed.2.1.id) := by
  obtain ⟨hstatus, hresults, -⟩ := get?_recordAttempt executed.2.1 h.stepId h.unmoved.unadvanced
  obtain ⟨entry, hentry, hentryStatus, hlog⟩ := executionTrace_recordAttempt h
  refine ⟨fun other hother => ?_, fun other hother => ?_, h.unmoved.outline, entry, hlog, ?_⟩
  · rw [PlanState.resetStepForRetry_stepStatus, h.sameStep, Dict.get?_set_ne _ hother, hstatus,
      if_neg hother]
  · rw [PlanState.resetStepForRetry_stepResults, h.sameStep, Dict.get?_erase, if_neg hother,
      hresults, if_neg hother]
  · rw [hentry, hentryStatus, hfailed]

theorem exhausted_recordAttempt (h : Attempted step (startAttempt step state) executed)
    (hfailed : executed.1.status = .failed) :
    Exhausted step.id state 1
      ⟨.agentLoop (orText executed.1.error s!"Step {executed.2.1.id} failed"),
        recordAttempt executed.2.1 executed.1 executed.2.2⟩ := by
  obtain ⟨hstatus, hresults, -⟩ := get?_recordAttempt executed.2.1 h.stepId h.unmoved.unadvanced
  obtain ⟨entry, hentry, hentryStatus, hlog⟩ := executionTrace_recordAttempt h
  refine ⟨fun other hother => ?_, ⟨executed.1, hfailed, ?_, ?_⟩, [entry], hlog, ?_⟩
  · rw [hstatus, if_neg hother]
  · rw [hresults, if_pos rfl]
  · rw [h.sameStep]
  · rw [List.map_singleton, hentry, hentryStatus, hfailed]
    rfl

/-- An exchange while this step is run. -/
def OfStep (stepId : Int) (event : Event) : Prop :=
  event.op.withinStep = true ∨ ∃ status, event.op = .updatePlanNode stepId status

theorem synced_of_ofStep {stepId : Int} {event : Event} (h : OfStep stepId event)
    (own : PlanState) : synced own event = own := by
  rcases h with hwithin | ⟨status, hop⟩
  · exact synced_of_withinStep hwithin own
  · rw [synced, hop]

variable (config) in
/-- How the attempts of a step end, when none is replanned. -/
inductive Tried (stepId : Int) (state : PlanState) (remaining count : Nat) :
    Except Raised PlanState → Prop
  | ended {after : PlanState} (h : Ended stepId state after) :
      Tried stepId state remaining count (.ok after)
  | exhausted {raised : Raised} (hpolicy : config.failurePolicy = .retry)
      (hcount : count = remaining)
      (h : Exhausted stepId state count raised) :
      Tried stepId state remaining count (.error raised)

theorem attempts_running (stepId : Int) (reply : Except RaisedError Unit) (trace : List Event) :
    attempts (⟨.updatePlanNode stepId .running, reply⟩ :: trace) = stepId :: attempts trace := rfl

theorem attempts_pending (stepId : Int) (reply : Except RaisedError Unit) (trace : List Event) :
    attempts (⟨.updatePlanNode stepId .pending, reply⟩ :: trace) = attempts trace := rfl

/-- Without replanning, an attempt ends the step, or it has failed and the step is tried again. -/
theorem runs_firstAttempt {trace : List Event} {result : Except Raised PlanState}
    {last : SharedObjects} (hpolicy : config.failurePolicy ≠ .replan)
    (hcompression : config.compressionEnabled = false) (hkeeping : Keeping ids spent objects)
    (hmem : step.id ∈ ids) (hfollows : Follows SharedObjects.Step objects trace last)
    (hrun : Runs (runAttempts config (remaining + 1) step state) trace result) :
    ∃ first rest middle, trace = first ++ rest ∧ (∀ event ∈ first, OfStep step.id event) ∧
      attempts first = [step.id] ∧ Keeping ids spent middle ∧
      Follows SharedObjects.Step middle rest last ∧
      (rest = [] ∧ (∃ after, result = .ok after ∧ Ended step.id state after) ∨
        rest = [] ∧ config.failurePolicy = .retry ∧ remaining = 0 ∧
          (∃ raised, result = .error raised ∧ Exhausted step.id state 1 raised) ∨
        remaining ≠ 0 ∧ ∃ own reset, own.id = step.id ∧ Retried step.id state reset ∧
          Runs (runAttempts config remaining own reset) rest result) := by
  obtain ⟨called, rest, executed, middle, rfl, hcalled, hattempted, hafter, hmiddle, htail⟩ :=
    runs_attempt hkeeping hmem hfollows hrun
  have hstart : ∀ event ∈ (⟨.updatePlanNode step.id .running, .ok ()⟩ : Event) :: called,
      OfStep step.id event :=
    List.forall_mem_cons.mpr ⟨Or.inr ⟨_, rfl⟩, fun event hevent => Or.inl (hcalled event hevent)⟩
  have hattempts : attempts ((⟨.updatePlanNode step.id .running, .ok ()⟩ : Event) :: called) =
      [step.id] := by
    rw [attempts_running, attempts_of_withinStep hcalled]
  rw [← List.cons_append]
  -- what follows depends on the result of the call and, if it failed, on the policy
  by_cases hfailed : executed.1.status = .failed
  · rw [afterAttempt, if_neg (not_not.mpr hfailed)] at hafter
    by_cases hretry : config.failurePolicy = .retry ∧ remaining ≠ 0
    · rw [if_pos hretry] at hafter
      have hown : executed.2.1.id ∈ ids := hattempted.sameStep ▸ hmem
      rcases runs_bind_iff.mp hafter with ⟨_, reset, rest, hreset, hagain, rfl⟩ | ⟨error, hreset, -⟩
      · obtain ⟨next, hfirst, hsecond⟩ := Follows.append_iff.mp htail
        obtain ⟨rfl, -, hnext⟩ := runs_updateGraphNode hmiddle hown hfirst hreset
        refine ⟨_, rest, next, (List.append_assoc _ _ _).symm, ?_, ?_, hnext, hsecond,
          Or.inr (Or.inr ⟨hretry.2, executed.2.1, _, hattempted.sameStep,
            retried_resetStepForRetry hattempted hfailed, hagain⟩)⟩
        · exact List.forall_mem_append.mpr ⟨hstart, List.forall_mem_singleton.mpr
            (Or.inr ⟨.pending, congrArg (Op.updatePlanNode · _) hattempted.sameStep⟩)⟩
        · rw [attempts_append, hattempts, attempts_pending, attempts_nil, List.append_nil]
      · obtain ⟨-, hresult, -⟩ := runs_updateGraphNode hmiddle hown htail hreset
        cases hresult
    · rw [if_neg hretry] at hafter
      cases hown : config.failurePolicy with
      | replan => exact absurd hown hpolicy
      | skip =>
          obtain ⟨rfl, hended⟩ := runs_recover_skip hown hattempted hafter
          exact ⟨_, [], middle, rfl, hstart, hattempts, hmiddle, htail, Or.inl ⟨rfl, hended⟩⟩
      | retry =>
          rw [recover, hown] at hafter
          obtain ⟨rfl, rfl⟩ := runs_fail_iff.mp hafter
          have hzero : remaining = 0 := by
            by_contra hne
            exact hretry ⟨hown, hne⟩
          exact ⟨_, [], middle, rfl, hstart, hattempts, hmiddle, htail, Or.inr (Or.inl
            ⟨rfl, rfl, hzero, _, rfl, exhausted_recordAttempt hattempted hfailed⟩)⟩
  · obtain ⟨hwithin, hresult, hended⟩ := runs_afterAttempt_finished hattempted hfailed hafter
    obtain ⟨after, rfl⟩ := hresult hcompression
    refine ⟨_ ++ rest, [], last, (List.append_nil _).symm, ?_, ?_,
      hmiddle.of_withinStep hwithin htail, .nil last, Or.inl ⟨rfl, after, rfl, hended after rfl⟩⟩
    · exact List.forall_mem_append.mpr
        ⟨hstart, fun event hevent => Or.inl (hwithin event hevent)⟩
    · rw [attempts_append, hattempts, attempts_of_withinStep hwithin, List.append_nil]

/-- Without replanning a step is attempted until one attempt does not fail, as often as the
configuration allows. -/
theorem runs_runAttempts {trace : List Event} {result : Except Raised PlanState}
    {last : SharedObjects} (hpolicy : config.failurePolicy ≠ .replan)
    (hcompression : config.compressionEnabled = false) (hkeeping : Keeping ids spent objects)
    (hmem : step.id ∈ ids) (hfollows : Follows SharedObjects.Step objects trace last)
    (hrun : Runs (runAttempts config (remaining + 1) step state) trace result) :
    (∀ event ∈ trace, OfStep step.id event) ∧ Keeping ids spent last ∧
      ∃ count, 1 ≤ count ∧ count ≤ remaining + 1 ∧ attempts trace = List.replicate count step.id ∧
        Tried config step.id state (remaining + 1) count result := by
  -- induction on the attempts left: only a retried attempt leads to the hypothesis
  induction remaining generalizing step state trace objects with
  | zero =>
      obtain ⟨first, rest, middle, rfl, hsteps, hattempts, hmiddle, htail, hcase⟩ :=
        runs_firstAttempt hpolicy hcompression hkeeping hmem hfollows hrun
      rcases hcase with ⟨rfl, after, rfl, hended⟩ | ⟨rfl, hretry, -, raised, rfl, hexhausted⟩ |
        ⟨hzero, -⟩
      · rw [List.append_nil]
        cases Follows.nil_iff.mp htail
        exact ⟨hsteps, hmiddle, 1, le_refl 1, by omega, hattempts, .ended hended⟩
      · rw [List.append_nil]
        cases Follows.nil_iff.mp htail
        exact ⟨hsteps, hmiddle, 1, le_refl 1, by omega, hattempts, .exhausted hretry rfl hexhausted⟩
      · exact absurd rfl hzero
  | succ remaining ih =>
      obtain ⟨first, rest, middle, rfl, hsteps, hattempts, hmiddle, htail, hcase⟩ :=
        runs_firstAttempt hpolicy hcompression hkeeping hmem hfollows hrun
      rcases hcase with ⟨rfl, after, rfl, hended⟩ | ⟨-, -, hzero, -⟩ |
        ⟨-, own, reset, hown, hretried, hagain⟩
      · rw [List.append_nil]
        cases Follows.nil_iff.mp htail
        exact ⟨hsteps, hmiddle, 1, le_refl 1, by omega, hattempts, .ended hended⟩
      · cases hzero
      · obtain ⟨hrest, hlast, count, hpos, hle, hcount, htried⟩ :=
          ih hmiddle (hown ▸ hmem) htail hagain
        rw [hown] at hrest hcount htried
        refine ⟨List.forall_mem_append.mpr ⟨hsteps, hrest⟩, hlast,
          count + 1, by omega, by omega, ?_, ?_⟩
        · rw [attempts_append, hattempts, hcount, List.replicate_succ, List.singleton_append]
        · cases htried with
          | ended hended => exact .ended (hended.of_retried hretried)
          | exhausted hretry hall hexhausted =>
              exact .exhausted hretry (by omega) (hexhausted.of_retried hretried)

theorem exists_maxAttempts (config : ExecutorConfig) :
    ∃ remaining, maxAttempts config = remaining + 1 := by
  unfold maxAttempts
  split
  · exact ⟨_, Nat.add_comm _ _⟩
  · exact ⟨0, rfl⟩

theorem runs_runStepWithRecovery {trace : List Event} {result : Except Raised PlanState}
    {last : SharedObjects} (hpolicy : config.failurePolicy ≠ .replan)
    (hcompression : config.compressionEnabled = false) (hkeeping : Keeping ids spent objects)
    (hmem : step.id ∈ ids) (hfollows : Follows SharedObjects.Step objects trace last)
    (hrun : Runs (runStepWithRecovery config step state) trace result) :
    (∀ event ∈ trace, OfStep step.id event) ∧ Keeping ids spent last ∧
      ∃ count, 1 ≤ count ∧ count ≤ maxAttempts config ∧
        attempts trace = List.replicate count step.id ∧
        Tried config step.id state (maxAttempts config) count result := by
  obtain ⟨remaining, hmax⟩ := exists_maxAttempts config
  rw [runStepWithRecovery, hmax] at hrun
  rw [hmax]
  exact runs_runAttempts hpolicy hcompression hkeeping hmem hfollows hrun

end Attempts

end PlanExecutor

end TripGraph
