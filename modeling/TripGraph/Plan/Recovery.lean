import TripGraph.Plan.Executor

/-! # What running a step leaves behind

A step that is run to its end has a finished status and a result, and nothing else in the
plan state has advanced. Under `REPLAN` a step that fails is replaced instead: the
unfinished steps make room for the planner's answer.
-/

namespace TripGraph

open Interaction

/-! ## Replacements in a trace -/

/-- The replacement an exchange brings for the failed step with this id. -/
def replacement (stepId : Int) (event : Event) : Option (List PlanStep) :=
  match event with
  | ⟨.replanUnfinishedSteps _ failedStepId _, .ok steps⟩ =>
      if failedStepId = stepId then some steps else none
  | _ => none

/-- The replacements a trace brings for the failed step with this id. -/
def replacements (stepId : Int) (trace : List Event) : List (List PlanStep) :=
  trace.filterMap (replacement stepId)

@[simp] theorem replacements_nil (stepId : Int) : replacements stepId [] = [] := rfl

@[simp] theorem replacements_append (stepId : Int) (first second : List Event) :
    replacements stepId (first ++ second) =
      replacements stepId first ++ replacements stepId second := List.filterMap_append

/-- The operation does not ask for a replacement of this step. -/
def Op.replaces (stepId : Int) : Op → Bool
  | .replanUnfinishedSteps _ failedStepId _ => decide (failedStepId = stepId)
  | _ => false

theorem replacement_eq_none {stepId : Int} {event : Event} (h : event.op.replaces stepId = false) :
    replacement stepId event = none := by
  obtain ⟨op, reply⟩ := event
  cases op with
  | replanUnfinishedSteps state failedStepId error =>
      simp only [Op.replaces, decide_eq_false_iff_not] at h
      cases reply with
      | ok steps => simp [replacement, h]
      | error error => rfl
  | _ => rfl

theorem replacements_cons_of_not_replaces {stepId : Int} {event : Event} {trace : List Event}
    (h : event.op.replaces stepId = false) :
    replacements stepId (event :: trace) = replacements stepId trace :=
  List.filterMap_cons_none (replacement_eq_none h)

theorem replacements_of_asks {stepId : Int} {ε α : Type} {p : Effect ε α}
    (h : Program.Asks (S := runtimeSig) (fun op => op.replaces stepId = false) p)
    {trace : List Event} {result : Except ε α} (hrun : Runs p trace result) :
    replacements stepId trace = [] := by
  refine List.filterMap_eq_nil_iff.mpr fun event hmem => replacement_eq_none ?_
  exact Program.Respects.asks_of_runs h hrun event hmem

namespace PlanExecutor

/-! ## Footprints -/

/-- The operations of an executor that do not replan. -/
def mayCall (config : ExecutorConfig) : Op → Bool
  | .executeLlmCall .. => true
  | .updatePlanNode .. => true
  | .recordFallback .. => config.policyEngineConfigured && config.policyTracerConfigured
  | .summarize _ => config.compressionEnabled
  | _ => false

/-- The operations of a replan. -/
def mayReplan : Op → Bool
  | .replanBudgetSpent _ | .countReplan | .replanUnfinishedSteps .. | .rebuildPlanGraph _
  | .syncPlanGraph _ => true
  | _ => false

/-- The operations an executor with this configuration may ask while it runs a step. -/
def mayAsk (config : ExecutorConfig) (op : Op) : Bool :=
  mayCall config op || (decide (config.failurePolicy = .replan) && mayReplan op)

theorem mayAsk_of_mayCall {config : ExecutorConfig} {op : Op} (h : mayCall config op = true) :
    mayAsk config op = true := by
  simp [mayAsk, h]

theorem mayAsk_of_mayReplan {config : ExecutorConfig} {op : Op}
    (hpolicy : config.failurePolicy = .replan) (h : mayReplan op = true) :
    mayAsk config op = true := by
  simp [mayAsk, hpolicy, h]

theorem replaces_of_mayCall {config : ExecutorConfig} {op : Op} (h : mayCall config op = true)
    (stepId : Int) : op.replaces stepId = false := by
  cases op <;> simp [mayCall, Op.replaces] at h ⊢

/-! ## One execution -/

/-- The two states agree on everything but the context, the traces and the tool hints. -/
structure Unadvanced (before after : PlanState) : Prop where
  status : after.stepStatus = before.stepStatus
  results : after.stepResults = before.stepResults
  ids : after.plan.ids = before.plan.ids

theorem Unadvanced.rfl {state : PlanState} : Unadvanced state state := ⟨.refl _, .refl _, .refl _⟩

theorem Unadvanced.trans {first second third : PlanState} (h : Unadvanced first second)
    (h' : Unadvanced second third) : Unadvanced first third :=
  ⟨h'.status.trans h.status, h'.results.trans h.results, h'.ids.trans h.ids⟩

theorem ids_setHintIn (stepId : Int) (hint : String) (steps : List PlanStep) :
    (PlanState.setHintIn stepId hint steps).map PlanStep.id = steps.map PlanStep.id := by
  induction steps with
  | nil => rfl
  | cons step rest ih =>
      rw [PlanState.setHintIn]
      split
      · rfl
      · rw [List.map_cons, List.map_cons, ih]

theorem unadvanced_setToolHint (state : PlanState) (stepId : Int) (hint : String) :
    Unadvanced state (state.setToolHint stepId hint) := ⟨rfl, rfl, ids_setHintIn _ _ _⟩

/-- What executing a step brings: a result of this step that has failed or finished. -/
structure Executed (step : PlanStep) (state : PlanState)
    (executed : StepResult × PlanStep × PlanState) : Prop where
  stepId : executed.1.stepId = step.id
  status : executed.1.status = .failed ∨ executed.1.status.finished = true
  sameStep : executed.2.1.id = step.id
  unadvanced : Unadvanced state executed.2.2

variable {config : ExecutorConfig}

/-- A program of the executor that does not replan. -/
abbrev Calls {α : Type} (config : ExecutorConfig) (Q : α → Prop) (p : Execution α) : Prop :=
  Program.Respects (fun op : Op => mayCall config op = true) Q p

theorem calls_orRaise {α : Type} (state : PlanState) (value : Except RaisedError α) :
    Calls config (fun _ => True) (orRaise state value) := by
  cases value <;> trivial

theorem calls_updateGraphNode (config : ExecutorConfig) (state : PlanState) (stepId : Int)
    (status : GraphNodeStatus) :
    Calls config (fun _ => True) (updateGraphNode state stepId status) :=
  respects_asking rfl fun _ => calls_orRaise _ _

theorem calls_tryCandidates (hengine : config.policyEngineConfigured = true) {step : PlanStep}
    {toolArgs : Args} {attempt : Nat} {failedTool failureReason : String}
    {decision : ToolPolicyDecision} (candidates : List String) (state : PlanState) :
    Calls config (fun fallback => Unadvanced state fallback.2)
      (tryCandidates config step toolArgs attempt failedTool decision failureReason candidates
        state) := by
  induction candidates generalizing state with
  | nil => exact Unadvanced.rfl
  | cons tool rest ih =>
      rw [tryCandidates]
      split
      · exact ih state
      · refine respects_asking rfl fun observation => ?_
        have hrecorded : ∀ own, Unadvanced state (state.setPolicyDecision step.id own) :=
          fun _ => ⟨rfl, rfl, rfl⟩
        have hfound : ∀ own, Unadvanced state
            ((state.setPolicyDecision step.id own).setToolHint step.id tool) :=
          fun own => (hrecorded own).trans (unadvanced_setToolHint _ step.id tool)
        have hnext : ∀ own, Calls config (fun fallback => Unadvanced state fallback.2)
            (tryCandidates config step toolArgs attempt failedTool decision failureReason rest
              (state.setPolicyDecision step.id own)) :=
          fun own => (ih _).mono (fun _ h => h) fun _ h => (hrecorded own).trans h
        dsimp only
        split
        next htracer =>
          refine respects_asking (by simp [mayCall, hengine, htracer]) fun _ => ?_
          split
          · exact hfound _
          · exact hnext _
        next =>
          split
          · exact hfound _
          · exact hnext _

theorem executed_toolResult {step : PlanStep} {state after : PlanState} {toolArgs : Args}
    {attempt : Nat} {observation : ToolObservation} {tool : String} {action : Option String}
    {own : PlanStep} (hown : own.id = step.id) (hafter : Unadvanced state after) :
    Executed step state (toolResult step toolArgs attempt observation tool action, own, after) := by
  refine ⟨?_, ?_, hown, hafter⟩
  · unfold toolResult
    split <;> rfl
  · unfold toolResult
    split
    · exact Or.inr rfl
    · exact Or.inl rfl

theorem calls_executeStep (step : PlanStep) (state : PlanState) (attempt : Nat) :
    Calls config (Executed step state) (executeStep config step state attempt) := by
  have hwithout : Executed step state (executeStep.withoutTool step attempt, step, state) :=
    ⟨rfl, Or.inr rfl, rfl, .rfl⟩
  unfold executeStep
  split
  · exact hwithout
  split
  · exact hwithout
  split
  · exact ⟨rfl, Or.inr rfl, rfl, .rfl⟩
  refine respects_asking rfl fun observation => ?_
  split
  · exact executed_toolResult rfl .rfl
  split
  · exact executed_toolResult rfl .rfl
  next decision =>
    refine Program.Respects.bind (Q := fun fallback => Unadvanced state fallback.2) ?_
      fun fallback hfallback => ?_
    · unfold tryPolicyFallback
      split
      next hengine => exact calls_tryCandidates hengine _ _
      next => exact Unadvanced.rfl
    · split
      · exact executed_toolResult rfl hfallback
      · exact executed_toolResult rfl hfallback

theorem calls_maybeCompress (state : PlanState) :
    Calls config (Unadvanced state) (ContextCompressor.maybeCompress config state) := by
  unfold ContextCompressor.maybeCompress
  split
  next hcompress =>
    simp only [Bool.and_eq_true] at hcompress
    refine respects_asking hcompress.1 fun _ => ?_
    exact (calls_orRaise _ _).bind fun _ _ => ⟨rfl, rfl, rfl⟩
  next => exact Unadvanced.rfl

/-! ## A step run to its end -/

/-- The step has ended with a finished result; no other step has advanced. -/
def Settled (stepId : Int) (before after : PlanState) : Prop :=
  ∃ result : StepResult, result.status.finished = true ∧
    (∀ other, after.stepStatus.get? other =
      if other = stepId then some result.status else before.stepStatus.get? other) ∧
    (∀ other, after.stepResults.get? other =
      if other = stepId then some result else before.stepResults.get? other) ∧
    after.plan.ids = before.plan.ids

/-- The unfinished steps have made room for the planner's answer. -/
structure Replaced (answer : List PlanStep) (before after : PlanState) : Prop where
  status : ∀ other, after.stepStatus.get? other =
    if before.Renumbered answer other then some .pending
    else if other ∈ before.removedIds then none else before.stepStatus.get? other
  results : ∀ other, after.stepResults.get? other =
    if other ∈ before.removedIds then none else before.stepResults.get? other

/-- How a step that is run and raises nothing ends. -/
inductive Ending (config : ExecutorConfig) (stepId : Int) (before : PlanState) (trace : List Event)
    (after : PlanState) : Prop
  | settled (h : Settled stepId before after) (hnone : ∀ own, replacements own trace = [])
  | replaced (hpolicy : config.failurePolicy = .replan) (answer : List PlanStep)
      (h : Replaced answer before after)
      (hown : ∀ own, replacements own trace = if own = stepId then [answer] else [])

theorem Settled.of_agree {stepId : Int} {before before' after : PlanState}
    (h : Settled stepId before' after)
    (hstatus : ∀ other, other ≠ stepId →
      before'.stepStatus.get? other = before.stepStatus.get? other)
    (hresults : ∀ other, other ≠ stepId →
      before'.stepResults.get? other = before.stepResults.get? other)
    (hids : before'.plan.ids = before.plan.ids) : Settled stepId before after := by
  obtain ⟨result, hfinished, hafter, hafterResults, hafterIds⟩ := h
  refine ⟨result, hfinished, fun other => ?_, fun other => ?_, hafterIds.trans hids⟩
  · rw [hafter]
    split
    next => rfl
    next hother => exact hstatus other hother
  · rw [hafterResults]
    split
    next => rfl
    next hother => exact hresults other hother

theorem Ending.prepend {config : ExecutorConfig} {stepId : Int} {before after : PlanState}
    {first trace : List Event} (h : Ending config stepId before trace after)
    (hfirst : ∀ own, replacements own first = []) :
    Ending config stepId before (first ++ trace) after := by
  cases h with
  | settled h hnone => exact .settled h fun own => by simp [hfirst, hnone]
  | replaced hpolicy answer h hown =>
      exact .replaced hpolicy answer h fun own => by simp [hfirst, hown]

theorem replacements_of_calls {α : Type} {Q : α → Prop} {p : Execution α}
    (h : Calls config Q p) {trace : List Event} {result : Except Raised α}
    (hrun : Runs p trace result) (stepId : Int) : replacements stepId trace = [] :=
  replacements_of_asks ((h.mono (fun _ hop => replaces_of_mayCall hop stepId)
    fun _ h => h).asks) hrun

theorem runs_orRaise_iff {α : Type} {state : PlanState} {value : Except RaisedError α}
    {trace : List Event} {result : α} :
    Runs (orRaise state value) trace (.ok result) ↔ trace = [] ∧ value = .ok result := by
  cases value with
  | ok own => simp [orRaise, Except.mapError, eq_comm]
  | error error => simp [orRaise, Except.mapError]

theorem unadvanced_traceReplan (step : PlanStep) (state : PlanState) :
    Unadvanced state (traceReplan step state) := by
  unfold traceReplan
  split
  · exact ⟨rfl, rfl, rfl⟩
  · exact .rfl

/-- A replan that raises nothing replaces the unfinished steps by the planner's answer. -/
theorem runs_handleReplan_ok {step : PlanStep} {state after : PlanState} {error : String}
    {trace : List Event} (h : Runs (handleReplan config step state error) trace (.ok after)) :
    ∃ answer, after = (traceReplan step state).applyReplannedSteps answer ∧
      ∀ own, replacements own trace = if own = step.id then [answer] else [] := by
  unfold handleReplan at h
  split at h
  next =>
    obtain ⟨answered, rest, rfl, h₁⟩ := runs_asking_iff.mp h
    obtain ⟨answer, _, rest, hanswer, h₂, rfl⟩ := runs_bind_ok_iff.mp h₁
    obtain ⟨rfl, rfl⟩ := runs_orRaise_iff.mp hanswer
    generalize hreplanned : (traceReplan step state).applyReplannedSteps answer = replanned at h₂
    have htail : Runs (do
        ask (.rebuildPlanGraph replanned.plan)
        syncGraph replanned
        pure replanned) rest (.ok after) := by
      split at h₂
      · obtain ⟨_, _, _, hvalid, h₃, rfl⟩ := runs_bind_ok_iff.mp h₂
        obtain ⟨rfl, -⟩ := runs_orRaise_iff.mp hvalid
        exact h₃
      · exact h₂
    obtain ⟨_, _, rfl, h₄⟩ := runs_asking_iff.mp htail
    obtain ⟨_, _, _, hsync, h₅, rfl⟩ := runs_bind_ok_iff.mp h₄
    obtain ⟨_, _, rfl, hsynced⟩ := runs_asking_iff.mp hsync
    obtain ⟨rfl, -⟩ := runs_orRaise_iff.mp hsynced
    obtain ⟨rfl, hafter⟩ := runs_pure_iff.mp h₅
    cases hafter
    refine ⟨answer, hreplanned.symm, fun own => ?_⟩
    by_cases hown : own = step.id
    · subst hown
      simp [replacements, replacement]
    · simp [replacements, replacement, hown, Ne.symm hown]
  next => simp at h

/-- The steps that are finished stay the same ones when another step fails. -/
theorem mem_finishedStepIds_of_failed {stepId : Int} {before marked : PlanState}
    {failed : StepResult}
    (hfailed : failed.status = .failed) (hunfinished : stepId ∉ before.finishedStepIds)
    (hstatus : ∀ other, marked.stepStatus.get? other =
      if other = stepId then some failed.status else before.stepStatus.get? other) (own : Int) :
    own ∈ marked.finishedStepIds ↔ own ∈ before.finishedStepIds := by
  by_cases hown : own = stepId
  · subst hown
    refine iff_of_false (fun hmem => ?_) hunfinished
    obtain ⟨status, hget, hdone⟩ := (PlanState.mem_finishedStepIds_iff _ _).mp hmem
    rw [hstatus, if_pos rfl, hfailed] at hget
    cases hget
    cases hdone
  · simp only [PlanState.mem_finishedStepIds_iff, hstatus, if_neg hown]

/-- The part of the plan state that is not finished stays the same part when one of its
steps fails. -/
theorem Replaced.of_applyReplannedSteps {stepId : Int} {answer : List PlanStep}
    {before marked : PlanState} {failed : StepResult} (hfailed : failed.status = .failed)
    (hmem : stepId ∈ before.plan.ids) (hunfinished : stepId ∉ before.finishedStepIds)
    (hids : marked.plan.ids = before.plan.ids)
    (hstatus : ∀ other, marked.stepStatus.get? other =
      if other = stepId then some failed.status else before.stepStatus.get? other)
    (hresults : ∀ other, marked.stepResults.get? other =
      if other = stepId then some failed else before.stepResults.get? other) :
    Replaced answer before (marked.applyReplannedSteps answer) := by
  have hfinished := mem_finishedStepIds_of_failed hfailed hunfinished hstatus
  have hmax := PlanState.maxFinishedId_congr hfinished
  have hremoved : ∀ own, own ∈ marked.removedIds ↔ own ∈ before.removedIds := fun own => by
    rw [PlanState.mem_removedIds_iff, PlanState.mem_removedIds_iff, hids, hfinished]
  have hself : stepId ∈ before.removedIds :=
    (PlanState.mem_removedIds_iff _).mpr ⟨hmem, hunfinished⟩
  have hrenumbered : ∀ own, marked.Renumbered answer own ↔ before.Renumbered answer own :=
    fun own => by rw [PlanState.Renumbered, PlanState.Renumbered, hmax]
  constructor
  · intro other
    rw [PlanState.get?_status_applyReplannedSteps]
    simp only [hrenumbered, hremoved, hstatus]
    by_cases hother : other = stepId
    · subst hother
      simp [hself]
    · simp [hother]
  · intro other
    rw [PlanState.get?_result_applyReplannedSteps]
    simp only [hremoved, hresults]
    by_cases hother : other = stepId
    · subst hother
      simp [hself]
    · simp [hother]

/-- The state an attempt leaves behind, read at any step. -/
theorem get?_recordAttempt {step : PlanStep} {result : StepResult} {state executed : PlanState}
    (own : PlanStep) (hstepId : result.stepId = step.id)
    (hexecuted : Unadvanced (startAttempt step state) executed) :
    (∀ other, (recordAttempt own result executed).stepStatus.get? other =
      if other = step.id then some result.status else state.stepStatus.get? other) ∧
    (∀ other, (recordAttempt own result executed).stepResults.get? other =
      if other = step.id then some result else state.stepResults.get? other) ∧
    (recordAttempt own result executed).plan.ids = state.plan.ids := by
  refine ⟨fun other => ?_, fun other => ?_, hexecuted.ids⟩
  · simp only [recordAttempt, PlanState.recordTrace, PlanState.appendTrace_stepStatus,
      PlanState.recordStepResult_stepStatus, Dict.get?_set, hstepId, hexecuted.status, startAttempt,
      PlanState.setStepStatus_stepStatus]
    split <;> rfl
  · simp only [recordAttempt, PlanState.recordTrace, PlanState.appendTrace_stepResults,
      PlanState.recordStepResult_stepResults, Dict.get?_set, hstepId, hexecuted.results,
      startAttempt, PlanState.setStepStatus_stepResults]

theorem unadvanced_mergeObservation (state : PlanState) (stepId : Int) (result : StepResult) :
    Unadvanced state (state.mergeObservation stepId result) := by
  unfold PlanState.mergeObservation
  dsimp only
  split
  · split <;> exact ⟨rfl, rfl, rfl⟩
  · exact ⟨rfl, rfl, rfl⟩

/-- What follows a failed attempt that is not retried and raises nothing. -/
theorem runs_recover_ok {step own : PlanStep} {result : StepResult}
    {state executed after : PlanState}
    {trace : List Event} (hstepId : result.stepId = step.id) (hown : own.id = step.id)
    (hfailed : result.status = .failed) (hmem : step.id ∈ state.plan.ids)
    (hunfinished : step.id ∉ state.finishedStepIds)
    (hexecuted : Unadvanced (startAttempt step state) executed)
    (h : Runs (recover config own result (recordAttempt own result executed)) trace (.ok after)) :
    Ending config step.id state trace after := by
  obtain ⟨hstatus, hresults, hids⟩ := get?_recordAttempt own hstepId hexecuted
  unfold recover at h
  split at h
  next =>
    obtain ⟨rfl, hafter⟩ := runs_pure_iff.mp h
    cases hafter
    refine .settled ⟨{ result with status := .skipped, recoveryAction := some "skip" }, rfl,
      fun other => ?_, fun other => ?_, hids⟩ fun _ => rfl
    · simp only [PlanState.recordTrace, PlanState.appendTrace_stepStatus,
        PlanState.recordStepResult_stepStatus, Dict.get?_set, hstepId, hstatus]
      split <;> rfl
    · simp only [PlanState.recordTrace, PlanState.appendTrace_stepResults,
        PlanState.recordStepResult_stepResults, Dict.get?_set, hstepId, hresults]
      split <;> rfl
  next hpolicy =>
    obtain ⟨spent, rest, rfl, h₁⟩ := runs_asking_iff.mp h
    split at h₁
    next => simp at h₁
    next =>
      obtain ⟨_, rest, rfl, h₂⟩ := runs_asking_iff.mp h₁
      obtain ⟨replanned, first, _, hreplan, h₃, rfl⟩ := runs_bind_ok_iff.mp h₂
      obtain ⟨rfl, hafter⟩ := runs_pure_iff.mp h₃
      cases hafter
      obtain ⟨answer, rfl, hreplacements⟩ := runs_handleReplan_ok hreplan
      have htraced := unadvanced_traceReplan own (recordAttempt own result executed)
      have hreplaced : Replaced answer state _ := Replaced.of_applyReplannedSteps hfailed hmem
        hunfinished (htraced.ids.trans hids) (fun other => htraced.status ▸ hstatus other)
        fun other => htraced.results ▸ hresults other
      refine .replaced hpolicy answer ⟨hreplaced.status, hreplaced.results⟩ fun other => ?_
      have hother := hreplacements other
      rw [hown] at hother
      rw [← hother, replacements_cons_of_not_replaces rfl, replacements_cons_of_not_replaces rfl,
        List.append_nil]
  next => simp at h

/-- A step that is run and raises nothing has settled or has been replaced. -/
theorem runs_runAttempts_ok {remaining : Nat} {step : PlanStep} {state after : PlanState}
    {trace : List Event} (hmem : step.id ∈ state.plan.ids)
    (hunfinished : step.id ∉ state.finishedStepIds)
    (h : Runs (runAttempts config remaining step state) trace (.ok after)) :
    Ending config step.id state trace after := by
  -- induction on the attempts left: a retry starts from a state like the first one
  induction remaining generalizing step state trace with
  | zero => simp [runAttempts] at h
  | succ remaining ih =>
      rw [runAttempts] at h
      obtain ⟨_, started, _, hstarted, h₁, rfl⟩ := runs_bind_ok_iff.mp h
      obtain ⟨⟨result, own, executed⟩, called, _, hcalled, h₂, rfl⟩ := runs_bind_ok_iff.mp h₁
      have hstartedNone := replacements_of_calls (calls_updateGraphNode config _ _ _) hstarted
      have hcalledNone := replacements_of_calls (calls_executeStep _ _ _) hcalled
      obtain ⟨hstepId, hended, hown, hexecuted⟩ := (calls_executeStep _ _ _).returns_of_runs hcalled
      dsimp only at hstepId hended hown hexecuted h₂
      obtain ⟨hstatus, hresults, hids⟩ := get?_recordAttempt own hstepId hexecuted
      split at h₂
      next hfinished =>
        obtain ⟨compressed, last, _, hcompressed, h₃, rfl⟩ := runs_bind_ok_iff.mp h₂
        obtain ⟨rfl, hafter⟩ := runs_pure_iff.mp h₃
        cases hafter
        have hnone := replacements_of_calls (calls_maybeCompress _) hcompressed
        have hsame := (unadvanced_mergeObservation _ _ _).trans
          ((calls_maybeCompress _).returns_of_runs hcompressed)
        refine .settled ⟨result, hended.resolve_left hfinished, fun other => ?_, fun other => ?_,
          hsame.ids.trans hids⟩ fun other => by simp [hstartedNone, hcalledNone, hnone]
        · exact (congrArg (Dict.get? · other) hsame.status).trans (hstatus other)
        · exact (congrArg (Dict.get? · other) hsame.results).trans (hresults other)
      next hfinished =>
        have hfailed : result.status = .failed := by simpa using hfinished
        split at h₂
        next hretry =>
          obtain ⟨_, resetting, _, hresetting, h₃, rfl⟩ := runs_bind_ok_iff.mp h₂
          have hresettingNone :=
            replacements_of_calls (calls_updateGraphNode config _ _ _) hresetting
          have hunfinished' : own.id ∉
              ((recordAttempt own result executed).resetStepForRetry own.id).finishedStepIds := by
            rw [PlanState.mem_finishedStepIds_iff]
            simp [StepStatus.finished]
          -- under `RETRY` the last attempt does not replan, so the second case is empty
          rcases ih (by rw [hown]; exact hids ▸ hmem) hunfinished' h₃ with
            ⟨hsettled, hnone⟩ | ⟨hpolicy, -, -, -⟩
          · rw [hown] at hsettled
            refine .settled
              (hsettled.of_agree (fun other hother => ?_) (fun other hother => ?_) hids)
              fun other => by simp [hstartedNone, hcalledNone, hresettingNone, hnone]
            · rw [PlanState.resetStepForRetry_stepStatus, Dict.get?_set_ne _ hother, hstatus,
                if_neg hother]
            · rw [PlanState.resetStepForRetry_stepResults, Dict.get?_erase, if_neg hother, hresults,
                if_neg hother]
          · exact absurd (hretry.1.symm.trans hpolicy) (by decide)
        next =>
          have hending := runs_recover_ok hstepId hown hfailed hmem hunfinished hexecuted h₂
          exact (hending.prepend hcalledNone).prepend hstartedNone

theorem runs_runStepWithRecovery_ok {step : PlanStep} {state after : PlanState}
    {trace : List Event} (hmem : step.id ∈ state.plan.ids)
    (hunfinished : step.id ∉ state.finishedStepIds)
    (h : Runs (runStepWithRecovery config step state) trace (.ok after)) :
    Ending config step.id state trace after := runs_runAttempts_ok hmem hunfinished h

end PlanExecutor

end TripGraph
