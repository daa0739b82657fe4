import TripGraph.Plan.Lockstep
import TripGraph.Plan.Replacement
import TripGraph.Plan.Scheduler

/-! # Only valid plans are run

A plan that the validator accepts stays one while its steps are executed, and a replacement is
accepted before it is run. So the executor calls no tool beyond the registered ones.
-/

namespace TripGraph

open Interaction

/-! ## Proper steps -/

/-- What the validator asks of a single step, when the ids are counted from one. -/
structure PlanStep.Proper (registry : List String) (step : PlanStep) : Prop where
  task : isBlank step.task = false
  deps : ∀ dep ∈ step.deps, 1 ≤ dep ∧ dep < step.id
  hint : ∀ hint, step.toolHint = some hint → hint ∈ registry

namespace Plan.WellFormed

variable {registry : List String} {plan : Plan}

theorem proper (h : plan.WellFormed registry) {step : PlanStep} (hstep : step ∈ plan.steps) :
    step.Proper registry where
  task := h.task step hstep
  deps dep hdep :=
    ⟨(h.mem_ids_iff.mp (h.deps step hstep dep hdep).1).1, (h.deps step hstep dep hdep).2⟩
  hint := h.hints step hstep

/-- Steps under the ids of a well-formed plan may be exchanged for other proper ones. -/
theorem exchange (h : plan.WellFormed registry) {steps : List PlanStep}
    (hids : steps.map PlanStep.id = plan.ids) (hproper : ∀ step ∈ steps, step.Proper registry) :
    Plan.WellFormed registry { plan with steps := steps } := by
  have hlength : steps.length = plan.steps.length := by
    simpa [Plan.ids] using congrArg List.length hids
  have hsame : Plan.ids { plan with steps := steps } = plan.ids := hids
  refine
    { goal := h.goal
      nonempty := fun hnil => h.nonempty (List.length_eq_zero_iff.mp ?_)
      task := fun step hstep => (hproper step hstep).task
      ids := ?_
      deps := fun step hstep dep hdep => ?_
      hints := fun step hstep => (hproper step hstep).hint }
  · rw [← hlength]
    exact List.length_eq_zero_iff.mpr hnil
  · rw [hsame, hlength]
    exact h.ids
  · obtain ⟨hone, hlt⟩ := (hproper step hstep).deps dep hdep
    have hown : step.id ∈ plan.ids := hids ▸ List.mem_map_of_mem hstep
    rw [hsame, h.mem_ids_iff]
    exact ⟨⟨hone, by have := (h.mem_ids_iff.mp hown).2; omega⟩, hlt⟩

theorem setToolHint {state : PlanState} (h : state.plan.WellFormed registry) (stepId : Int)
    {tool : String} (htool : tool ∈ registry) :
    (state.setToolHint stepId tool).plan.WellFormed registry := by
  refine h.exchange (PlanExecutor.ids_setHintIn _ _ _) ?_
  have hall : ∀ steps : List PlanStep, (∀ step ∈ steps, step.Proper registry) →
      ∀ step ∈ PlanState.setHintIn stepId tool steps, step.Proper registry := by
    intro steps hsteps
    induction steps with
    | nil => exact hsteps
    | cons step rest ih =>
        obtain ⟨hstep, hrest⟩ := List.forall_mem_cons.mp hsteps
        rw [PlanState.setHintIn]
        split
        · refine List.forall_mem_cons.mpr ⟨⟨hstep.task, hstep.deps, ?_⟩, hrest⟩
          rintro hint heq
          exact Option.some.inj heq ▸ htool
        · exact List.forall_mem_cons.mpr ⟨hstep, ih hrest⟩
  exact hall _ fun step hstep => h.proper hstep

end Plan.WellFormed

/-! ## Running a plan -/

/-- The operation runs a plan that the validator accepts, or a tool that is registered. -/
def Op.Sound (registry : List String) : Op → Prop
  | .newPlanGraph plan _ => (PlanValidator.validate registry plan).success = true
  | .rebuildPlanGraph plan => (PlanValidator.validate registry plan).success = true
  | .executeLlmCall tool _ _ => tool ∈ registry
  | _ => True

namespace PlanExecutor

variable {config : ExecutorConfig}

/-- The plan of the state is one that the validator of the executor accepts. -/
def Accepted (config : ExecutorConfig) (state : PlanState) : Prop :=
  state.plan.WellFormed config.registry

/-- The step can only call a registered tool. -/
def Registered (config : ExecutorConfig) (step : PlanStep) : Prop :=
  ∀ hint, step.toolHint = some hint → hint ∈ config.registry

theorem sound_orRaise {α : Type} {Q : α → Prop} (state : PlanState) {value : Except RaisedError α}
    (h : ∀ result, value = .ok result → Q result) :
    Program.Respects (Op.Sound config.registry) Q (orRaise state value) := by
  cases value with
  | ok result => exact h result rfl
  | error error => trivial

theorem sound_updateGraphNode (state : PlanState) (stepId : Int) (status : GraphNodeStatus) :
    Program.Respects (Op.Sound config.registry) (fun _ => True)
      (updateGraphNode state stepId status) := by
  apply respects_asking trivial
  intro answer
  exact sound_orRaise state fun _ _ => trivial

theorem sound_syncGraph (state : PlanState) :
    Program.Respects (Op.Sound config.registry) (fun _ => True) (syncGraph state) := by
  apply respects_asking trivial
  intro answer
  exact sound_orRaise state fun _ _ => trivial

theorem sound_tryCandidates {step : PlanStep} {toolArgs : Args} {attempt : Nat}
    {failedTool failureReason : String} {decision : ToolPolicyDecision} (candidates : List String)
    {state : PlanState} (h : Accepted config state) :
    Program.Respects (Op.Sound config.registry)
      (fun fallback => Accepted config fallback.2 ∧
        ∀ found, fallback.1 = some found → found.2.1 ∈ config.registry)
      (tryCandidates config step toolArgs attempt failedTool decision failureReason candidates
        state) := by
  induction candidates generalizing state with
  | nil => exact ⟨h, fun _ hnone => by cases hnone⟩
  | cons tool rest ih =>
      rw [tryCandidates]
      split
      next => exact ih h
      next hregistered =>
        have htool : tool ∈ config.registry := not_not.mp hregistered
        apply respects_asking htool
        intro observation
        have hrecorded : ∀ own, Accepted config (state.setPolicyDecision step.id own) := fun _ => h
        have hleaf : ∀ own, Program.Respects (Op.Sound config.registry)
            (fun fallback => Accepted config fallback.2 ∧
              ∀ found, fallback.1 = some found → found.2.1 ∈ config.registry)
            (if observation.success then
              pure (some (observation, tool, recoveryActionForFallback failedTool tool),
                (state.setPolicyDecision step.id own).setToolHint step.id tool)
            else tryCandidates config step toolArgs attempt failedTool decision failureReason rest
              (state.setPolicyDecision step.id own) : Execution _) := by
          intro own
          split
          · refine ⟨(hrecorded own).setToolHint step.id htool, ?_⟩
            rintro found heq
            cases heq
            exact htool
          · exact ih (hrecorded own)
        dsimp only
        split
        · exact respects_asking trivial fun _ => hleaf _
        · exact hleaf _

theorem sound_executeStep {step : PlanStep} {state : PlanState} (attempt : Nat)
    (h : Accepted config state) (hstep : Registered config step) :
    Program.Respects (Op.Sound config.registry)
      (fun executed => Registered config executed.2.1 ∧ Accepted config executed.2.2)
      (executeStep config step state attempt) := by
  unfold executeStep
  split
  next => exact ⟨hstep, h⟩
  next hint hhint =>
    split
    · exact ⟨hstep, h⟩
    split
    · exact ⟨hstep, h⟩
    apply respects_asking (hstep hint hhint)
    intro observation
    split
    · exact ⟨hstep, h⟩
    split
    · exact ⟨hstep, h⟩
    next decision =>
      refine Program.Respects.bind
        (Q := fun fallback => Accepted config fallback.2 ∧
          ∀ found, fallback.1 = some found → found.2.1 ∈ config.registry) ?_ ?_
      · unfold tryPolicyFallback
        split
        · exact sound_tryCandidates _ h
        · exact ⟨h, fun _ hnone => by cases hnone⟩
      · rintro ⟨found, after⟩ ⟨hafter, hfound⟩
        cases found with
        | none => exact ⟨hstep, hafter⟩
        | some found =>
            refine ⟨?_, hafter⟩
            rintro other heq
            exact Option.some.inj heq ▸ hfound _ rfl

theorem sound_maybeCompress (state : PlanState) :
    Program.Respects (Op.Sound config.registry) (fun after => after.plan = state.plan)
      (ContextCompressor.maybeCompress config state) := by
  unfold ContextCompressor.maybeCompress
  split
  · apply respects_asking trivial
    intro answer
    cases answer with
    | ok summary => exact Eq.refl state.plan
    | error error => trivial
  · exact Eq.refl state.plan

variable (hvalidates : config.failurePolicy = .replan → config.validatorConfigured = true)
include hvalidates

theorem sound_handleReplan {step : PlanStep} {state : PlanState} {error : String}
    (hpolicy : config.failurePolicy = .replan) :
    Program.Respects (Op.Sound config.registry) (Accepted config)
      (handleReplan config step state error) := by
  unfold handleReplan
  split
  · apply respects_asking trivial
    intro answer
    apply (sound_orRaise (Q := fun _ => True) _ fun _ _ => trivial).bind
    intro newSteps _
    dsimp only
    rw [if_pos (hvalidates hpolicy)]
    -- the replacement is only run where the validator has let it pass
    apply (sound_orRaise (Q := fun _ => (PlanValidator.validate config.registry
      ((traceReplan step state).applyReplannedSteps newSteps).plan).success = true) _ ?_).bind
    · intro _ hvalid
      apply respects_asking hvalid
      intro _
      exact (sound_syncGraph _).bind fun _ _ => PlanValidator.wellFormed_of_validate hvalid
    · intro _ hassert
      unfold PlanValidator.assertValid at hassert
      dsimp only at hassert
      split at hassert
      next hsuccess => exact hsuccess
      next => cases hassert
  · trivial

theorem sound_recover {step : PlanStep} {result : StepResult} {state : PlanState}
    (h : Accepted config state) :
    Program.Respects (Op.Sound config.registry) (Accepted config)
      (recover config step result state) := by
  unfold recover
  split
  next => exact h
  next hpolicy =>
    apply respects_asking trivial
    intro spent
    split
    · trivial
    · apply respects_asking trivial
      intro _
      exact (sound_handleReplan hvalidates hpolicy).bind fun _ hreplanned => hreplanned
  next => trivial

theorem sound_runAttempts {remaining : Nat} {step : PlanStep} {state : PlanState}
    (h : Accepted config state) (hstep : Registered config step) :
    Program.Respects (Op.Sound config.registry) (Accepted config)
      (runAttempts config remaining step state) := by
  induction remaining generalizing step state with
  | zero => trivial
  | succ remaining ih =>
      have hstarted : Accepted config (startAttempt step state) := by
        unfold startAttempt PlanState.setStepStatus
        split <;> exact h
      rw [runAttempts]
      apply (sound_updateGraphNode _ _ _).bind
      intro _ _
      apply (sound_executeStep _ hstarted hstep).bind
      rintro ⟨result, own, executed⟩ ⟨hown, hexecuted⟩
      have hrecorded : Accepted config (recordAttempt own result executed) := by
        unfold recordAttempt PlanState.recordStepResult PlanState.setStepStatus
        dsimp only
        split <;> exact hexecuted
      dsimp only
      split
      next =>
        apply (sound_maybeCompress _).bind
        intro compressed hcompressed
        have hplan : compressed.plan = (recordAttempt own result executed).plan :=
          hcompressed.trans (plan_mergeObservation _ _ _)
        exact (congrArg (Plan.WellFormed config.registry) hplan).mpr hrecorded
      next =>
        split
        next =>
          apply (sound_updateGraphNode _ _ _).bind
          intro _ _
          exact ih hrecorded hown
        next => exact sound_recover hvalidates hrecorded

theorem sound_executeLoop {fuel : Nat} {state : PlanState} (h : Accepted config state) :
    Program.Respects (Op.Sound config.registry) (Accepted config)
      (executeLoop config fuel state) := by
  induction fuel generalizing state with
  | zero => trivial
  | succ fuel ih =>
      rw [executeLoop]
      apply (sound_orRaise (Q := fun _ => True) _ fun _ _ => trivial).bind
      intro finished _
      split
      · exact h
      apply (sound_orRaise (Q := fun _ => True) _ fun _ _ => trivial).bind
      intro next _
      split
      next =>
        apply (sound_orRaise (Q := fun _ => True) _ fun _ _ => trivial).bind
        intro unfinished _
        split
        · exact h
        · trivial
      next stepId =>
        apply (sound_orRaise (Q := fun step => state.findStep stepId = .ok step) _
          fun _ heq => heq).bind
        intro step hstep
        have hmem : step ∈ state.plan.steps := (PlanState.mem_of_findStep hstep).2
        apply (sound_runAttempts hvalidates h (h.hints step hmem)).bind
        intro after hafter
        apply (sound_syncGraph after).bind
        intro _ _
        exact ih hafter

/-- The plan loop runs accepted plans and registered tools only, and leaves an accepted plan. -/
theorem sound_execute {fuel : Nat} {state : PlanState} (h : Accepted config state) :
    Program.Respects (Op.Sound config.registry) (Accepted config)
      (execute config fuel state.plan state) := by
  apply respects_asking (PlanValidator.validate_success_iff.mpr h)
  intro _
  apply (sound_syncGraph state).bind
  intro _ _
  apply (sound_executeLoop hvalidates h).bind
  intro ended hended
  exact (sound_syncGraph _).bind fun _ _ => hended

end PlanExecutor

/-! ## Replacing a plan -/

namespace ReplanningController

variable {registry : List String}

theorem validate_validateOrRepairPlan {live : LivePlanState} {preApplyStatus : Dict Int StepStatus}
    {notes : ReplanApplyMeta}
    (h : (validateOrRepairPlan registry live preApplyStatus notes).applied = true) :
    (PlanValidator.validate registry
      (validateOrRepairPlan registry live preApplyStatus notes).live.view.plan).success = true := by
  unfold validateOrRepairPlan at h ⊢
  dsimp only at h ⊢
  split
  next hsuccess => exact hsuccess
  next hfailed =>
    rw [if_neg hfailed] at h
    split
    next hunrepaired =>
      rw [if_pos hunrepaired] at h
      cases h
    next hrepaired =>
      rw [if_neg hrepaired] at h
      generalize (if (Repair.repairPlan live.view.plan).idMap.entries ≠ [] then
        (live.assignPlan (Repair.repairPlan live.view.plan).plan).remapStepStatus
          (Repair.repairPlan live.view.plan).idMap
        else (live.assignPlan (Repair.repairPlan live.view.plan).plan).assignStatus
          preApplyStatus) = remapped at h ⊢
      split
      next hsuccess => exact hsuccess
      next hfailed =>
        rw [if_neg hfailed] at h
        cases h

/-- Completed steps that are put back keep a valid plan valid. -/
theorem wellFormed_restored {plan : Plan} {completedBefore : Dict Int PlanStep}
    (h : plan.WellFormed registry)
    (hown : ∀ entry ∈ completedBefore.entries, entry.2.id = entry.1)
    (hproper : ∀ entry ∈ completedBefore.entries, entry.2.Proper registry) :
    Plan.WellFormed registry { plan with
      steps := (PlanState.restoreCompletedStepSnapshots plan.steps completedBefore).1 } := by
  rw [PlanState.restoreCompletedStepSnapshots_eq_map h.ids_nodup hown]
  apply h.exchange
  · rw [List.map_map]
    apply List.map_congr_left
    intro step _
    exact PlanState.id_restoredStep hown step
  · intro step hstep
    obtain ⟨own, hmem, rfl⟩ := List.mem_map.mp hstep
    unfold PlanState.restoredStep
    split
    next original horiginal =>
      split
      · exact h.proper hmem
      · exact hproper _ (Dict.mem_entries_of_get? horiginal)
    next => exact h.proper hmem

/-- An attempt that is applied leaves a valid plan. -/
theorem wellFormed_tryApplyReplanSteps {live : LivePlanState} {newSteps : List PlanStep}
    {completedBefore : Dict Int PlanStep} {notes : ReplanApplyMeta}
    (hown : ∀ entry ∈ completedBefore.entries, entry.2.id = entry.1)
    (hproper : ∀ entry ∈ completedBefore.entries, entry.2.Proper registry)
    (h : (tryApplyReplanSteps registry live newSteps completedBefore notes).applied = true) :
    (tryApplyReplanSteps registry live newSteps completedBefore
      notes).live.view.plan.WellFormed registry := by
  unfold tryApplyReplanSteps at h ⊢
  dsimp only at h ⊢
  split
  next hvalid =>
    rw [if_pos hvalid] at h
    have hwell := PlanValidator.wellFormed_of_validate (validate_validateOrRepairPlan hvalid)
    have hrestored := wellFormed_restored hwell hown hproper
    unfold restoreAndCheck at h ⊢
    dsimp only at h ⊢
    split
    next =>
      rw [LivePlanState.view_restoreCompletedStepSnapshots]
      exact hrestored
    next message hcheck =>
      rw [hcheck] at h
      cases h
  next hinvalid =>
    rw [if_neg hinvalid] at h
    exact absurd h hinvalid

/-- The plan is valid, unless the replan has failed its validation. -/
def Replaces (registry : List String) (outcome : ReplanningOutcome) : Prop :=
  outcome.updatedState.plan.WellFormed registry ∨
    outcome.result.replanned = false ∧
      outcome.result.skippedReason = some "replan_validation_failed"

theorem sound_noReplan {state : PlanState} (h : state.plan.WellFormed registry) (reason : String) :
    Program.Respects (S := runtimeSig) (Op.Sound registry) (Replaces registry)
      (noReplan state reason) :=
  respects_asking trivial fun _ => Or.inl h

theorem proper_completedStepSnapshot {state : PlanState} (h : state.plan.WellFormed registry) :
    ∀ entry ∈ (completedStepSnapshot state).entries, entry.2.Proper registry := by
  intro entry hentry
  obtain ⟨hkept, -⟩ := mem_of_get?_completedStepSnapshot (Dict.get?_of_mem_entries hentry)
  exact h.proper (List.mem_of_mem_filter hkept)

theorem replaces_conclude {attempt : Attempt} {snapshot : PlanRefs} {anchorStepId : Int}
    {reason : String} {attempts : Nat}
    (h : attempt.applied = true → attempt.live.view.plan.WellFormed registry) :
    Replaces registry ⟨resultOf (conclude attempt snapshot anchorStepId) reason attempts,
      (conclude attempt snapshot anchorStepId).live.view⟩ := by
  cases happlied : attempt.applied with
  | true =>
      left
      unfold conclude
      rw [if_pos happlied]
      dsimp only
      split
      · rw [LivePlanState.view_appendTrace]
        exact h happlied
      · exact h happlied
  | false =>
      right
      unfold conclude
      rw [if_neg (by simp [happlied])]
      simp [resultOf, happlied]

theorem wellFormed_fallbackAttempt {live : LivePlanState} {fallbackSteps : List PlanStep}
    {completedBefore : Dict Int PlanStep} {anchorStepId : Int}
    (hown : ∀ entry ∈ completedBefore.entries, entry.2.id = entry.1)
    (hproper : ∀ entry ∈ completedBefore.entries, entry.2.Proper registry)
    (h :
      (fallbackAttempt registry live fallbackSteps completedBefore anchorStepId).applied = true) :
    (fallbackAttempt registry live fallbackSteps completedBefore
      anchorStepId).live.view.plan.WellFormed registry := by
  unfold fallbackAttempt at h ⊢
  dsimp only at h ⊢
  split
  next happlied =>
    rw [LivePlanState.view_appendTrace]
    exact wellFormed_tryApplyReplanSteps hown hproper happlied
  next hfailed =>
    rw [if_neg hfailed] at h
    exact absurd h hfailed

theorem sound_replan {critique : ExecutionCritique} {state : PlanState}
    (h : state.plan.WellFormed registry) :
    Program.Respects (S := runtimeSig) (Op.Sound registry) (Replaces registry)
      (replan registry critique state) := by
  have hown : ∀ entry ∈ (completedStepSnapshot state).entries, entry.2.id = entry.1 :=
    id_completedStepSnapshot
  have hproper := proper_completedStepSnapshot h
  unfold replan
  apply respects_asking trivial
  intro _
  dsimp only
  refine Program.Respects.bind (Q := fun _ => True) (by simp) fun anchorStepId _ => ?_
  generalize LivePlanState.snapshotForReplan _ = copied
  have htail : ∀ last : Attempt,
      (last.applied = true → last.live.view.plan.WellFormed registry) →
      Program.Respects (S := runtimeSig) (Op.Sound registry) (Replaces registry) (do
        let attempts ← ask .attemptsUsed
        pure (⟨resultOf (conclude last copied.1 anchorStepId) (buildReplanReason critique) attempts,
          (conclude last copied.1 anchorStepId).live.view⟩ : ReplanningOutcome) : Runtime _) :=
    fun last hlast => respects_asking trivial fun _ => replaces_conclude hlast
  apply respects_asking trivial
  intro answer
  refine Program.Respects.bind (Q := fun _ => True) (by simp) fun newSteps _ => ?_
  split
  · exact htail _ (wellFormed_tryApplyReplanSteps hown hproper)
  · apply respects_asking trivial
    intro answer
    refine Program.Respects.bind (Q := fun _ => True) (by simp) fun fallbackSteps _ => ?_
    exact htail _ (wellFormed_fallbackAttempt hown hproper)

/-- Whatever the planner answers, the plan is valid after a critique has been handled, unless
its replacement has failed the validation. -/
theorem sound_handle {config : ReplanningConfig} {critique : ExecutionCritique} {state : PlanState}
    (h : state.plan.WellFormed registry) :
    Program.Respects (S := runtimeSig) (Op.Sound registry) (Replaces registry)
      (handle registry config critique state) := by
  unfold handle
  split
  · exact sound_noReplan h _
  split
  · exact sound_noReplan h _
  apply respects_asking trivial
  intro attempts
  split
  · exact sound_noReplan h _
  · exact sound_replan h

end ReplanningController

end TripGraph
