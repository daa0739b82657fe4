import TripGraph.Plan.Replans

/-! # The four collections of a plan state

The statuses, the results, the completed steps and the plan are changed one at a time. They
agree whenever the plan loop looks at them.
-/

namespace TripGraph

open Interaction

namespace PlanState

/-- The statuses are those of the steps of the plan, the completed steps are the ones with
that status, and each result is filed under its own step with the status of the step. -/
structure Consistent (state : PlanState) : Prop where
  keys : ∀ stepId, (state.stepStatus.get? stepId).isSome ↔ stepId ∈ state.plan.ids
  nodup : state.completedSteps.Nodup
  completed : ∀ stepId,
    stepId ∈ state.completedSteps ↔ state.stepStatus.get? stepId = some .completed
  results : ∀ stepId result, state.stepResults.get? stepId = some result →
    result.stepId = stepId ∧ stepId ∈ state.plan.ids ∧
      state.stepStatus.get? stepId = some result.status
  settled : ∀ stepId result, state.stepResults.get? stepId = some result →
    result.status.settled = true

/-- The two states agree on the four collections, apart from the tool hints. -/
structure Agree (before after : PlanState) : Prop where
  ids : after.plan.ids = before.plan.ids
  status : after.stepStatus = before.stepStatus
  results : after.stepResults = before.stepResults
  completed : after.completedSteps = before.completedSteps

theorem Agree.trans {first second third : PlanState} (h : Agree first second)
    (h' : Agree second third) : Agree first third :=
  ⟨h'.ids.trans h.ids, h'.status.trans h.status, h'.results.trans h.results,
    h'.completed.trans h.completed⟩

namespace Consistent

variable {state after : PlanState} {stepId : Int}

theorem of_agree (h : Consistent state) (hagree : Agree state after) : Consistent after := by
  constructor
  · rw [hagree.status, hagree.ids]
    exact h.keys
  · rw [hagree.completed]
    exact h.nodup
  · rw [hagree.completed, hagree.status]
    exact h.completed
  · rw [hagree.results, hagree.ids, hagree.status]
    exact h.results
  · rw [hagree.results]
    exact h.settled

theorem fromPlan (plan : Plan) (sessionId : String) : Consistent (fromPlan plan sessionId) := by
  have hkeys : ∀ stepId, ((PlanState.fromPlan plan sessionId).stepStatus.get? stepId).isSome ↔
      stepId ∈ plan.ids := by
    intro stepId
    rw [← Dict.mem_keys_iff, ← Dict.contains_iff, PlanState.fromPlan, Dict.contains_ofList,
      List.map_map]
    exact Iff.rfl
  have hpending : ∀ stepId status,
      (PlanState.fromPlan plan sessionId).stepStatus.get? stepId = some status →
        status = .pending := by
    intro stepId status hget
    obtain ⟨step, -, heq⟩ := List.mem_map.mp (Dict.mem_of_get?_ofList hget)
    exact (Prod.mk.inj heq).2.symm
  refine ⟨hkeys, List.nodup_nil, fun stepId => ⟨?_, ?_⟩, ?_, ?_⟩
  · intro hmem
    cases hmem
  · intro hget
    cases hpending stepId _ hget
  · intro stepId result hget
    cases hget
  · intro stepId result hget
    cases hget

/-- A step that has no result yet may be marked as anything but completed. -/
theorem setStepStatus (h : Consistent state) {status : StepStatus} (hmem : stepId ∈ state.plan.ids)
    (hstatus : status ≠ .completed) (hopen : state.stepStatus.get? stepId ≠ some .completed)
    (hnone : state.stepResults.get? stepId = none) :
    Consistent (state.setStepStatus stepId status) := by
  have hcompleted : (state.setStepStatus stepId status).completedSteps = state.completedSteps :=
    if_neg fun hboth => hstatus hboth.1
  constructor
  · intro other
    rw [setStepStatus_stepStatus, setStepStatus_plan, Dict.get?_set]
    split
    next heq => exact iff_of_true rfl (heq ▸ hmem)
    next => exact h.keys other
  · rw [hcompleted]
    exact h.nodup
  · intro other
    rw [hcompleted, setStepStatus_stepStatus, Dict.get?_set, h.completed]
    split
    next heq =>
      apply iff_of_false
      · rwa [heq]
      · exact fun hsome => hstatus (Option.some.inj hsome)
    next => exact Iff.rfl
  · intro other result hget
    rw [setStepStatus_stepResults] at hget
    have hne : other ≠ stepId := by
      rintro rfl
      cases hnone.symm.trans hget
    rw [setStepStatus_stepStatus, Dict.get?_set_ne _ hne]
    exact h.results other result hget
  · exact h.settled

/-- A step that is not completed may be given a result. -/
theorem recordStepResult (h : Consistent state) {result : StepResult}
    (hmem : result.stepId ∈ state.plan.ids) (hsettled : result.status.settled = true)
    (hopen : state.stepStatus.get? result.stepId ≠ some .completed) :
    Consistent (state.recordStepResult result) := by
  have hnot : result.stepId ∉ state.completedSteps := fun hold => hopen ((h.completed _).mp hold)
  have hcompleted : (state.recordStepResult result).completedSteps =
      if result.status = .completed then state.completedSteps ++ [result.stepId]
      else state.completedSteps := if_congr (and_iff_left hnot) rfl rfl
  constructor
  · intro other
    rw [recordStepResult_stepStatus, recordStepResult_plan, Dict.get?_set]
    split
    next heq => exact iff_of_true rfl (heq ▸ hmem)
    next => exact h.keys other
  · rw [hcompleted]
    split
    · exact List.nodup_append.mpr ⟨h.nodup, List.nodup_singleton _,
        fun own hown other hother heq => hnot (List.mem_singleton.mp hother ▸ heq ▸ hown)⟩
    · exact h.nodup
  · intro other
    rw [hcompleted, recordStepResult_stepStatus, Dict.get?_set]
    split
    next hdone =>
      rw [List.mem_append, List.mem_singleton, h.completed]
      split
      next heq => exact iff_of_true (Or.inr heq) (congrArg some hdone)
      next hne => exact or_iff_left hne
    next hdone =>
      rw [h.completed]
      split
      next heq =>
        apply iff_of_false
        · rwa [heq]
        · exact fun hsome => hdone (Option.some.inj hsome)
      next => exact Iff.rfl
  · intro other own hget
    rw [recordStepResult_stepResults, Dict.get?_set] at hget
    rw [recordStepResult_stepStatus, recordStepResult_plan, Dict.get?_set]
    split at hget
    next heq =>
      cases hget
      rw [if_pos heq]
      exact ⟨heq.symm, heq ▸ hmem, rfl⟩
    next hne =>
      rw [if_neg hne]
      exact h.results other own hget
  · intro other own hget
    rw [recordStepResult_stepResults, Dict.get?_set] at hget
    split at hget
    next =>
      cases hget
      exact hsettled
    next => exact h.settled other own hget

/-- A step may always be taken back to be tried again. -/
theorem resetStepForRetry (h : Consistent state) (hmem : stepId ∈ state.plan.ids) :
    Consistent (state.resetStepForRetry stepId) := by
  have hcompleted : (state.resetStepForRetry stepId).completedSteps =
      state.completedSteps.erase stepId := rfl
  constructor
  · intro other
    rw [resetStepForRetry_stepStatus, resetStepForRetry_plan, Dict.get?_set]
    split
    next heq => exact iff_of_true rfl (heq ▸ hmem)
    next => exact h.keys other
  · rw [hcompleted]
    exact h.nodup.erase stepId
  · intro other
    rw [hcompleted, h.nodup.mem_erase_iff, h.completed, resetStepForRetry_stepStatus,
      Dict.get?_set]
    split
    next heq =>
      apply iff_of_false
      · exact fun hboth => hboth.1 heq
      · exact fun hsome => by cases hsome
    next hne => exact and_iff_right hne
  · intro other result hget
    rw [resetStepForRetry_stepResults, Dict.get?_erase] at hget
    split at hget
    next => cases hget
    next hne =>
      rw [resetStepForRetry_stepStatus, Dict.get?_set_ne _ hne]
      exact h.results other result hget
  · intro other result hget
    rw [resetStepForRetry_stepResults, Dict.get?_erase] at hget
    split at hget
    next => cases hget
    next => exact h.settled other result hget

/-- The unfinished steps may be replaced. -/
theorem applyReplannedSteps (h : Consistent state) (newSteps : List PlanStep) :
    Consistent (state.applyReplannedSteps newSteps) := by
  have hkept : ∀ stepId ∈ state.finishedStepIds,
      ¬ state.Renumbered newSteps stepId ∧ stepId ∉ state.removedIds := by
    intro stepId hfinished
    refine ⟨fun hnew => ?_, fun hremoved => ?_⟩
    · exact absurd hnew.1 (not_lt.mpr (le_maxFinishedId hfinished))
    · exact ((mem_removedIds_iff state).mp hremoved).2 hfinished
  -- the ids afterwards: the finished ones, and the numbers behind the largest of them
  have hids : ∀ stepId, stepId ∈ (state.applyReplannedSteps newSteps).plan.ids ↔
      stepId ∈ state.plan.ids ∧ stepId ∈ state.finishedStepIds ∨
        state.Renumbered newSteps stepId := by
    intro stepId
    rw [← mem_ids_remapped state newSteps, Plan.ids]
    change stepId ∈ (state.keptSteps ++ renumberFrom state.maxFinishedId 1 newSteps).map
      PlanStep.id ↔ _
    rw [List.map_append, List.mem_append]
    apply or_congr_left
    constructor
    · intro hmem
      obtain ⟨step, hstep, rfl⟩ := List.mem_map.mp hmem
      obtain ⟨hplan, hfinished⟩ := List.mem_filter.mp hstep
      exact ⟨List.mem_map_of_mem hplan, of_decide_eq_true hfinished⟩
    · rintro ⟨hmem, hfinished⟩
      obtain ⟨step, hstep, rfl⟩ := List.mem_map.mp hmem
      exact List.mem_map_of_mem (List.mem_filter.mpr ⟨hstep, decide_eq_true hfinished⟩)
  have hresult : ∀ stepId result,
      (state.applyReplannedSteps newSteps).stepResults.get? stepId = some result →
        stepId ∉ state.removedIds ∧ state.stepResults.get? stepId = some result := by
    intro stepId result hget
    rw [get?_result_applyReplannedSteps] at hget
    split at hget
    next => cases hget
    next hnot => exact ⟨hnot, hget⟩
  constructor
  · intro stepId
    rw [get?_status_applyReplannedSteps, hids]
    split
    next hnew => exact iff_of_true rfl (Or.inr hnew)
    next hold =>
      rw [or_iff_left hold]
      split
      next hremoved =>
        obtain ⟨-, hunfinished⟩ := (mem_removedIds_iff state).mp hremoved
        exact iff_of_false (by simp) fun hboth => hunfinished hboth.2
      next hremoved =>
        rw [h.keys, and_iff_left_of_imp]
        intro hmem
        by_contra hunfinished
        exact hremoved ((mem_removedIds_iff state).mpr ⟨hmem, hunfinished⟩)
  · exact h.nodup
  · intro stepId
    rw [get?_status_applyReplannedSteps]
    change stepId ∈ state.completedSteps ↔ _
    rw [h.completed]
    constructor
    · intro hget
      have hfinished := (mem_finishedStepIds_iff state stepId).mpr ⟨_, hget, rfl⟩
      rw [if_neg (hkept stepId hfinished).1, if_neg (hkept stepId hfinished).2, hget]
    · intro hget
      split at hget
      next => cases hget
      next =>
        split at hget
        next => cases hget
        next => exact hget
  · intro stepId result hget
    obtain ⟨hremoved, hold⟩ := hresult stepId result hget
    obtain ⟨hown, hmem, hstatus⟩ := h.results stepId result hold
    have hfinished : stepId ∈ state.finishedStepIds := by
      by_contra hunfinished
      exact hremoved ((mem_removedIds_iff state).mpr ⟨hmem, hunfinished⟩)
    refine ⟨hown, (hids stepId).mpr (Or.inl ⟨hmem, hfinished⟩), ?_⟩
    rw [get?_status_applyReplannedSteps, if_neg (hkept stepId hfinished).1, if_neg hremoved]
    exact hstatus
  · intro stepId result hget
    exact h.settled stepId result (hresult stepId result hget).2

/-- A pending step has no result. -/
theorem result_of_pending (h : Consistent state)
    (hpending : state.stepStatus.get? stepId = some .pending) :
    state.stepResults.get? stepId = none := by
  cases hresult : state.stepResults.get? stepId with
  | none => rfl
  | some result =>
      have hstatus := (h.results stepId result hresult).2.2
      have hsettled := h.settled stepId result hresult
      rw [hpending] at hstatus
      rw [← Option.some.inj hstatus] at hsettled
      cases hsettled

end Consistent

end PlanState

namespace PlanExecutor

open PlanState

variable {config : ExecutorConfig}

/-! ## What a step leaves of them -/

theorem completed_tryCandidates {step : PlanStep} {toolArgs : Args} {attempt : Nat}
    {failedTool failureReason : String} {decision : ToolPolicyDecision} (candidates : List String)
    (state : PlanState) :
    Program.Returns (fun fallback => fallback.2.completedSteps = state.completedSteps)
      (tryCandidates config step toolArgs attempt failedTool decision failureReason candidates
        state) := by
  induction candidates generalizing state with
  | nil => exact Eq.refl state.completedSteps
  | cons tool rest ih =>
      rw [tryCandidates]
      split
      · exact ih state
      · apply respects_asking trivial
        intro observation
        dsimp only
        split
        · apply respects_asking trivial
          intro _
          split
          · exact Eq.refl state.completedSteps
          · exact ih (state.setPolicyDecision step.id _)
        · split
          · exact Eq.refl state.completedSteps
          · exact ih (state.setPolicyDecision step.id _)

theorem completed_executeStep (step : PlanStep) (state : PlanState) (attempt : Nat) :
    Program.Returns (fun executed => executed.2.2.completedSteps = state.completedSteps)
      (executeStep config step state attempt) := by
  unfold executeStep
  split
  · exact Eq.refl state.completedSteps
  split
  · exact Eq.refl state.completedSteps
  split
  · exact Eq.refl state.completedSteps
  apply respects_asking trivial
  intro observation
  split
  · exact Eq.refl state.completedSteps
  split
  · exact Eq.refl state.completedSteps
  next decision =>
    refine Program.Respects.bind
      (Q := fun fallback => fallback.2.completedSteps = state.completedSteps) ?_ ?_
    · unfold tryPolicyFallback
      split
      · exact completed_tryCandidates _ _
      · exact Eq.refl state.completedSteps
    · intro fallback hfallback
      split
      · exact hfallback
      · exact hfallback

theorem agree_mergeObservation (state : PlanState) (stepId : Int) (result : StepResult) :
    state.Agree (state.mergeObservation stepId result) := by
  unfold mergeObservation
  dsimp only
  split
  · split <;> exact ⟨rfl, rfl, rfl, rfl⟩
  · exact ⟨rfl, rfl, rfl, rfl⟩

/-- What a plan executor hands to its graph is consistent. -/
def HandsConsistent : Op → Prop
  | .syncPlanGraph state => state.Consistent
  | _ => True

theorem handsConsistent_of_withinStep {op : Op} (h : op.withinStep = true) :
    HandsConsistent op := by
  cases op <;> trivial

theorem hands_orRaise {α : Type} {Q : α → Prop} (state : PlanState) {value : Except RaisedError α}
    (h : ∀ result, value = .ok result → Q result) :
    Program.Respects HandsConsistent Q (orRaise state value) := by
  cases value with
  | ok result => exact h result rfl
  | error error => trivial

theorem hands_updateGraphNode (state : PlanState) (stepId : Int) (status : GraphNodeStatus) :
    Program.Respects HandsConsistent (fun _ => True) (updateGraphNode state stepId status) := by
  apply respects_asking trivial
  intro answer
  exact hands_orRaise state fun _ _ => trivial

theorem hands_syncGraph {state : PlanState} (h : state.Consistent) :
    Program.Respects HandsConsistent (fun _ => True) (syncGraph state) := by
  apply respects_asking h
  intro answer
  exact hands_orRaise state fun _ _ => trivial

/-- Executing a step brings a settled result of this step and leaves the four collections. -/
structure Brings (step : PlanStep) (state : PlanState)
    (executed : StepResult × PlanStep × PlanState) : Prop where
  stepId : executed.1.stepId = step.id
  settled : executed.1.status.settled = true
  sameStep : executed.2.1.id = step.id
  agree : state.Agree executed.2.2

theorem hands_executeStep (step : PlanStep) (state : PlanState) (attempt : Nat) :
    Program.Respects HandsConsistent (Brings step state)
      (executeStep config step state attempt) := by
  apply ((within_executeStep step state attempt).and
    (completed_executeStep step state attempt)).mono
  · intro op hop
    exact handsConsistent_of_withinStep hop.1
  · rintro executed ⟨hattempted, hcompleted⟩
    have hunadvanced := hattempted.unmoved.unadvanced
    refine ⟨hattempted.stepId, ?_, hattempted.sameStep,
      ⟨hunadvanced.ids, hunadvanced.status, hunadvanced.results, hcompleted⟩⟩
    rcases hattempted.status with hfailed | hfinished
    · rw [hfailed]
      rfl
    · exact settled_of_finished hfinished

theorem hands_maybeCompress {state : PlanState} :
    Program.Respects HandsConsistent state.Agree
      (ContextCompressor.maybeCompress config state) := by
  unfold ContextCompressor.maybeCompress
  split
  · apply respects_asking trivial
    intro answer
    cases answer with
    | ok summary => exact ⟨rfl, rfl, rfl, rfl⟩
    | error error => trivial
  · exact ⟨rfl, rfl, rfl, rfl⟩

/-! ## Running a step -/

theorem consistent_startAttempt {step : PlanStep} {state : PlanState} (h : state.Consistent)
    (hmem : step.id ∈ state.plan.ids)
    (hpending : state.stepStatus.get? step.id = some .pending) :
    (startAttempt step state).Consistent := by
  have hcurrent : Consistent { state with currentStep := some step.id } :=
    h.of_agree ⟨rfl, rfl, rfl, rfl⟩
  apply hcurrent.setStepStatus hmem
  · exact fun heq => by cases heq
  · exact fun heq => by cases hpending.symm.trans heq
  · exact h.result_of_pending hpending

theorem consistent_recordAttempt {step own : PlanStep} {state executed : PlanState}
    {result : StepResult} (h : (startAttempt step state).Consistent)
    (hmem : step.id ∈ state.plan.ids) (hbrings : Brings step (startAttempt step state)
      (result, own, executed)) :
    (recordAttempt own result executed).Consistent := by
  have hexecuted := h.of_agree hbrings.agree
  have hstepId : result.stepId = step.id := hbrings.stepId
  have hrecorded : (executed.recordStepResult result).Consistent := by
    apply hexecuted.recordStepResult
    · rw [hstepId, hbrings.agree.ids]
      exact hmem
    · exact hbrings.settled
    · rw [hstepId, hbrings.agree.status, startAttempt, setStepStatus_stepStatus, Dict.get?_set_self]
      exact fun heq => by cases heq
  exact hrecorded.of_agree ⟨rfl, rfl, rfl, rfl⟩

theorem hands_handleReplan {step : PlanStep} {state : PlanState} {error : String}
    (h : state.Consistent) :
    Program.Respects HandsConsistent Consistent (handleReplan config step state error) := by
  have hmarked : (traceReplan step state).Consistent := by
    unfold traceReplan
    split
    · exact h.of_agree ⟨rfl, rfl, rfl, rfl⟩
    · exact h
  unfold handleReplan
  split
  · apply respects_asking trivial
    intro answer
    apply (hands_orRaise (Q := fun _ => True) _ fun _ _ => trivial).bind
    intro newSteps _
    have hreplanned := hmarked.applyReplannedSteps newSteps
    have htail : Program.Respects HandsConsistent Consistent (do
        ask (.rebuildPlanGraph ((traceReplan step state).applyReplannedSteps newSteps).plan)
        syncGraph ((traceReplan step state).applyReplannedSteps newSteps)
        pure ((traceReplan step state).applyReplannedSteps newSteps) : Execution PlanState) := by
      apply respects_asking trivial
      intro _
      exact (hands_syncGraph hreplanned).bind fun _ _ => hreplanned
    dsimp only
    split
    · exact (hands_orRaise (Q := fun _ => True) _ fun _ _ => trivial).bind fun _ _ => htail
    · exact htail
  · trivial

/-- What follows a failed attempt leaves the state consistent. -/
theorem hands_recover {step own : PlanStep} {result : StepResult} {recorded : PlanState}
    (h : recorded.Consistent) (hstepId : result.stepId = step.id)
    (hmem : step.id ∈ recorded.plan.ids)
    (hopen : recorded.stepStatus.get? step.id ≠ some .completed) :
    Program.Respects HandsConsistent Consistent (recover config own result recorded) := by
  unfold recover
  split
  · have hskipped : (recorded.recordStepResult
        { result with status := .skipped, recoveryAction := some "skip" }).Consistent := by
      apply h.recordStepResult
      · exact hstepId ▸ hmem
      · rfl
      · exact hstepId ▸ hopen
    exact hskipped.of_agree ⟨rfl, rfl, rfl, rfl⟩
  · apply respects_asking trivial
    intro spent
    split
    · trivial
    · apply respects_asking trivial
      intro _
      apply (hands_handleReplan h).bind
      intro replanned hreplanned
      exact hreplanned.of_agree ⟨rfl, rfl, rfl, rfl⟩
  · trivial

theorem hands_runAttempts {remaining : Nat} {step : PlanStep} {state : PlanState}
    (h : state.Consistent) (hmem : step.id ∈ state.plan.ids)
    (hpending : state.stepStatus.get? step.id = some .pending) :
    Program.Respects HandsConsistent Consistent (runAttempts config remaining step state) := by
  -- induction on the attempts left: a retry takes the step back to pending
  induction remaining generalizing step state with
  | zero => trivial
  | succ remaining ih =>
      have hstarted := consistent_startAttempt h hmem hpending
      rw [runAttempts]
      apply (hands_updateGraphNode _ _ _).bind
      intro _ _
      apply (hands_executeStep _ _ _).bind
      rintro ⟨result, own, executed⟩ hbrings
      have hrecorded := consistent_recordAttempt hstarted hmem hbrings
      have hown : own.id = step.id := hbrings.sameStep
      have hstepId : result.stepId = step.id := hbrings.stepId
      have hids : (recordAttempt own result executed).plan.ids = state.plan.ids := hbrings.agree.ids
      dsimp only
      split
      next =>
        apply hands_maybeCompress.bind
        intro compressed hcompressed
        have hmerged := hrecorded.of_agree (agree_mergeObservation _ own.id result)
        exact (hmerged.of_agree hcompressed).of_agree ⟨rfl, rfl, rfl, rfl⟩
      next hfailed =>
        split
        next =>
          have hown' : own.id ∈ (recordAttempt own result executed).plan.ids := by
            rw [hids, hown]
            exact hmem
          apply (hands_updateGraphNode _ _ _).bind
          intro _ _
          apply ih (hrecorded.resetStepForRetry hown') hown'
          exact Dict.get?_set_self _ _ _
        next =>
          apply hands_recover hrecorded hstepId
          · rw [hids]
            exact hmem
          · have hstatus : (recordAttempt own result executed).stepStatus.get? step.id =
                some result.status := by
              rw [← hstepId]
              exact Dict.get?_set_self _ _ _
            rw [hstatus, not_not.mp hfailed]
            exact fun heq => by cases heq

/-! ## Runs -/

theorem hands_executeLoop {fuel : Nat} {state : PlanState} (h : state.Consistent) :
    Program.Respects HandsConsistent Consistent (executeLoop config fuel state) := by
  induction fuel generalizing state with
  | zero => trivial
  | succ fuel ih =>
      rw [executeLoop]
      apply (hands_orRaise (Q := fun _ => True) _ fun _ _ => trivial).bind
      intro finished _
      split
      · exact h
      apply (hands_orRaise (Q := fun next => state.nextExecutableStep = .ok next) _
        fun _ heq => heq).bind
      intro next hnext
      split
      next =>
        apply (hands_orRaise (Q := fun _ => True) _ fun _ _ => trivial).bind
        intro unfinished _
        split
        · exact h
        · trivial
      next stepId =>
        apply (hands_orRaise (Q := fun step => state.findStep stepId = .ok step) _
          fun _ heq => heq).bind
        intro step hstep
        obtain ⟨hid, hmem⟩ := mem_ids_of_findStep hstep
        have hrun : Program.Respects HandsConsistent Consistent
            (runStepWithRecovery config step state) := by
          apply hands_runAttempts h
          · rw [hid]
            exact hmem
          · rw [hid]
            exact pending_of_nextExecutableStep hnext
        apply hrun.bind
        intro after hafter
        apply (hands_syncGraph hafter).bind
        intro _ _
        exact ih hafter

/-- In every run from a fresh state, the four collections agree whenever the plan loop starts a
round, and in the state that is returned. -/
theorem execute_consistent {config : ExecutorConfig} {fuel : Nat} {plan : Plan}
    {sessionId : String} {context : GlobalContext} {trace : List Event}
    {result : Except Raised PlanState}
    (hrun : Runs (execute config fuel plan (begun plan sessionId context)) trace result) :
    (∀ state reply, ⟨.syncPlanGraph state, reply⟩ ∈ trace → state.Consistent) ∧
      ∀ ended, result = .ok ended → ended.Consistent := by
  have hfresh : (begun plan sessionId context).Consistent :=
    (Consistent.fromPlan plan sessionId).of_agree ⟨rfl, rfl, rfl, rfl⟩
  have hrespects : Program.Respects HandsConsistent Consistent
      (execute config fuel plan (begun plan sessionId context)) := by
    apply respects_asking trivial
    intro _
    apply (hands_syncGraph hfresh).bind
    intro _ _
    apply (hands_executeLoop hfresh).bind
    intro ended hended
    have hcleared : Consistent { ended with currentStep := none } :=
      hended.of_agree ⟨rfl, rfl, rfl, rfl⟩
    exact (hands_syncGraph hcleared).bind fun _ _ => hcleared
  obtain ⟨hasks, hreturns⟩ := hrespects.of_runs hrun
  constructor
  · intro state reply hmem
    exact hasks _ hmem
  · exact hreturns

theorem execute_consistent_indoorTrip :
    ∃ trace ended, Runs (execute (plainExecutor .replan ["weather"]) 4 indoorTrip
      (begun indoorTrip "default" {})) trace (.ok ended) ∧ ended.Consistent := by
  obtain ⟨ended, hrun, -⟩ := Components.exists_runs_exec
    (show replannedTrip.result.isOk = true by decide +kernel)
  exact ⟨_, ended, hrun, (execute_consistent hrun).2 ended rfl⟩

end PlanExecutor

end TripGraph
