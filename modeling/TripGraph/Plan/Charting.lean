import TripGraph.Plan.Attempts

/-! # Replans that add nothing

The state of a plan stays charted while its steps are run: it has the steps of the plan, each
with a status. A replan gives the chart up. Where it adds no step, all steps left are finished.
-/

namespace TripGraph

open Interaction

/-! ## Replans in a trace -/

def RaisedError.isKeyError : RaisedError → Bool
  | .keyError _ => true
  | _ => false

/-- The component that is asked replies with a `KeyError` of its own. -/
def repliesKeyError (event : Event) : Bool :=
  match event with
  | ⟨.createPlan _, .error error⟩ => error.isKeyError
  | ⟨.replanUnfinishedSteps .., .error error⟩ => error.isKeyError
  | ⟨.replanFromCritique .., .error error⟩ => error.isKeyError
  | ⟨.rulebasedReplanFromCritique .., .error error⟩ => error.isKeyError
  | ⟨.selectTool _, .error error⟩ => error.isKeyError
  | ⟨.summarize _, .error error⟩ => error.isKeyError
  | ⟨.evaluate .., .error error⟩ => error.isKeyError
  | ⟨.memoryGet _, .error error⟩ => error.isKeyError
  | ⟨.memorySave _, .error error⟩ => error.isKeyError
  | ⟨.syncPlanGraph _, .error error⟩ => error.isKeyError
  | ⟨.updatePlanNode .., .error error⟩ => error.isKeyError
  | _ => false

/-- The steps that an answer of the planner adds to the plan. An answer that makes the plan
invalid is not accepted and adds none. -/
def acceptedSteps (config : ExecutorConfig) (event : Event) : List PlanStep :=
  match event with
  | ⟨.replanUnfinishedSteps state _ _, .ok steps⟩ =>
      if config.validatorConfigured ∧ (PlanValidator.validate config.registry
          (state.applyReplannedSteps steps).plan).success = false
      then [] else PlanState.renumberFrom state.maxFinishedId 1 steps
  | _ => []

/-- A run raises no `KeyError`, and it attempts every step that a replan adds after the replan. -/
structure CarriesReplans {α : Type} (config : ExecutorConfig) (trace : List Event)
    (result : Except RaisedError α) : Prop where
  noKeyError : ∀ error, result = .error error → error.isKeyError = false
  attempted : ∀ before event after, trace = before ++ event :: after →
    ∀ step ∈ acceptedSteps config event, step.id ∈ attempts after

theorem CarriesReplans.mem_attempts_drop {α : Type} {config : ExecutorConfig} {events : List Event}
    {result : Except RaisedError α} (h : CarriesReplans config events result) {index : Nat}
    {event : Event} (hevent : events[index]? = some event) {step : PlanStep}
    (hstep : step ∈ acceptedSteps config event) : step.id ∈ attempts (events.drop (index + 1)) := by
  obtain ⟨hlt, rfl⟩ := List.getElem?_eq_some_iff.mp hevent
  have hsplit : events = events.take index ++ events[index] :: events.drop (index + 1) := by
    rw [List.getElem_cons_drop, List.take_append_drop]
  exact h.attempted _ _ _ hsplit step hstep

/-- The reply adds no step to the plan and is no `KeyError`. -/
def Harmless (config : ExecutorConfig) (op : Op) (reply : op.Reply) : Prop :=
  acceptedSteps config ⟨op, reply⟩ = [] ∧ repliesKeyError ⟨op, reply⟩ = false

instance (config : ExecutorConfig) (op : Op) (reply : op.Reply) :
    Decidable (Harmless config op reply) :=
  inferInstanceAs (Decidable (_ ∧ _))

/-! ## Charted plan states -/

/-- The state has the steps of the plan, and these have a status. -/
structure Charted (plan : Plan) (state : PlanState) : Prop where
  ids : state.plan.ids = plan.ids
  status : ∀ stepId, (state.stepStatus.get? stepId).isSome = true ↔ stepId ∈ plan.ids

/-- All steps of the state are settled. -/
def Concluded (state : PlanState) : Prop :=
  ∀ step ∈ state.plan.steps, ∃ status, state.stepStatus.get? step.id = some status ∧
    status.settled = true

/-- The state is charted, or all its steps are settled. -/
def Held (plan : Plan) (state : PlanState) : Prop := Charted plan state ∨ Concluded state

theorem Concluded.allStepsFinished {state : PlanState} (h : Concluded state) :
    state.allStepsFinished = .ok true := by
  have hall : ∀ steps : List PlanStep, (∀ step ∈ steps, ∃ status,
      state.stepStatus.get? step.id = some status ∧ status.settled = true) →
      state.allSettled steps = .ok true := by
    intro steps hsteps
    induction steps with
    | nil => rfl
    | cons step rest ih =>
        obtain ⟨⟨status, hstatus, hsettled⟩, hrest⟩ := List.forall_mem_cons.mp hsteps
        rw [PlanState.allSettled, PlanState.getStepStatus, hstatus]
        exact (if_pos hsettled).trans (ih hrest)
  exact hall state.plan.steps h

theorem exists_allSettled {state : PlanState} {steps : List PlanStep}
    (h : ∀ step ∈ steps, (state.stepStatus.get? step.id).isSome = true) :
    ∃ finished, state.allSettled steps = .ok finished := by
  induction steps with
  | nil => exact ⟨true, rfl⟩
  | cons step rest ih =>
      obtain ⟨hstep, hrest⟩ := List.forall_mem_cons.mp h
      obtain ⟨status, hstatus⟩ := Option.isSome_iff_exists.mp hstep
      rw [PlanState.allSettled, PlanState.getStepStatus, hstatus]
      by_cases hsettled : status.settled = true
      · obtain ⟨finished, hfinished⟩ := ih hrest
        exact ⟨finished, (if_pos hsettled).trans hfinished⟩
      · exact ⟨false, if_neg hsettled⟩

theorem charted_fromPlan {plan : Plan} (hnodup : plan.ids.Nodup) (sessionId : String) :
    Charted plan (.fromPlan plan sessionId) := by
  refine ⟨rfl, fun stepId => ?_⟩
  rw [PlanState.fromPlan_status hnodup]
  split
  next hmem => simp [hmem]
  next hmem => simp [hmem]

/-- A replan that adds no step keeps the finished ones only. -/
theorem concluded_applyReplannedSteps (state : PlanState) :
    Concluded (state.applyReplannedSteps []) := by
  intro step hstep
  have hkept : step ∈ state.keptSteps := by simpa [PlanState.applyReplannedSteps,
    PlanState.renumberFrom] using hstep
  have hfinished : step.id ∈ state.finishedStepIds := by simpa using (List.mem_filter.mp hkept).2
  obtain ⟨status, hstatus, hdone⟩ := (PlanState.mem_finishedStepIds_iff _ _).mp hfinished
  refine ⟨status, ?_, by cases status <;> simp_all [StepStatus.finished, StepStatus.settled]⟩
  have hremoved : step.id ∉ state.removedIds := fun hmem =>
    ((PlanState.mem_removedIds_iff _).mp hmem).2 hfinished
  have hrenumbered : ¬ state.Renumbered [] step.id := by
    simp [PlanState.Renumbered]
  rw [PlanState.get?_status_applyReplannedSteps, if_neg hrenumbered, if_neg hremoved, hstatus]

theorem eq_nil_of_renumberFrom {maxId : Int} {index : Nat} {steps : List PlanStep}
    (h : PlanState.renumberFrom maxId index steps = []) : steps = [] := by
  rw [← List.length_eq_zero_iff, ← PlanState.length_renumberFrom maxId index, h, List.length_nil]

namespace Charted

variable {plan : Plan} {state : PlanState} {stepId : Int} (h : Charted plan state)
include h

theorem congr {after : PlanState} (hids : after.plan.ids = state.plan.ids)
    (hstatus : ∀ own, (after.stepStatus.get? own).isSome = (state.stepStatus.get? own).isSome) :
    Charted plan after :=
  ⟨hids.trans h.ids, fun own => by rw [hstatus]; exact h.status own⟩

theorem unadvanced {after : PlanState} (hafter : PlanExecutor.Unadvanced state after) :
    Charted plan after :=
  h.congr hafter.ids fun own => by rw [hafter.status]

theorem set (hmem : stepId ∈ plan.ids) {status : StepStatus} {after : PlanState}
    (hids : after.plan.ids = state.plan.ids)
    (hstatus : after.stepStatus = state.stepStatus.set stepId status) : Charted plan after := by
  refine h.congr hids fun own => ?_
  rw [hstatus, Dict.get?_set]
  split
  next heq => rw [Option.isSome_some, heq, (h.status stepId).mpr hmem]
  next => rfl

theorem exists_getStepStatus (hmem : stepId ∈ plan.ids) :
    ∃ status, state.getStepStatus stepId = .ok status := by
  obtain ⟨status, hstatus⟩ := Option.isSome_iff_exists.mp ((h.status stepId).mpr hmem)
  exact ⟨status, by rw [PlanState.getStepStatus, hstatus]⟩

theorem exists_findStep (hmem : stepId ∈ plan.ids) :
    ∃ step, state.findStep stepId = .ok step ∧ step.id = stepId := by
  rw [← h.ids] at hmem
  obtain ⟨own, hown, hid⟩ := List.mem_map.mp hmem
  cases hfind : state.plan.steps.find? fun step => decide (step.id = stepId) with
  | some step =>
      refine ⟨step, by rw [PlanState.findStep, hfind], ?_⟩
      simpa using List.find?_some hfind
  | none => exact absurd hid (by simpa using List.find?_eq_none.mp hfind own hown)

theorem exists_dependenciesMet (hmem : stepId ∈ plan.ids) :
    ∃ met, state.dependenciesMet stepId = .ok met := by
  obtain ⟨step, hstep, -⟩ := h.exists_findStep hmem
  exact ⟨_, by rw [PlanState.dependenciesMet, hstep]; rfl⟩

theorem exists_allStepsFinished : ∃ finished, state.allStepsFinished = .ok finished := by
  refine exists_allSettled fun step hstep => (h.status step.id).mpr ?_
  rw [← h.ids]
  exact List.mem_map_of_mem hstep

end Charted

/-! ## Running a step of a charted plan -/

namespace PlanExecutor

/-- As long as the replies are harmless, the program returns values in `Q` and
raises no `KeyError`. -/
abbrev Spares {α : Type} (config : ExecutorConfig) (Q : α → Prop) (p : Execution α) : Prop :=
  Program.Guarantees (S := runtimeSig) (Harmless config) Q
    (fun raised => raised.error.isKeyError = false) p

variable {config : ExecutorConfig} {plan : Plan}

theorem spares_orRaise {α : Type} {state : PlanState} {value : Except RaisedError α}
    (h : ∀ error, value = .error error → error.isKeyError = false) :
    Spares config (fun result => value = .ok result) (orRaise state value) := by
  cases value with
  | ok value => exact rfl
  | error error => exact h error rfl

theorem spares_updateGraphNode (state : PlanState) (stepId : Int) (status : GraphNodeStatus) :
    Spares config (fun _ => True) (updateGraphNode state stepId status) := by
  refine guarantees_asking fun answer hanswer => (spares_orRaise ?_).mono fun _ _ => trivial
  rintro error rfl
  exact hanswer.2

theorem spares_syncGraph (state : PlanState) : Spares config (fun _ => True) (syncGraph state) := by
  refine guarantees_asking fun answer hanswer => (spares_orRaise ?_).mono fun _ _ => trivial
  rintro error rfl
  exact hanswer.2

theorem spares_maybeCompress (state : PlanState) :
    Spares config (Unadvanced state) (ContextCompressor.maybeCompress config state) := by
  unfold ContextCompressor.maybeCompress
  split
  · refine guarantees_asking fun answer hanswer =>
      (spares_orRaise ?_).bind fun _ _ => ⟨rfl, rfl, rfl⟩
    rintro error rfl
    exact hanswer.2
  · exact Unadvanced.rfl

theorem spares_executeStep (step : PlanStep) (state : PlanState) (attempt : Nat) :
    Spares config (Executed step state) (executeStep config step state attempt) :=
  (unfailing_executeStep step state attempt).guarantees
    ((calls_executeStep step state attempt).mono (fun _ _ => trivial) fun _ h => h)

/-- A replan that adds no step leaves finished steps only. -/
theorem spares_handleReplan (step : PlanStep) (state : PlanState) (error : String) :
    Spares config Concluded (handleReplan config step state error) := by
  unfold handleReplan
  split
  next =>
    have htail : ∀ steps, steps = [] → Spares config Concluded (do
        let replanned := (traceReplan step state).applyReplannedSteps steps
        ask (.rebuildPlanGraph replanned.plan)
        syncGraph replanned
        pure replanned) := by
      rintro _ rfl
      exact guarantees_asking fun _ _ =>
        (spares_syncGraph _).bind fun _ _ => concluded_applyReplannedSteps _
    refine guarantees_asking fun answer hanswer => (spares_orRaise ?_).bind fun steps hsteps => ?_
    · rintro own rfl
      exact hanswer.2
    subst hsteps
    have hadded := hanswer.1
    simp only [acceptedSteps] at hadded
    dsimp only
    split
    next hvalidator =>
      refine (spares_orRaise ?_).bind fun _ hvalid => htail steps ?_
      · intro own hown
        rw [PlanValidator.assertValid] at hown
        split at hown
        · cases hown
        · cases hown
          rfl
      · have hsuccess : (PlanValidator.validate config.registry
            ((traceReplan step state).applyReplannedSteps steps).plan).success = true := by
          rw [PlanValidator.assertValid] at hvalid
          split at hvalid
          · assumption
          · cases hvalid
        rw [if_neg (by simp [hsuccess])] at hadded
        exact eq_nil_of_renumberFrom hadded
    next hvalidator =>
      rw [if_neg fun hand => hvalidator hand.1] at hadded
      exact htail steps (eq_nil_of_renumberFrom hadded)
  next => rfl

theorem spares_recover {state : PlanState} (h : Charted plan state) {step : PlanStep}
    {result : StepResult} (hmem : result.stepId ∈ plan.ids) :
    Spares config (Held plan) (recover config step result state) := by
  unfold recover
  split
  · exact .inl (h.set hmem rfl rfl)
  · refine guarantees_asking fun spent _ => ?_
    split
    · rfl
    · exact guarantees_asking fun _ _ => (spares_handleReplan step _ _).bind fun _ hconcluded =>
        .inr hconcluded
  · rfl

/-- A step of a charted plan leaves the plan charted, or all steps finished. -/
theorem spares_runAttempts {remaining : Nat} {step : PlanStep} {state : PlanState}
    (h : Charted plan state) (hmem : step.id ∈ plan.ids) :
    Spares config (Held plan) (runAttempts config remaining step state) := by
  induction remaining generalizing step state with
  | zero => rfl
  | succ remaining ih =>
      refine (spares_updateGraphNode _ _ _).bind fun _ _ => ?_
      refine (spares_executeStep _ _ _).bind fun ⟨result, own, executed⟩ hexecuted => ?_
      obtain ⟨hstepId, -, hown, hunadvanced⟩ := hexecuted
      dsimp only at hstepId hown hunadvanced ⊢
      have hstarted : Charted plan (startAttempt step state) := h.set hmem rfl rfl
      have hrecorded : Charted plan (recordAttempt own result executed) :=
        (hstarted.unadvanced hunadvanced).set (hstepId ▸ hmem) rfl rfl
      split
      · refine (spares_maybeCompress _).bind fun compressed hcompressed => .inl ?_
        have hmerged := hrecorded.unadvanced (unadvanced_mergeObservation _ own.id result)
        exact (hmerged.unadvanced hcompressed).congr rfl fun _ => rfl
      split
      · refine (spares_updateGraphNode _ _ _).bind fun _ _ => ih ?_ (hown ▸ hmem)
        exact hrecorded.set (hown ▸ hmem) rfl rfl
      · exact spares_recover hrecorded (hstepId ▸ hmem)

theorem spares_runStepWithRecovery {step : PlanStep} {state : PlanState} (h : Charted plan state)
    (hmem : step.id ∈ plan.ids) :
    Spares config (Held plan) (runStepWithRecovery config step state) := spares_runAttempts h hmem

end PlanExecutor

end TripGraph
