import TripGraph.Plan.Recovery
import TripGraph.Runtime.Visits
import TripGraph.Runtime.Workflow

/-! # What the nodes ask and return

The executor and the router only ask the components their configuration gives them; in
particular no node of a compiled plan leaves marks of its own.
-/

namespace TripGraph

open Interaction

namespace PlanExecutor

/-- A program of the executor that stays within its footprint. -/
abbrev Within {α : Type} (config : ExecutorConfig) (p : Execution α) : Prop :=
  Program.Asks (fun op : Op => mayAsk config op = true) p

variable {config : ExecutorConfig}

theorem within_pure {α : Type} (value : α) : Within config (pure value) := trivial

theorem within_orRaise {α : Type} (state : PlanState) (value : Except RaisedError α) :
    Within config (orRaise state value) := by
  cases value <;> trivial

theorem within_of_calls {α : Type} {Q : α → Prop} {p : Execution α} (h : Calls config Q p) :
    Within config p := (h.mono (fun _ hop => mayAsk_of_mayCall hop) fun _ h => h).asks

theorem within_handleReplan (hpolicy : config.failurePolicy = .replan) (step : PlanStep)
    (state : PlanState) (error : String) :
    Within config (handleReplan config step state error) := by
  have htail : ∀ replanned : PlanState, Within config (do
      ask (.rebuildPlanGraph replanned.plan)
      syncGraph replanned
      pure replanned) := fun replanned =>
    respects_asking (mayAsk_of_mayReplan hpolicy rfl) fun _ =>
      Program.Respects.bind (Q := fun _ => True)
        (respects_asking (mayAsk_of_mayReplan hpolicy rfl) fun _ => within_orRaise _ _) fun _ _ =>
          within_pure _
  unfold handleReplan
  split
  · refine respects_asking (mayAsk_of_mayReplan hpolicy rfl) fun answer => ?_
    refine (within_orRaise _ _).bind fun newSteps _ => ?_
    dsimp only
    split
    · exact (within_orRaise _ _).bind fun _ _ => htail _
    · exact htail _
  · trivial

theorem within_recover (step : PlanStep) (result : StepResult) (state : PlanState) :
    Within config (recover config step result state) := by
  unfold recover
  split
  · exact within_pure _
  next hpolicy =>
    refine respects_asking (mayAsk_of_mayReplan hpolicy rfl) fun spent => ?_
    split
    · trivial
    · refine respects_asking (mayAsk_of_mayReplan hpolicy rfl) fun _ => ?_
      exact (within_handleReplan hpolicy _ _ _).bind fun _ _ => within_pure _
  · trivial

theorem within_runAttempts (remaining : Nat) (step : PlanStep) (state : PlanState) :
    Within config (runAttempts config remaining step state) := by
  induction remaining generalizing step state with
  | zero => trivial
  | succ remaining ih =>
      refine (within_of_calls (calls_updateGraphNode _ _ _ _)).bind fun _ _ => ?_
      refine (within_of_calls (calls_executeStep _ _ _)).bind fun executed _ => ?_
      dsimp only
      split
      · exact (within_of_calls (calls_maybeCompress _)).bind fun _ _ => within_pure _
      split
      · exact (within_of_calls (calls_updateGraphNode _ _ _ _)).bind fun _ _ => ih _ _
      · exact within_recover _ _ _

/-- Running a step asks nothing outside the footprint. -/
theorem within_runStepWithRecovery (step : PlanStep) (state : PlanState) :
    Within config (runStepWithRecovery config step state) := within_runAttempts _ _ _

/-- The operations the plan loop may ask. -/
def loopMayAsk (config : ExecutorConfig) : Op → Bool
  | .newPlanGraph .. | .syncPlanGraph _ => true
  | op => mayAsk config op

theorem loopMayAsk_of_mayAsk {op : Op} (h : mayAsk config op = true) :
    loopMayAsk config op = true := by
  cases op <;> simp_all [loopMayAsk]

theorem asks_syncGraph (state : PlanState) :
    Program.Asks (fun op : Op => loopMayAsk config op = true) (syncGraph state) :=
  respects_asking rfl fun _ => (within_orRaise _ _ : Within config _).mono
    (fun _ h => loopMayAsk_of_mayAsk h) fun _ h => h

theorem asks_executeLoop (fuel : Nat) (state : PlanState) :
    Program.Asks (fun op : Op => loopMayAsk config op = true) (executeLoop config fuel state) := by
  have hraise : ∀ {α : Type} (state : PlanState) (value : Except RaisedError α),
      Program.Asks (fun op : Op => loopMayAsk config op = true) (orRaise state value) :=
    fun _ value => by cases value <;> trivial
  induction fuel generalizing state with
  | zero => trivial
  | succ fuel ih =>
      refine (hraise _ _).bind fun finished _ => ?_
      split
      · trivial
      refine (hraise _ _).bind fun next _ => ?_
      split
      · refine (hraise _ _).bind fun pending _ => ?_
        split <;> trivial
      · refine (hraise _ _).bind fun step _ => ?_
        refine Program.Respects.bind (Q := fun _ => True) ?_ fun after _ => ?_
        · exact (within_runStepWithRecovery _ _).mono (fun _ h => loopMayAsk_of_mayAsk h)
            fun _ h => h
        · exact (asks_syncGraph _).bind fun _ _ => ih after

/-- The plan loop asks nothing outside its footprint. -/
theorem asks_execute (fuel : Nat) (plan : Plan) (state : PlanState) :
    Program.Asks (fun op : Op => loopMayAsk config op = true) (execute config fuel plan state) :=
  respects_asking rfl fun _ => (asks_syncGraph _).bind fun _ _ =>
    (asks_executeLoop fuel state).bind fun _ _ => (asks_syncGraph _).bind fun _ _ => trivial

end PlanExecutor

/-! ## The router and the compiled nodes -/

/-- The operations the router may ask. -/
def routerMayAsk (deps : RuntimeDependencies) : Op → Bool
  | .selectTool _ => true
  | .decidePolicy .. => deps.hasPolicyEngine
  | .recordPolicy _ => deps.hasPolicyEngine && deps.hasPolicyTracer
  | _ => false

variable {deps : RuntimeDependencies}

theorem asks_routeSteps (state : AgentState) (planState : PlanState) (steps : List PlanStep)
    (acc : RoutingState) : Program.Asks (S := runtimeSig) (fun op => routerMayAsk deps op = true)
      (routeSteps deps state planState steps acc) := by
  induction steps generalizing acc with
  | nil => trivial
  | cons step rest ih =>
      rw [routeSteps]
      refine Program.Respects.bind (Q := fun _ => True) (by simp) fun status _ => ?_
      split
      · exact ih _
      refine Program.Respects.bind (Q := fun _ => True) ?_ fun hinted _ =>
        Program.Respects.bind (Q := fun _ => True) ?_ fun routed _ => ih routed
      · unfold routeHint
        split
        · trivial
        · refine respects_asking rfl fun answer => ?_
          exact Program.Respects.bind (Q := fun _ => True) (by simp) fun _ _ => trivial
      · unfold routePolicy
        dsimp only
        split
        next hengine =>
          refine respects_asking hengine fun decision => ?_
          split
          next htracer =>
            exact respects_asking (by simp [routerMayAsk, hengine, htracer]) fun _ => trivial
          next => trivial
        next => trivial

theorem asks_routerNode (state : AgentState) : Program.Asks (S := runtimeSig)
    (fun op => routerMayAsk deps op = true) (routerNode deps state) := by
  unfold routerNode
  split
  · trivial
  · refine Program.Respects.bind (Q := fun _ => True) (by simp) fun _ _ => ?_
    exact (asks_routeSteps _ _ _ _).bind fun _ _ => trivial

theorem routePolicy_ids {state : AgentState}
    {original step : PlanStep} {entries : List (String × Value)} {acc : RoutingState}
    (hid : step.id = original.id) : Program.Returns (S := runtimeSig)
      (fun routed => routed.steps.map PlanStep.id = acc.steps.map PlanStep.id ++ [original.id])
      (routePolicy deps state original step entries acc) := by
  unfold routePolicy
  dsimp only
  split
  · refine respects_asking trivial fun decision => ?_
    have hsteps : (acc.steps ++ [if truthy decision.selectedTool then
        { step with toolHint := decision.selectedTool } else step]).map PlanStep.id =
          acc.steps.map PlanStep.id ++ [original.id] := by
      split <;> simp [hid]
    split
    · exact respects_asking trivial fun _ => hsteps
    · exact hsteps
  · simp [hid]

theorem returns_routeSteps {state : AgentState}
    {planState : PlanState} (steps : List PlanStep) (acc : RoutingState) :
    Program.Returns (S := runtimeSig)
      (fun routed => routed.steps.map PlanStep.id =
        acc.steps.map PlanStep.id ++ steps.map PlanStep.id)
      (routeSteps deps state planState steps acc) := by
  induction steps generalizing acc with
  | nil => simp [routeSteps]
  | cons step rest ih =>
      rw [routeSteps]
      refine Program.Respects.bind (Q := fun _ => True) (by simp) fun status _ => ?_
      split
      · refine (ih _).mono (fun _ h => h) fun routed hrouted => ?_
        simpa using hrouted
      refine Program.Respects.bind (Q := fun hinted => hinted.1.id = step.id) ?_
        fun hinted hhinted => ?_
      · unfold routeHint
        split
        · rfl
        · refine respects_asking trivial fun answer => ?_
          refine Program.Respects.bind (Q := fun _ => True) (by simp) fun selection _ => ?_
          change (if truthy selection.bestTool then { step with toolHint := selection.bestTool }
            else step).id = step.id
          split <;> rfl
      · refine (routePolicy_ids hhinted).bind fun routed hrouted => ?_
        refine (ih routed).mono (fun _ h => h) fun all hall => ?_
        simpa [hrouted] using hall

/-- The router changes neither statuses nor results nor which steps there are. -/
theorem returns_routerNode {state : AgentState} {before : PlanState}
    (hplan : state.planState = some before) : Program.Returns (S := runtimeSig)
      (fun routed => ∃ own, routed.planState = some own ∧ PlanExecutor.Unadvanced before own)
      (routerNode deps state) := by
  simp only [routerNode, hplan]
  refine Program.Respects.bind (Q := fun _ => True) (by simp) fun policyTrace _ => ?_
  refine (returns_routeSteps _ _).bind fun routed hrouted => ?_
  exact ⟨_, rfl, rfl, rfl, by simpa [Plan.ids] using hrouted⟩

namespace PlanGraphCompiler

/-- The operations a step node may ask. -/
def stepMayAsk (deps : RuntimeDependencies) (op : Op) : Bool :=
  PlanExecutor.mayAsk deps.executor op || routerMayAsk deps op

theorem asks_stepNode (stepId : Int) (state : AgentState) : Program.Asks (S := runtimeSig)
    (fun op => stepMayAsk deps op = true) (stepNode deps stepId state) := by
  have hstep : ∀ op, PlanExecutor.mayAsk deps.executor op = true → stepMayAsk deps op = true :=
    fun op h => by simp [stepMayAsk, h]
  have hrouter : ∀ op, routerMayAsk deps op = true → stepMayAsk deps op = true :=
    fun op h => by simp [stepMayAsk, h]
  unfold stepNode
  split
  · trivial
  refine Program.Respects.bind (Q := fun _ => True) (by simp) fun status _ => ?_
  split
  · trivial
  refine Program.Respects.bind (Q := fun _ => True) (by simp) fun met _ => ?_
  split
  · refine ((asks_routerNode state).mono hrouter fun _ h => h).bind fun routed _ => ?_
    split
    · trivial
    refine Program.Respects.bind (Q := fun _ => True) (by simp) fun step _ => ?_
    refine Program.Respects.bind (Q := fun _ => True) ?_ fun after _ => by simp
    exact ((PlanExecutor.within_runStepWithRecovery _ _).mapError).mono hstep fun _ h => h
  · trivial

theorem visit_of_stepMayAsk {op : Op} (h : stepMayAsk deps op = true) : op.visit = none := by
  cases op <;> simp [stepMayAsk, PlanExecutor.mayAsk, PlanExecutor.mayCall, PlanExecutor.mayReplan,
    routerMayAsk, Op.visit] at h ⊢

theorem quiet_stepNode (stepId : Int) (state : AgentState) : Quiet (stepNode deps stepId state) :=
  (asks_stepNode stepId state).mono (fun _ h => visit_of_stepMayAsk h) fun _ h => h

end PlanGraphCompiler

/-! ## What the nodes leave alone -/

/-- The nodes of a compiled plan do not write this field. -/
def Unwritten {β : Type} (field : AgentState → β) : Prop :=
  ∀ (state : AgentState) planRef planState currentStep observations executionTrace memory,
    field { state with
      planRef := planRef
      planState := planState
      currentStep := currentStep
      observations := observations
      executionTrace := executionTrace
      memory := memory } = field state

section Unwritten

variable {β : Type} {field : AgentState → β}

theorem unwritten_routerNode (hfield : Unwritten field) (state : AgentState) :
    Program.Returns (S := runtimeSig) (fun after => field after = field state)
      (routerNode deps state) := by
  unfold routerNode
  split
  · rfl
  · refine Program.Respects.bind (Q := fun _ => True) (by simp) fun _ _ => ?_
    refine Program.Respects.bind (Q := fun _ => True) ?_ fun _ _ => hfield state _ _ _ _ _ _
    exact (asks_routeSteps _ _ _ _).mono (fun _ _ => trivial) fun _ h => h

namespace PlanGraphCompiler

/-- Recording an output writes the outputs among the observations. -/
theorem exists_of_recordOutput {state after : AgentState} {stepId : Int} {output : Value}
    (h : recordOutput state stepId output = .ok after) : ∃ updated,
      ((state.observations.get? "step_outputs").getD (.dict [])).setItem (.int stepId) output =
        some updated ∧
      after = { state with observations := state.observations.set "step_outputs" updated } := by
  unfold recordOutput at h
  dsimp only at h
  split at h
  next updated hset => exact ⟨updated, hset, (Except.ok.inj h).symm⟩
  next => cases h

theorem planState_recordOutput {state after : AgentState} {stepId : Int} {output : Value}
    (h : recordOutput state stepId output = .ok after) : after.planState = state.planState := by
  obtain ⟨updated, -, rfl⟩ := exists_of_recordOutput h
  rfl

theorem unwritten_recordOutput (hfield : Unwritten field) {state after : AgentState} {stepId : Int}
    {output : Value} (h : recordOutput state stepId output = .ok after) :
    field after = field state := by
  obtain ⟨updated, -, rfl⟩ := exists_of_recordOutput h
  exact hfield state state.planRef state.planState state.currentStep _ state.executionTrace
    state.memory

theorem unwritten_stepNode (hfield : Unwritten field) (stepId : Int) (state : AgentState) :
    Program.Returns (S := runtimeSig) (fun after => field after = field state)
      (stepNode deps stepId state) := by
  have hany : ∀ {α : Type} (value : Except RaisedError α),
      Program.Returns (S := runtimeSig) (fun _ => True) (Program.ofExcept value) := by simp
  unfold stepNode
  split
  · rfl
  refine (hany _).bind fun status _ => ?_
  split
  · rfl
  refine (hany _).bind fun met _ => ?_
  split
  · refine (unwritten_routerNode hfield state).bind fun routed hrouted => ?_
    split
    · exact hrouted
    refine (hany _).bind fun step _ => ?_
    refine Program.Respects.bind (Q := fun _ => True) ?_ fun after _ => ?_
    · exact ((PlanExecutor.within_runStepWithRecovery _ _).mapError).mono (fun _ _ => trivial)
        fun _ h => h
    · refine Program.respects_ofExcept_iff.mpr ?_
      intro recorded hrecorded
      have hadopted := hfield routed .ofPlanState (some after) (some stepId) routed.observations
        after.executionTrace routed.memory
      exact (unwritten_recordOutput hfield hrecorded).trans (hadopted.trans hrouted)
  · rfl

end PlanGraphCompiler

end Unwritten

end TripGraph
