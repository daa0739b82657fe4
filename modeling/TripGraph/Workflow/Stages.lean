import TripGraph.Compiler.Layout
import TripGraph.Runtime.Rounds

/-! # The nodes of the workflow

What steers the workflow is written by three nodes only: the critic, the replanner and the
finalizer. The other nodes keep it, and so does the nested run of the compiled plan.
-/

namespace TripGraph

open Interaction TripGraph.Graph PlanGraphCompiler

/-! ## What steers the workflow -/

/-- The operations of the critic and of the replanning counter. -/
def Op.steers : Op → Bool
  | .evaluate .. | .attemptsUsed | .countAttempt => true
  | _ => false

/-- The operation neither steers the workflow nor marks a finalizer. -/
def Op.Subordinate (op : Op) : Prop :=
  op.steers = false ∧ ∀ visit, op.visit = some visit → visit.nodeId ≠ "finalize"

/-- What steers the workflow is the same in both states, and a plan state is not lost. -/
structure AgentState.Steady (before after : AgentState) : Prop where
  shouldStop : after.shouldStop = before.shouldStop
  replanAttempts : after.replanAttempts = before.replanAttempts
  replanHistory : after.replanHistory = before.replanHistory
  executionCritique : after.executionCritique = before.executionCritique
  planState : before.planState.isSome = true → after.planState.isSome = true

namespace AgentState.Steady

variable {first second third : AgentState}

theorem rfl {state : AgentState} : state.Steady state := ⟨.refl _, .refl _, .refl _, .refl _, id⟩

theorem trans (h : first.Steady second) (h' : second.Steady third) : first.Steady third :=
  ⟨h'.shouldStop.trans h.shouldStop, h'.replanAttempts.trans h.replanAttempts,
    h'.replanHistory.trans h.replanHistory, h'.executionCritique.trans h.executionCritique,
    fun hstate => h'.planState (h.planState hstate)⟩

end AgentState.Steady

theorem steady_startNode {digest : Snapshot → String} (nodeId : String) (state : AgentState) :
    state.Steady (startNode digest nodeId state) := ⟨rfl, rfl, rfl, rfl, id⟩

theorem steady_finishNode {digest : Snapshot → String} (record : NodeExecutionRecord)
    (nodeId versionId : String) (state : AgentState) :
    state.Steady (finishNode record (state.commitVersion digest nodeId versionId)) :=
  ⟨rfl, rfl, rfl, rfl, id⟩

theorem subordinate_of_quiet {op : Op} (hsteers : op.steers = false) (hvisit : op.visit = none) :
    op.Subordinate := ⟨hsteers, fun visit h => by rw [hvisit] at h; cases h⟩

theorem steers_of_bookkeeping {op : Op} (h : op.bookkeeping = true) : op.steers = false := by
  cases op <;> simp [Op.bookkeeping, Op.steers] at h ⊢

/-! ## The nested run -/

section Nested

variable {deps : RuntimeDependencies}

theorem subordinate_of_stepMayAsk {op : Op} (h : stepMayAsk deps op = true) : op.Subordinate := by
  refine subordinate_of_quiet ?_ (visit_of_stepMayAsk h)
  cases op <;> simp [stepMayAsk, PlanExecutor.mayAsk, PlanExecutor.mayCall,
    PlanExecutor.mayReplan, routerMayAsk, Op.steers] at h ⊢

/-- A plan state is not lost. -/
def AgentState.Planned (state : AgentState) : Prop := state.planState.isSome = true

theorem planned_routerNode {state : AgentState} (h : state.Planned) :
    Program.Returns (S := runtimeSig) AgentState.Planned (routerNode deps state) := by
  obtain ⟨before, hbefore⟩ := Option.isSome_iff_exists.mp h
  refine (returns_routerNode hbefore).mono (fun _ h => h) fun routed hrouted => ?_
  obtain ⟨own, hown, -⟩ := hrouted
  exact Option.isSome_of_mem hown

theorem planned_stepNode (stepId : Int) {state : AgentState} (h : state.Planned) :
    Program.Returns (S := runtimeSig) AgentState.Planned (stepNode deps stepId state) := by
  unfold stepNode
  split
  · exact h
  refine Program.Respects.bind (Q := fun _ => True) (by simp) fun status _ => ?_
  split
  · exact h
  refine Program.Respects.bind (Q := fun _ => True) (by simp) fun met _ => ?_
  split
  · refine (planned_routerNode h).bind fun routed hrouted => ?_
    split
    · exact hrouted
    refine Program.Respects.bind (Q := fun _ => True) (by simp) fun step _ => ?_
    refine Program.Respects.bind (Q := fun _ => True)
      ((PlanExecutor.within_runStepWithRecovery _ _).mono (fun _ _ => trivial)
        fun _ h => h).mapError
      fun after _ => ?_
    refine Program.respects_ofExcept_iff.mpr fun recorded hrecorded => ?_
    simp only [recordOutput] at hrecorded
    split at hrecorded
    · cases hrecorded
      rfl
    · cases hrecorded
  · exact h

theorem respects_mergePair {P : Op → Prop} (hmerge : ∀ left right, P (.mergeGraphs left right))
    (strategy : MergeStrategy) {left right : AgentState} (hright : right.Planned) :
    Program.Respects (S := runtimeSig) P AgentState.Planned (mergePair strategy left right) := by
  have hdeep : Program.Respects (S := runtimeSig) P AgentState.Planned (deepMerge left right) := by
    refine Program.Respects.bind (Q := fun _ => True) ?_ fun _ _ => ?_
    · unfold mergeExecutionGraphs
      split
      · trivial
      · trivial
      · exact respects_asking (hmerge _ _) fun _ => trivial
    · obtain ⟨own, hown⟩ := Option.isSome_iff_exists.mp hright
      simp [AgentState.Planned, hown]
  unfold mergePair
  split
  · exact hright
  · dsimp only
    split
    · exact hdeep
    · trivial
  · exact hdeep.bind fun _ h => h
  · exact hdeep

theorem subordinate_of_visit {op : Op} {visit : Visit} (h : op.visit = some visit)
    (hne : visit.nodeId ≠ "finalize") : op.Subordinate := by
  refine ⟨?_, fun other hother => ?_⟩
  · cases op <;> simp [Op.visit, Op.steers] at h ⊢
  · rw [h] at hother
    exact Option.some.inj hother ▸ hne

/-- The run of a compiled plan keeps to itself. -/
theorem keeps_compile {policy : ExecutionPolicy} (hmode : policy.mode ≠ .replay)
    {strategy : MergeStrategy} {plan : Plan} :
    Keeps policy Op.Subordinate AgentState.Planned (compile deps strategy plan) where
  engine op hop hvisit := subordinate_of_quiet (steers_of_bookkeeping hop) hvisit
  node := by
    have hmarks : ∀ nodeId : String, nodeId ≠ "finalize" → ∀ op : Op, ∀ visit,
        op.visit = some visit → visit.nodeId = nodeId → op.Subordinate :=
      fun nodeId hne op visit hop hvisit => subordinate_of_visit hop (hvisit ▸ hne)
    refine eachNode_compile ⟨hmarks _ (by decide), fun _ h => h⟩
      ⟨hmarks _ (by decide), fun _ h => h⟩ (fun stepId => ⟨hmarks _ ?_, fun state h => ?_⟩)
      fun levelIndex waitFor => ⟨hmarks _ ?_, fun _ h => h⟩
    · exact stepNodeId_ne_of_head (by decide)
    · exact ((asks_stepNode stepId state).mono (fun _ hop => subordinate_of_stepMayAsk hop)
        fun _ h => h).of_asks (planned_stepNode stepId h)
    · exact joinNodeId_ne_of_take (by decide)
  merge left right _ hright :=
    respects_mergePair (fun _ _ => subordinate_of_quiet rfl rfl) _ hright
  frame _ _ _ _ _ _ h := h
  served hserved := absurd hserved hmode

end Nested

/-! ## The nodes that do not steer -/

section Nodes

variable {deps : RuntimeDependencies}

/-- A program that keeps to itself and leaves what steers the workflow as it is. -/
abbrev Follower (state : AgentState) (p : Runtime AgentState) : Prop :=
  Program.Respects (S := runtimeSig) Op.Subordinate state.Steady p

theorem asks_loadScope (state : AgentState) (scope : MemoryScope) :
    Program.Asks (S := runtimeSig) Op.Subordinate (loadScope state scope) :=
  respects_asking (subordinate_of_quiet rfl rfl) fun _ => by simp

theorem follower_memoryLoadNode (state : AgentState) :
    Follower state (memoryLoadNode deps state) := by
  unfold memoryLoadNode
  split
  · exact (asks_loadScope _ _).bind fun _ _ => (asks_loadScope _ _).bind fun _ _ =>
      (asks_loadScope _ _).bind fun _ _ => ⟨rfl, rfl, rfl, rfl, id⟩
  · exact .rfl

theorem asks_saveEntry (entry : MemoryEntry) :
    Program.Asks (S := runtimeSig) Op.Subordinate (saveEntry entry) :=
  respects_asking (subordinate_of_quiet rfl rfl) fun _ => by simp

theorem asks_recordsOf (state : AgentState) :
    Program.Asks (S := runtimeSig) Op.Subordinate (recordsOf state) := by
  unfold recordsOf
  split
  · trivial
  · exact respects_asking (subordinate_of_quiet rfl rfl) fun _ => trivial

theorem follower_memoryPersistNode (state : AgentState) :
    Follower state (memoryPersistNode deps state) := by
  unfold memoryPersistNode
  split
  · refine (asks_recordsOf _).bind fun records _ => (asks_saveEntry _).bind fun _ _ => ?_
    have hlast : ∀ episode, Follower state (do
        if truthy state.finalResult then
          saveEntry ⟨state.sessionId, "last_result", .ofText state.finalResult, .longTerm,
            [("plan_goal", .ofText (state.plan.map Plan.goal))]⟩
        pure { state with
          episodicMemory := state.episodicMemory ++ [episode]
          memory := state.memory.set "last_persisted_episode" episode }) := by
      intro episode
      split
      · exact (asks_saveEntry _).bind fun _ _ => ⟨rfl, rfl, rfl, rfl, id⟩
      · exact ⟨rfl, rfl, rfl, rfl, id⟩
    dsimp only
    split
    · exact (asks_saveEntry _).bind fun _ _ => hlast _
    · exact hlast _
  · exact .rfl

/-- The planner leaves a plan state. -/
theorem respects_plannerNode (state : AgentState) : Program.Respects (S := runtimeSig)
    Op.Subordinate (fun after => state.Steady after ∧ after.Planned) (plannerNode deps state) := by
  refine respects_asking (subordinate_of_quiet rfl rfl) fun answer => ?_
  refine Program.Respects.bind (Q := fun _ => True) (by simp) fun created _ => ?_
  refine Program.Respects.bind (Q := fun _ => True) (by simp) fun _ _ => ?_
  exact ⟨⟨rfl, rfl, rfl, rfl, fun _ => rfl⟩, rfl⟩

theorem follower_compilePlanNode (state : AgentState) : Follower state (compilePlanNode state) := by
  unfold compilePlanNode
  split
  · exact .rfl
  · refine Program.Respects.bind (Q := fun _ => True) (by simp) fun strategy _ => ?_
    exact ⟨rfl, rfl, rfl, rfl, id⟩

theorem steady_routerNode (state : AgentState) :
    Program.Returns (S := runtimeSig) state.Steady (routerNode deps state) := by
  unfold routerNode
  split
  · exact .rfl
  · refine Program.Respects.bind (Q := fun _ => True) (by simp) fun _ _ => ?_
    exact Program.Respects.bind (Q := fun _ => True)
      ((returns_routeSteps _ _).mono (fun _ h => h) fun _ _ => trivial)
      fun _ _ => ⟨rfl, rfl, rfl, rfl, fun _ => rfl⟩

theorem follower_routerNode (state : AgentState) : Follower state (routerNode deps state) := by
  refine Program.Respects.of_asks ?_ (steady_routerNode state)
  refine (asks_routerNode state).mono (fun op hop => ?_) fun _ h => h
  cases op <;> first | exact subordinate_of_quiet rfl rfl | cases hop

theorem follower_planAgentNode (compiled : CompiledPlan) {state : AgentState} (h : state.Planned) :
    Follower state (planAgentNode deps compiled state) := by
  refine ((keeps_compile (show ExecutionPolicy.mode { captureStateSnapshots := true } ≠ .replay by
    decide)).run (show (toChild (state.logGraph "plan_executor" "agent_invoke"
      [("agent_id", .str "plan_executor")]) _).Planned from h)).bind fun child hchild => ?_
  refine Program.Respects.bind (Q := fun _ => True) (by simp) fun results _ => ?_
  refine Program.Respects.bind (Q := fun _ => True) (by simp) fun calls _ => ?_
  exact ⟨rfl, rfl, rfl, rfl, fun _ => hchild⟩

theorem follower_planLoopNode (plan : Plan) (planState : PlanState) (state : AgentState) :
    Follower state (planLoopNode deps plan planState state) := by
  refine Program.Respects.bind (Q := fun _ => True) ?_ fun after _ => ?_
  · refine ((PlanExecutor.asks_execute _ _ _).mono (fun op hop => ?_) fun _ h => h).mapError
    refine subordinate_of_quiet ?_ ?_ <;> cases op <;>
      simp [PlanExecutor.loopMayAsk, PlanExecutor.mayAsk, PlanExecutor.mayCall,
        PlanExecutor.mayReplan, Op.steers, Op.visit] at hop ⊢
  dsimp only
  split
  · refine respects_asking (subordinate_of_quiet rfl rfl) fun trace => ?_
    split <;> exact ⟨rfl, rfl, rfl, rfl, fun _ => rfl⟩
  · exact ⟨rfl, rfl, rfl, rfl, fun _ => rfl⟩

theorem follower_executionNode (state : AgentState) :
    Follower state (executionNode deps state) := by
  unfold executionNode
  split
  next hstate _ =>
    split
    · exact follower_planAgentNode _ (Option.isSome_of_mem hstate)
    · exact follower_planLoopNode _ _ _
  next => exact .rfl

end Nodes

/-! ## The nodes that steer -/

/-- The verdicts of the critic in a trace. -/
def verdict (event : Event) : Option ExecutionCritique :=
  match event with
  | ⟨.evaluate _ _, .ok critique⟩ => some critique
  | _ => none

def verdicts (trace : List Event) : List ExecutionCritique := trace.filterMap verdict

@[simp] theorem verdicts_nil : verdicts [] = [] := rfl

@[simp] theorem verdicts_append (first second : List Event) :
    verdicts (first ++ second) = verdicts first ++ verdicts second := List.filterMap_append

theorem verdict_eq_none {event : Event} (h : event.op.steers = false) : verdict event = none := by
  obtain ⟨op, reply⟩ := event
  cases op <;> simp [Op.steers, verdict] at h ⊢

/-- A trace without operations that steer the workflow. -/
def Unsteered (trace : List Event) : Prop := ∀ event ∈ trace, event.op.steers = false

theorem Unsteered.append {first second : List Event} (hfirst : Unsteered first)
    (hsecond : Unsteered second) : Unsteered (first ++ second) :=
  fun event hmem => (List.mem_append.mp hmem).elim (hfirst event) (hsecond event)

theorem unsteered_of_bookkept {trace : List Event} (h : Bookkept trace) : Unsteered trace :=
  fun event hmem => steers_of_bookkeeping (h event hmem)

theorem Unsteered.verdicts_eq {trace : List Event} (h : Unsteered trace) : verdicts trace = [] :=
  List.filterMap_eq_nil_iff.mpr fun event hmem => verdict_eq_none (h event hmem)

section Steering

variable {deps : RuntimeDependencies}

/-- The critic, if it is enabled, replaces the critique by its verdict. -/
theorem runs_criticNode_ok {state after : AgentState} (hplanned : state.Planned)
    {trace : List Event} (h : Runs (criticNode deps state) trace (.ok after)) :
    after.shouldStop = state.shouldStop ∧ after.replanAttempts = state.replanAttempts ∧
      after.replanHistory = state.replanHistory ∧ after.Planned ∧
      ((deps.criticEnabled = false ∧ trace = [] ∧
        after.executionCritique = state.executionCritique) ∨
      ∃ planState finalResult critique, deps.criticEnabled = true ∧
        trace = [⟨.evaluate planState finalResult, .ok critique⟩] ∧
        after.executionCritique = some critique) := by
  obtain ⟨planState, hplan⟩ := Option.isSome_iff_exists.mp hplanned
  simp only [criticNode, hplan] at h
  split at h
  next hcritic =>
    obtain ⟨answer, rest, rfl, h₁⟩ := runs_asking_iff.mp h
    obtain ⟨critique, first, second, hanswer, h₂, rfl⟩ := runs_bind_ok_iff.mp h₁
    obtain ⟨rfl, rfl⟩ := runs_ofExcept_iff.mp hanswer
    obtain ⟨rfl, hafter⟩ := runs_pure_iff.mp h₂
    cases hafter
    exact ⟨rfl, rfl, rfl, rfl, Or.inr ⟨planState, _, critique, hcritic, rfl, rfl⟩⟩
  next hcritic =>
    obtain ⟨rfl, hafter⟩ := runs_pure_iff.mp h
    cases hafter
    exact ⟨rfl, rfl, rfl, hplanned, Or.inl ⟨by simpa using hcritic, rfl, rfl⟩⟩

theorem quiet_criticNode (state : AgentState) : Quiet (criticNode deps state) := by
  unfold criticNode
  split
  · trivial
  · split
    · refine respects_asking rfl fun answer => ?_
      exact Program.Respects.bind (Q := fun _ => True) (by simp) fun _ _ => trivial
    · trivial

theorem quiet_handle (registry : List String) (config : ReplanningConfig)
    (critique : ExecutionCritique) (state : PlanState) :
    Quiet (ReplanningController.handle registry config critique state) := by
  have hnone : ∀ reason, Quiet (ReplanningController.noReplan state reason) :=
    fun _ => respects_asking rfl fun _ => trivial
  unfold ReplanningController.handle
  split
  · exact hnone _
  split
  · exact hnone _
  refine respects_asking rfl fun attempts => ?_
  split
  · exact hnone _
  refine respects_asking rfl fun _ => ?_
  refine Program.Respects.bind (Q := fun _ => True) (by simp) fun anchorStepId _ => ?_
  refine respects_asking rfl fun answer => ?_
  refine Program.Respects.bind (Q := fun _ => True) (by simp) fun newSteps _ => ?_
  dsimp only
  split
  · exact respects_asking rfl fun _ => trivial
  · refine respects_asking rfl fun fallback => ?_
    refine Program.Respects.bind (Q := fun _ => True) (by simp) fun fallbackSteps _ => ?_
    exact respects_asking rfl fun _ => trivial

theorem quiet_replannerNode (state : AgentState) : Quiet (replannerNode deps state) := by
  unfold replannerNode
  split
  · refine (quiet_handle _ _ _ _).bind fun outcome _ => respects_asking rfl fun attempts => ?_
    dsimp only
    split
    · exact Program.Respects.bind (Q := fun _ => True) (by simp) fun _ _ => trivial
    · trivial
  · trivial

/-- An operation that is not one of the replanning counter. -/
def Op.uncounted : Op → Bool
  | .attemptsUsed | .countAttempt => false
  | _ => true

/-- What a controller that handles a critique does with its counter. -/
inductive Handled (config : ReplanningConfig) (critique : ExecutionCritique) :
    List Event → ReplanningResult → Prop
  | unasked {used : Nat} {result : ReplanningResult} (needReplan : critique.needReplan = false)
      (skipped : result.skippedReason = some "critic_need_replan=false") :
      Handled config critique [⟨.attemptsUsed, used⟩] result
  | disabled {used : Nat} {result : ReplanningResult} (needReplan : critique.needReplan = true)
      (enabled : config.enabled = false)
      (skipped : result.skippedReason = some "critic_replan_disabled") :
      Handled config critique [⟨.attemptsUsed, used⟩] result
  | refused {used again : Nat} {result : ReplanningResult} (needReplan : critique.needReplan = true)
      (enabled : config.enabled = true) (spent : config.maxReplanAttempts ≤ used)
      (skipped : result.skippedReason = some s!"max_replan_attempts={config.maxReplanAttempts}") :
      Handled config critique [⟨.attemptsUsed, used⟩, ⟨.attemptsUsed, again⟩] result
  | attempted {used again : Nat} {calls : List Event} {result : ReplanningResult}
      (needReplan : critique.needReplan = true) (enabled : config.enabled = true)
      (left : used < config.maxReplanAttempts)
      (calls_uncounted : ∀ event ∈ calls, event.op.uncounted = true ∧ verdict event = none)
      (notSkipped : result.skippedReason = none ∨
        result.skippedReason = some "replan_validation_failed") :
      Handled config critique
        (⟨.attemptsUsed, used⟩ :: ⟨.countAttempt, ()⟩ :: (calls ++ [⟨.attemptsUsed, again⟩])) result

theorem Handled.verdicts_eq {config : ReplanningConfig} {critique : ExecutionCritique}
    {trace : List Event} {result : ReplanningResult} (h : Handled config critique trace result) :
    verdicts trace = [] := by
  cases h with
  | attempted _ _ _ calls_uncounted =>
      refine List.filterMap_eq_nil_iff.mpr (List.forall_mem_cons.mpr ⟨rfl, List.forall_mem_cons.mpr
        ⟨rfl, List.forall_mem_append.mpr ⟨fun event hmem => (calls_uncounted event hmem).2, ?_⟩⟩⟩)
      simp [verdict]
  | _ => simp [verdicts, verdict]

theorem runs_noReplan_ok {state : PlanState} {reason : String} {trace : List Event}
    {outcome : ReplanningOutcome}
    (h : Runs (ReplanningController.noReplan state reason) trace (.ok outcome)) :
    ∃ used, trace = [⟨.attemptsUsed, used⟩] ∧ outcome.result.skippedReason = some reason := by
  obtain ⟨used, rest, rfl, hpure⟩ := runs_asking_iff.mp h
  obtain ⟨rfl, houtcome⟩ := runs_pure_iff.mp hpure
  cases houtcome
  exact ⟨used, rfl, rfl⟩

theorem runs_replan_ok {registry : List String} {critique : ExecutionCritique} {state : PlanState}
    {trace : List Event} {outcome : ReplanningOutcome}
    (h : Runs (ReplanningController.replan registry critique state) trace (.ok outcome)) :
    ∃ again calls, trace = ⟨.countAttempt, ()⟩ :: (calls ++ [⟨.attemptsUsed, again⟩]) ∧
      (∀ event ∈ calls, event.op.uncounted = true ∧ verdict event = none) ∧
      (outcome.result.skippedReason = none ∨
        outcome.result.skippedReason = some "replan_validation_failed") := by
  obtain ⟨_, _, rfl, h₁⟩ := runs_asking_iff.mp h
  obtain ⟨anchorStepId, _, _, hanchor, h₂, rfl⟩ := runs_bind_ok_iff.mp h₁
  obtain ⟨rfl, -⟩ := runs_ofExcept_iff.mp hanchor
  obtain ⟨answer, _, rfl, h₃⟩ := runs_asking_iff.mp h₂
  obtain ⟨newSteps, _, _, hsteps, h₄, rfl⟩ := runs_bind_ok_iff.mp h₃
  obtain ⟨rfl, -⟩ := runs_ofExcept_iff.mp hsteps
  have hskipped : ∀ attempt reason used,
      outcome.result = ReplanningController.resultOf attempt reason used →
      outcome.result.skippedReason = none ∨
      outcome.result.skippedReason = some "replan_validation_failed" := by
    intro attempt reason used hresult
    rw [hresult]
    cases happlied : attempt.applied <;> simp [ReplanningController.resultOf, happlied]
  dsimp only at h₄
  split at h₄
  · obtain ⟨again, _, rfl, hpure⟩ := runs_asking_iff.mp h₄
    obtain ⟨rfl, houtcome⟩ := runs_pure_iff.mp hpure
    refine ⟨again, [⟨_, answer⟩], rfl, List.forall_mem_cons.mpr ⟨⟨rfl, rfl⟩, by simp⟩, ?_⟩
    exact hskipped _ _ _ (congrArg ReplanningOutcome.result (Except.ok.inj houtcome))
  · obtain ⟨reply, _, rfl, h₅⟩ := runs_asking_iff.mp h₄
    obtain ⟨_, _, _, hmore, h₆, rfl⟩ := runs_bind_ok_iff.mp h₅
    obtain ⟨rfl, -⟩ := runs_ofExcept_iff.mp hmore
    obtain ⟨again, _, rfl, hpure⟩ := runs_asking_iff.mp h₆
    obtain ⟨rfl, houtcome⟩ := runs_pure_iff.mp hpure
    refine ⟨again, [⟨_, answer⟩, ⟨_, reply⟩], rfl, List.forall_mem_cons.mpr ⟨⟨rfl, rfl⟩,
      List.forall_mem_cons.mpr ⟨⟨rfl, rfl⟩, by simp⟩⟩, ?_⟩
    exact hskipped _ _ _ (congrArg ReplanningOutcome.result (Except.ok.inj houtcome))

theorem runs_handle_ok {registry : List String} {config : ReplanningConfig}
    {critique : ExecutionCritique} {state : PlanState} {trace : List Event}
    {outcome : ReplanningOutcome}
    (h : Runs (ReplanningController.handle registry config critique state) trace (.ok outcome)) :
    Handled config critique trace outcome.result := by
  unfold ReplanningController.handle at h
  split at h
  next hneed =>
    obtain ⟨used, rfl, hskipped⟩ := runs_noReplan_ok h
    exact .unasked (by simpa using hneed) hskipped
  next hneed =>
    replace hneed : critique.needReplan = true := by simpa using hneed
    split at h
    next henabled =>
      obtain ⟨used, rfl, hskipped⟩ := runs_noReplan_ok h
      exact .disabled hneed (by simpa using henabled) hskipped
    next henabled =>
      replace henabled : config.enabled = true := by simpa using henabled
      obtain ⟨used, rest, rfl, h₁⟩ := runs_asking_iff.mp h
      split at h₁
      next hspent =>
        obtain ⟨again, rfl, hskipped⟩ := runs_noReplan_ok h₁
        exact .refused hneed henabled hspent hskipped
      next hleft =>
        obtain ⟨again, calls, rfl, hcalls, hskipped⟩ := runs_replan_ok h₁
        exact .attempted hneed henabled (Nat.lt_of_not_le hleft) hcalls hskipped

/-- The replanner handles the critique of the state and takes over the counter. -/
theorem runs_replannerNode_ok {state after : AgentState} {critique : ExecutionCritique}
    (hplanned : state.Planned) (hcritique : state.executionCritique = some critique)
    {trace : List Event} (h : Runs (replannerNode deps state) trace (.ok after)) :
    ∃ handling result used, Handled deps.replanning critique handling result ∧
      trace = handling ++ [⟨.attemptsUsed, used⟩] ∧ after.replanAttempts = used ∧
      after.replanHistory = state.replanHistory ++ [result] ∧
      after.shouldStop = state.shouldStop ∧
      after.executionCritique = state.executionCritique ∧ after.Planned := by
  obtain ⟨planState, hplan⟩ := Option.isSome_iff_exists.mp hplanned
  simp only [replannerNode, hplan, hcritique] at h
  obtain ⟨outcome, handling, _, hhandle, h₁, rfl⟩ := runs_bind_ok_iff.mp h
  obtain ⟨used, rest, rfl, h₂⟩ := runs_asking_iff.mp h₁
  have hhandled := runs_handle_ok hhandle
  refine ⟨handling, outcome.result, used, hhandled, ?_⟩
  split at h₂
  · obtain ⟨strategy, _, _, hstrategy, h₃, rfl⟩ := runs_bind_ok_iff.mp h₂
    obtain ⟨rfl, -⟩ := runs_ofExcept_iff.mp hstrategy
    obtain ⟨rfl, hafter⟩ := runs_pure_iff.mp h₃
    cases hafter
    exact ⟨rfl, rfl, rfl, rfl, hcritique.symm, rfl⟩
  · obtain ⟨rfl, hafter⟩ := runs_pure_iff.mp h₂
    cases hafter
    exact ⟨rfl, rfl, rfl, rfl, hcritique.symm, rfl⟩

theorem runs_finalizeNode_ok {state after : AgentState} {trace : List Event}
    (h : Runs (finalizeNode deps state) trace (.ok after)) :
    trace = [] ∧ after.shouldStop = true ∧ after.replanAttempts = state.replanAttempts ∧
      after.replanHistory = state.replanHistory ∧
      after.executionCritique = state.executionCritique ∧ after.planState = state.planState := by
  obtain ⟨rfl, hafter⟩ := runs_pure_iff.mp h
  cases hafter
  exact ⟨rfl, rfl, rfl, rfl, rfl, rfl⟩

end Steering

/-! ## The layout -/

namespace AgentWorkflowBuilder

/-- The stages of a run, in order; the critic is followed by the replanner or the finalizer,
and the replanner by the router. -/
inductive Stage
  | memoryLoad | planner | compilePlan | router | execution | memoryPersist | critic | replanner
  | finalize | over
deriving DecidableEq

/-- The node of a stage. A run that is over would go on at `memory_persist`. -/
def Stage.node : Stage → String
  | .memoryLoad => "memory_load"
  | .planner => "planner"
  | .compilePlan => "compile_plan"
  | .router => "router"
  | .execution => "execution"
  | .memoryPersist => "memory_persist"
  | .critic => "critic"
  | .replanner => "replanner"
  | .finalize => "finalize"
  | .over => "memory_persist"

section Layout

variable {deps : RuntimeDependencies} {maxIterations : Nat}

theorem fanOutFor_build (nodeId : String) :
    (build deps maxIterations).fanOutFor nodeId = none := rfl

theorem stops_build (state : AgentState) :
    (build deps maxIterations).stops state = .ok state.shouldStop := by
  have htermination : (build deps maxIterations).termination state = .ok state.shouldStop := rfl
  rw [Graph.stops, htermination]
  cases state.shouldStop <;> rfl

/-- The function of the node of a stage. -/
def Stage.fn (deps : RuntimeDependencies) : Stage → NodeFn
  | .memoryLoad => memoryLoadNode deps
  | .planner => plannerNode deps
  | .compilePlan => compilePlanNode
  | .router => routerNode deps
  | .execution => executionNode deps
  | .memoryPersist => memoryPersistNode deps
  | .critic => criticNode deps
  | .replanner => replannerNode deps
  | .finalize => finalizeNode deps
  | .over => memoryPersistNode deps

theorem nodes_build (stage : Stage) :
    (build deps maxIterations).nodes stage.node = some (stage.fn deps) := by
  cases stage <;> rfl

/-- Every node of the workflow is the node of a stage. -/
theorem eachNode_build {R : String → NodeFn → Prop}
    (h : ∀ stage : Stage, R stage.node (stage.fn deps)) :
    (build deps maxIterations).EachNode R := by
  have hempty : ({ graphId := "agent_workflow", entry := "memory_load" } : Graph).EachNode R :=
    fun _ _ hfn => by cases hfn
  have hnodes := ((((((((hempty.addNode (h .memoryLoad)).addNode (h .planner)).addNode
    (h .compilePlan)).addNode (h .router)).addNode (h .execution)).addNode
    (h .memoryPersist)).addNode (h .critic)).addNode (h .replanner)).addNode (h .finalize)
  exact hnodes

/-- Where a run goes from a stage that has ended in this state. -/
def Stage.after (deps : RuntimeDependencies) (state : AgentState) : Stage → Stage
  | .memoryLoad => .planner
  | .planner => .compilePlan
  | .compilePlan => .router
  | .router => .execution
  | .execution => .memoryPersist
  | .memoryPersist => .critic
  | .critic => if needsReplan deps state then .replanner else .finalize
  | .replanner => .router
  | .finalize => .over
  | .over => .over

theorem edges_build_memoryPersist : (build deps maxIterations).edges "memory_persist" =
    [{ target := endNode, condition := some AgentState.shouldStop,
       label := some "persist_and_finish" },
      { target := "critic", label := some "persist_and_continue" }] := rfl

theorem edges_build_critic : (build deps maxIterations).edges "critic" =
    [{ target := "replanner", condition := some (needsReplan deps), kind := .loop,
       label := some "need_replan" },
      { target := "finalize", label := some "done" }] := rfl

theorem edges_build_replanner : (build deps maxIterations).edges "replanner" =
    [{ target := "router", condition := some fun state => !state.shouldStop, kind := .loop,
       label := some "re_execute" }] := rfl

theorem resolveNext_build {stage : Stage} {state : AgentState} (hover : stage ≠ .over)
    (hstop : stage ≠ .finalize → state.shouldStop = false) :
    (build deps maxIterations).resolveNext stage.node state = (stage.after deps state).node := by
  cases stage with
  | «over» => exact absurd rfl hover
  | memoryPersist =>
      simp [Graph.resolveNext, Stage.node, Stage.after, edges_build_memoryPersist,
        ConditionalEdge.matches, hstop]
  | critic =>
      cases hneeds : needsReplan deps state <;>
        simp [Graph.resolveNext, Stage.node, Stage.after, edges_build_critic,
          ConditionalEdge.matches, hneeds]
  | replanner =>
      simp [Graph.resolveNext, Stage.node, Stage.after, edges_build_replanner,
        ConditionalEdge.matches, hstop]
  | _ => rfl

end Layout

end AgentWorkflowBuilder

end TripGraph
