import TripGraph.Plan.Replans

/-! # The graph an execution leaves behind

The executor hands the plan state to its graph before each round and at the end, so that the
graph shows the state the execution ends with. A step that is given up is the exception: no
refresh follows, and the graph shows it as running for good.
-/

namespace TripGraph

open Interaction PlanValidator

namespace PlanExecutionGraph

/-! ## Snapshots -/

/-- The nodes of the snapshot are the steps of the plan, each with its status in the plan state
and the error of its result. -/
structure Shows (snapshot : PlanExecutionGraphSnapshot) (state : PlanState) : Prop where
  nodup : (snapshot.nodes.map PlanGraphNode.id).Nodup
  ids : ∀ stepId, stepId ∈ snapshot.nodes.map PlanGraphNode.id ↔ stepId ∈ state.plan.ids
  status : ∀ node ∈ snapshot.nodes,
    ∃ status, state.stepStatus.get? node.id = some status ∧ node.status = mapStatus status
  error : ∀ node ∈ snapshot.nodes,
    node.error = (state.stepResults.get? node.id).bind StepResult.error

/-- The graph holds the status and the error of the step. -/
structure MirrorsStep (graph : PlanExecutionGraph) (state : PlanState) (stepId : Int) : Prop where
  status : ∃ status, state.stepStatus.get? stepId = some status ∧
    graph.status.get? stepId = some (mapStatus status)
  error : graph.errors.get? stepId = some ((state.stepResults.get? stepId).bind StepResult.error)

/-- What a refreshed graph holds. -/
structure Mirrors (graph : PlanExecutionGraph) (state : PlanState) : Prop where
  steps : graph.steps = stepsById state.plan.steps
  nodes : ∀ stepId ∈ state.plan.ids, MirrorsStep graph state stepId

variable {graph : PlanExecutionGraph} {state : PlanState} {steps : List PlanStep}

theorem node_eq_ok_iff {step : PlanStep} {own : PlanGraphNode} : graph.node step = .ok own ↔
    ∃ status, graph.status.get? step.id = some status ∧
      own = ⟨step.id, step.task, step.toolHint, status, (graph.errors.get? step.id).join⟩ := by
  unfold node
  split
  next status hstatus =>
    rw [hstatus, Except.ok.injEq]
    constructor
    · rintro rfl
      exact ⟨status, rfl, rfl⟩
    · rintro ⟨_, hsome, rfl⟩
      cases hsome
      rfl
  next hnone =>
    rw [hnone]
    constructor
    · intro h
      cases h
    · rintro ⟨_, h, -⟩
      cases h

theorem nodes_eq_ok_iff {nodes : List PlanGraphNode} : graph.nodes steps = .ok nodes ↔
    List.Forall₂ (fun step own => graph.node step = .ok own) steps nodes := by
  induction steps generalizing nodes with
  | nil => simp [PlanExecutionGraph.nodes, eq_comm]
  | cons step rest ih =>
      rw [PlanExecutionGraph.nodes, List.forall₂_cons_left_iff]
      constructor
      · intro h
        cases hfirst : graph.node step with
        | error error =>
            rw [hfirst] at h
            cases h
        | ok first =>
            rw [hfirst] at h
            cases hrest : graph.nodes rest with
            | error error =>
                rw [hrest] at h
                cases h
            | ok others =>
                rw [hrest] at h
                cases h
                exact ⟨first, others, rfl, ih.mp hrest, rfl⟩
      · rintro ⟨first, others, hfirst, hrest, rfl⟩
        rw [hfirst, ih.mpr hrest]
        rfl

/-- The steps of a graph are filed under their ids. -/
theorem ids_values_stepsById (steps : List PlanStep) :
    (stepsById steps).values.map PlanStep.id = (stepsById steps).keys := by
  rw [Dict.values, Dict.keys, List.map_map]
  apply List.map_congr_left
  intro entry hentry
  obtain ⟨step, -, heq⟩ := List.mem_map.mp
    (Dict.mem_of_get?_ofList (Dict.get?_of_mem_entries (d := stepsById steps) hentry))
  exact congrArg Prod.fst heq ▸ congrArg (fun own => own.2.id) heq.symm

/-- The steps a graph lists are those of the plan, each once. -/
theorem ids_sorted_stepsById (steps : List PlanStep) :
    ((sortById (stepsById steps).values).map PlanStep.id).Nodup ∧
      ∀ stepId, stepId ∈ (sortById (stepsById steps).values).map PlanStep.id ↔
        stepId ∈ steps.map PlanStep.id := by
  have hperm := (perm_sortById (stepsById steps).values).map PlanStep.id
  rw [ids_values_stepsById] at hperm
  constructor
  · exact hperm.nodup_iff.mpr (stepsById steps).nodup
  · intro stepId
    rw [hperm.mem_iff, ← Dict.contains_iff, contains_stepsById]

theorem getGraphSnapshot_eq_ok_iff {snapshot : PlanExecutionGraphSnapshot} :
    graph.getGraphSnapshot = .ok snapshot ↔
      ∃ nodes, graph.nodes (sortById graph.steps.values) = .ok nodes ∧
        snapshot = ⟨graph.goal, graph.sessionId, graph.currentStep, nodes, graph.edges⟩ := by
  unfold getGraphSnapshot
  cases hnodes : graph.nodes (sortById graph.steps.values) with
  | error error =>
      constructor
      · intro h
        cases h
      · rintro ⟨_, h, -⟩
        cases h
  | ok nodes =>
      constructor
      · intro h
        cases h
        exact ⟨nodes, rfl, rfl⟩
      · rintro ⟨_, heq, rfl⟩
        cases heq
        rfl

/-- A snapshot has a node for each step the graph lists. -/
theorem ids_of_nodes {nodes : List PlanGraphNode} (h : graph.nodes steps = .ok nodes) :
    nodes.map PlanGraphNode.id = steps.map PlanStep.id := by
  induction nodes_eq_ok_iff.mp h with
  | nil => rfl
  | cons hnode hrest ih =>
      obtain ⟨_, -, rfl⟩ := node_eq_ok_iff.mp hnode
      rw [List.map_cons, List.map_cons, ih (nodes_eq_ok_iff.mpr hrest)]

theorem exists_nodes (h : ∀ step ∈ steps, (graph.status.get? step.id).isSome) :
    ∃ nodes, graph.nodes steps = .ok nodes := by
  induction steps with
  | nil => exact ⟨[], rfl⟩
  | cons step rest ih =>
      obtain ⟨hown, hrest⟩ := List.forall_mem_cons.mp h
      obtain ⟨others, hothers⟩ := ih hrest
      obtain ⟨status, hstatus⟩ := Option.isSome_iff_exists.mp hown
      exact ⟨_, nodes_eq_ok_iff.mpr (List.Forall₂.cons (node_eq_ok_iff.mpr ⟨status, hstatus, rfl⟩)
        (nodes_eq_ok_iff.mp hothers))⟩

theorem exists_step_of_mem_nodes {nodes : List PlanGraphNode} {own : PlanGraphNode}
    (h : graph.nodes steps = .ok nodes) (hmem : own ∈ nodes) :
    ∃ step ∈ steps, graph.node step = .ok own := by
  induction nodes_eq_ok_iff.mp h with
  | nil => cases hmem
  | cons hnode hrest ih =>
      rcases List.mem_cons.mp hmem with rfl | hmem
      · exact ⟨_, List.mem_cons_self, hnode⟩
      · obtain ⟨step, hstep, heq⟩ := ih (nodes_eq_ok_iff.mpr hrest) hmem
        exact ⟨step, List.mem_cons_of_mem _ hstep, heq⟩

/-- The snapshot of a refreshed graph shows the state. -/
theorem Mirrors.shows (h : Mirrors graph state) :
    ∃ snapshot, graph.getGraphSnapshot = .ok snapshot ∧ Shows snapshot state := by
  obtain ⟨hnodup, hids⟩ := ids_sorted_stepsById state.plan.steps
  rw [← h.steps] at hnodup hids
  have hlisted : ∀ step ∈ sortById graph.steps.values, step.id ∈ state.plan.ids :=
    fun step hstep => (hids step.id).mp (List.mem_map_of_mem hstep)
  obtain ⟨nodes, hnodes⟩ : ∃ nodes, graph.nodes (sortById graph.steps.values) = .ok nodes := by
    apply exists_nodes
    intro step hstep
    obtain ⟨status, -, hstatus⟩ := (h.nodes step.id (hlisted step hstep)).status
    exact Option.isSome_iff_exists.mpr ⟨_, hstatus⟩
  refine ⟨_, getGraphSnapshot_eq_ok_iff.mpr ⟨nodes, hnodes, rfl⟩, ?_, ?_, ?_, ?_⟩
  · rwa [ids_of_nodes hnodes]
  · rw [ids_of_nodes hnodes]
    exact hids
  · intro own hown
    obtain ⟨step, hstep, hnode⟩ := exists_step_of_mem_nodes hnodes hown
    obtain ⟨status, hshown, rfl⟩ := node_eq_ok_iff.mp hnode
    obtain ⟨held, hheld, hmirrored⟩ := (h.nodes step.id (hlisted step hstep)).status
    exact ⟨held, hheld, Option.some.inj (hshown.symm.trans hmirrored)⟩
  · intro own hown
    obtain ⟨step, hstep, hnode⟩ := exists_step_of_mem_nodes hnodes hown
    obtain ⟨status, -, rfl⟩ := node_eq_ok_iff.mp hnode
    dsimp only
    rw [(h.nodes step.id (hlisted step hstep)).error]
    rfl

/-! ## Refreshing -/

/-- A loop that does not raise writes what it comes to and leaves the rest. -/
theorem mirrorsStep_syncSteps {stepId : Int} (h : (syncSteps state steps graph).1 = .ok ())
    (hown : stepId ∈ steps.map PlanStep.id ∨ MirrorsStep graph state stepId) :
    MirrorsStep (syncSteps state steps graph).2 state stepId := by
  induction steps generalizing graph with
  | nil => exact hown.resolve_left (fun hmem => by cases hmem)
  | cons step rest ih =>
      cases hstatus : state.stepStatus.get? step.id with
      | none =>
          simp only [syncSteps, PlanState.getStepStatus, hstatus] at h
          cases h
      | some status =>
          simp only [syncSteps, PlanState.getStepStatus, hstatus] at h ⊢
          apply ih h
          by_cases heq : stepId = step.id
          · subst heq
            exact Or.inr ⟨⟨status, hstatus, Dict.get?_set_self _ _ _⟩, Dict.get?_set_self _ _ _⟩
          · apply hown.imp
            · intro hmem
              exact (List.mem_cons.mp hmem).resolve_left heq
            · intro hmirrors
              constructor
              · rw [Dict.get?_set_ne _ heq]
                exact hmirrors.status
              · rw [Dict.get?_set_ne _ heq]
                exact hmirrors.error

theorem error_syncSteps {error : RaisedError} (h : (syncSteps state steps graph).1 = .error error) :
    ∃ message, error = .keyError message := by
  induction steps generalizing graph with
  | nil => cases h
  | cons step rest ih =>
      cases hstatus : state.stepStatus.get? step.id with
      | none =>
          simp only [syncSteps, PlanState.getStepStatus, hstatus] at h
          cases h
          exact ⟨_, rfl⟩
      | some status =>
          simp only [syncSteps, PlanState.getStepStatus, hstatus] at h
          exact ih h

/-- A graph that is refreshed without an error mirrors the state. -/
theorem mirrors_syncFromState (h : (graph.syncFromState state).1 = .ok ()) :
    Mirrors (graph.syncFromState state).2 state :=
  ⟨syncFromState_steps graph state, fun _ hmem => mirrorsStep_syncSteps h (Or.inl hmem)⟩

end PlanExecutionGraph

/-! ## The shared graph -/

/-- The operations that change the graph of the executor. -/
def Op.changesPlanGraph : Op → Bool
  | .newPlanGraph .. | .syncPlanGraph _ | .updatePlanNode .. | .rebuildPlanGraph _ => true
  | _ => false

namespace SharedObjects

variable {objects next last : SharedObjects} {trace : List Event}

theorem planGraph_of_step {event : Event} (h : event.op.changesPlanGraph = false)
    (hstep : Step objects event next) : next.planGraph = objects.planGraph := by
  obtain ⟨op, reply⟩ := event
  cases op with
  | newPlanGraph => cases h
  | syncPlanGraph => cases h
  | updatePlanNode => cases h
  | rebuildPlanGraph => cases h
  | nextReplayRecord =>
      rw [hstep.2]
      dsimp only [nextReplayRecord]
      split <;> rfl
  | _ => first | exact hstep.2 ▸ rfl | exact congrArg planGraph hstep

theorem planGraph_of_follows (h : ∀ event ∈ trace, event.op.changesPlanGraph = false)
    (hfollows : Follows Step objects trace last) : last.planGraph = objects.planGraph :=
  hfollows.preserves (I := fun own => own.planGraph = objects.planGraph)
    (fun _ event _ hevent hold hstep => (planGraph_of_step (h event hevent) hstep).trans hold) rfl

theorem syncPlanGraph_of_step {graph : PlanExecutionGraph} {state : PlanState}
    {reply : Except RaisedError Unit} (hgraph : objects.planGraph = some graph)
    (hstep : Step objects ⟨.syncPlanGraph state, reply⟩ next) :
    reply = (graph.syncFromState state).1 ∧
      next.planGraph = some (graph.syncFromState state).2 := by
  simp only [Step, answer, SharedObjects.syncPlanGraph, hgraph] at hstep
  obtain ⟨rfl, rfl⟩ := hstep
  exact ⟨rfl, rfl⟩

theorem updatePlanNode_of_step {graph : PlanExecutionGraph} {stepId : Int}
    {status : GraphNodeStatus} {reply : Except RaisedError Unit}
    (hgraph : objects.planGraph = some graph) (hnode : graph.steps.contains stepId = true)
    (hstep : Step objects ⟨.updatePlanNode stepId status, reply⟩ next) :
    reply = .ok () ∧
      next.planGraph = some { graph with status := graph.status.set stepId status } := by
  simp only [Step, answer, SharedObjects.updatePlanNode, hgraph, PlanExecutionGraph.setNodeStatus,
    hnode, if_true] at hstep
  obtain ⟨rfl, rfl⟩ := hstep
  exact ⟨rfl, rfl⟩

/-- An executor that has a graph keeps one. -/
theorem hasGraph_of_follows (hfollows : Follows Step objects trace last)
    (h : objects.planGraph.isSome) : last.planGraph.isSome := by
  apply hfollows.preserves (I := fun own => own.planGraph.isSome) _ h
  rintro own ⟨op, reply⟩ after - hsome hstep
  obtain ⟨graph, hgraph⟩ := Option.isSome_iff_exists.mp hsome
  by_cases hchanges : op.changesPlanGraph = true
  · cases op with
    | newPlanGraph => exact hstep.2 ▸ rfl
    | syncPlanGraph => rw [(syncPlanGraph_of_step hgraph hstep).2, Option.isSome_some]
    | updatePlanNode stepId status =>
        simp only [Step, answer, SharedObjects.updatePlanNode, hgraph] at hstep
        split at hstep
        · exact hstep.2 ▸ rfl
        · exact hstep.2 ▸ hsome
    | rebuildPlanGraph =>
        rw [hstep.2]
        dsimp only
        rw [hgraph]
        rfl
    | _ => cases hchanges
  · rw [planGraph_of_step (Bool.not_eq_true _ ▸ hchanges) hstep]
    exact hsome

/-- The graph of the executor mirrors the state. -/
def Mirrored (objects : SharedObjects) (state : PlanState) : Prop :=
  ∃ graph, objects.planGraph = some graph ∧ graph.Mirrors state

/-- `get_graph_snapshot` shows the state. -/
def Exposes (objects : SharedObjects) (state : PlanState) : Prop :=
  ∃ graph snapshot, objects.planGraph = some graph ∧ graph.getGraphSnapshot = .ok snapshot ∧
    PlanExecutionGraph.Shows snapshot state

theorem Mirrored.exposes {state : PlanState} (h : Mirrored objects state) :
    Exposes objects state := by
  obtain ⟨graph, hgraph, hmirrors⟩ := h
  obtain ⟨snapshot, hsnapshot, hshows⟩ := hmirrors.shows
  exact ⟨graph, snapshot, hgraph, hsnapshot, hshows⟩

/-- A refresh that raises does so for want of a status; otherwise the graph mirrors the state. -/
theorem mirrored_of_sync {state : PlanState} {reply : Except RaisedError Unit}
    (hgraph : objects.planGraph.isSome) (hstep : Step objects ⟨.syncPlanGraph state, reply⟩ next) :
    reply = .ok () ∧ Mirrored next state ∨ ∃ message, reply = .error (.keyError message) := by
  obtain ⟨graph, hgraph⟩ := Option.isSome_iff_exists.mp hgraph
  obtain ⟨rfl, hnext⟩ := syncPlanGraph_of_step hgraph hstep
  cases hreply : (graph.syncFromState state).1 with
  | ok own => exact Or.inl ⟨rfl, _, hnext, PlanExecutionGraph.mirrors_syncFromState hreply⟩
  | error error =>
      obtain ⟨message, rfl⟩ := PlanExecutionGraph.error_syncSteps hreply
      exact Or.inr ⟨message, rfl⟩

/-- The graph has a node for this step, filed under its id. -/
def HasNode (objects : SharedObjects) (stepId : Int) : Prop :=
  ∃ graph steps, objects.planGraph = some graph ∧
    graph.steps = PlanExecutionGraph.stepsById steps ∧ stepId ∈ steps.map PlanStep.id

/-- The step is running in the graph and no longer in the state. -/
structure StillRunning (objects : SharedObjects) (stepId : Int) (state : PlanState) : Prop where
  node : HasNode objects stepId
  running : ∀ graph, objects.planGraph = some graph → graph.status.get? stepId = some .running
  status : ∃ status, state.stepStatus.get? stepId = some status ∧ status ≠ .running

theorem mapStatus_eq_running_iff {status : StepStatus} :
    PlanExecutionGraph.mapStatus status = .running ↔ status = .running := by
  cases status <;> decide

theorem StillRunning.not_exposes {stepId : Int} {state : PlanState}
    (h : StillRunning objects stepId state) : ¬ Exposes objects state := by
  rintro ⟨graph, snapshot, hgraph, hsnapshot, hshows⟩
  obtain ⟨own, steps, hown, hsteps, hmem⟩ := h.node
  cases hgraph.symm.trans hown
  obtain ⟨nodes, hnodes, rfl⟩ := PlanExecutionGraph.getGraphSnapshot_eq_ok_iff.mp hsnapshot
  have hlisted : stepId ∈ nodes.map PlanGraphNode.id := by
    rw [PlanExecutionGraph.ids_of_nodes hnodes, hsteps]
    exact ((PlanExecutionGraph.ids_sorted_stepsById steps).2 stepId).mpr hmem
  obtain ⟨node, hnode, rfl⟩ := List.mem_map.mp hlisted
  obtain ⟨step, -, hstep⟩ := PlanExecutionGraph.exists_step_of_mem_nodes hnodes hnode
  obtain ⟨shown, hshown, rfl⟩ := PlanExecutionGraph.node_eq_ok_iff.mp hstep
  obtain ⟨held, hheld, heq⟩ := hshows.status _ hnode
  obtain ⟨status, hstatus, hne⟩ := h.status
  cases hheld.symm.trans hstatus
  cases hshown.symm.trans (h.running graph hgraph)
  exact hne (mapStatus_eq_running_iff.mp heq.symm)

end SharedObjects

namespace PlanExecutor

open SharedObjects

variable {config : ExecutorConfig} {objects last : SharedObjects} {trace : List Event}
  {step : PlanStep} {state : PlanState} {raised : Raised} {message : String}

theorem changesPlanGraph_of_withinStep {op : Op} (h : op.withinStep = true) :
    op.changesPlanGraph = false := by
  cases op with
  | executeLlmCall => rfl
  | recordFallback => rfl
  | summarize => rfl
  | _ => cases h

theorem runs_orRaise_error {α : Type} {value : Except RaisedError α}
    (h : Runs (orRaise state value) trace (.error raised)) :
    trace = [] ∧ value = .error raised.error ∧ raised.state = state := by
  obtain ⟨rfl, hvalue⟩ := runs_ofExcept_iff.mp h
  cases value with
  | ok own => cases hvalue
  | error error =>
      cases hvalue
      exact ⟨rfl, rfl, rfl⟩

/-! ## A step that is given up -/

theorem runs_maybeCompress_error
    (h : Runs (ContextCompressor.maybeCompress config state) trace (.error raised)) :
    raised.state = state := by
  unfold ContextCompressor.maybeCompress at h
  split at h
  · obtain ⟨answer, rest, rfl, hrest⟩ := runs_asking_iff.mp h
    rcases runs_bind_iff.mp hrest with ⟨summary, _, _, -, hpure, -⟩ | ⟨error, hraise, heq⟩
    · cases (runs_pure_iff.mp hpure).2
    · cases heq
      exact (runs_orRaise_error hraise).2.2
  · cases (runs_pure_iff.mp h).2

/-- A refresh that raises does not raise the error of the agent loop. -/
theorem runs_syncGraph_error (hgraph : objects.planGraph.isSome)
    (hfollows : Follows Step objects trace last)
    (hrun : Runs (syncGraph state) trace (.error raised)) : raised.error ≠ .agentLoop message := by
  obtain ⟨reply, rest, rfl, hraise⟩ := runs_asking_iff.mp hrun
  obtain ⟨synced, hstep, -⟩ := Follows.cons_iff.mp hfollows
  obtain ⟨-, hreply, -⟩ := runs_orRaise_error hraise
  intro herror
  rw [herror] at hreply
  rcases mirrored_of_sync hgraph hstep with ⟨hok, -⟩ | ⟨_, hkey⟩
  · cases hok.symm.trans hreply
  · cases hkey.symm.trans hreply

/-- Once the steps are replaced, no error of the agent loop is raised. -/
theorem runs_rebuild_error (hgraph : objects.planGraph.isSome)
    (hfollows : Follows Step objects trace last)
    (hrun : Runs (do
      ask (.rebuildPlanGraph state.plan)
      syncGraph state
      pure state : Execution PlanState) trace (.error raised)) :
    raised.error ≠ .agentLoop message := by
  obtain ⟨_, rest, rfl, hsync⟩ := runs_asking_iff.mp hrun
  obtain ⟨rebuilt, hrebuild, hrest⟩ := Follows.cons_iff.mp hfollows
  have hrebuilt : rebuilt.planGraph.isSome :=
    hasGraph_of_follows (Follows.cons_iff.mpr ⟨rebuilt, hrebuild, .nil _⟩) hgraph
  rcases runs_bind_iff.mp hsync with ⟨_, _, _, -, hpure, -⟩ | ⟨_, hraise, heq⟩
  · cases (runs_pure_iff.mp hpure).2
  · cases heq
    exact runs_syncGraph_error hrebuilt hrest hraise

theorem assertValid_ne_agentLoop (registry : List String) (plan : Plan) :
    PlanValidator.assertValid registry plan ≠ .error (.agentLoop message) := by
  intro h
  rw [PlanValidator.assertValid] at h
  split at h <;> cases h

/-- A replan that raises the error of the agent loop has replaced no step. -/
theorem runs_handleReplan_error {error : String} (hgraph : objects.planGraph.isSome)
    (herror : raised.error = .agentLoop message)
    (hfollows : Follows Step objects trace last)
    (hrun : Runs (handleReplan config step state error) trace (.error raised)) :
    raised.state.stepStatus = state.stepStatus ∧ last.planGraph = objects.planGraph := by
  unfold handleReplan at hrun
  split at hrun
  next =>
    obtain ⟨answer, rest, rfl, hrest⟩ := runs_asking_iff.mp hrun
    obtain ⟨middle, hstep, htail⟩ := Follows.cons_iff.mp hfollows
    have hmiddle : middle.planGraph = objects.planGraph := planGraph_of_step rfl hstep
    have hsome : middle.planGraph.isSome := hmiddle ▸ hgraph
    rcases runs_bind_iff.mp hrest with
      ⟨newSteps, first, rest, hfirst, hafter, rfl⟩ | ⟨_, hraise, heq⟩
    · exfalso
      obtain ⟨rfl, -⟩ := runs_orRaise_iff.mp hfirst
      generalize (traceReplan step state).applyReplannedSteps newSteps = replanned at hafter
      dsimp only at hafter
      split at hafter
      next =>
        rcases runs_bind_iff.mp hafter with
          ⟨_, first, rest, hvalid, hrebuild, rfl⟩ | ⟨_, hraise, heq⟩
        · obtain ⟨rfl, -⟩ := runs_orRaise_iff.mp hvalid
          exact runs_rebuild_error hsome htail hrebuild herror
        · cases heq
          obtain ⟨-, hinvalid, -⟩ := runs_orRaise_error hraise
          exact assertValid_ne_agentLoop _ _ (herror ▸ hinvalid)
      next => exact runs_rebuild_error hsome htail hafter herror
    · cases heq
      obtain ⟨rfl, -, hstate⟩ := runs_orRaise_error hraise
      cases Follows.nil_iff.mp htail
      exact ⟨hstate ▸ (unadvanced_traceReplan step state).status, hmiddle⟩
  next =>
    obtain ⟨rfl, heq⟩ := runs_fail_iff.mp hrun
    cases heq
    cases Follows.nil_iff.mp hfollows
    exact ⟨rfl, rfl⟩

/-- A failed attempt that is given up leaves the statuses and the graph as they are. -/
theorem runs_recover_error {result : StepResult} (hgraph : objects.planGraph.isSome)
    (herror : raised.error = .agentLoop message) (hfollows : Follows Step objects trace last)
    (hrun : Runs (recover config step result state) trace (.error raised)) :
    raised.state.stepStatus = state.stepStatus ∧ last.planGraph = objects.planGraph := by
  unfold recover at hrun
  split at hrun
  next => cases (runs_pure_iff.mp hrun).2
  next =>
    obtain ⟨spent, rest, rfl, hrest⟩ := runs_asking_iff.mp hrun
    obtain ⟨middle, hstep, htail⟩ := Follows.cons_iff.mp hfollows
    have hmiddle : middle.planGraph = objects.planGraph := planGraph_of_step rfl hstep
    split at hrest
    next =>
      obtain ⟨rfl, heq⟩ := runs_fail_iff.mp hrest
      cases heq
      cases Follows.nil_iff.mp htail
      exact ⟨rfl, hmiddle⟩
    next =>
      obtain ⟨_, replanning, rfl, hreplan⟩ := runs_asking_iff.mp hrest
      obtain ⟨counted, hcount, hlater⟩ := Follows.cons_iff.mp htail
      have hcounted : counted.planGraph = objects.planGraph :=
        (planGraph_of_step rfl hcount).trans hmiddle
      rcases runs_bind_iff.mp hreplan with ⟨_, _, _, -, hpure, -⟩ | ⟨_, hraise, heq⟩
      · cases (runs_pure_iff.mp hpure).2
      · cases heq
        obtain ⟨hstatus, hlast⟩ :=
          runs_handleReplan_error (hcounted ▸ hgraph) herror hlater hraise
        exact ⟨hstatus, hlast.trans hcounted⟩
  next =>
    obtain ⟨rfl, heq⟩ := runs_fail_iff.mp hrun
    cases heq
    cases Follows.nil_iff.mp hfollows
    exact ⟨rfl, rfl⟩

/-- An attempt sets the node of the step to running, and nothing changes the graph until its
result is known. -/
theorem runs_runningAttempt {remaining : Nat} {result : Except Raised PlanState}
    (hnode : HasNode objects step.id) (hfollows : Follows Step objects trace last)
    (hrun : Runs (runAttempts config (remaining + 1) step state) trace result) :
    ∃ rest executed middle, Attempted step (startAttempt step state) executed ∧
      Runs (afterAttempt config remaining executed) rest result ∧
      Follows Step middle rest last ∧ HasNode middle step.id ∧
      ∀ graph, middle.planGraph = some graph → graph.status.get? step.id = some .running := by
  obtain ⟨graph, steps, hgraph, hsteps, hmem⟩ := hnode
  have hlists : graph.steps.contains step.id = true := by
    rw [hsteps]
    exact PlanExecutionGraph.contains_stepsById.mpr hmem
  have hkeeping : Keeping [step.id] objects.replanAttempts objects := by
    refine ⟨⟨graph, hgraph, ?_⟩, rfl⟩
    intro stepId hstepId
    rw [List.mem_singleton.mp hstepId]
    exact hlists
  obtain ⟨called, rest, executed, -, rfl, hcalled, hattempted, hafter, -, -⟩ :=
    runs_attempt hkeeping List.mem_cons_self hfollows hrun
  obtain ⟨started, hstep, htail⟩ := Follows.cons_iff.mp hfollows
  obtain ⟨middle, htools, hrest⟩ := Follows.append_iff.mp htail
  obtain ⟨-, hstarted⟩ := updatePlanNode_of_step hgraph hlists hstep
  have hmiddle := (planGraph_of_follows
    (fun event hevent => changesPlanGraph_of_withinStep (hcalled event hevent)) htools).trans
      hstarted
  refine ⟨rest, executed, middle, hattempted, hafter, hrest, ⟨_, steps, hmiddle, hsteps, hmem⟩, ?_⟩
  intro own hown
  cases hmiddle.symm.trans hown
  exact Dict.get?_set_self _ _ _

/-- A node the graph has can be set, and stays. -/
theorem runs_updateNode {stepId : Int} {status : GraphNodeStatus} {result : Except Raised Unit}
    (hnode : HasNode objects stepId) (hfollows : Follows Step objects trace last)
    (hrun : Runs (updateGraphNode state stepId status) trace result) :
    result = .ok () ∧ HasNode last stepId := by
  obtain ⟨graph, steps, hgraph, hsteps, hmem⟩ := hnode
  obtain ⟨reply, rest, rfl, hrest⟩ := runs_asking_iff.mp hrun
  obtain ⟨middle, hstep, htail⟩ := Follows.cons_iff.mp hfollows
  have hlists : graph.steps.contains stepId = true := by
    rw [hsteps]
    exact PlanExecutionGraph.contains_stepsById.mpr hmem
  obtain ⟨rfl, hmiddle⟩ := updatePlanNode_of_step hgraph hlists hstep
  obtain ⟨rfl, rfl⟩ := runs_ofExcept_iff.mp hrest
  cases Follows.nil_iff.mp htail
  exact ⟨rfl, _, steps, hmiddle, hsteps, hmem⟩

/-- What the state holds of the step after an attempt, when no retry follows. -/
theorem stillRunning_of_status {executed : StepResult × PlanStep × PlanState}
    {middle : SharedObjects}
    (hattempted : Attempted step (startAttempt step state) executed)
    (hnode : HasNode middle step.id) (hrunning : ∀ graph, middle.planGraph = some graph →
      graph.status.get? step.id = some .running)
    (hstatus : raised.state.stepStatus =
      (recordAttempt executed.2.1 executed.1 executed.2.2).stepStatus)
    (hlast : last.planGraph = middle.planGraph) : StillRunning last step.id raised.state := by
  obtain ⟨hget, -, -⟩ :=
    get?_recordAttempt executed.2.1 hattempted.stepId hattempted.unmoved.unadvanced
  constructor
  · unfold HasNode
    rwa [hlast]
  · rwa [hlast]
  · refine ⟨executed.1.status, ?_, ?_⟩
    · rw [hstatus, hget, if_pos rfl]
    · intro heq
      rcases hattempted.status with hfailed | hfinished
      · cases hfailed.symm.trans heq
      · rw [heq] at hfinished
        cases hfinished

/-- While a step that is given up was being run, its node was last set to running. -/
theorem stillRunning_of_runs {remaining : Nat} (hnode : HasNode objects step.id)
    (herror : raised.error = .agentLoop message) (hfollows : Follows Step objects trace last)
    (hrun : Runs (runAttempts config (remaining + 1) step state) trace (.error raised)) :
    StillRunning last step.id raised.state := by
  -- induction on the attempts left: a retry sets the node back to pending, and then to running
  induction remaining using Nat.strong_induction_on generalizing step state trace objects with
  | _ remaining ih =>
    obtain ⟨rest, executed, middle, hattempted, hafter, hrest, hmiddle, hrunning⟩ :=
      runs_runningAttempt hnode hfollows hrun
    have hsome : middle.planGraph.isSome := by
      obtain ⟨graph, -, hgraph, -⟩ := hmiddle
      exact Option.isSome_iff_exists.mpr ⟨graph, hgraph⟩
    unfold afterAttempt at hafter
    dsimp only at hafter
    split at hafter
    next =>
      -- the summarizer raises once the result is recorded
      rcases runs_bind_iff.mp hafter with ⟨_, _, _, -, hpure, -⟩ | ⟨_, hraise, heq⟩
      · cases (runs_pure_iff.mp hpure).2
      · cases heq
        have hwithin := (within_maybeCompress _).asks_of_runs hraise
        apply stillRunning_of_status hattempted hmiddle hrunning
        · rw [runs_maybeCompress_error hraise]
          exact (unmoved_mergeObservation _ _ _).unadvanced.status
        · exact planGraph_of_follows
            (fun event hevent => changesPlanGraph_of_withinStep (hwithin event hevent)) hrest
    next =>
      split at hafter
      next hretry =>
        obtain ⟨fewer, rfl⟩ := Nat.exists_eq_succ_of_ne_zero hretry.2
        have hown : executed.2.1.id = step.id := hattempted.sameStep
        rw [hown] at hafter
        rcases runs_bind_iff.mp hafter with ⟨_, reset, again, hreset, hagain, rfl⟩ | ⟨_, hreset, -⟩
        · obtain ⟨next, hfirst, hsecond⟩ := Follows.append_iff.mp hrest
          obtain ⟨-, hnext⟩ := runs_updateNode hmiddle hfirst hreset
          have hlater := ih fewer (Nat.lt_succ_self fewer) (hown ▸ hnext) hsecond hagain
          rwa [hown] at hlater
        · cases (runs_updateNode hmiddle hrest hreset).1
      next =>
        obtain ⟨hstatus, hlast⟩ := runs_recover_error hsome herror hrest hafter
        exact stillRunning_of_status hattempted hmiddle hrunning hstatus hlast

/-! ## Runs -/

/-- The execution ends by returning or with the error of the agent loop. -/
def Ends (result : Except Raised PlanState) : Prop :=
  ∀ raised, result = .error raised → ∃ message, raised.error = .agentLoop message

/-- The state an execution leaves behind. -/
def finalState : Except Raised PlanState → PlanState
  | .ok ended => ended
  | .error raised => raised.state

variable (config) in
/-- The run ends while a step is being run: the last round raises from within the step it
runs. -/
def GivesUp (trace : List Event) (result : Except Raised PlanState) : Prop :=
  ∃ before state reply rest step raised,
    trace = before ++ (⟨.syncPlanGraph state, reply⟩ : Event) :: rest ∧ step ∈ state.plan.steps ∧
      Runs (runStepWithRecovery config step state) rest (.error raised) ∧ result = .error raised

theorem GivesUp.of_suffix {result : Except Raised PlanState} (first : List Event)
    (h : GivesUp config trace result) : GivesUp config (first ++ trace) result := by
  obtain ⟨before, state, reply, rest, step, raised, rfl, hstep, hrun, hresult⟩ := h
  exact ⟨first ++ before, state, reply, rest, step, raised, (List.append_assoc _ _ _).symm, hstep,
    hrun, hresult⟩

/-- What is raised early leaves the state, or the computation goes on. -/
theorem runs_orRaise_bind {α β : Type} {value : Except RaisedError α} {f : α → Execution β}
    (h : Runs (orRaise state value >>= f) trace (.error raised)) :
    (∃ own, value = .ok own ∧ Runs (f own) trace (.error raised)) ∨
      trace = [] ∧ raised.state = state := by
  rcases runs_bind_iff.mp h with ⟨own, first, rest, hfirst, hrest, rfl⟩ | ⟨_, hraise, heq⟩
  · obtain ⟨rfl, hvalue⟩ := runs_orRaise_iff.mp hfirst
    exact Or.inl ⟨own, hvalue, hrest⟩
  · cases heq
    obtain ⟨rfl, -, hstate⟩ := runs_orRaise_error hraise
    exact Or.inr ⟨rfl, hstate⟩

theorem mirrored_of_unchanged (h : Mirrored objects state)
    (hfollows : Follows Step objects trace last) (hearly : trace = [] ∧ raised.state = state) :
    Mirrored last raised.state := by
  obtain ⟨rfl, heq⟩ := hearly
  cases Follows.nil_iff.mp hfollows
  rwa [heq]

/-- A plan loop that starts with a graph that mirrors its state and raises leaves such a graph,
unless it raises from within a step. -/
theorem runs_executeLoop_raised {fuel : Nat} (reply : Except RaisedError Unit)
    (hmirrored : Mirrored objects state) (herror : raised.error = .agentLoop message)
    (hfollows : Follows Step objects trace last)
    (hrun : Runs (executeLoop config fuel state) trace (.error raised)) :
    Mirrored last raised.state ∨
      GivesUp config (⟨.syncPlanGraph state, reply⟩ :: trace) (.error raised) := by
  -- induction on the rounds: each one that does not raise ends with a refresh
  induction fuel generalizing state trace objects reply with
  | zero =>
      obtain ⟨rfl, heq⟩ := runs_fail_iff.mp hrun
      cases heq
      exact Or.inl (mirrored_of_unchanged hmirrored hfollows ⟨rfl, rfl⟩)
  | succ fuel ih =>
      rw [executeLoop] at hrun
      rcases runs_orRaise_bind hrun with ⟨finished, -, hround⟩ | hearly
      swap
      · exact Or.inl (mirrored_of_unchanged hmirrored hfollows hearly)
      split at hround
      · cases (runs_pure_iff.mp hround).2
      rcases runs_orRaise_bind hround with ⟨next, -, hnext⟩ | hearly
      swap
      · exact Or.inl (mirrored_of_unchanged hmirrored hfollows hearly)
      split at hnext
      next =>
        rcases runs_orRaise_bind hnext with ⟨unfinished, -, hdeadlock⟩ | hearly
        swap
        · exact Or.inl (mirrored_of_unchanged hmirrored hfollows hearly)
        split at hdeadlock
        · cases (runs_pure_iff.mp hdeadlock).2
        · obtain ⟨rfl, heq⟩ := runs_fail_iff.mp hdeadlock
          cases heq
          exact Or.inl (mirrored_of_unchanged hmirrored hfollows ⟨rfl, rfl⟩)
      next stepId =>
        rcases runs_orRaise_bind hnext with ⟨step, hstep, hround⟩ | hearly
        swap
        · exact Or.inl (mirrored_of_unchanged hmirrored hfollows hearly)
        have hmem := (PlanState.mem_of_findStep hstep).2
        have hsome : objects.planGraph.isSome := by
          obtain ⟨graph, hgraph, -⟩ := hmirrored
          exact Option.isSome_iff_exists.mpr ⟨graph, hgraph⟩
        rcases runs_bind_iff.mp hround with
          ⟨after, called, rest, hcalled, hafter, rfl⟩ | ⟨_, hraise, heq⟩
        · obtain ⟨middle, hfirst, hsecond⟩ := Follows.append_iff.mp hfollows
          have hmiddle := hasGraph_of_follows hfirst hsome
          rcases runs_bind_iff.mp hafter with ⟨_, sync, rest, hsync, hagain, rfl⟩ | ⟨_, hraise, heq⟩
          · obtain ⟨synced, hthird, hfourth⟩ := Follows.append_iff.mp hsecond
            obtain ⟨answer, tail, rfl, hanswer⟩ := runs_asking_iff.mp hsync
            obtain ⟨rfl, rfl⟩ := runs_orRaise_iff.mp hanswer
            obtain ⟨own, hown, htail⟩ := Follows.cons_iff.mp hthird
            cases Follows.nil_iff.mp htail
            have hsynced : Mirrored synced after := by
              rcases mirrored_of_sync hmiddle hown with ⟨-, hsynced⟩ | ⟨_, hkey⟩
              · exact hsynced
              · cases hkey
            apply (ih (.ok ()) hsynced hfourth hagain).imp_right
            intro hgivesUp
            exact (hgivesUp.of_suffix called).of_suffix [⟨.syncPlanGraph state, reply⟩]
          · cases heq
            exact absurd herror (runs_syncGraph_error hmiddle hsecond hraise)
        · cases heq
          exact Or.inr ⟨[], state, reply, trace, step, raised, rfl, hmem, hraise, rfl⟩

/-- A refresh that raises nothing leaves a graph that mirrors the state. -/
theorem runs_syncGraph_ok (hgraph : objects.planGraph.isSome)
    (hfollows : Follows Step objects trace last) (hrun : Runs (syncGraph state) trace (.ok ())) :
    (∃ reply, trace = [⟨.syncPlanGraph state, reply⟩]) ∧ Mirrored last state := by
  obtain ⟨reply, tail, rfl, hreply⟩ := runs_asking_iff.mp hrun
  obtain ⟨rfl, rfl⟩ := runs_orRaise_iff.mp hreply
  obtain ⟨synced, hstep, htail⟩ := Follows.cons_iff.mp hfollows
  cases Follows.nil_iff.mp htail
  rcases mirrored_of_sync hgraph hstep with ⟨-, hmirrored⟩ | ⟨_, hkey⟩
  · exact ⟨⟨_, rfl⟩, hmirrored⟩
  · cases hkey

/-- A step that is given up is still running in the graph. -/
theorem not_exposes_of_givesUp {result : Except Raised PlanState} (hends : Ends result)
    (hgraph : objects.planGraph.isSome) (hfollows : Follows Step objects trace last)
    (h : GivesUp config trace result) : ¬ Exposes last (finalState result) := by
  obtain ⟨before, state, reply, rest, step, raised, rfl, hmem, hraise, rfl⟩ := h
  obtain ⟨message, herror⟩ := hends raised rfl
  obtain ⟨middle, hbefore, hafter⟩ := Follows.append_iff.mp hfollows
  obtain ⟨graph, hmiddle⟩ := Option.isSome_iff_exists.mp (hasGraph_of_follows hbefore hgraph)
  obtain ⟨synced, hsync, hrest⟩ := Follows.cons_iff.mp hafter
  obtain ⟨-, hsynced⟩ := syncPlanGraph_of_step hmiddle hsync
  obtain ⟨remaining, hmax⟩ := exists_maxAttempts config
  rw [runStepWithRecovery, hmax] at hraise
  have hnode : HasNode synced step.id :=
    ⟨_, state.plan.steps, hsynced, PlanExecutionGraph.syncFromState_steps graph state,
      List.mem_map_of_mem hmem⟩
  exact (stillRunning_of_runs hnode herror hrest hraise).not_exposes

/-- An execution with a new graph that is refreshed once leaves a graph that mirrors its last
state, unless it gives up a step. -/
theorem mirrored_of_not_givesUp {fuel : Nat} {result : Except Raised PlanState}
    (hends : Ends result) (hgraph : objects.planGraph.isSome)
    (hfollows : Follows Step objects trace last)
    (hrun : Runs (do
      syncGraph state
      let ended ← executeLoop config fuel state
      let cleared := { ended with currentStep := none }
      syncGraph cleared
      pure cleared : Execution PlanState) trace result)
    (h : ¬ GivesUp config trace result) : Mirrored last (finalState result) := by
  rcases runs_bind_iff.mp hrun with ⟨_, sync, rest, hsync, hloop, rfl⟩ | ⟨raised, hraise, rfl⟩
  swap
  · obtain ⟨message, herror⟩ := hends raised rfl
    exact absurd herror (runs_syncGraph_error hgraph hfollows hraise)
  obtain ⟨synced, hfirst, hrest⟩ := Follows.append_iff.mp hfollows
  obtain ⟨⟨reply, rfl⟩, hsynced⟩ := runs_syncGraph_ok hgraph hfirst hsync
  have hsome := hasGraph_of_follows hfirst hgraph
  rcases runs_bind_iff.mp hloop with
    ⟨ended, rounds, final, hrounds, hfinal, rfl⟩ | ⟨raised, hraise, rfl⟩
  · obtain ⟨middle, hbefore, hafter⟩ := Follows.append_iff.mp hrest
    have hmiddle := hasGraph_of_follows hbefore hsome
    rcases runs_bind_iff.mp hfinal with ⟨_, sync, none, hsync, hpure, rfl⟩ | ⟨raised, hraise, rfl⟩
    · obtain ⟨rfl, rfl⟩ := runs_pure_iff.mp hpure
      rw [List.append_nil] at hafter
      exact (runs_syncGraph_ok hmiddle hafter hsync).2
    · obtain ⟨message, herror⟩ := hends raised rfl
      exact absurd herror (runs_syncGraph_error hmiddle hafter hraise)
  · obtain ⟨message, herror⟩ := hends raised rfl
    exact (runs_executeLoop_raised reply hsynced herror hrest hraise).resolve_right h

/-- In every run that ends by returning or with the error of the agent loop, the snapshot of
the graph shows the state that is left if and only if the run does not give up a step. -/
theorem execute_exposes_iff {config : ExecutorConfig} {fuel : Nat} {plan : Plan}
    {state : PlanState} {objects last : SharedObjects} {trace : List Event}
    {result : Except Raised PlanState} (hfollows : Follows Step objects trace last)
    (hrun : Runs (execute config fuel plan state) trace result) (hends : Ends result) :
    Exposes last (finalState result) ↔ ¬ GivesUp config trace result := by
  obtain ⟨reply, rest, rfl, hrest⟩ := runs_asking_iff.mp hrun
  obtain ⟨started, hstart, htail⟩ := Follows.cons_iff.mp hfollows
  have hgraph : started.planGraph.isSome := hstart.2 ▸ rfl
  constructor
  · rintro hexposes ⟨before, own, answer, later, step, raised, heq, hlater⟩
    cases before with
    | nil => cases (List.cons.inj heq).1
    | cons event before =>
        have hgivesUp : GivesUp config rest result :=
          ⟨before, own, answer, later, step, raised, (List.cons.inj heq).2, hlater⟩
        exact not_exposes_of_givesUp hends hgraph htail hgivesUp hexposes
  · intro h
    apply Mirrored.exposes
    apply mirrored_of_not_givesUp hends hgraph htail hrest
    intro hgivesUp
    exact h (hgivesUp.of_suffix [⟨.newPlanGraph plan state.sessionId, reply⟩])

theorem execute_exposes_indoorTrip :
    ∃ trace ended last, Runs (execute (plainExecutor .replan ["weather"]) 4 indoorTrip
      (begun indoorTrip "default" {})) trace (.ok ended) ∧ Exposes last ended := by
  obtain ⟨ended, hrun, hfollows⟩ := Components.exists_runs_exec
    (show replannedTrip.result.isOk = true by decide +kernel)
  refine ⟨_, ended, _, hrun, (execute_exposes_iff hfollows hrun ?_).mpr ?_⟩
  · intro raised heq
    cases heq
  · rintro ⟨_, _, _, _, _, _, -, -, -, heq⟩
    cases heq

/-- A run in which the only call fails, and is not to be tried again. -/
def failedWeather : Outcome runtimeSig Raised PlanState (SharedObjects × Unit) :=
  Components.exec
    { executeLlmCall := fun tool args _ => { success := false, tool := tool, args := args } }
    {} (execute (plainExecutor .retry ["weather"]) 2 weatherPlan (begun weatherPlan "default" {}))

/-- The step has failed, and runs in the graph. -/
theorem not_exposes_failedWeather :
    (validate ["weather"] weatherPlan).success = true ∧
      ∃ trace raised last, Runs (execute (plainExecutor .retry ["weather"]) 2 weatherPlan
          (begun weatherPlan "default" {})) trace (.error raised) ∧
        Follows Step {} trace last ∧ Ends (.error raised) ∧ ¬ Exposes last raised.state := by
  obtain ⟨hrun, hfollows⟩ : Runs _ failedWeather.trace failedWeather.result ∧
      Follows Step {} failedWeather.trace failedWeather.state.1 := Components.runs_exec _ _ _
  have hgraph : (failedWeather.state.1.planGraph.map fun graph =>
      (graph.steps, graph.status.get? 1)) =
        some (PlanExecutionGraph.stepsById weatherPlan.steps, some .running) := by
    decide +kernel
  have hresult : (match failedWeather.result with
      | .ok _ => none
      | .error raised => some (raised.error, raised.state.stepStatus.get? 1)) =
        some (.agentLoop "Step 1 failed", some .failed) := by
    decide +kernel
  obtain ⟨graph, hown, heq⟩ := Option.map_eq_some_iff.mp hgraph
  obtain ⟨hsteps, hstatus⟩ := Prod.mk.inj heq
  cases hraised : failedWeather.result with
  | ok ended =>
      rw [hraised] at hresult
      cases hresult
  | error raised =>
      rw [hraised] at hrun hresult
      obtain ⟨herror, hfailed⟩ := Prod.mk.inj (Option.some.inj hresult)
      refine ⟨by decide +kernel, _, raised, _, hrun, hfollows, ?_, ?_⟩
      · intro own heq
        cases heq
        exact ⟨_, herror⟩
      · have hrunning : StillRunning failedWeather.state.1 1 raised.state := by
          refine ⟨⟨graph, _, hown, hsteps, List.mem_cons_self⟩, ?_, .failed, hfailed, by decide⟩
          intro other hother
          cases hown.symm.trans hother
          exact hstatus
        exact hrunning.not_exposes

end PlanExecutor

end TripGraph
