import TripGraph.Compiler.Coverage
import TripGraph.Plan.Lockstep
import TripGraph.Runtime.Rounds

/-! # Compiled chains

On a chain the compiled graph walks through the steps one after the other, as the plan loop
does. Between two steps both hold the same plan state, but for the policy decisions that
the router writes into the context of the graph's.
-/

namespace TripGraph

open Interaction PlanExecutor PlanValidator

namespace PlanGraphCompiler

open TripGraph.Graph PlanState

/-! ## The levels of a chain -/

/-- Every level of the plan is a single step. -/
def Chain (plan : Plan) : Prop := ∀ level ∈ topologicalLevels plan, level.length = 1

instance (plan : Plan) : Decidable (Chain plan) :=
  inferInstanceAs (Decidable (∀ level ∈ topologicalLevels plan, _))

/-- Single steps, as levels. -/
def singles (steps : List PlanStep) : List (List PlanStep) := steps.map fun step => [step]

theorem eq_singles {levels : List (List PlanStep)} (h : ∀ level ∈ levels, level.length = 1) :
    levels = singles levels.flatten := by
  induction levels with
  | nil => rfl
  | cons level rest ih =>
      obtain ⟨hlevel, hrest⟩ := List.forall_mem_cons.mp h
      obtain ⟨step, rfl⟩ := List.length_eq_one_iff.mp hlevel
      exact congrArg ([step] :: ·) (ih hrest)

/-- When each round places a single step, it places the smallest one that remains. -/
theorem sorted_levelsFrom {rounds : Nat} {remaining : List PlanStep} {finished : List Int}
    (h : Placeable remaining finished) (hrounds : remaining.length ≤ rounds)
    (hsingle : ∀ level ∈ levelsFrom rounds remaining finished, level.length = 1) :
    (levelsFrom rounds remaining finished).flatten.Pairwise fun a b => a.id < b.id := by
  induction rounds generalizing remaining finished with
  | zero => exact .nil
  | succ rounds ih =>
      have hspec := h.next
      rw [levelsFrom] at hsingle ⊢
      split at hsingle
      next hnil => simp [hnil]
      next hne =>
        have hshorter := length_filter_not_lt hne
        rw [if_neg hne, List.flatten_cons]
        obtain ⟨hlevel, hrest⟩ := List.forall_mem_cons.mp hsingle
        obtain ⟨step, hstep⟩ := List.length_eq_one_iff.mp hlevel
        have hready : remaining.filter (ready finished) = [step] :=
          List.perm_singleton.mp ((perm_sortById _).symm.trans (.of_eq hstep))
        rw [hready] at hspec hrest ⊢
        rw [show sortById [step] = [step] from rfl]
        have hmem : step ∈ remaining.filter (ready finished) := hready ▸ List.mem_singleton_self _
        obtain ⟨first, hfirst, hsmallest⟩ :=
          Placeable.exists_smallest (List.ne_nil_of_mem (List.mem_filter.mp hmem).1)
        obtain rfl : first = step := List.mem_singleton.mp (hready ▸
          List.mem_filter.mpr ⟨hfirst, h.ready_of_smallest hfirst hsmallest⟩)
        refine List.pairwise_cons.mpr ⟨fun other hother => ?_, ih hspec (by omega) hrest⟩
        have hremaining := (levelsFrom_spec hspec (by omega)).1.mem_iff.mp hother
        obtain ⟨hother, hlate⟩ := List.mem_filter.mp hremaining
        refine lt_of_le_of_ne (hsmallest other hother) fun hid => ?_
        have hsame := List.inj_on_of_nodup_map h.nodup hfirst hother hid
        rw [← hsame, (List.mem_filter.mp hmem).2] at hlate
        cases hlate

/-- The steps are numbered on from `finished`. -/
def NumberedFrom : Nat → List PlanStep → Prop
  | _, [] => True
  | finished, step :: rest => step.id = finished + 1 ∧ NumberedFrom (finished + 1) rest

theorem numberedFrom_of_ids {finished : Nat} {steps : List PlanStep}
    (h : steps.map PlanStep.id =
      (List.range' finished steps.length).map fun index : Nat => (index : Int) + 1) :
    NumberedFrom finished steps := by
  induction steps generalizing finished with
  | nil => trivial
  | cons step rest ih =>
      rw [List.length_cons, List.range'_succ, List.map_cons, List.map_cons, List.cons.injEq] at h
      exact ⟨h.1, ih h.2⟩

/-- A chain is laid out in the order of its ids. -/
theorem levels_of_chain {registry : List String} {plan : Plan} (hplan : plan.WellFormed registry)
    (hchain : Chain plan) : topologicalLevels plan = singles (topologicalLevels plan).flatten ∧
      NumberedFrom 0 (topologicalLevels plan).flatten := by
  refine ⟨eq_singles hchain, numberedFrom_of_ids ?_⟩
  have hsorted : (topologicalLevels plan).flatten.Pairwise fun a b => a.id < b.id := by
    unfold Chain at hchain
    simp only [topologicalLevels] at hchain ⊢
    rw [values_stepDict hplan.ids_nodup] at hchain ⊢
    exact sorted_levelsFrom (placeable_of_wellFormed hplan) le_rfl hchain
  have hperm := flatten_topologicalLevels_perm hplan
  have hids := (hperm.map PlanStep.id).trans hplan.ids
  rw [← List.range_eq_range', hperm.length_eq]
  exact hids.eq_of_sortedLE (List.pairwise_map.mpr (hsorted.imp le_of_lt)).sortedLE
    (pairwise_expectedIds _).sortedLE

/-! ## What the graph holds between two steps -/

/-- The state of the graph goes along with the plan state of the loop. -/
structure Along (planState : PlanState) (state : AgentState) : Prop where
  plan : ∃ decisions, state.planState = some (planState.withDecisions decisions)
  live : state.shouldStop = false
  untraced : state.observations.get? "tool_policy_trace" = none
  outputs : ∀ value, state.observations.get? "step_outputs" = some value →
    ∃ items, value = .dict items

theorem Along.congr {planState : PlanState} {state state' : AgentState} (h : Along planState state)
    (hplan : state'.planState = state.planState) (hlive : state'.shouldStop = state.shouldStop)
    (hobservations : ∀ key, key = "tool_policy_trace" ∨ key = "step_outputs" →
      state'.observations.get? key = state.observations.get? key) : Along planState state' where
  plan := hplan ▸ h.plan
  live := hlive ▸ h.live
  untraced := (hobservations _ (Or.inl rfl)).trans h.untraced
  outputs value hvalue := h.outputs value ((hobservations _ (Or.inr rfl)).symm.trans hvalue)

/-- A node that passes the plan on. -/
def PassesOn (fn : NodeFn) : Prop :=
  ∀ state, ∃ after, fn state = pure after ∧ ∀ planState, Along planState state →
    Along planState after

theorem passesOn_entryNode : PassesOn entryNode := by
  refine fun state => ⟨_, rfl, fun planState h => h.congr rfl rfl fun key hkey => ?_⟩
  refine Dict.get?_set_ne _ ?_ _
  rcases hkey with rfl | rfl <;> decide

theorem passesOn_joinPass (joinId : String) (waitFor : List String) :
    PassesOn (joinPass joinId waitFor) :=
  fun _ => ⟨_, rfl, fun _ h => h.congr rfl rfl fun _ _ => rfl⟩

/-! ## A step node -/

section StepNode

variable {deps : RuntimeDependencies}

/-- With a tool for every step and no engine, the router passes the steps on. -/
theorem routeSteps_of_hints (hengine : deps.hasPolicyEngine = false) (state : AgentState)
    (planState : PlanState) {steps : List PlanStep}
    (hhints : ∀ step ∈ steps, truthy step.toolHint = true)
    (hstatus : ∀ step ∈ steps, (planState.stepStatus.get? step.id).isSome) (acc : RoutingState) :
    ∃ routing, routeSteps deps state planState steps acc =
      pure { acc with steps := acc.steps ++ steps, routing := routing } := by
  induction steps generalizing acc with
  | nil => exact ⟨acc.routing, by simp [routeSteps]⟩
  | cons step rest ih =>
      obtain ⟨hhint, hhintsRest⟩ := List.forall_mem_cons.mp hhints
      obtain ⟨hown, hstatusRest⟩ := List.forall_mem_cons.mp hstatus
      obtain ⟨status, hget⟩ := Option.isSome_iff_exists.mp hown
      rw [routeSteps, getStepStatus_of_get? hget]
      simp only [Program.ofExcept_ok, Program.done_bind]
      split
      · obtain ⟨routing, hrest⟩ :=
        ih hhintsRest hstatusRest { acc with steps := acc.steps ++ [step] }
        exact ⟨routing, by simpa using hrest⟩
      · simp only [routeHint, hhint, if_true, routePolicy, hengine, Bool.false_eq_true, if_false,
          pure_bind]
        have hall := fun own : Dict String Value => ih hhintsRest hstatusRest
          { acc with steps := acc.steps ++ [step], routing := own }
        simpa only [List.append_assoc, List.singleton_append] using hall _

/-- The router writes policy decisions into the context, and nothing that matters here. -/
theorem routerNode_of_along (hengine : deps.hasPolicyEngine = false) {planState : PlanState}
    {state : AgentState} (h : Along planState state)
    (hhints : ∀ step ∈ planState.plan.steps, truthy step.toolHint = true)
    (hstatus : ∀ step ∈ planState.plan.steps, (planState.stepStatus.get? step.id).isSome) :
    ∃ routed, routerNode deps state = pure routed ∧ Along planState routed := by
  obtain ⟨decisions, hplan⟩ := h.plan
  obtain ⟨routing, hroute⟩ := routeSteps_of_hints hengine state
    (planState.withDecisions decisions) hhints hstatus
    { steps := [], routing := .empty, policyTrace := []
      policyDecisions := (planState.withDecisions decisions).globalContext.policyDecisions }
  have hrouter : routerNode deps state = pure (routedState state (planState.withDecisions decisions)
      ⟨planState.plan.steps, routing, [],
        (planState.withDecisions decisions).globalContext.policyDecisions⟩) := by
    simp only [routerNode, hplan, h.untraced, Option.elim_none, Program.ofExcept_ok,
      Program.done_bind]
    exact congrArg (· >>= _) hroute
  refine ⟨_, hrouter, ⟨_, rfl⟩, h.live, ?_, ?_⟩
  · exact (Dict.get?_set_ne _ (by decide) _).trans h.untraced
  · intro value hvalue
    exact h.outputs value ((Dict.get?_set_ne _ (by decide) _).symm.trans hvalue)

/-- The output of a step can be recorded, and the state takes over the plan state. -/
theorem along_recordOutput {planState : PlanState} {state : AgentState} (h : Along planState state)
    (after : PlanState) (stepId : Int) (output : Value) :
    ∃ final, recordOutput (adoptPlanState { state with currentStep := some stepId } after) stepId
        output = .ok final ∧
      ∀ (next : PlanState) decisions, after = next.withDecisions decisions → Along next final := by
  have hdict : ∃ items, (state.observations.get? "step_outputs").getD (.dict []) = .dict items := by
    cases hvalue : state.observations.get? "step_outputs" with
    | none => exact ⟨[], rfl⟩
    | some value => exact h.outputs value hvalue
  obtain ⟨items, hitems⟩ := hdict
  unfold recordOutput
  dsimp only [adoptPlanState]
  rw [hitems]
  refine ⟨_, rfl, fun next decisions hafter => ⟨⟨decisions, congrArg some hafter⟩, h.live, ?_,
    fun value hvalue => ?_⟩⟩
  · exact (Dict.get?_set_ne _ (by decide) _).trans h.untraced
  · rw [Dict.get?_set_self] at hvalue
    exact ⟨_, (Option.some.inj hvalue).symm⟩

/-- The node of the next step runs this step. -/
theorem runs_stepNode_along (hengine : deps.hasPolicyEngine = false) {finished : Nat}
    {planState : PlanState} {state : AgentState} {step : PlanStep} (h : Along planState state)
    (hfront : Front finished planState)
    (hhints : ∀ step ∈ planState.plan.steps, truthy step.toolHint = true)
    (hstep : step ∈ planState.plan.steps) (hid : step.id = finished + 1) {trace : List Event}
    {result : Except RaisedError AgentState}
    (hrun : Runs (stepNode deps step.id state) trace result) :
    ∃ decisions own,
      Runs (runStepWithRecovery deps.executor step (planState.withDecisions decisions)) trace own ∧
      ((∃ raised, own = .error raised ∧ result = .error raised.error) ∨
        ∃ after final, own = .ok after ∧ result = .ok final ∧
          ∀ next : PlanState, after = next.withDecisions decisions → Along next final) := by
  obtain ⟨before, hplan⟩ := h.plan
  have hpending := hfront.status hstep
  rw [if_neg (by omega)] at hpending
  have hmet : planState.dependenciesMet step.id = .ok true := by
    rw [dependenciesMet, hfront.findStep hstep]
    exact congrArg Except.ok (List.all_eq_true.mpr fun dep hdep =>
      decide_eq_true (hfront.deps_finished hstep hid dep hdep))
  obtain ⟨routed, hrouter, hrouted⟩ := routerNode_of_along hengine h hhints
    fun own hown => hfront.isSome_status hown
  obtain ⟨decisions, hroutedPlan⟩ := hrouted.plan
  have hnode : stepNode deps step.id state = runStep deps step.id state := by
    have hstatus : (planState.withDecisions before).getStepStatus step.id = .ok .pending :=
      getStepStatus_of_get? hpending
    have hown : (planState.withDecisions before).dependenciesMet step.id = .ok true := hmet
    simp only [stepNode, hplan, hstatus, hown]
    rfl
  have hfind : (planState.withDecisions decisions).findStep step.id = .ok step :=
    hfront.findStep hstep
  rw [hnode, runStep, hrouter, pure_bind] at hrun
  simp only [hroutedPlan, hfind, Program.ofExcept_ok, Program.done_bind] at hrun
  refine ⟨decisions, ?_⟩
  rcases runs_bind_iff.mp hrun with ⟨after, own, rest, hown, hrest, rfl⟩ | ⟨error, herror, rfl⟩
  · obtain ⟨ended, hended, hsame⟩ := runs_mapError_iff.mp hown
    cases ended with
    | error raised => cases hsame
    | ok ended =>
        cases hsame
        obtain ⟨rfl, hresult⟩ := runs_ofExcept_iff.mp hrest
        rw [List.append_nil]
        obtain ⟨final, hfinal, halong⟩ := along_recordOutput hrouted after step.id
          (((after.stepResults.get? step.id).map StepResult.observation).getD .null)
        exact ⟨_, hended, Or.inr ⟨after, final, rfl, hresult.trans hfinal,
          fun next hnext => halong next decisions hnext⟩⟩
  · obtain ⟨ended, hended, hsame⟩ := runs_mapError_iff.mp herror
    cases ended with
    | ok ended => cases hsame
    | error raised =>
        cases hsame
        exact ⟨_, hended, Or.inl ⟨raised, rfl, rfl⟩⟩

end StepNode

/-! ## Rounds -/

theorem attempts_of_bookkept {trace : List Event} (h : Bookkept trace) : attempts trace = [] := by
  refine List.filterMap_eq_nil_iff.mpr fun event hevent => ?_
  have hkept := h event hevent
  obtain ⟨op, reply⟩ := event
  cases op <;> first | rfl | cases hkept

section Rounds

variable {deps : RuntimeDependencies} {graph : Graph} {digest : Snapshot → String} {streamed : Bool}
  {policy : ExecutionPolicy} {executionGraph : Ref} {planState : PlanState} {cursor : Cursor}
  {trace : List Event} {result : Except RaisedError Cursor}

/-- What the engine writes does not matter. -/
theorem Along.started {state : AgentState} (h : Along planState state) (nodeId : String) :
    Along planState (startNode digest nodeId state) := h.congr rfl rfl fun _ _ => rfl

theorem Along.finished {state : AgentState} (h : Along planState state)
    (record : NodeExecutionRecord) (nodeId versionId : String) :
    Along planState (finishNode record (state.commitVersion digest nodeId versionId)) :=
  h.congr rfl rfl fun _ _ => rfl

/-- A round at a node that passes the plan on leads to the next node. -/
theorem runs_round_passesOn (hmode : policy.mode ≠ .replay) {fn : NodeFn} {target : String}
    (hfanOut : graph.fanOutFor cursor.current = none) (hfn : graph.nodes cursor.current = some fn)
    (hpass : PassesOn fn) (htarget : graph.Resolves cursor.current target)
    (h : Along planState cursor.state)
    (hrun : Runs (round digest graph streamed policy executionGraph cursor) trace result) :
    ∃ next, result = .ok next ∧ next.current = target ∧ Along planState next.state ∧
      Bookkept trace := by
  obtain ⟨passed, hpassed, halong⟩ := hpass (startNode digest cursor.current cursor.state)
  cases result with
  | error error =>
      obtain ⟨own, first, hown, -, -⟩ := runs_round_error hmode hfanOut hfn hrun
      rw [hpassed] at hown
      cases (runs_pure_iff.mp hown).2
  | ok next =>
      obtain ⟨after, record, versionId, own, first, last, hown, hstate, hcurrent, hfirst,
        hlast, rfl⟩ :=
        runs_round_live hmode hfanOut hfn hrun
      rw [hpassed] at hown
      obtain ⟨rfl, hafter⟩ := runs_pure_iff.mp hown
      cases hafter
      refine ⟨next, rfl, hcurrent.trans (htarget.resolveNext_eq _), ?_, ?_⟩
      · rw [hstate]
        exact (halong planState (h.started _)).finished record _ versionId
      · exact bookkept_append.mpr ⟨hfirst, bookkept_append.mpr ⟨bookkept_nil, hlast⟩⟩

/-- A round at the node of the next step runs this step. -/
theorem runs_round_step (hengine : deps.hasPolicyEngine = false) (hmode : policy.mode ≠ .replay)
    {finished : Nat} {step : PlanStep} {target : String}
    (hfanOut : graph.fanOutFor cursor.current = none)
    (hfn : graph.nodes cursor.current = some (stepNode deps step.id))
    (htarget : graph.Resolves cursor.current target) (h : Along planState cursor.state)
    (hfront : Front finished planState)
    (hhints : ∀ step ∈ planState.plan.steps, truthy step.toolHint = true)
    (hstep : step ∈ planState.plan.steps) (hid : step.id = finished + 1)
    (hrun : Runs (round digest graph streamed policy executionGraph cursor) trace result) :
    ∃ decisions own ended first last,
      Runs (runStepWithRecovery deps.executor step (planState.withDecisions decisions)) own ended ∧
      Bookkept first ∧ Bookkept last ∧ trace = first ++ (own ++ last) ∧
      ((∃ raised, ended = .error raised ∧ result = .error raised.error) ∨
        ∃ after next, ended = .ok after ∧ result = .ok next ∧ next.current = target ∧
          ∀ state : PlanState, after = state.withDecisions decisions → Along state next.state) := by
  have hstarted : Along planState (startNode digest cursor.current cursor.state) := h.started _
  cases result with
  | error error =>
      obtain ⟨own, first, hown, hfirst, rfl⟩ := runs_round_error hmode hfanOut hfn hrun
      obtain ⟨decisions, ended, hruns, ⟨raised, rfl, hresult⟩ | ⟨_, _, -, hresult, -⟩⟩ :=
        runs_stepNode_along hengine hstarted hfront hhints hstep hid hown
      · cases hresult
        exact ⟨decisions, own, _, first, [], hruns, hfirst, bookkept_nil, by rw [List.append_nil],
          Or.inl ⟨raised, rfl, rfl⟩⟩
      · cases hresult
  | ok next =>
      obtain ⟨after, record, versionId, own, first, last, hown, hstate, hcurrent, hfirst,
        hlast, rfl⟩ :=
        runs_round_live hmode hfanOut hfn hrun
      obtain ⟨decisions, ended, hruns, ⟨_, -, hresult⟩ | ⟨ran, final, rfl, hresult, halong⟩⟩ :=
        runs_stepNode_along hengine hstarted hfront hhints hstep hid hown
      · cases hresult
      · cases hresult
        refine ⟨decisions, own, _, first, last, hruns, hfirst, hlast, rfl,
          Or.inr ⟨ran, next, rfl, rfl,
          hcurrent.trans (htarget.resolveNext_eq _), fun state hsame => ?_⟩⟩
        rw [hstate]
        exact (halong state hsame).finished record _ versionId

end Rounds

/-! ## Both drivers -/

section Simulation

variable {deps : RuntimeDependencies} {plan : Plan} {graph : Graph} {digest : Snapshot → String}
  {streamed : Bool} {policy : ExecutionPolicy} {executionGraph : Ref} {planState : PlanState}
  {oracle : String → Args → String → ToolObservation}

/-- The termination check of the graph is the one of the loop. -/
theorem stops_of_along (hcompiled : Compiled deps plan graph) {finished : Nat}
    {state : AgentState} (h : Along planState state) (hfront : Front finished planState) :
    graph.stops state = .ok (decide (finished = planState.plan.steps.length)) := by
  obtain ⟨decisions, hplan⟩ := h.plan
  rw [Graph.stops, h.live, if_neg Bool.false_ne_true, hcompiled.termination, termination, hplan]
  exact (allSettled_withDecisions decisions planState _).trans hfront.allStepsFinished

/-- Where steps are left the graph makes another round. -/
theorem runs_loop_unfinished (hcompiled : Compiled deps plan graph) {finished budget : Nat}
    {cursor : Cursor} (halong : Along planState cursor.state) (hfront : Front finished planState)
    (hlt : finished < planState.plan.steps.length) (hend : cursor.current ≠ endNode)
    {trace : List Event} {result : Except RaisedError Cursor}
    (hrun : Runs (loop digest graph streamed policy executionGraph (budget + 1) cursor) trace
      result) :
    Runs (round digest graph streamed policy executionGraph cursor >>=
      loop digest graph streamed policy executionGraph budget) trace result := by
  have hstops := stops_of_along hcompiled halong hfront
  rw [decide_eq_false (Nat.ne_of_lt hlt)] at hstops
  rcases runs_loop_succ hend hrun with ⟨error, hstop, -, -⟩ | ⟨hstop, -, -⟩ | ⟨-, hround⟩
  · rw [hstops] at hstop
    cases hstop
  · rw [hstops] at hstop
    cases hstop
  · exact hround

/-- The node before a level passes the plan on. -/
def Passable (graph : Graph) (nodeId : String) : Prop :=
  ∃ fn, graph.nodes nodeId = some fn ∧ PassesOn fn

/-- From the node before a step, the graph runs this step and comes to the node behind it,
or it ends with the error of the step. -/
theorem runs_loop_chained (hcompiled : Compiled deps plan graph)
    (hengine : deps.hasPolicyEngine = false) (hmode : policy.mode ≠ .replay)
    (hhints : ∀ step ∈ planState.plan.steps, truthy step.toolHint = true) {finished budget : Nat}
    {step : PlanStep} {target : String} {cursor : Cursor} {trace : List Event}
    {result : Except RaisedError Cursor}
    (hlinked : Linked graph (nodeBefore finished) finished [step] target)
    (hpassable : Passable graph (nodeBefore finished)) (hmem : step ∈ plan.steps)
    (hstep : step ∈ planState.plan.steps) (hid : step.id = finished + 1)
    (hfront : Front finished planState) (halong : Along planState cursor.state)
    (hcurrent : cursor.current = nodeBefore finished)
    (hrun : Runs (loop digest graph streamed policy executionGraph (budget + 2) cursor) trace
      result) :
    ∃ decisions own ended first last tail,
      Runs (runStepWithRecovery deps.executor step (planState.withDecisions decisions)) own ended ∧
      Bookkept first ∧ Bookkept last ∧ trace = first ++ (own ++ (last ++ tail)) ∧
      ((∃ raised, ended = .error raised ∧ result = .error raised.error ∧ tail = []) ∨
        ∃ after next, ended = .ok after ∧ next.current = nodeBefore (finished + 1) ∧
          (∀ state : PlanState, after = state.withDecisions decisions → Along state next.state) ∧
          Runs (loop digest graph streamed policy executionGraph budget next) tail result) := by
  have hlt : finished < planState.plan.steps.length := by
    have := (hfront.sequential.mem_ids_iff.mp (List.mem_map_of_mem hstep)).2
    omega
  -- the node before the step
  obtain ⟨hbeforeFanOut, hbeforeEdge⟩ := hlinked.single step rfl
  obtain ⟨fn, hfn, hpass⟩ := hpassable
  rw [← hcurrent] at hbeforeFanOut hbeforeEdge hfn
  have hfirst := runs_loop_unfinished hcompiled halong hfront hlt
    (hcurrent ▸ nodeBefore_ne_endNode _) hrun
  rcases runs_bind_iff.mp hfirst with
    ⟨next, passing, later, hpassing, hlater, rfl⟩ | ⟨error, hpassing, -⟩
  swap
  · obtain ⟨_, hsame, -⟩ :=
      runs_round_passesOn hmode hbeforeFanOut hfn hpass hbeforeEdge halong hpassing
    cases hsame
  obtain ⟨_, hsame, hnext, hnextAlong, hpassed⟩ :=
    runs_round_passesOn hmode hbeforeFanOut hfn hpass hbeforeEdge halong hpassing
  cases hsame
  -- its own node
  obtain ⟨hstepFanOut, hstepEdge⟩ := hlinked.steps (stepNodeId step.id) List.mem_cons_self
  have hstepFn := hcompiled.stepNode step hmem
  rw [← hnext] at hstepFanOut hstepEdge hstepFn
  have hsecond := runs_loop_unfinished hcompiled hnextAlong hfront hlt
    (hnext ▸ stepNodeId_ne_endNode _) hlater
  rcases runs_bind_iff.mp hsecond with
    ⟨after, running, tail, hrunning, htail, rfl⟩ | ⟨error, hrunning, rfl⟩
  · obtain ⟨decisions, own, ended, first, last, hown, hbefore, hbehind, rfl,
      ⟨_, -, hsame⟩ | ⟨ran, _, hended, hsame, htarget, hafter⟩⟩ :=
      runs_round_step hengine hmode hstepFanOut hstepFn hstepEdge hnextAlong hfront hhints hstep
        hid hrunning
    · cases hsame
    cases hsame
    exact ⟨decisions, own, ended, passing ++ first, last, tail, hown,
      bookkept_append.mpr ⟨hpassed, hbefore⟩, hbehind, by simp only [List.append_assoc],
      Or.inr ⟨ran, after, hended, htarget, hafter, htail⟩⟩
  · obtain ⟨decisions, own, ended, first, last, hown, hbefore, hbehind, rfl,
      ⟨raised, hended, hsame⟩ | ⟨_, _, -, hsame, -⟩⟩ :=
      runs_round_step hengine hmode hstepFanOut hstepFn hstepEdge hnextAlong hfront hhints hstep
        hid hrunning
    · cases hsame
      exact ⟨decisions, own, ended, passing ++ first, last, [], hown,
        bookkept_append.mpr ⟨hpassed, hbefore⟩, hbehind,
        by simp only [List.append_assoc, List.append_nil],
        Or.inl ⟨raised, hended, rfl, rfl⟩⟩
    · cases hsame

/-- When the plan is done, the graph ends as it is. -/
theorem runs_loop_finished (hcompiled : Compiled deps plan graph) {budget finished : Nat}
    {cursor : Cursor} {trace : List Event} {result : Except RaisedError Cursor}
    (halong : Along planState cursor.state) (hfront : Front finished planState)
    (hdone : finished = planState.plan.steps.length) (hend : cursor.current ≠ endNode)
    (hrun : Runs (loop digest graph streamed policy executionGraph budget cursor) trace result) :
    attempts trace = [] ∧ ∃ final, result = .ok final ∧ Along planState final.state := by
  cases budget with
  | zero =>
      obtain ⟨rfl, rfl⟩ := runs_pure_iff.mp hrun
      exact ⟨rfl, cursor, rfl, halong⟩
  | succ budget =>
      have hstops := stops_of_along hcompiled halong hfront
      rw [decide_eq_true hdone] at hstops
      rcases runs_loop_succ hend hrun with ⟨error, hstop, -, -⟩ | ⟨-, rfl, rfl⟩ | ⟨hstop, -⟩
      · rw [hstops] at hstop
        cases hstop
      · exact ⟨attempts_of_bookkept (bookkept_emitted _), _, rfl,
          halong.congr rfl rfl fun _ _ => rfl⟩
      · rw [hstops] at hstop
        cases hstop

/-- From the node before a step on, the graph walks through the rest of the chain as the
loop runs through the rest of the plan. -/
theorem runs_together (hcompiled : Compiled deps plan graph) (hplain : Plain deps.executor)
    (hengine : deps.hasPolicyEngine = false) (hmode : policy.mode ≠ .replay)
    (hhints : ∀ step ∈ plan.steps, truthy step.toolHint = true) {steps : List PlanStep}
    {finished budget fuel spent : Nat} {cursor : Cursor} {objects last : SharedObjects}
    {trace trace' : List Event} {result : Except RaisedError Cursor}
    {result' : Except Raised PlanState}
    (hlaid : Laid graph (nodeBefore finished) finished (singles steps))
    (hpassable : Passable graph (nodeBefore finished))
    (hnumbered : NumberedFrom finished steps) (hsteps : ∀ step ∈ steps, step ∈ plan.steps)
    (hlength : finished + steps.length = plan.steps.length) (hfront : Front finished planState)
    (hplan : planState.plan = plan) (halong : Along planState cursor.state)
    (hcurrent : cursor.current = nodeBefore finished) (hbudget : 2 * steps.length ≤ budget)
    (hfuel : steps.length < fuel) (hkeeping : Keeping planState.plan.ids spent objects)
    (hfollows : Follows SharedObjects.Step objects trace' last)
    (hanswers : Answers (stepOracle oracle) trace) (htools : Answers (toolOracle oracle) trace')
    (hrun : Runs (loop digest graph streamed policy executionGraph budget cursor) trace result)
    (hrun' : Runs (executeLoop deps.executor fuel planState) trace' result') :
    attempts trace = attempts trace' ∧
      ((∃ final ended, result = .ok final ∧ result' = .ok ended ∧ Along ended final.state ∧
          Front ended.plan.steps.length ended ∧ Keeping ended.plan.ids spent last) ∨
        ∃ raised message, result = .error raised.error ∧ result' = .error raised ∧
          raised.error = .agentLoop message ∧ attempts trace ≠ []) := by
  induction steps generalizing finished budget fuel planState cursor objects trace trace' with
  | nil =>
      obtain ⟨fuel, rfl⟩ : ∃ own, fuel = own + 1 := ⟨fuel - 1, by simp at hfuel; omega⟩
      obtain rfl : finished = planState.plan.steps.length := by
        rw [hplan]
        exact hlength
      rw [executeLoop_of_ended hfront] at hrun'
      obtain ⟨rfl, rfl⟩ := runs_pure_iff.mp hrun'
      cases Follows.nil_iff.mp hfollows
      obtain ⟨hnone, final, hresult, hfinal⟩ := runs_loop_finished hcompiled halong hfront rfl
        (hcurrent ▸ nodeBefore_ne_endNode _) hrun
      exact ⟨hnone, Or.inl ⟨final, planState, hresult, rfl, hfinal, hfront, hkeeping⟩⟩
  | cons step rest ih =>
      obtain ⟨hlinked, hrest⟩ := hlaid
      obtain ⟨hid, hrestNumbered⟩ := hnumbered
      rw [List.length_cons] at hlength hbudget hfuel
      obtain ⟨budget, rfl⟩ : ∃ own, budget = own + 2 := ⟨budget - 2, by omega⟩
      obtain ⟨fuel, rfl⟩ : ∃ own, fuel = own + 1 := ⟨fuel - 1, by omega⟩
      have hmem : step ∈ plan.steps := hsteps step List.mem_cons_self
      have hstep : step ∈ planState.plan.steps := hplan ▸ hmem
      obtain ⟨own, ended, hown, hupdates, hattempted, hloop⟩ :=
        runs_executeLoop_next hplain hfront hstep hid hkeeping hfollows hrun'
      have hownAnswers : Answers (stepOracle oracle) own := by
        refine answers_stepOracle ?_ hupdates
        rcases hloop with ⟨_, _, -, -, rfl, -⟩ | ⟨_, _, _, _, -, rfl, -⟩
        · exact htools
        · exact (answers_append.mp htools).1
      obtain ⟨decisions, inner, reached, first, behind, tail, hinner, hbefore, hbehind, rfl,
        hgraph⟩ :=
        runs_loop_chained hcompiled hengine hmode (hplan ▸ hhints) hlinked hpassable hmem hstep hid
          hfront halong hcurrent hrun
      have hinnerAnswers := (answers_append.mp (answers_append.mp hanswers).2)
      -- both run the step alike, for the decisions in the context do not matter
      obtain ⟨rfl, rfl⟩ := runs_lockstep hplain hinner hown hinnerAnswers.1 hownAnswers
      have hattempts : attempts (first ++ (inner ++ (behind ++ tail))) =
          attempts inner ++ attempts tail := by
        simp [attempts_of_bookkept hbefore, attempts_of_bookkept hbehind]
      rw [hattempts]
      rcases hloop with ⟨raised, message, rfl, rfl, rfl, hmessage⟩ |
        ⟨after, reply, later, middle, rfl, rfl, hfrontNext, hplanNext, hkept, hfollowsNext, hlater⟩
      · -- the step is given up in both
        obtain ⟨_, hsame, rfl, rfl⟩ | ⟨_, _, hsame, -⟩ := hgraph
        · cases hsame
          exact ⟨List.append_nil _, Or.inr ⟨raised, message, rfl, rfl, hmessage, by
            simp [hattempted]⟩⟩
        · cases hsame
      · -- the step has ended in both: the rest goes along by induction
        obtain ⟨_, hsame, -⟩ | ⟨_, next, hsame, htarget, hafter, htail⟩ := hgraph
        · cases hsame
        cases hsame
        have hrestLaid : Laid graph (nodeBefore (finished + 1)) (finished + 1) (singles rest) :=
          hrest
        have hjoin : Passable graph (nodeBefore (finished + 1)) :=
          ⟨_, hlinked.joinNode, passesOn_joinPass _ _⟩
        obtain ⟨hsame, hends⟩ := ih hrestLaid hjoin hrestNumbered
          (fun other hother => hsteps other (List.mem_cons_of_mem _ hother)) (by omega)
          hfrontNext (hplanNext.trans hplan) (hafter after rfl) htarget (by omega) (by omega) hkept
          hfollowsNext (answers_append.mp hinnerAnswers.2).2
          (answers_cons.mp (answers_append.mp htools).2).2 htail hlater
        refine ⟨?_, hends.imp_right ?_⟩
        · rw [hsame, attempts_append]
          rfl
        · rintro ⟨raised, message, hresult, hresult', hmessage, -⟩
          exact ⟨raised, message, hresult, hresult', hmessage, by simp [hattempted]⟩

/-- No node of a compiled plan gives the executor a graph. -/
theorem asks_run_compile {strategy : MergeStrategy} (hmode : policy.mode ≠ .replay)
    (state : AgentState) : Program.Asks (S := runtimeSig) (fun op => op.opensPlanGraph = false)
      (Graph.run digest (compile deps strategy plan) streamed policy state) := by
  have hmarks : ∀ (op : Op) visit, op.visit = some visit → op.opensPlanGraph = false := by
    intro op visit hvisit
    cases op <;> first | rfl | cases hvisit
  have hkeeps : Keeps policy (fun op => op.opensPlanGraph = false) (fun _ => True)
      (compile deps strategy plan) := by
    refine ⟨fun op hop _ => ?_, ?_, fun left right _ _ => ?_, fun _ _ _ _ _ _ _ => trivial,
      fun hreplay => absurd hreplay hmode⟩
    · cases op <;> first | rfl | cases hop
    · refine eachNode_compile ⟨fun op visit hvisit _ => hmarks op visit hvisit, fun _ _ => trivial⟩
        ⟨fun op visit hvisit _ => hmarks op visit hvisit, fun _ _ => trivial⟩
        (fun stepId => ⟨fun op visit hvisit _ => hmarks op visit hvisit, fun state _ => ?_⟩)
        fun _ _ => ⟨fun op visit hvisit _ => hmarks op visit hvisit, fun _ _ => trivial⟩
      refine (asks_stepNode stepId state).mono (fun op hop => ?_) fun _ h => h
      cases op with
      | newPlanGraph => simp [stepMayAsk, mayAsk, mayCall, mayReplan, routerMayAsk] at hop
      | _ => rfl
    · simpa [mergeStates] using
        respects_mergeStates (fun _ _ => rfl)
          (compile deps strategy plan).mergeStrategy left [right]
  exact hkeeps.run trivial

/-- The state on which a run of the compiled plan is started. -/
def begunState (plan : Plan) (query sessionId : String) (context : GlobalContext) : AgentState :=
  { query := query
    sessionId := sessionId
    planRef := .ofPlanState
    planState := some (begun plan sessionId context) }

theorem along_begunState (plan : Plan) (query sessionId : String) (context : GlobalContext)
    (ref : Ref) : Along (begun plan sessionId context)
      (startCursor graph policy ref (begunState plan query sessionId context)).state where
  plan := ⟨context.toolPolicyDecisions, rfl⟩
  live := rfl
  untraced := rfl
  outputs value hvalue := by cases hvalue

/-- The graph run and the plan loop end with the same statuses, results and log, or both
raise the same error of the executor at the same step. -/
inductive EndTogether (trace trace' : List Event) :
    Except RaisedError AgentState → Except Raised PlanState → Prop
  | ended {final : AgentState} {own ended : PlanState} (hplan : final.planState = some own)
      (hstatus : own.stepStatus = ended.stepStatus) (hresults : own.stepResults = ended.stepResults)
      (hlog : own.executionTrace = ended.executionTrace) :
      EndTogether trace trace' (.ok final) (.ok ended)
  | raised {raised : Raised} {message : String} {stepId : Int}
      (hmessage : raised.error = .agentLoop message)
      (hgraph : (attempts trace).getLast? = some stepId)
      (hloop : (attempts trace').getLast? = some stepId) :
      EndTogether trace trace' (.error raised.error) (.error raised)

/-- On a chain the compiled graph refines the plan loop. -/
theorem compile_refines_execute {registry : List String} {strategy : MergeStrategy} {fuel : Nat}
    {query sessionId : String} {context : GlobalContext}
    {objects last objects' last' : SharedObjects} {trace trace' : List Event}
    {result : Except RaisedError AgentState} {result' : Except Raised PlanState}
    (hvalid : (validate registry plan).success = true) (hchain : Chain plan)
    (hhints : ∀ step ∈ plan.steps, truthy step.toolHint = true) (hplain : Plain deps.executor)
    (hengine : deps.hasPolicyEngine = false) (hmode : policy.mode ≠ .replay)
    (hfuel : plan.steps.length < fuel) (hfresh : objects.planGraph = none)
    (hfollows : Follows SharedObjects.Step objects trace last)
    (hfollows' : Follows SharedObjects.Step objects' trace' last')
    (htools : Answers (toolOracle oracle) trace) (htools' : Answers (toolOracle oracle) trace')
    (hrun : Runs (Graph.run digest (compile deps strategy plan) streamed policy
      (begunState plan query sessionId context)) trace result)
    (hrun' : Runs (execute deps.executor fuel plan (begun plan sessionId context)) trace' result') :
    attempts trace = attempts trace' ∧ EndTogether trace trace' result result' := by
  have hplan := wellFormed_of_validate hvalid
  have hcompiled : Compiled deps plan (compile deps strategy plan) := compiled_compile hplan
  obtain ⟨hlevels, hnumbered⟩ := levels_of_chain hplan hchain
  have hperm := flatten_topologicalLevels_perm hplan
  have hfront := front_begun hplan.sequential sessionId context
  have hupdates : Answers updateOracle trace := answers_of_noGraph hfresh
    (Program.Respects.asks_of_runs (asks_run_compile hmode _) hrun) hfollows
  have hanswers := answers_stepOracle htools hupdates
  -- both up to their loops
  obtain ⟨rest, middle, rfl, hkeeping, hrest, hloop'⟩ := runs_execute hfront hfollows' hrun'
  obtain ⟨ref, first, own, ended, hloop, hfirst, -, hends⟩ := runs_run hrun
  have hown : attempts trace = attempts own ∧ Answers (stepOracle oracle) own := by
    rcases hends with ⟨_, -, -, rfl⟩ | ⟨_, behind, -, -, hbehind, -, rfl⟩
    · exact ⟨by simp [attempts_of_bookkept hfirst], (answers_append.mp hanswers).2⟩
    · exact ⟨by simp [attempts_of_bookkept hfirst, attempts_of_bookkept hbehind],
        (answers_append.mp (answers_append.mp hanswers).2).1⟩
  have hrestTools := (answers_cons.mp (answers_cons.mp htools').2).2
  have hlaid : Laid (compile deps strategy plan) (nodeBefore 0) 0
      (singles (topologicalLevels plan).flatten) := hlevels ▸ hcompiled.laid
  have hbudget : 2 * (topologicalLevels plan).flatten.length ≤
      (compile deps strategy plan).maxIterations := by
    rw [hcompiled.maxIterations, hperm.length_eq]
    omega
  have htogether := fun {looping : List Event} {next : SharedObjects}
      {left : Except Raised PlanState} (hbefore : Follows SharedObjects.Step middle looping next)
      (hlooping : Runs (executeLoop deps.executor fuel (begun plan sessionId context)) looping left)
      (hlooped : Answers (toolOracle oracle) looping) =>
    runs_together hcompiled hplain hengine hmode hhints hlaid
      ⟨_, hcompiled.entryNode, passesOn_entryNode⟩ hnumbered
      (fun step hstep => hperm.mem_iff.mp hstep) (by rw [Nat.zero_add, hperm.length_eq]) hfront rfl
      (along_begunState plan query sessionId context ref) hcompiled.entry hbudget
      (hperm.length_eq ▸ hfuel) hkeeping hbefore hown.2 hlooped hloop hlooping
  have hattempts := fun looping : List Event =>
    show attempts (⟨.newPlanGraph plan (begun plan sessionId context).sessionId, ()⟩ ::
      ⟨.syncPlanGraph (begun plan sessionId context), .ok ()⟩ :: looping) =
        attempts looping from rfl
  rcases runs_bind_iff.mp hloop' with
    ⟨left, looping, later, hlooping, hlater, rfl⟩ | ⟨raised, hlooping, rfl⟩
  · obtain ⟨next, hbefore, hbehind⟩ := Follows.append_iff.mp hrest
    obtain ⟨hsame, ⟨final, _, rfl, hleft, halong, hfrontLeft, hkept⟩ | ⟨_, _, -, hleft, -⟩⟩ :=
      htogether hbefore hlooping (answers_append.mp hrestTools).1
    · cases hleft
      have hcleared : Front left.plan.steps.length { left with currentStep := none } :=
        ⟨hfrontLeft.sequential, le_rfl, hfrontLeft.mem_finished, hfrontLeft.pending⟩
      rcases runs_bind_iff.mp hlater with ⟨_, second, tail, hsecond, htail, rfl⟩ | ⟨_, hsecond, -⟩
      · obtain ⟨stop, hsync, -⟩ := Follows.append_iff.mp hbehind
        obtain ⟨rfl, -, -⟩ := runs_syncGraph hcleared hkept hsync hsecond
        obtain ⟨rfl, rfl⟩ := runs_pure_iff.mp htail
        rcases hends with ⟨_, hended, -⟩ | ⟨_, _, hended, rfl, -⟩
        · cases hended
        cases hended
        obtain ⟨decisions, hplanState⟩ := halong.plan
        refine ⟨?_, .ended hplanState rfl rfl rfl⟩
        rw [hown.1, hsame, hattempts, List.append_nil, attempts_append]
        exact (List.append_nil _).symm
      · obtain ⟨-, hresult, -⟩ := runs_syncGraph hcleared hkept hbehind hsecond
        cases hresult
    · cases hleft
  · obtain ⟨hsame, ⟨_, _, -, hleft, -⟩ | ⟨given, message, hresult, hleft, hmessage, hsome⟩⟩ :=
      htogether hrest hlooping hrestTools
    · cases hleft
    cases hleft
    rcases hends with ⟨_, hended, rfl, -⟩ | ⟨_, _, hended, -⟩
    · rw [hresult] at hended
      cases hended
      obtain ⟨stepId, hlast⟩ := Option.isSome_iff_exists.mp (List.getLast?_isSome.mpr hsome)
      refine ⟨?_, @EndTogether.raised _ _ _ _ stepId hmessage ?_ ?_⟩
      · rw [hown.1, hattempts, hsame]
      · rw [hown.1]
        exact hlast
      · rw [hattempts, ← hsame]
        exact hlast
    · rw [hresult] at hended
      cases hended

end Simulation

/-! ## A chain of two steps -/

/-- The weather first, and then a budget. -/
def weatherThenBudget : Plan :=
  ⟨"上海一日游", [⟨1, "查询上海天气", some "weather", none⟩,
    ⟨2, "估算上海旅行预算", some "budget", some [1]⟩]⟩

/-- Dependencies with one retry. -/
def retryingDependencies : RuntimeDependencies :=
  { plainDependencies .retry ["weather", "budget"] {} with
    executor := { plainExecutor .retry ["weather", "budget"] with stepMaxRetries := 1 } }

/-- Tools of which the first call for the weather fails. -/
def failingOnce : Components where
  executeLlmCall tool args callId :=
    { success := decide (callId ≠ "plan-step-1-a1"), tool := tool, args := args }

/-- The graph of the plan. -/
def graphOfChain : Effect RaisedError AgentState :=
  Graph.run retryingDependencies.digest (compile retryingDependencies .deepMerge weatherThenBudget)
    true {} (begunState weatherThenBudget "上海一日游" "default" {})

/-- The loop over the plan. -/
def loopOfChain : Effect Raised PlanState :=
  execute retryingDependencies.executor 3 weatherThenBudget (begun weatherThenBudget "default" {})

/-- Both attempt the first step twice, and end alike. -/
theorem compile_refines_execute_weatherThenBudget :
    attempts (failingOnce.exec {} graphOfChain).trace = [1, 1, 2] ∧
    ∃ final ended, Runs graphOfChain (failingOnce.exec {} graphOfChain).trace (.ok final) ∧
      Runs loopOfChain (failingOnce.exec {} loopOfChain).trace (.ok ended) ∧
      EndTogether (failingOnce.exec {} graphOfChain).trace (failingOnce.exec {} loopOfChain).trace
        (.ok final) (.ok ended) := by
  refine ⟨by decide +kernel, ?_⟩
  obtain ⟨final, hgraph, hfollows⟩ := Components.exists_runs_exec
    (show (failingOnce.exec {} graphOfChain).result.isOk = true by decide +kernel)
  obtain ⟨ended, hloop, hfollows'⟩ := Components.exists_runs_exec
    (show (failingOnce.exec {} loopOfChain).result.isOk = true by decide +kernel)
  have hvalid : (validate ["weather", "budget"] weatherThenBudget).success = true := by
    decide +kernel
  exact ⟨final, ended, hgraph, hloop, (compile_refines_execute hvalid (by decide +kernel)
    (by decide +kernel) ⟨by decide, rfl, rfl⟩ rfl (by decide) (by decide) rfl hfollows hfollows'
    (answers_components failingOnce {} graphOfChain) (answers_components failingOnce {} loopOfChain)
    hgraph hloop).2⟩

end PlanGraphCompiler

end TripGraph
