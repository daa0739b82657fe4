import TripGraph.Compiler.Chains
import TripGraph.Compiler.Walk
import TripGraph.Plan.Charting
import TripGraph.Runtime.Leaving

/-! # Replans in a run of a compiled graph

The nodes of a compiled graph look up the steps of the plan it was compiled from. As long as no
replan adds a step, the plan state of the run is charted or finished: a step is looked up where it
is, or the run stops before the next node.
-/

namespace TripGraph

open Interaction

/-! ## The router and the step nodes -/

section Nodes

variable {deps : RuntimeDependencies}

/-- As long as the replies are harmless, the program returns values in `Q` and raises no
`KeyError`. -/
abbrev Avoids {β : Type} (deps : RuntimeDependencies) (Q : β → Prop) (p : Runtime β) : Prop :=
  Program.Guarantees (S := runtimeSig) (Harmless deps.executor) Q
    (fun error => error.isKeyError = false) p

theorem avoids_ofExcept {β : Type} {value : Except RaisedError β}
    (h : ∀ error, value = .error error → error.isKeyError = false) :
    Avoids deps (fun result => value = .ok result) (Program.ofExcept value) :=
  Program.guarantees_ofExcept_iff.mpr ⟨fun _ hresult => hresult, h⟩

theorem iterate_error {value : Value} {error : RaisedError} (h : value.iterate = .error error) :
    error.isKeyError = false := by
  unfold Value.iterate at h
  split at h <;> cases h
  rfl

theorem avoids_routeHint (step : PlanStep) : Avoids deps (fun _ => True) (routeHint step) := by
  unfold routeHint
  split
  · trivial
  · intro answer hanswer
    refine (avoids_ofExcept ?_).bind fun _ _ => trivial
    rintro error rfl
    exact hanswer.2

theorem avoids_routePolicy (state : AgentState) (original step : PlanStep)
    (entries : List (String × Value)) (acc : RoutingState) :
    Avoids deps (fun _ => True) (routePolicy deps state original step entries acc) := by
  unfold routePolicy
  dsimp only
  split
  · intro decision _
    split
    · exact fun _ _ => trivial
    · trivial
  · trivial

theorem avoids_routeSteps {state : AgentState} {planState : PlanState} {steps : List PlanStep}
    (hstatus : ∀ step ∈ steps, ∃ status, planState.getStepStatus step.id = .ok status)
    (acc : RoutingState) :
    Avoids deps (fun _ => True) (routeSteps deps state planState steps acc) := by
  induction steps generalizing acc with
  | nil => trivial
  | cons step rest ih =>
      obtain ⟨⟨status, hstep⟩, hrest⟩ := List.forall_mem_cons.mp hstatus
      rw [routeSteps, hstep]
      simp only [Program.ofExcept_ok, Program.done_bind]
      split
      · exact ih hrest _
      · exact (avoids_routeHint step).bind fun _ _ =>
          (avoids_routePolicy state step _ _ acc).bind fun routed _ => ih hrest routed

/-- The router finds the status of every step of a charted plan. -/
theorem avoids_routerNode {plan : Plan} {state : AgentState} {planState : PlanState}
    (hplan : state.planState = some planState) (h : Charted plan planState) :
    Avoids deps (fun routed => ∃ own, routed.planState = some own ∧ Charted plan own)
      (routerNode deps state) := by
  have hstatus : ∀ step ∈ planState.plan.steps, ∃ status,
      planState.getStepStatus step.id = .ok status := fun step hstep =>
    h.exists_getStepStatus (h.ids ▸ List.mem_map_of_mem hstep)
  have hrouted : Avoids deps (fun _ => True) (routerNode deps state) := by
    simp only [routerNode, hplan]
    refine (avoids_ofExcept ?_).bind fun trace _ => ?_
    · intro error herror
      cases hvalue : state.observations.get? "tool_policy_trace" with
      | none =>
          rw [hvalue] at herror
          cases herror
      | some value =>
          rw [hvalue] at herror
          exact iterate_error herror
    · exact (avoids_routeSteps hstatus _).bind fun _ _ => trivial
  refine (hrouted.and_returns (returns_routerNode hplan)).mono ?_
  rintro routed ⟨-, own, hown, hunadvanced⟩
  exact ⟨own, hown, h.unadvanced hunadvanced⟩

namespace PlanGraphCompiler

open TripGraph.Graph

variable {plan : Plan} {strategy : MergeStrategy}

theorem recordOutput_error {state : AgentState} {stepId : Int} {output : Value}
    {error : RaisedError} (h : recordOutput state stepId output = .error error) :
    error.isKeyError = false := by
  unfold recordOutput at h
  dsimp only at h
  split at h
  · cases h
  · cases h
    rfl

/-- The plan state is there, and charted or finished. -/
def HeldBy (plan : Plan) (planState : Option PlanState) : Prop :=
  ∃ own, planState = some own ∧ Held plan own

theorem avoids_runStep {stepId : Int} (hmem : stepId ∈ plan.ids) {state : AgentState}
    {planState : PlanState} (hplan : state.planState = some planState)
    (h : Charted plan planState) :
    Avoids deps (fun after => HeldBy plan after.planState) (runStep deps stepId state) := by
  refine (avoids_routerNode hplan h).bind fun routed hrouted => ?_
  obtain ⟨own, hown, hcharted⟩ := hrouted
  obtain ⟨step, hstep, hid⟩ := hcharted.exists_findStep hmem
  simp only [hown, hstep, Program.ofExcept_ok, Program.done_bind]
  refine Program.Guarantees.bind (PlanExecutor.spares_runStepWithRecovery hcharted
    (hid ▸ hmem)).mapError fun after hafter => ?_
  refine (avoids_ofExcept fun _ => recordOutput_error).mono fun final hfinal => ?_
  exact ⟨after, planState_recordOutput hfinal, hafter⟩

/-- The node of a step finds it in a charted plan state. -/
theorem leaves_stepNode {stepId : Int} (hmem : stepId ∈ plan.ids) {planState : PlanState}
    (h : Charted plan planState) :
    NodeLeavesIn (Harmless deps.executor) (fun error => error.isKeyError = false) (HeldBy plan)
      (stepNode deps stepId) (some planState) := by
  intro state hplan
  obtain ⟨status, hstatus⟩ := h.exists_getStepStatus hmem
  obtain ⟨met, hmet⟩ := h.exists_dependenciesMet hmem
  have hheld : HeldBy plan state.planState := ⟨planState, hplan, .inl h⟩
  simp only [stepNode, hplan, hstatus, hmet, Program.ofExcept_ok, Program.done_bind]
  split
  · exact hheld
  split
  · exact avoids_runStep hmem hplan h
  · exact hheld

/-! ## The compiled graph -/

theorem passes_entryNode : Passes entryNode := fun _ => ⟨_, rfl, rfl⟩

theorem passes_sinkNode : Passes sinkNode := fun _ => ⟨_, rfl, rfl⟩

theorem passes_joinPass (joinId : String) (waitFor : List String) :
    Passes (joinPass joinId waitFor) := fun _ => ⟨_, rfl, rfl⟩

theorem passes_of_ne_step {nodeId : String} (hne : ∀ stepId, nodeId ≠ stepNodeId stepId)
    (hnode : ((compile deps strategy plan).nodes nodeId).isSome = true) :
    ∃ fn, (compile deps strategy plan).nodes nodeId = some fn ∧ Passes fn := by
  obtain ⟨fn, hfn⟩ := Option.isSome_iff_exists.mp hnode
  have hnodes : (compile deps strategy plan).EachNode fun own fn =>
      Passes fn ∨ ∃ stepId, own = stepNodeId stepId :=
    eachNode_compile (.inl passes_entryNode) (.inl passes_sinkNode)
      (fun stepId => .inr ⟨stepId, rfl⟩) fun _ _ => .inl (passes_joinPass _ _)
  refine ⟨fn, hfn, (hnodes nodeId fn hfn).resolve_right ?_⟩
  rintro ⟨stepId, hstep⟩
  exact hne stepId hstep

/-- An edge leaves a step of the plan only. -/
theorem mem_ids_of_resolves {registry : List String} (hplan : plan.WellFormed registry)
    {stepId : Int} {target : String}
    (h : (compile deps strategy plan).Resolves (stepNodeId stepId) target) :
    stepId ∈ plan.ids := by
  by_contra hnot
  have hlevels : stepNodeId stepId ∉ levelNodes (topologicalLevels plan).flatten := by
    intro hmem
    obtain ⟨step, hstep, hid⟩ := mem_levelNodes.mp hmem
    have hown := (flatten_topologicalLevels_perm hplan).subset hstep
    exact hnot (stepNodeId_injective hid ▸ List.mem_map_of_mem hown)
  have hsame : SameAt (baseGraph deps strategy plan) (compile deps strategy plan)
      (stepNodeId stepId) :=
    (sameAt_compileLevels (stepNodeId_ne_entry _) hlevels fun index _ =>
      stepNodeId_ne_joinNodeId _ index).trans (.addConditionalEdges (stepNodeId_ne_sink _))
  obtain ⟨before, edge, after, hedges, -⟩ := h
  rw [hsame.edges, (baseGraph_frame _).1] at hedges
  exact absurd hedges.symm (by simp)

theorem nodeBefore_ne_stepNodeId (levelIndex : Nat) (stepId : Int) :
    nodeBefore levelIndex ≠ stepNodeId stepId := by
  cases levelIndex with
  | zero => exact (stepNodeId_ne_entry stepId).symm
  | succ levelIndex => exact (stepNodeId_ne_joinNodeId stepId levelIndex).symm

variable {registry : List String} {digest : Snapshot → String} {streamed : Bool}
  {policy : ExecutionPolicy} {executionGraph : Ref}

/-- The nodes of a level are those of steps of the plan. -/
theorem leaves_levelNode (hplan : plan.WellFormed registry) {previous nodeId next : String}
    {levelIndex : Nat} {level : List PlanStep}
    (hlinked : Linked (compile deps strategy plan) previous levelIndex level next)
    (hmem : nodeId ∈ levelNodes level) {planState : PlanState} (h : Charted plan planState) :
    ∃ fn, (compile deps strategy plan).nodes nodeId = some fn ∧
      NodeLeavesIn (Harmless deps.executor) (fun error => error.isKeyError = false) (HeldBy plan) fn
        (some planState) := by
  have hresolves := (hlinked.steps nodeId hmem).2
  obtain ⟨step, -, rfl⟩ := mem_levelNodes.mp hmem
  have hid := mem_ids_of_resolves hplan hresolves
  obtain ⟨own, hown, heq⟩ := List.mem_map.mp hid
  refine ⟨stepNode deps step.id, ?_, leaves_stepNode hid h⟩
  rw [← heq]
  exact (compiled_compile hplan).stepNode own hown

/-- A round from a charted plan state raises no `KeyError`, and the state it ends in is charted or
finished. -/
theorem avoids_round (hplan : plan.WellFormed registry) {cursor : Cursor} {planState : PlanState}
    (hstate : cursor.state.planState = some planState) (h : Charted plan planState)
    (hstands : Stands (compile deps strategy plan) cursor.current)
    (hend : cursor.current ≠ endNode) :
    Avoids deps (fun next => HeldBy plan next.state.planState)
      (round digest (compile deps strategy plan) streamed policy executionGraph cursor) := by
  have hcompiled : Compiled deps plan (compile deps strategy plan) := compiled_compile hplan
  have hheld : HeldBy plan cursor.state.planState := ⟨planState, hstate, .inl h⟩
  -- where the run stands decides which nodes the round runs
  generalize hcurrent : cursor.current = current at hstands hend
  have hpassing : (compile deps strategy plan).fanOutFor current = none →
      (∃ fn, (compile deps strategy plan).nodes current = some fn ∧ Passes fn) →
      Avoids deps (fun next => HeldBy plan next.state.planState)
        (round digest (compile deps strategy plan) streamed policy executionGraph cursor) := by
    rintro hfanOut ⟨fn, hfn, hpasses⟩
    exact leaves_round_node (hcurrent ▸ hfanOut) (hcurrent ▸ hfn) hheld (hpasses.leaves hheld)
  cases hstands with
  | @before levelIndex levels nonempty laid =>
      have hnode : ((compile deps strategy plan).nodes (nodeBefore levelIndex)).isSome = true →
          ∃ fn, (compile deps strategy plan).nodes (nodeBefore levelIndex) = some fn ∧ Passes fn :=
        passes_of_ne_step (nodeBefore_ne_stepNodeId levelIndex)
      cases levels with
      | nil => exact hpassing laid.2.1 (hnode laid.1)
      | cons level rest =>
          obtain ⟨hlinked, -⟩ := laid
          by_cases hlength : level.length = 1
          · obtain ⟨step, rfl⟩ := List.length_eq_one_iff.mp hlength
            exact hpassing (hlinked.single step rfl).1 (hnode hlinked.previousNode)
          · obtain ⟨fn, hfn, hpasses⟩ := hnode hlinked.previousNode
            refine leaves_round_fanOut (fun _ => rfl) (hcurrent ▸ hlinked.parallel hlength)
              (hcurrent ▸ hfn) hpasses hheld ?_ hlinked.joinNode (passes_joinPass _ _)
            intro branch hbranch
            rw [hstate]
            exact leaves_levelNode hplan hlinked hbranch h
  | step nonempty linked laid mem =>
      obtain ⟨fn, hfn, hleaves⟩ := leaves_levelNode hplan linked mem h
      exact leaves_round_node (hcurrent ▸ (linked.steps _ mem).1) (hcurrent ▸ hfn) hheld
        (hstate ▸ hleaves)
  | sink => exact hpassing hcompiled.sinkFanOut ⟨_, hcompiled.sinkNode, passes_sinkNode⟩
  | ended => exact absurd rfl hend

/-! ## Whole runs -/

theorem charted_of_goesOn {graph : Graph} (hcompiled : Compiled deps plan graph)
    {state : AgentState} (hheld : HeldBy plan state.planState) (h : graph.stops state = .ok false) :
    ∃ planState, state.planState = some planState ∧ Charted plan planState := by
  obtain ⟨planState, hstate, hcharted | hconcluded⟩ := hheld
  · exact ⟨planState, hstate, hcharted⟩
  · refine absurd ?_ (not_finished_of_goesOn hcompiled h)
    rw [Finished, termination, hstate]
    exact hconcluded.allStepsFinished

theorem exists_stops_of_heldBy {graph : Graph} (hcompiled : Compiled deps plan graph)
    {state : AgentState} (hheld : HeldBy plan state.planState) :
    ∃ stop, graph.stops state = .ok stop := by
  obtain ⟨planState, hstate, hheld⟩ := hheld
  have hfinished : ∃ finished, planState.allStepsFinished = .ok finished :=
    hheld.elim Charted.exists_allStepsFinished fun hconcluded => ⟨true, hconcluded.allStepsFinished⟩
  rw [stops, hcompiled.termination, termination, hstate]
  split
  · exact ⟨true, rfl⟩
  · exact hfinished

/-- A round the run makes with harmless replies keeps the plan state charted or finished, and raises
no `KeyError`. -/
theorem runs_round_held (hplan : plan.WellFormed registry) {cursor : Cursor}
    (hheld : HeldBy plan cursor.state.planState)
    (hstands : Stands (compile deps strategy plan) cursor.current)
    (hend : cursor.current ≠ endNode)
    (hgoesOn : (compile deps strategy plan).stops cursor.state = .ok false) {trace : List Event}
    {result : Except RaisedError Cursor}
    (h : Runs (round digest (compile deps strategy plan) streamed policy executionGraph cursor)
      trace result) (hharmless : ∀ event ∈ trace, Harmless deps.executor event.op event.reply) :
    (∀ next, result = .ok next → HeldBy plan next.state.planState) ∧
      ∀ error, result = .error error → error.isKeyError = false := by
  obtain ⟨planState, hstate, hcharted⟩ := charted_of_goesOn (compiled_compile hplan) hheld hgoesOn
  exact Program.guarantees_iff.mp (avoids_round hplan hstate hcharted hstands hend) trace result h
    hharmless

/-- As long as a run goes on with harmless replies, its plan state is charted or finished. -/
theorem held_rounds (hplan : plan.WellFormed registry) {start cursor : Cursor} {made : Nat}
    {trace : List Event} (hstart : start.current = "plan_entry")
    (hheld : HeldBy plan start.state.planState)
    (h : Rounds digest (compile deps strategy plan) streamed policy executionGraph start made trace
      cursor) (hharmless : ∀ event ∈ trace, Harmless deps.executor event.op event.reply) :
    HeldBy plan cursor.state.planState := by
  induction h with
  | start => exact hheld
  | @next made trace own cursor after before current goesOn round ih =>
      have hcursor := ih fun event hevent => hharmless event (List.mem_append_left _ hevent)
      have hstands := (sink_rounds (compiled_compile hplan) hstart before).1
      exact (runs_round_held hplan hcursor hstands current goesOn round fun event hevent =>
        hharmless event (List.mem_append_right _ hevent)).1 after rfl

/-- In a run whose replans add no step no `KeyError` is raised. -/
theorem carriesReplans_of_harmless {registry : List String}
    (hplan : (PlanValidator.validate registry plan).success = true) {state : AgentState}
    {planState : PlanState} (hstate : state.planState = some planState)
    (hcharted : Charted plan planState) {trace : List Event}
    {result : Except RaisedError AgentState}
    (h : Runs (run digest (compile deps strategy plan) streamed policy state) trace result)
    (hharmless : ∀ event ∈ trace, Harmless deps.executor event.op event.reply) :
    CarriesReplans deps.executor trace result := by
  have hwell := PlanValidator.wellFormed_of_validate hplan
  have hcompiled : Compiled deps plan (compile deps strategy plan) := compiled_compile hwell
  refine ⟨fun error herror => ?_, fun before event after htrace step hstep => ?_⟩
  · obtain ⟨ref, total, first, own, last, tail, reached, ended, -, hrounds, hends, hresult, -, -, -,
      -, rfl⟩ := exists_rounds_of_runs h
    have howned : ∀ event ∈ own ++ last, Harmless deps.executor event.op event.reply := by
      intro event hevent
      refine hharmless event ?_
      simp only [List.mem_append] at hevent ⊢
      exact .inr (hevent.elim .inl fun hlast => .inr (.inl hlast))
    have hheld := held_rounds hwell hcompiled.entry ⟨planState, hstate, .inl hcharted⟩ hrounds
      fun event hevent => howned event (List.mem_append_left _ hevent)
    have hstands := (sink_rounds hcompiled hcompiled.entry hrounds).1
    cases hends with
    | exhausted spent => exact absurd (hresult.symm.trans herror) (by simp [Except.map])
    | atEnd current => exact absurd (hresult.symm.trans herror) (by simp [Except.map])
    | stopped current stops => exact absurd (hresult.symm.trans herror) (by simp [Except.map])
    | checkRaised raised current stops =>
        obtain ⟨stop, hstop⟩ := exists_stops_of_heldBy hcompiled hheld
        exact absurd (stops.symm.trans hstop) (by simp)
    | roundRaised raised trace current goesOn round =>
        obtain rfl : raised = error := Except.error.inj (hresult.symm.trans herror)
        exact (runs_round_held hwell hheld hstands current goesOn round fun event hevent =>
          howned event (List.mem_append_right _ hevent)).2 raised rfl
  · have hadded := (hharmless event (htrace ▸ by simp)).1
    rw [hadded] at hstep
    exact absurd hstep List.not_mem_nil

end PlanGraphCompiler

end Nodes

/-! ## Replans on a chain of two steps -/

namespace PlanGraphCompiler

def reroutingDependencies : RuntimeDependencies :=
  plainDependencies .replan ["weather", "map", "budget"] {}

/-- A tool that fails, and a planner with these steps for a step that has failed. -/
def rerouting (failing : String) (steps : List PlanStep) : Components where
  executeLlmCall tool args _ := { success := decide (tool ≠ failing), tool := tool, args := args }
  replanUnfinishedSteps _ _ _ := .ok steps

/-- The graph of the plan, on a fresh state. -/
def reroutedGraph : Runtime AgentState :=
  Graph.run reroutingDependencies.digest
    (compile reroutingDependencies .deepMerge weatherThenBudget) true {}
    (freshState weatherThenBudget)

/-- The run of the compiled plan with these components. -/
def reroutedRun (failing : String) (steps : List PlanStep) :
    Outcome runtimeSig RaisedError AgentState (SharedObjects × Unit) :=
  (rerouting failing steps).exec {} reroutedGraph

/-- The run of the plan loop with these components. -/
def reroutedLoop (failing : String) (steps : List PlanStep) :
    Outcome runtimeSig Raised PlanState (SharedObjects × Unit) :=
  (rerouting failing steps).exec {} (PlanExecutor.execute reroutingDependencies.executor 4
    weatherThenBudget (.fromPlan weatherThenBudget "default"))

/-- The planner has no steps left to add: the run ends behind the first step. -/
theorem carriesReplans_of_harmless_weatherThenBudget :
    attempts (reroutedRun "budget" []).trace = [1, 2] ∧ ∃ final,
      Runs reroutedGraph (reroutedRun "budget" []).trace (.ok final) ∧
      CarriesReplans reroutingDependencies.executor (reroutedRun "budget" []).trace
        (.ok final : Except RaisedError AgentState) := by
  refine ⟨by decide +kernel, ?_⟩
  obtain ⟨final, hrun, -⟩ := Components.exists_runs_exec
    (show (reroutedRun "budget" []).result.isOk = true by decide +kernel)
  have hvalid : (PlanValidator.validate ["weather", "map", "budget"] weatherThenBudget).success =
      true := by decide +kernel
  exact ⟨final, hrun, carriesReplans_of_harmless hvalid rfl (charted_fromPlan (by decide) "default")
    hrun (by decide +kernel)⟩

def cityMapStep : PlanStep := ⟨1, "查看上海地图", some "map", none⟩

/-- Once the first step is replaced, the node of the second one looks up a step that is gone; once
the second step is replaced, no node is left for the replacement. The plan loop runs both. -/
theorem weatherThenBudget_drops_replacements :
    (PlanValidator.validate ["weather", "map", "budget"] weatherThenBudget).success = true ∧
    reroutingDependencies.executor.failurePolicy = .replan ∧
    (∃ last,
      Runs reroutedGraph (reroutedRun "weather" [cityMapStep]).trace (.error (.keyError "2")) ∧
      Follows SharedObjects.Step {} (reroutedRun "weather" [cityMapStep]).trace last ∧
      ¬CarriesReplans reroutingDependencies.executor (reroutedRun "weather" [cityMapStep]).trace
        (.error (.keyError "2") : Except RaisedError AgentState)) ∧
    (∃ final last, Runs reroutedGraph (reroutedRun "budget" [cityMapStep]).trace (.ok final) ∧
      Follows SharedObjects.Step {} (reroutedRun "budget" [cityMapStep]).trace last ∧
      ¬CarriesReplans reroutingDependencies.executor (reroutedRun "budget" [cityMapStep]).trace
        (.ok final : Except RaisedError AgentState)) ∧
    ((reroutedLoop "weather" [cityMapStep]).result.isOk = true ∧
      attempts (reroutedLoop "weather" [cityMapStep]).trace = [1, 1]) ∧
    (reroutedLoop "budget" [cityMapStep]).result.isOk = true ∧
      attempts (reroutedLoop "budget" [cityMapStep]).trace = [1, 2, 2] := by
  refine ⟨by decide +kernel, rfl, ?_, ?_, by decide +kernel, by decide +kernel⟩
  · obtain ⟨hrun, hfollows⟩ := Components.runs_exec (rerouting "weather" [cityMapStep]) {}
      reroutedGraph
    have hresult : (reroutedRun "weather" [cityMapStep]).result = .error (.keyError "2") := by
      decide +kernel
    refine ⟨_, hresult ▸ hrun, hfollows, fun hcarries => ?_⟩
    exact absurd (hcarries.noKeyError _ rfl) (by decide)
  · obtain ⟨final, hrun, hfollows⟩ := Components.exists_runs_exec
      (show (reroutedRun "budget" [cityMapStep]).result.isOk = true by decide +kernel)
    refine ⟨final, _, hrun, hfollows, fun hcarries => ?_⟩
    -- the planner answers in the exchange with this index, and nothing is attempted behind it
    have hadded : (((reroutedRun "budget" [cityMapStep]).trace[31]?).map
        (acceptedSteps reroutingDependencies.executor)) = some [{ cityMapStep with id := 2 }] := by
      decide +kernel
    obtain ⟨event, hevent, hsteps⟩ := Option.map_eq_some_iff.mp hadded
    have hattempted := hcarries.mem_attempts_drop hevent (hsteps ▸ List.mem_cons_self)
    have hnone : attempts ((reroutedRun "budget" [cityMapStep]).trace.drop 32) = [] := by
      decide +kernel
    rw [hnone] at hattempted
    cases hattempted

end PlanGraphCompiler

end TripGraph
