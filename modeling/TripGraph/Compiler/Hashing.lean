import TripGraph.Compiler.Layout
import TripGraph.Runtime.Hashing

/-! # Hashing in a compiled plan

The router and the nodes of a compiled plan write textual values, and a step node keeps the
output of its step under the step id.
-/

namespace TripGraph

open Interaction

/-! ## Observations -/

theorem Noted.note {observations : Dict String Value} (h : Noted observations) {key : String}
    {value : Value} (hkey : key ≠ "step_outputs") (hvalue : value.Textual) :
    Noted (observations.set key value) :=
  Dict.Each.set h (by rwa [if_neg hkey])

theorem Noted.textual {observations : Dict String Value} (h : Noted observations) {key : String}
    {value : Value} (hkey : key ≠ "step_outputs") (hvalue : observations.get? key = some value) :
    value.Textual := by
  have hown := Dict.Each.of_get? h hvalue
  rwa [if_neg hkey] at hown

namespace Value

theorem textual_ofDict {values : Dict String Value} (h : TextualValues values) :
    (ofDict values).Textual := textual_ofEntries h

theorem Textual.iterate {value : Value} (h : value.Textual) {items : List Value}
    (hitems : value.iterate = .ok items) : ∀ item ∈ items, item.Textual := by
  cases value with
  | list own =>
      cases hitems
      exact textual_list_iff.mp h
  | dict entries =>
      cases hitems
      intro item hmem
      obtain ⟨⟨key, own⟩, -, rfl⟩ := List.mem_map.mp hmem
      cases key <;> trivial
  | str text =>
      cases hitems
      intro item hmem
      obtain ⟨c, -, rfl⟩ := List.mem_map.mp hmem
      trivial
  | _ => cases hitems

end Value

/-! ## Routing -/

section Routing

variable {deps : RuntimeDependencies} {state : AgentState}

/-- What the router has gathered is textual. -/
structure RoutingState.Textual (acc : RoutingState) : Prop where
  routing : TextualValues acc.routing
  policyTrace : ∀ entry ∈ acc.policyTrace, entry.Textual

theorem hashes_routeHint (step : PlanStep) :
    Hashes (fun hinted => ∀ entry ∈ hinted.2, entry.2.Textual) (routeHint step) := by
  unfold routeHint
  split
  · change ∀ entry ∈ _, _
    simp
  · refine hashes_asking rfl fun answer _ => ?_
    refine hashes_ofExcept.bind fun selection _ => ?_
    have halternatives : (Value.list (selection.alternatives.map fun own =>
        Value.ofEntries [("tool", .str own.tool),
          ("confidence", .float own.confidence)])).Textual := by
      rw [Value.textual_list_iff]
      intro item hmem
      obtain ⟨own, -, rfl⟩ := List.mem_map.mp hmem
      exact Value.textual_ofEntries (by simp)
    change ∀ entry ∈ _, _
    simpa using halternatives

theorem hashes_routePolicy (original step : PlanStep) {entries : List (String × Value)}
    (hentries : ∀ entry ∈ entries, entry.2.Textual) {acc : RoutingState} (h : acc.Textual) :
    Hashes RoutingState.Textual (routePolicy deps state original step entries acc) := by
  unfold routePolicy
  dsimp only
  split
  · refine hashes_asking rfl fun decision _ => ?_
    have hentry : (Value.ofEntries (entries ++ [("policy", .ofEntries decision.entries),
        ("selected_tool", .ofText decision.selectedTool)])).Textual := by
      refine Value.textual_ofEntries fun entry hmem => ?_
      rcases List.mem_append.mp hmem with hmem | hmem
      · exact hentries entry hmem
      · simp only [List.mem_cons, List.not_mem_nil, or_false] at hmem
        rcases hmem with rfl | rfl
        · exact Value.textual_ofEntries decision.textual_entries
        · exact Value.textual_ofText _
    have htrace : ∀ (entry : ToolPolicyTraceEntry), ∀ value ∈ acc.policyTrace ++ [entry.toValue],
        value.Textual := by
      intro entry value hmem
      rcases List.mem_append.mp hmem with hmem | hmem
      · exact h.policyTrace value hmem
      · rw [List.mem_singleton.mp hmem]
        exact entry.textual_toValue
    split
    · exact hashes_asking rfl fun _ _ => ⟨h.routing.set hentry, htrace _⟩
    · exact ⟨h.routing.set hentry, h.policyTrace⟩
  · exact ⟨h.routing.set (Value.textual_ofEntries hentries), h.policyTrace⟩

theorem hashes_routeSteps (planState : PlanState) (steps : List PlanStep) {acc : RoutingState}
    (h : acc.Textual) :
    Hashes RoutingState.Textual (routeSteps deps state planState steps acc) := by
  induction steps generalizing acc with
  | nil => exact h
  | cons step rest ih =>
      refine hashes_ofExcept.bind fun status _ => ?_
      split
      · exact ih ⟨h.routing, h.policyTrace⟩
      · refine (hashes_routeHint step).bind fun hinted hhinted => ?_
        exact (hashes_routePolicy step _ hhinted h).bind fun routed hrouted => ih hrouted

theorem AgentState.Textual.routed (h : state.Textual) {planState : PlanState}
    (hplan : planState.Textual) {routed : RoutingState} (hrouted : routed.Textual) :
    (routedState state planState routed).Textual := by
  have hrouting := Value.textual_ofDict hrouted.routing
  have htraced : Noted (if routed.policyTrace = [] then state.observations
      else state.observations.set "tool_policy_trace" (.list routed.policyTrace)) := by
    split
    · exact h.observations
    · exact h.observations.note (by decide) (Value.textual_list_iff.mpr hrouted.policyTrace)
  refine ⟨h.messages, htraced.note (by decide) hrouting, h.shortTermMemory, h.longTermMemory,
    h.episodicMemory, h.memory.set hrouting, ?_⟩
  intro own hown
  rw [← Option.some.inj hown]
  exact ⟨hplan.results, hplan.context.misc, hplan.context.stepOutputs, hplan.context.toolOutputs,
    hplan.context.toolArgs⟩

theorem hashes_routerNode (h : state.Textual) :
    Hashes AgentState.Textual (routerNode deps state) := by
  unfold routerNode
  split
  · exact h
  next planState hplan =>
    refine Program.Ensures.bind (Q := fun policyTrace => ∀ entry ∈ policyTrace, entry.Textual) ?_
      fun policyTrace htrace => ?_
    · rw [Program.ensures_ofExcept_iff]
      intro policyTrace htrace
      cases hstored : state.observations.get? "tool_policy_trace" with
      | none =>
          rw [hstored] at htrace
          cases htrace
          exact fun _ hmem => absurd hmem List.not_mem_nil
      | some stored =>
          rw [hstored] at htrace
          exact (h.observations.textual (by decide) hstored).iterate htrace
    · have hinitial : RoutingState.Textual
          { steps := []
            routing := .empty
            policyTrace := policyTrace
            policyDecisions := planState.globalContext.policyDecisions } :=
        ⟨Dict.each_empty, htrace⟩
      exact (hashes_routeSteps planState _ hinitial).bind fun routed hrouted =>
        h.routed (h.planState planState hplan) hrouted

end Routing

/-! ## The compiled plan graph -/

namespace PlanGraphCompiler

variable {deps : RuntimeDependencies} {state : AgentState}

/-- The output of a step comes beside those of other steps. -/
theorem textual_recordOutput (h : state.Textual) {stepId : Int} {output : Value}
    (houtput : output.Textual) {after : AgentState}
    (hrecord : recordOutput state stepId output = .ok after) : after.Textual := by
  have houtputs : ((state.observations.get? "step_outputs").getD (.dict [])).ByStep := by
    cases hstored : state.observations.get? "step_outputs" with
    | none => exact fun _ hmem => absurd hmem List.not_mem_nil
    | some stored => exact Dict.Each.of_get? h.observations hstored
  obtain ⟨updated, hset, rfl⟩ := exists_of_recordOutput hrecord
  exact ⟨h.messages, Dict.Each.set h.observations (houtputs.setItem houtput hset),
    h.shortTermMemory, h.longTermMemory, h.episodicMemory, h.memory, h.planState⟩

theorem textual_adoptPlanState (h : state.Textual) {planState : PlanState}
    (hplan : planState.Textual) : (adoptPlanState state planState).Textual :=
  ⟨h.messages, h.observations, h.shortTermMemory, h.longTermMemory, h.episodicMemory, h.memory,
    fun _ hown => Option.some.inj hown ▸ hplan⟩

theorem hashes_runStep (stepId : Int) (h : state.Textual) :
    Hashes AgentState.Textual (runStep deps stepId state) := by
  refine (hashes_routerNode h).bind fun routed hrouted => ?_
  split
  · exact hrouted
  next planState hplan =>
    refine hashes_ofExcept.bind fun step _ => ?_
    refine (PlanExecutor.hashes_runStepWithRecovery (hrouted.planState planState hplan)
      step).mapError.bind fun after hafter => ?_
    have houtput :
        (((after.stepResults.get? stepId).map StepResult.observation).getD .null).Textual := by
      cases hresult : after.stepResults.get? stepId with
      | none => trivial
      | some result => exact hafter.results.of_get? hresult
    have hstarted : AgentState.Textual { routed with currentStep := some stepId } :=
      hrouted.of_same rfl
    rw [Program.ensures_ofExcept_iff]
    exact fun recorded hrecord =>
      textual_recordOutput (textual_adoptPlanState hstarted hafter) houtput hrecord

theorem hashes_stepNode (stepId : Int) (h : state.Textual) :
    Hashes AgentState.Textual (stepNode deps stepId state) := by
  unfold stepNode
  split
  · exact h
  · refine hashes_ofExcept.bind fun status _ => ?_
    split
    · exact h
    · refine hashes_ofExcept.bind fun met _ => ?_
      split
      · exact hashes_runStep stepId h
      · exact h

/-- The nodes of a compiled plan keep the values textual. -/
theorem hashedNodes_compile (deps : RuntimeDependencies) (strategy : MergeStrategy) (plan : Plan) :
    (compile deps strategy plan).HashedNodes := by
  have hmark : ∀ (key : String), key ≠ "step_outputs" → ∀ state : AgentState, state.Textual →
      AgentState.Textual { state with observations := state.observations.set key (.bool true) } :=
    fun key hkey state h => ⟨h.messages, h.observations.note hkey trivial, h.shortTermMemory,
      h.longTermMemory, h.episodicMemory, h.memory, h.planState⟩
  apply eachNode_compile
  · exact hmark "plan_graph_entered" (by decide)
  · exact hmark "plan_graph_complete" (by decide)
  · exact fun stepId state h => hashes_stepNode stepId h
  · exact fun levelIndex waitFor state h => h.logGraph _ _ _

end PlanGraphCompiler

end TripGraph
