import TripGraph.Tools.Gating

/-! # Compressing the context

A compression keeps the arguments of the tools, and drops the decisions of the policy engine
together with everything that is not on the list of preserved keys.
-/

namespace TripGraph

open Interaction

namespace ContextCompressor

variable {config : ExecutorConfig} {state after : PlanState} {trace : List Event}

/-- The state once this summary has replaced its context. -/
def compressed (config : ExecutorConfig) (state : PlanState) (summary : ContextCompressionResult) :
    PlanState :=
  { state with globalContext :=
      buildReplacedContext config state summary (config.contextSize state.globalContext) }

theorem runs_compress_ok_iff : Runs (compress config state) trace (.ok after) ↔
    ∃ summary, trace = [⟨.summarize (extractCompressible state), .ok summary⟩] ∧
      after = compressed config state summary := by
  unfold compress
  constructor
  · intro h
    obtain ⟨answer, rest, rfl, hrest⟩ := runs_asking_iff.mp h
    obtain ⟨summary, first, second, hfirst, hsecond, rfl⟩ := runs_bind_ok_iff.mp hrest
    obtain ⟨rfl, rfl⟩ := PlanExecutor.runs_orRaise_iff.mp hfirst
    obtain ⟨rfl, heq⟩ := runs_pure_iff.mp hsecond
    exact ⟨summary, rfl, Except.ok.inj heq⟩
  · rintro ⟨summary, rfl, rfl⟩
    apply runs_asking_iff.mpr
    exact ⟨.ok summary, [], rfl, runs_done_iff.mpr ⟨rfl, rfl⟩⟩

theorem runs_compress (config : ExecutorConfig) (state : PlanState)
    (summary : ContextCompressionResult) :
    Runs (compress config state) [⟨.summarize (extractCompressible state), .ok summary⟩]
      (.ok (compressed config state summary)) :=
  runs_compress_ok_iff.mpr ⟨summary, rfl, rfl⟩

/-! ## What later steps read -/

/-- A preserved key is read as before. -/
theorem contextValue_compressed {key : String} (hkey : key ∈ preservedKeys) (fallback : Value)
    (summary : ContextCompressionResult) :
    StepToolResolver.contextValue (compressed config state summary).globalContext key fallback =
      StepToolResolver.contextValue state.globalContext key fallback := by
  have hget : (compressed config state summary).globalContext.misc.get? key =
      state.globalContext.misc.get? key := by
    change (state.globalContext.misc.filterKeys _).get? key = _
    rw [Dict.get?_filterKeys, if_pos (decide_eq_true hkey)]
  rw [StepToolResolver.contextValue, StepToolResolver.contextValue, hget]

/-- The arguments of every tool are resolved as before. -/
theorem resolve_compressed (lower : String → String) (step : PlanStep)
    (summary : ContextCompressionResult) :
    StepToolResolver.resolve lower step (compressed config state summary) =
      StepToolResolver.resolve lower step state := by
  have hget : ∀ key ∈ preservedKeys, StepToolResolver.contextValue
      (compressed config state summary).globalContext key =
        StepToolResolver.contextValue state.globalContext key := by
    intro key hkey
    funext fallback
    exact contextValue_compressed hkey fallback summary
  have htoolArgs : (compressed config state summary).globalContext.toolArgs =
      state.globalContext.toolArgs := rfl
  unfold StepToolResolver.resolve
  dsimp only
  rw [htoolArgs, hget "city" (by decide), hget "date" (by decide), hget "origin" (by decide),
    hget "destination" (by decide), hget "transport_mode" (by decide), hget "days" (by decide),
    hget "daily_food" (by decide), hget "daily_transport" (by decide),
    hget "daily_accommodation" (by decide), hget "activities" (by decide),
    hget "currency" (by decide)]

/-- No policy decision survives. -/
theorem policyDecision_compressed (stepId : Int) (summary : ContextCompressionResult) :
    (compressed config state summary).policyDecision stepId = none := rfl

/-- The step is executed with the same arguments and falls back alike. -/
structure Invisible (config : ExecutorConfig) (before after : PlanState) (step : PlanStep) :
    Prop where
  arguments : StepToolResolver.resolve config.lower step after =
    StepToolResolver.resolve config.lower step before
  decision : after.policyDecision step.id = before.policyDecision step.id

/-- A compression is invisible to a step if and only if no policy decision is kept for it. -/
theorem compress_invisible_iff {config : ExecutorConfig} {state after : PlanState}
    {trace : List Event} (hrun : Runs (compress config state) trace (.ok after)) (step : PlanStep) :
    Invisible config state after step ↔ state.policyDecision step.id = none := by
  obtain ⟨summary, -, rfl⟩ := runs_compress_ok_iff.mp hrun
  constructor
  · intro h
    exact h.decision.symm.trans (policyDecision_compressed step.id summary)
  · intro h
    exact ⟨resolve_compressed config.lower step summary,
      (policyDecision_compressed step.id summary).trans h.symm⟩

/-- A step without a decision. -/
theorem compress_invisible_weather :
    ∃ trace after, Runs (compress (plainExecutor .skip ["weather"])
        (PlanExecutor.begun weatherPlan "default" {})) trace (.ok after) ∧
      ∀ step ∈ weatherPlan.steps, Invisible (plainExecutor .skip ["weather"])
        (PlanExecutor.begun weatherPlan "default" {}) after step := by
  have hrun := runs_compress (plainExecutor .skip ["weather"])
    (PlanExecutor.begun weatherPlan "default" {}) ⟨"", []⟩
  exact ⟨_, _, hrun, fun step _ => (compress_invisible_iff hrun step).mpr rfl⟩

/-- A policy engine answers with its decision; nothing else happens. -/
def policyReply (engine : ToolPolicyEngine) : (op : Op) → op.Reply
  | .decidePolicy toolHint task query =>
      match engine.decide toolHint task query none with
      | .ok decision => decision
      | .error _ => {}
  | op => op.plainReply

/-- The router, with a policy engine. -/
def routeWeather : Runtime AgentState :=
  routerNode { plainDependencies .skip ["weather"] {} with hasPolicyEngine := true }
    { planState := some (.fromPlan weatherPlan "default") }

/-- The pending step's decision is in the context that the router leaves, and not in the
compressed one. -/
theorem not_invisible_routeWeather :
    ∃ trace routed planState, Runs routeWeather trace (.ok routed) ∧
      routed.planState = some planState ∧
      ∃ step ∈ planState.plan.steps, planState.stepStatus.get? step.id = some .pending ∧
      ∃ trace' after,
        Runs (compress (plainExecutor .skip ["weather"]) planState) trace' (.ok after) ∧
        ¬ Invisible (plainExecutor .skip ["weather"]) planState after step := by
  obtain ⟨trace, routed, hrun, hrouted⟩ : ∃ trace routed, Runs routeWeather trace (.ok routed) ∧
      routed.planState.map (fun own => (own.plan, own.stepStatus.get? 1,
        (own.policyDecision 1).isSome)) = some (weatherPlan, some .pending, true) := by
    have hrun := Program.runs_exec (sharedHandler fun op own =>
      (policyReply ToolPolicyEngine.builtinEngine op, own)) routeWeather ({}, ())
    have hresult : (routeWeather.exec (sharedHandler fun op own =>
        (policyReply ToolPolicyEngine.builtinEngine op, own)) ({}, ())).result.map (fun own =>
          own.planState.map fun own => (own.plan, own.stepStatus.get? 1,
            (own.policyDecision 1).isSome)) = .ok (some (weatherPlan, some .pending, true)) := by
      decide +kernel
    cases hrouted : (routeWeather.exec (sharedHandler fun op own =>
        (policyReply ToolPolicyEngine.builtinEngine op, own)) ({}, ())).result with
    | error error =>
        rw [hrouted] at hresult
        cases hresult
    | ok routed =>
        rw [hrouted] at hrun hresult
        exact ⟨_, routed, hrun, Except.ok.inj hresult⟩
  obtain ⟨planState, hplanState, heq⟩ := Option.map_eq_some_iff.mp hrouted
  obtain ⟨hplan, hrest⟩ := Prod.mk.inj heq
  obtain ⟨hpending, hdecision⟩ := Prod.mk.inj hrest
  refine ⟨trace, routed, planState, hrun, hplanState, ⟨1, "查询上海天气", some "weather", none⟩,
    hplan ▸ List.mem_cons_self, hpending, _, _,
    runs_compress (plainExecutor .skip ["weather"]) planState ⟨"", []⟩, ?_⟩
  intro hinvisible
  rw [← hinvisible.decision] at hdecision
  cases hdecision

end ContextCompressor

end TripGraph
