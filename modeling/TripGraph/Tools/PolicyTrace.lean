import TripGraph.Runtime.Shared
import TripGraph.Tools.Gating

/-! # The integrity of the policy trace

The tracer keeps an entry for each decision, and counters beside the entries. A fallback
overwrites the last entry, whichever step that is about, and keeps the provider of the tool
that failed.
-/

namespace TripGraph

open Interaction

namespace ToolPolicyTracer

/-! ## Calls -/

/-- A call of the tracer. -/
inductive Call
  | record (entry : ToolPolicyTraceEntry)
  | fallback (entry : ToolPolicyTraceEntry) (fallbackTool failureReason recoveryAction : String)

def apply (tracer : ToolPolicyTracer) : Call → ToolPolicyTracer
  | .record entry => tracer.record entry
  | .fallback entry fallbackTool failureReason recoveryAction =>
      tracer.recordFallback entry fallbackTool failureReason recoveryAction

/-- The condition holds of every call, at the tracer the call finds. -/
def Along (P : ToolPolicyTracer → Call → Prop) : ToolPolicyTracer → List Call → Prop
  | _, [] => True
  | tracer, call :: rest => P tracer call ∧ Along P (tracer.apply call) rest

/-- How the tracer is called: with decisions of a policy engine, and with fallbacks for steps
recorded before. -/
def Legal (tracer : ToolPolicyTracer) : Call → Prop
  | .record entry => ∃ (engine : ToolPolicyEngine) (toolHint : Option String) (task query : String)
      (policyOverride : Option ToolPolicyStrategy),
        engine.decide toolHint task query policyOverride = .ok entry.decision.untimed
  | .fallback entry _ _ _ => ∃ own ∈ tracer.entries, own.stepId = entry.stepId

/-! ## Integrity -/

/-- The counters, recomputed from the entries. -/
def recount (entries : List ToolPolicyTraceEntry) : List (String × Nat) :=
  [("tool_policy_decision_count", entries.length),
    ("mcp_selected_count", entries.countP fun own => decide (own.decision.selectedProvider = .mcp)),
    ("builtin_selected_count",
      entries.countP fun own => decide (own.decision.selectedProvider = .builtin)),
    ("fallback_count", entries.countP fun own => own.decision.fallbackUsed)]

/-- Every entry has the provider of its tool, and the counters agree with the entries. -/
structure Intact (tracer : ToolPolicyTracer) : Prop where
  provider : ∀ own ∈ tracer.entries,
    own.decision.selectedProvider = toolProvider own.decision.selectedTool
  counters : tracer.counters = recount tracer.entries

/-- Nothing but the latest entry of the step is different. -/
def ChangesLatest (stepId : Option Int) (before after : List ToolPolicyTraceEntry) : Prop :=
  ∃ front latest rest updated, before = front ++ latest :: rest ∧ latest.stepId = stepId ∧
    (∀ own ∈ rest, own.stepId ≠ stepId) ∧ after = front ++ updated :: rest

/-- What the trace promises of a call: it is intact afterwards, and a fallback has changed the
latest entry of its step only. -/
def Keeps (tracer : ToolPolicyTracer) (call : Call) : Prop :=
  Intact (tracer.apply call) ∧
    match call with
    | .record _ => True
    | .fallback entry _ _ _ =>
        ChangesLatest entry.stepId tracer.entries (tracer.apply call).entries

/-- When a fallback is recorded, the last entry is one of the step and has no fallback yet, and
it, the given entry and the fallback tool have one provider. -/
def Fits (tracer : ToolPolicyTracer) : Call → Prop
  | .record _ => True
  | .fallback entry fallbackTool _ _ => ∃ last, tracer.entries.getLast? = some last ∧
      last.stepId = entry.stepId ∧ last.decision.fallbackUsed = false ∧
      last.decision.selectedProvider = entry.decision.selectedProvider ∧
      entry.decision.selectedProvider = toolProvider (some fallbackTool)

variable {tracer : ToolPolicyTracer} {entry : ToolPolicyTraceEntry}
  {fallbackTool failureReason recoveryAction : String}

/-- A decision of the engine has the provider of its tool. -/
theorem provider_of_decide {engine : ToolPolicyEngine} {toolHint : Option String}
    {task query : String} {policyOverride : Option ToolPolicyStrategy}
    {decision : ToolPolicyDecision}
    (h : engine.decide toolHint task query policyOverride = .ok decision) :
    decision.selectedProvider = toolProvider decision.selectedTool := by
  unfold ToolPolicyEngine.decide at h
  dsimp only at h
  split at h <;> (obtain ⟨value, rfl⟩ := ToolPolicyDecision.eq_of_validated h; rfl)

theorem traceEnabled_apply (call : Call) : (tracer.apply call).traceEnabled =
    tracer.traceEnabled := by
  cases call with
  | record entry =>
      change (tracer.record entry).traceEnabled = _
      unfold record
      split <;> rfl
  | fallback entry fallbackTool failureReason recoveryAction =>
      change (tracer.recordFallback entry fallbackTool failureReason recoveryAction).traceEnabled =
        _
      unfold recordFallback
      split <;> rfl

/-- Recording a decision adds its entry and counts it. -/
theorem keeps_record (henabled : tracer.traceEnabled = true) (hintact : Intact tracer)
    (hlegal : Legal tracer (.record entry)) : Keeps tracer (.record entry) := by
  obtain ⟨engine, toolHint, task, query, policyOverride, hdecide⟩ := hlegal
  refine ⟨?_, trivial⟩
  rw [apply, record, if_pos henabled]
  constructor
  · intro own hown
    rcases List.mem_append.mp hown with hown | hown
    · exact hintact.provider own hown
    · rw [List.mem_singleton.mp hown]
      have hprovider := provider_of_decide hdecide
      exact hprovider
  · have hcounters := hintact.counters
    simp only [counters, recount, List.cons.injEq, Prod.mk.injEq, true_and, and_true] at hcounters ⊢
    obtain ⟨hdecisions, hmcp, hbuiltin, hfallback⟩ := hcounters
    simp [hdecisions, hmcp, hbuiltin, hfallback, List.countP_append, List.countP_cons]

/-- A fallback puts an entry with the provider of the given one in the place of the last entry,
and counts one fallback more. -/
theorem recordFallback_spec (henabled : tracer.traceEnabled = true) (hne : tracer.entries ≠ [])
    (entry : ToolPolicyTraceEntry) (fallbackTool failureReason recoveryAction : String) :
    ∃ updated : ToolPolicyTraceEntry,
      (tracer.recordFallback entry fallbackTool failureReason recoveryAction).entries =
        tracer.entries.dropLast ++ [updated] ∧
      (tracer.recordFallback entry fallbackTool failureReason recoveryAction).counters =
        counters { tracer with fallbackCount := tracer.fallbackCount + 1 } ∧
      updated.stepId = entry.stepId ∧ updated.decision.fallbackUsed = true ∧
      updated.decision.selectedProvider = entry.decision.selectedProvider ∧
      updated.decision.selectedTool = some fallbackTool := by
  rw [recordFallback, if_pos ⟨henabled, hne⟩]
  exact ⟨_, rfl, rfl, rfl, rfl, rfl, rfl⟩

section Fallback

variable {front : List ToolPolicyTraceEntry} {last updated : ToolPolicyTraceEntry}

/-- Overwriting the last entry changes the latest one of the step exactly if it is that. -/
theorem changesLatest_concat_iff (hupdated : updated.stepId = entry.stepId) :
    ChangesLatest entry.stepId (front ++ [last]) (front ++ [updated]) ↔
      last.stepId = entry.stepId := by
  constructor
  · rintro ⟨before, latest, rest, other, hbefore, hlatest, hrest, hafter⟩
    rcases List.eq_nil_or_concat rest with rfl | ⟨middle, final, rfl⟩
    · obtain ⟨-, hsame⟩ := List.append_inj' hbefore rfl
      rw [List.singleton_inj.mp hsame]
      exact hlatest
    · -- otherwise the last entry is left as it is, and is of another step
      have hfinal : updated = final := by
        rw [List.concat_eq_append, ← List.cons_append, ← List.append_assoc] at hafter
        exact List.singleton_inj.mp (List.append_inj' hafter rfl).2
      exact absurd (hfinal ▸ hupdated) (hrest final (by simp))
  · intro hlast
    exact ⟨front, last, [], updated, rfl, hlast, by simp, rfl⟩

/-- One fallback more is counted rightly exactly if the overwritten entry had none and its
provider stays. -/
theorem counters_concat_iff (hentries : tracer.entries = front ++ [last]) (hintact : Intact tracer)
    (hupdated : updated.decision.fallbackUsed = true) :
    counters { tracer with fallbackCount := tracer.fallbackCount + 1 } =
      recount (front ++ [updated]) ↔
      last.decision.fallbackUsed = false ∧
        last.decision.selectedProvider = updated.decision.selectedProvider := by
  have hcounters := hintact.counters
  rw [hentries] at hcounters
  simp only [counters, recount, List.cons.injEq, Prod.mk.injEq, true_and, and_true,
    List.length_append, List.length_singleton, List.countP_append, List.countP_singleton,
    decide_eq_true_eq, hupdated, if_true] at hcounters ⊢
  obtain ⟨hdecisions, hmcp, hbuiltin, hfallback⟩ := hcounters
  rw [hdecisions, hmcp, hbuiltin, hfallback]
  cases last.decision.selectedProvider <;> cases updated.decision.selectedProvider <;>
    cases last.decision.fallbackUsed <;> simp

/-- A fallback keeps the integrity of an intact trace if and only if it fits. -/
theorem keeps_fallback_iff (henabled : tracer.traceEnabled = true) (hintact : Intact tracer)
    (hlegal : Legal tracer (.fallback entry fallbackTool failureReason recoveryAction)) :
    Keeps tracer (.fallback entry fallbackTool failureReason recoveryAction) ↔
      Fits tracer (.fallback entry fallbackTool failureReason recoveryAction) := by
  obtain ⟨own, hown, -⟩ := hlegal
  have hne : tracer.entries ≠ [] := List.ne_nil_of_mem hown
  obtain ⟨front, last, hentries⟩ := (List.eq_nil_or_concat' tracer.entries).resolve_left hne
  obtain ⟨updated, hafter, hcounters, hstep, hused, hprovider, htool⟩ :=
    recordFallback_spec henabled hne entry fallbackTool failureReason recoveryAction
  rw [hentries, List.dropLast_concat] at hafter
  have hchanges : ChangesLatest entry.stepId tracer.entries (front ++ [updated]) ↔
      last.stepId = entry.stepId := by
    rw [hentries]
    exact changesLatest_concat_iff hstep
  have hcount := counters_concat_iff hentries hintact hused
  rw [hprovider] at hcount
  have hlast : tracer.entries.getLast? = some last := by rw [hentries, List.getLast?_concat]
  constructor
  · rintro ⟨⟨hproviders, hrecount⟩, hlatest⟩
    dsimp only [apply] at hproviders hrecount hlatest
    rw [hafter] at hproviders hrecount hlatest
    obtain ⟨hfresh, hsame⟩ := hcount.mp (hcounters.symm.trans hrecount)
    have hown := hproviders updated (by simp)
    rw [hprovider, htool] at hown
    exact ⟨last, hlast, hchanges.mp hlatest, hfresh, hsame, hown⟩
  · rintro ⟨final, hfinal, hown, hfresh, hsame, htoolProvider⟩
    obtain rfl : last = final := Option.some.inj (hlast.symm.trans hfinal)
    refine ⟨⟨?_, ?_⟩, ?_⟩ <;> dsimp only [apply] <;> rw [hafter]
    · intro kept hkept
      rcases List.mem_append.mp hkept with hkept | hkept
      · exact hintact.provider kept (by rw [hentries]; exact List.mem_append_left _ hkept)
      · rw [List.mem_singleton.mp hkept, hprovider, htool]
        exact htoolProvider
    · exact hcounters.trans (hcount.mpr ⟨hfresh, hsame⟩)
    · exact hchanges.mpr hown

end Fallback

theorem keeps_iff (henabled : tracer.traceEnabled = true) (hintact : Intact tracer) {call : Call}
    (hlegal : Legal tracer call) : Keeps tracer call ↔ Fits tracer call := by
  cases call with
  | record entry => exact iff_of_true (keeps_record henabled hintact hlegal) trivial
  | fallback => exact keeps_fallback_iff henabled hintact hlegal

/-- The trace keeps its integrity through all calls if and only if every fallback fits. -/
theorem along_keeps_iff_of_intact {calls : List Call} (henabled : tracer.traceEnabled = true)
    (hintact : Intact tracer) (hlegal : Along Legal tracer calls) :
    Along Keeps tracer calls ↔ Along Fits tracer calls := by
  induction calls generalizing tracer with
  | nil => rfl
  | cons call rest ih =>
      obtain ⟨hcall, hrest⟩ := hlegal
      unfold Along
      rw [keeps_iff henabled hintact hcall]
      refine and_congr_right fun hfits => ?_
      have hkeeps := (keeps_iff henabled hintact hcall).mpr hfits
      exact ih ((traceEnabled_apply call).trans henabled) hkeeps.1 hrest

/-- With tracing enabled, the trace keeps its integrity through a run of calls if and only if
every fallback of the run fits. -/
theorem along_keeps_iff {calls : List Call} (hlegal : Along Legal {} calls) :
    Along Keeps {} calls ↔ Along Fits {} calls :=
  along_keeps_iff_of_intact rfl ⟨by simp, rfl⟩ hlegal

/-- The registry has two builtin tools and an MCP tool. -/
def cityEngine : ToolPolicyEngine :=
  { registry := ["weather", "map", "mcp_weather"], floats := .exact }

/-- The decision of `cityEngine` for the hint `weather`. -/
def weatherDecision : ToolPolicyDecision :=
  { originalToolHint := some "weather"
    selectedTool := some "weather"
    selectedProvider := .builtin
    toolFamily := .weather
    policyName := "planner_hint_first"
    confidence := 9 / 10
    fallbackCandidates := ["mcp_weather"]
    reason := "planner_hint_first respects hint=weather" }

/-- The decision of `cityEngine` for the hint `map`. -/
def mapDecision : ToolPolicyDecision :=
  { originalToolHint := some "map"
    selectedTool := some "map"
    selectedProvider := .builtin
    toolFamily := .map
    policyName := "planner_hint_first"
    confidence := 9 / 10
    fallbackCandidates := []
    reason := "planner_hint_first respects hint=map" }

/-- Two steps are routed, then the tool of the first one falls back. -/
def routedCalls : List Call :=
  [.record { decision := weatherDecision, stepId := some 1 },
    .record { decision := mapDecision, stepId := some 2 },
    .fallback { decision := weatherDecision, stepId := some 1 } "mcp_weather" "timeout"
      "builtin_to_mcp_fallback"]

/-- The fallback of the first step overwrites the entry of the second one, and gives the MCP tool
the provider `builtin`. -/
theorem not_keeps_routedCalls :
    Along Legal {} routedCalls ∧ ¬ Along Keeps {} routedCalls ∧
      (routedCalls.foldl apply {}).entries.map (fun own =>
          (own.stepId, own.decision.selectedTool, own.decision.selectedProvider)) =
        [(some 1, some "weather", .builtin), (some 1, some "mcp_weather", .builtin)] := by
  have hweather : cityEngine.decide (some "weather") "" "" none = .ok weatherDecision := by
    decide +kernel
  have hmap : cityEngine.decide (some "map") "" "" none = .ok mapDecision := by
    decide +kernel
  have hafter : (routedCalls.foldl apply {}).entries.map (fun own =>
      (own.stepId, own.decision.selectedTool, own.decision.selectedProvider)) =
        [(some 1, some "weather", .builtin), (some 1, some "mcp_weather", .builtin)] := by
    decide +kernel
  refine ⟨⟨⟨_, _, _, _, _, hweather⟩, ⟨_, _, _, _, _, hmap⟩, ?_, trivial⟩, ?_, hafter⟩
  · exact ⟨{ decision := weatherDecision, stepId := some 1 }, by decide +kernel, rfl⟩
  · rintro ⟨-, -, ⟨⟨hprovider, -⟩, -⟩, -⟩
    exact absurd hprovider (by decide +kernel)

/-- A fallback right after the decision, to a tool of the same provider, keeps the trace intact. -/
theorem along_keeps_iff_weather :
    Along Keeps {}
        [.record { decision := weatherDecision, stepId := some 1 },
          .fallback { decision := weatherDecision, stepId := some 1 } "map" "timeout"
            "tool_policy_fallback"] ↔
      Along Fits {}
        [.record { decision := weatherDecision, stepId := some 1 },
          .fallback { decision := weatherDecision, stepId := some 1 } "map" "timeout"
            "tool_policy_fallback"] := by
  have hweather : cityEngine.decide (some "weather") "" "" none = .ok weatherDecision := by
    decide +kernel
  exact along_keeps_iff ⟨⟨_, _, _, _, _, hweather⟩,
    ⟨{ decision := weatherDecision, stepId := some 1 }, by decide +kernel, rfl⟩, trivial⟩

end ToolPolicyTracer

end TripGraph
