import TripGraph.Plan.Scheduler
import TripGraph.Tools.Policy

/-! # Gating the tools of a disabled MCP

With MCP disabled, no choice of a strategy is selected if it is an MCP tool. The hint and
the tools to fall back to are not gated.
-/

namespace TripGraph

open Interaction

theorem ToolPolicyDecision.eq_of_validated {own decision : ToolPolicyDecision}
    {confidence : HostFloat} (h : own.validated confidence = .ok decision) :
    ∃ value, decision = { own with confidence := value } := by
  unfold validated at h
  split at h
  next value _ => exact ⟨value, (Except.ok.inj h).symm⟩
  · cases h

namespace ToolPolicyEngine

variable {engine : ToolPolicyEngine} {toolHint : Option String}

/-- The tool can be selected as a choice of the strategy. -/
def Usable (engine : ToolPolicyEngine) (name : String) : Prop :=
  name ≠ "" ∧ name ∈ engine.registry ∧ engine.isMcp name = false

/-- One of the tools a strategy considers can be selected. -/
def Preference.HasUsable (engine : ToolPolicyEngine) (preference : Preference) : Prop :=
  ∃ name, (preference.preferred = some name ∨ name ∈ preference.fallbacks) ∧ Usable engine name

/-- The hint is registered. -/
def HintRegistered (engine : ToolPolicyEngine) (toolHint : Option String) (name : String) : Prop :=
  toolHint = some name ∧ name ≠ "" ∧ name ∈ engine.registry

/-- A tool of the family of this one that is not an MCP tool is registered. -/
def HasOtherOfFamily (engine : ToolPolicyEngine) (name : String) : Prop :=
  toolFamily (some name) ≠ .unknown ∧ ∃ other ∈ engine.registry,
    engine.isMcp other = false ∧ toolFamily (some other) = toolFamily (some name)

theorem available_iff (hdisabled : engine.mcpEnabled = false) {name : String} :
    engine.available name = true ↔ Usable engine name := by
  simp [available, Usable, has, hdisabled, and_assoc]

/-- Only a usable tool is picked, and one is picked if there is any. -/
theorem pickAvailable_cases (hdisabled : engine.mcpEnabled = false) (preference : Preference) :
    (∃ name, engine.pickAvailable preference.preferred preference.fallbacks = some name ∧
        Usable engine name ∧ Preference.HasUsable engine preference) ∨
      engine.pickAvailable preference.preferred preference.fallbacks = none ∧
        ¬ Preference.HasUsable engine preference := by
  unfold pickAvailable
  cases hfirst : preference.preferred.filter engine.available with
  | some name =>
      obtain ⟨hpreferred, havailable⟩ := Option.filter_eq_some_iff.mp hfirst
      have husable := (available_iff hdisabled).mp havailable
      exact Or.inl ⟨name, rfl, husable, name, Or.inl hpreferred, husable⟩
  | none =>
      cases hfind : preference.fallbacks.find? engine.available with
      | some name =>
          have husable := (available_iff hdisabled).mp (List.find?_some hfind)
          exact Or.inl ⟨name, rfl, husable, name, Or.inr (List.mem_of_find?_eq_some hfind), husable⟩
      | none =>
          refine Or.inr ⟨rfl, ?_⟩
          rintro ⟨name, hpreferred | hfallback, husable⟩
          · rw [hpreferred, Option.filter_some, if_pos ((available_iff hdisabled).mpr husable)]
              at hfirst
            cases hfirst
          · exact List.find?_eq_none.mp hfind name hfallback ((available_iff hdisabled).mpr husable)

/-- What is selected: a usable choice, else the registered hint. -/
theorem select_cases (hdisabled : engine.mcpEnabled = false) (preference : Preference) :
    (∃ name reason confidence, engine.select toolHint preference = some (name, reason, confidence) ∧
      Usable engine name ∧ Preference.HasUsable engine preference) ∨
    (∃ name reason confidence, engine.select toolHint preference = some (name, reason, confidence) ∧
      HintRegistered engine toolHint name ∧ ¬ Preference.HasUsable engine preference) ∨
    engine.select toolHint preference = none ∧ (∀ name, ¬ HintRegistered engine toolHint name) ∧
      ¬ Preference.HasUsable engine preference := by
  unfold select
  rcases pickAvailable_cases hdisabled preference with ⟨name, hpick, husable, hhas⟩ | ⟨hpick, hhas⟩
  · rw [hpick]
    exact Or.inl ⟨name, _, _, rfl, husable, hhas⟩
  · rw [hpick]
    dsimp only
    split
    next hhint =>
      obtain ⟨htruthy, hregistered⟩ := Bool.and_eq_true_iff.mp hhint
      obtain ⟨name, rfl, hname⟩ := truthy_iff.mp htruthy
      rw [orText, if_neg hname] at hregistered ⊢
      exact Or.inr (Or.inl ⟨name, _, _, rfl, ⟨rfl, hname, of_decide_eq_true hregistered⟩, hhas⟩)
    next hhint =>
      refine Or.inr (Or.inr ⟨rfl, ?_, hhas⟩)
      rintro name ⟨rfl, hname, hregistered⟩
      apply hhint
      rw [Bool.and_eq_true_iff, orText, if_neg hname]
      exact ⟨truthy_iff.mpr ⟨name, rfl, hname⟩, decide_eq_true hregistered⟩

/-! ## Gated decisions -/

/-- The decision names no MCP tool, except for a hint without another tool of its family. -/
structure Gated (engine : ToolPolicyEngine) (toolHint : Option String)
    (decision : ToolPolicyDecision) : Prop where
  selected : ∀ name, decision.selectedTool = some name → engine.isMcp name = true →
    toolHint = some name ∧ ¬ HasOtherOfFamily engine name
  fallbacks : ∀ name ∈ decision.fallbackCandidates, engine.isMcp name = false

/-- When decisions are gated: an MCP tool held in reserve is the selected hint itself, or is
not registered while another tool is selected; and a registered MCP hint without a usable
choice has no other tool of its family. -/
structure Safe (engine : ToolPolicyEngine) (toolHint : Option String) (preference : Preference) :
    Prop where
  registered : ∀ name ∈ preference.fallbacks, engine.isMcp name = true → name ∈ engine.registry →
    toolHint = some name ∧ name ≠ "" ∧ ¬ Preference.HasUsable engine preference
  unregistered : ∀ name ∈ preference.fallbacks, engine.isMcp name = true →
    name ∉ engine.registry →
      Preference.HasUsable engine preference ∨ ∃ hint, HintRegistered engine toolHint hint
  hint : ∀ name, HintRegistered engine toolHint name → engine.isMcp name = true →
    ¬ Preference.HasUsable engine preference → ¬ HasOtherOfFamily engine name

section Decisions

variable {preference : Preference} {name : String} {decision : ToolPolicyDecision}

/-- What a decision with a selected tool names. -/
structure Selects (engine : ToolPolicyEngine) (preference : Preference) (name : String)
    (decision : ToolPolicyDecision) : Prop where
  selected : decision.selectedTool = some name
  fallbacks : ∀ other, other ∈ decision.fallbackCandidates ↔
    other ∈ preference.fallbacks ∧ other ≠ name ∧ other ∈ engine.registry

theorem gated_iff_safe_of_usable (h : Selects engine preference name decision)
    (husable : Usable engine name) (hhas : Preference.HasUsable engine preference) :
    Gated engine toolHint decision ↔ Safe engine toolHint preference := by
  have hne : ∀ other, engine.isMcp other = true → other ≠ name := by
    rintro other hmcp rfl
    cases husable.2.2.symm.trans hmcp
  constructor
  · intro hgated
    refine ⟨fun other hother hmcp hregistered => ?_, fun _ _ _ _ => Or.inl hhas,
      fun _ _ _ hnot => absurd hhas hnot⟩
    have hlisted := (h.fallbacks other).mpr ⟨hother, hne other hmcp, hregistered⟩
    cases (hgated.fallbacks other hlisted).symm.trans hmcp
  · intro hsafe
    refine ⟨fun own hown hmcp => ?_, fun other hother => ?_⟩
    · cases hown.symm.trans h.selected
      exact absurd rfl (hne name hmcp)
    · obtain ⟨hlisted, -, hregistered⟩ := (h.fallbacks other).mp hother
      by_contra hmcp
      exact (hsafe.registered other hlisted (Bool.eq_true_of_not_eq_false hmcp) hregistered).2.2
        hhas

theorem gated_iff_safe_of_hint (h : Selects engine preference name decision)
    (hhint : HintRegistered engine toolHint name)
    (hhas : ¬ Preference.HasUsable engine preference) :
    Gated engine toolHint decision ↔ Safe engine toolHint preference := by
  have hsame : ∀ other, toolHint = some other → other = name := by
    intro other hother
    exact Option.some.inj (hother.symm.trans hhint.1)
  constructor
  · intro hgated
    constructor
    · intro other hother hmcp hregistered
      by_cases heq : other = name
      · rw [heq]
        exact ⟨hhint.1, hhint.2.1, hhas⟩
      · have hlisted := (h.fallbacks other).mpr ⟨hother, heq, hregistered⟩
        cases (hgated.fallbacks other hlisted).symm.trans hmcp
    · exact fun _ _ _ _ => Or.inr ⟨name, hhint⟩
    · intro other hother hmcp _
      obtain rfl := hsame other hother.1
      exact (hgated.selected other h.selected hmcp).2
  · intro hsafe
    refine ⟨fun own hown hmcp => ?_, fun other hother => ?_⟩
    · cases hown.symm.trans h.selected
      exact ⟨hhint.1, hsafe.hint name hhint hmcp hhas⟩
    · obtain ⟨hlisted, hne, hregistered⟩ := (h.fallbacks other).mp hother
      by_contra hmcp
      have hown := hsafe.registered other hlisted (Bool.eq_true_of_not_eq_false hmcp) hregistered
      exact hne (hsame other hown.1)

theorem gated_iff_safe_of_none (hselected : decision.selectedTool = none)
    (hfallbacks : decision.fallbackCandidates = preference.fallbacks)
    (hnone : ∀ name, ¬ HintRegistered engine toolHint name)
    (hhas : ¬ Preference.HasUsable engine preference) :
    Gated engine toolHint decision ↔ Safe engine toolHint preference := by
  constructor
  · intro hgated
    have hclean : ∀ other ∈ preference.fallbacks, engine.isMcp other = false := by
      rw [← hfallbacks]
      exact hgated.fallbacks
    refine ⟨fun other hother hmcp => ?_, fun other hother hmcp => ?_,
      fun other hother => absurd hother (hnone other)⟩
    · cases (hclean other hother).symm.trans hmcp
    · cases (hclean other hother).symm.trans hmcp
  · intro hsafe
    refine ⟨fun own hown => ?_, fun other hother => ?_⟩
    · cases hown.symm.trans hselected
    · rw [hfallbacks] at hother
      by_contra hmcp
      have hmcp := Bool.eq_true_of_not_eq_false hmcp
      by_cases hregistered : other ∈ engine.registry
      · obtain ⟨hhint, hne, -⟩ := hsafe.registered other hother hmcp hregistered
        exact hnone other ⟨hhint, hne, hregistered⟩
      · rcases hsafe.unregistered other hother hmcp hregistered with husable | ⟨hint, hhint⟩
        · exact hhas husable
        · exact hnone hint hhint

end Decisions

/-- A decision is gated if and only if the preference of the strategy is safe. -/
theorem gated_decide_iff (hdisabled : engine.mcpEnabled = false) {task query : String}
    {policyOverride : Option ToolPolicyStrategy} {decision : ToolPolicyDecision}
    (h : engine.decide toolHint task query policyOverride = .ok decision) :
    Gated engine toolHint decision ↔
      Safe engine toolHint (engine.preference toolHint task query policyOverride) := by
  unfold ToolPolicyEngine.decide at h
  dsimp only at h
  generalize engine.preference toolHint task query policyOverride = preference at h ⊢
  have hlisted : ∀ name other : String, other ∈ preference.fallbacks.filter (fun own =>
      Decidable.decide (own ≠ name) && engine.has own) ↔
        other ∈ preference.fallbacks ∧ other ≠ name ∧ other ∈ engine.registry := by
    intro name other
    rw [List.mem_filter, Bool.and_eq_true, has, decide_eq_true_iff, decide_eq_true_iff]
  rcases select_cases hdisabled preference with
    ⟨name, reason, confidence, hselect, husable, hhas⟩ |
      ⟨name, reason, confidence, hselect, hhint, hhas⟩ | ⟨hselect, hnone, hhas⟩
  · rw [hselect] at h
    obtain ⟨value, rfl⟩ := ToolPolicyDecision.eq_of_validated h
    exact gated_iff_safe_of_usable ⟨rfl, hlisted name⟩ husable hhas
  · rw [hselect] at h
    obtain ⟨value, rfl⟩ := ToolPolicyDecision.eq_of_validated h
    exact gated_iff_safe_of_hint ⟨rfl, hlisted name⟩ hhint hhas
  · rw [hselect] at h
    obtain ⟨value, rfl⟩ := ToolPolicyDecision.eq_of_validated h
    exact gated_iff_safe_of_none rfl rfl hnone hhas

theorem gated_untimed_iff {decision : ToolPolicyDecision} :
    Gated engine toolHint decision.untimed ↔ Gated engine toolHint decision :=
  ⟨fun h => ⟨h.selected, h.fallbacks⟩, fun h => ⟨h.selected, h.fallbacks⟩⟩

/-- A decision of the engine has no latency. -/
theorem untimed_of_decide {task query : String} {policyOverride : Option ToolPolicyStrategy}
    {decision : ToolPolicyDecision}
    (h : engine.decide toolHint task query policyOverride = .ok decision) :
    decision.untimed = decision := by
  unfold ToolPolicyEngine.decide at h
  dsimp only at h
  split at h <;> (obtain ⟨value, rfl⟩ := ToolPolicyDecision.eq_of_validated h; rfl)

/-! ## Falling back -/

/-- No fallback of this decision calls an MCP tool. -/
def NeverCallsMcp (engine : ToolPolicyEngine) (decision : ToolPolicyDecision) : Prop :=
  ∀ (config : ExecutorConfig) (step : PlanStep) (state : PlanState) (toolArgs : Args)
    (attempt : Nat) (failedTool failureReason : String) (trace : List Event)
    (result : Except Raised _),
    Runs (PlanExecutor.tryPolicyFallback config step state toolArgs attempt failedTool decision
      failureReason) trace result →
    ∀ event ∈ trace, ∀ tool args callId, event.op = .executeLlmCall tool args callId →
      engine.isMcp tool = false

/-- Only candidates are called. -/
theorem asks_tryCandidates {config : ExecutorConfig} {step : PlanStep} {toolArgs : Args}
    {attempt : Nat} {failedTool failureReason : String} {decision : ToolPolicyDecision}
    (candidates : List String) (state : PlanState) :
    Program.Asks (fun op : Op => ∀ tool args callId, op = .executeLlmCall tool args callId →
        tool ∈ candidates)
      (PlanExecutor.tryCandidates config step toolArgs attempt failedTool decision failureReason
        candidates state) := by
  induction candidates generalizing state with
  | nil => trivial
  | cons candidate rest ih =>
      have hrest : ∀ own, Program.Asks (fun op : Op => ∀ tool args callId,
          op = .executeLlmCall tool args callId → tool ∈ candidate :: rest)
            (PlanExecutor.tryCandidates config step toolArgs attempt failedTool decision
              failureReason rest own) := by
        intro own
        apply (ih own).mono _ (fun _ h => h)
        intro op hop tool args callId heq
        exact List.mem_cons_of_mem _ (hop tool args callId heq)
      rw [PlanExecutor.tryCandidates]
      split
      · exact hrest state
      · apply respects_asking
        · intro tool args callId heq
          cases heq
          exact List.mem_cons_self
        · intro observation
          dsimp only
          split
          · apply respects_asking
            · intro tool args callId heq
              cases heq
            · intro _
              split
              · trivial
              · exact hrest _
          · split
            · trivial
            · exact hrest _

theorem Gated.neverCallsMcp {decision : ToolPolicyDecision} (h : Gated engine toolHint decision) :
    NeverCallsMcp engine decision := by
  intro config step state toolArgs attempt failedTool failureReason trace result hrun event hevent
    tool args callId hop
  apply h.fallbacks
  unfold PlanExecutor.tryPolicyFallback at hrun
  split at hrun
  · exact (asks_tryCandidates _ _).asks_of_runs hrun event hevent tool args callId hop
  · rw [(runs_pure_iff.mp hrun).1] at hevent
    cases hevent

/-- With MCP disabled, a decision that is returned keeps MCP tools out, and so do the fallbacks
of the executor, if and only if the preference of the strategy is safe. -/
theorem decide_gated_iff {engine : ToolPolicyEngine} {toolHint : Option String}
    {task query : String} {policyOverride : Option ToolPolicyStrategy}
    {decision : ToolPolicyDecision} (hdisabled : engine.mcpEnabled = false)
    (h : engine.decide toolHint task query policyOverride = .ok decision.untimed) :
    Gated engine toolHint decision ∧ NeverCallsMcp engine decision ↔
      Safe engine toolHint (engine.preference toolHint task query policyOverride) := by
  rw [← gated_decide_iff hdisabled h, gated_untimed_iff]
  exact and_iff_left_of_imp Gated.neverCallsMcp

/-- MCP is disabled and no MCP tool is registered. -/
def builtinEngine : ToolPolicyEngine :=
  { registry := ["weather", "map", "budget", "echo"], floats := .exact }

theorem decide_gated_builtinEngine :
    ∃ decision, builtinEngine.decide (some "weather") "查询上海天气" "" none = .ok decision ∧
      Gated builtinEngine (some "weather") decision ∧ NeverCallsMcp builtinEngine decision := by
  have hpreference : (builtinEngine.preference (some "weather") "查询上海天气" "" none).preferred =
        some "weather" ∧
      (builtinEngine.preference (some "weather") "查询上海天气" "" none).fallbacks =
        ["mcp_weather"] := by
    decide +kernel
  have hreturns : (builtinEngine.decide (some "weather") "查询上海天气" "" none).isOk = true := by
    decide +kernel
  obtain ⟨hpreferred, hfallbacks⟩ := hpreference
  have hhas : Preference.HasUsable builtinEngine
      (builtinEngine.preference (some "weather") "查询上海天气" "" none) :=
    ⟨"weather", Or.inl hpreferred, by decide, by decide, by decide⟩
  cases hdecision : builtinEngine.decide (some "weather") "查询上海天气" "" none with
  | error error =>
      rw [hdecision] at hreturns
      cases hreturns
  | ok decision =>
      have huntimed : decision.untimed = decision := untimed_of_decide hdecision
      refine ⟨decision, rfl, (decide_gated_iff rfl (huntimed ▸ hdecision)).mpr ⟨?_, ?_, ?_⟩⟩
      · rw [hfallbacks]
        intro name hname _ hregistered
        rw [List.mem_singleton.mp hname] at hregistered
        exact absurd hregistered (by decide)
      · exact fun _ _ _ _ => Or.inl hhas
      · exact fun _ _ _ hnot => absurd hhas hnot

/-- MCP is disabled and two of its tools are registered. -/
def leftoverEngine : ToolPolicyEngine :=
  { registry := ["weather", "map", "mcp_weather", "mcp_map"], floats := .exact }

/-- An executor that falls back as the policy engine says. -/
def fallingBack : ExecutorConfig :=
  { plainExecutor .skip leftoverEngine.registry with
    toolPolicyEnabled := true, mcpFallbackEnabled := true, policyEngineConfigured := true }

/-- The calls of a run in which the builtin tool fails. -/
def callsAfterFailure (decision : ToolPolicyDecision) : List String :=
  (Components.exec
    { executeLlmCall := fun tool args _ =>
        { success := Decidable.decide (tool ≠ "weather"), tool := tool, args := args } } {}
    (PlanExecutor.execute fallingBack 2 weatherPlan
      ((PlanExecutor.begun weatherPlan "default" {}).setPolicyDecision 1 decision))).trace.filterMap
    fun event => match event.op with
      | .executeLlmCall tool _ _ => some tool
      | _ => none

/-- The engine gates the tool it selects; the executor then calls the MCP tool that the
decision names as a fallback. -/
theorem not_gated_leftoverEngine :
    ∃ decision, leftoverEngine.decide (some "weather") "查询上海天气" "" none = .ok decision ∧
      leftoverEngine.mcpEnabled = false ∧ decision.fallbackCandidates = ["mcp_weather"] ∧
      leftoverEngine.isMcp "mcp_weather" = true ∧
      ¬ Gated leftoverEngine (some "weather") decision ∧
      callsAfterFailure decision = ["weather", "mcp_weather"] := by
  have hdecision : ((leftoverEngine.decide (some "weather") "查询上海天气" "" none).map fun own =>
      (own.fallbackCandidates, callsAfterFailure own)) =
        .ok (["mcp_weather"], ["weather", "mcp_weather"]) := by
    decide +kernel
  cases hown : leftoverEngine.decide (some "weather") "查询上海天气" "" none with
  | error error =>
      rw [hown] at hdecision
      cases hdecision
  | ok decision =>
      rw [hown] at hdecision
      obtain ⟨hfallbacks, hcalls⟩ := Prod.mk.inj (Except.ok.inj hdecision)
      refine ⟨decision, rfl, rfl, hfallbacks, by decide, ?_, hcalls⟩
      intro hgated
      have hmcp := hgated.fallbacks "mcp_weather" (hfallbacks ▸ List.mem_cons_self)
      exact absurd hmcp (by decide)

end ToolPolicyEngine

end TripGraph
