import TripGraph.Runtime.Components
import TripGraph.Tools.Gating

/-! # Where a tool hint is routed to

The family a decision is about is that of the hint, or one found in the text when the hint
has none. A decision made again on the tool it has selected selects the same tool.
-/

namespace TripGraph

open Interaction

theorem toolFamily_builtinToolForFamily {family : ToolFamily} {name : String}
    (h : builtinToolForFamily family = some name) :
    toolFamily (some name) = family ∧ family ≠ .unknown := by
  cases family <;> cases h <;> decide +kernel

theorem toolFamily_mcpToolForFamily {family : ToolFamily} {mcpPrefix name : String}
    (h : mcpToolForFamily family mcpPrefix = some name) :
    toolFamily (some name) = family ∧ family ≠ .unknown := by
  cases family <;> cases h <;> decide +kernel

/-- A builtin tool has a family. -/
theorem toolProvider_ne_builtin {name : String} (h : toolFamily (some name) = .unknown) :
    toolProvider (some name) ≠ .builtin := by
  intro hprovider
  unfold toolProvider at hprovider
  unfold toolFamily at h
  dsimp only at h hprovider
  split at hprovider
  · cases hprovider
  next hne =>
    rw [if_neg hne] at h
    split at hprovider
    · cases hprovider
    · split at hprovider
      next hbuiltin =>
        simp only [List.mem_cons, List.not_mem_nil, or_false] at hbuiltin
        rcases hbuiltin with hname | hname | hname | hname <;> rw [hname] at h <;>
          exact absurd h (by decide)
      · cases hprovider

@[simp] theorem mem_offered {tool : Option String} {name : String} :
    name ∈ offered tool ↔ tool = some name ∧ name ≠ "" := by
  simp [offered]

/-- A strategy that answers with the hint when the hint is registered. -/
def ToolPolicyStrategy.respectsHint : ToolPolicyStrategy → Bool
  | .plannerHintFirst | .deterministic | .costAware => true
  | .builtinFirst | .mcpFirst | .reliabilityAware => false

namespace ToolPolicyEngine

variable {engine : ToolPolicyEngine} {toolHint : Option String} {strategy : ToolPolicyStrategy}
  {family : ToolFamily} {task query : String} {policyOverride : Option ToolPolicyStrategy}
  {name hint : String}

/-! ## The tools a strategy considers -/

/-- The tools of a preference, in the order in which they are tried. -/
def Preference.tools (preference : Preference) : List String :=
  preference.preferred.toList ++ preference.fallbacks

theorem pickAvailable_eq (preference : Preference) :
    engine.pickAvailable preference.preferred preference.fallbacks =
      (Preference.tools preference).find? engine.available := by
  unfold pickAvailable Preference.tools
  cases preference.preferred with
  | none => rfl
  | some own => cases h : engine.available own <;> simp [Option.filter, h]

theorem ne_empty_of_available (h : engine.available name = true) : name ≠ "" := by
  rintro rfl
  cases h

theorem mem_registry_of_available (h : engine.available name = true) : name ∈ engine.registry := by
  simp only [available, has, Bool.and_eq_true, decide_eq_true_eq] at h
  exact h.1.2

/-- A tool of the family. -/
def OfFamily (engine : ToolPolicyEngine) (family : ToolFamily) (name : String) : Prop :=
  builtinToolForFamily family = some name ∨ mcpToolForFamily family engine.mcpPrefix = some name

theorem OfFamily.toolFamily_eq (h : OfFamily engine family name) :
    toolFamily (some name) = family ∧ family ≠ .unknown := by
  rcases h with h | h
  · exact toolFamily_builtinToolForFamily h
  · exact toolFamily_mcpToolForFamily h

theorem mem_tools_providerFirst {preferred fallback : Option String} {reason : String}
    (h : name ∈ Preference.tools (engine.providerFirst preferred fallback reason)) :
    preferred = some name ∨ fallback = some name := by
  unfold providerFirst at h
  split at h
  · split at h
    · exact Or.inr (by simpa [Preference.tools] using h)
    · simp [Preference.tools] at h
  · have hmem : preferred = some name ∨ fallback = some name ∧ name ≠ "" := by
      simpa [Preference.tools] using h
    exact hmem.imp_right And.left

/-- Of two tools, `providerFirst` passes over none that is available. -/
theorem exists_available_providerFirst {preferred fallback : Option String} {reason : String} :
    (∃ own ∈ Preference.tools (engine.providerFirst preferred fallback reason),
        engine.available own = true) ↔
      ∃ own ∈ offered preferred ++ offered fallback, engine.available own = true := by
  constructor
  · rintro ⟨own, hmem, havailable⟩
    have hne := ne_empty_of_available havailable
    refine ⟨own, ?_, havailable⟩
    rw [List.mem_append, mem_offered, mem_offered]
    exact (mem_tools_providerFirst hmem).imp (⟨·, hne⟩) (⟨·, hne⟩)
  · rintro ⟨own, hmem, havailable⟩
    refine ⟨own, ?_, havailable⟩
    rw [List.mem_append, mem_offered, mem_offered] at hmem
    unfold providerFirst
    split
    next hgated =>
      rcases hmem with ⟨rfl, hne⟩ | ⟨rfl, hne⟩
      · -- a gated first choice is not available
        simp [truthy, orText, hne] at hgated
        simp [available, hgated] at havailable
      · simp [truthy, hne, Preference.tools]
    · simpa [Preference.tools] using hmem.imp_left And.left

/-- The tools of the family whose provider has reliability statistics. -/
def scoredTools (engine : ToolPolicyEngine) (family : ToolFamily) : List String :=
  (if (engine.stats.getProvider family.text "builtin").isSome then
    offered (builtinToolForFamily family) else []) ++
  if (engine.stats.getProvider family.text "mcp").isSome then
    offered (mcpToolForFamily family engine.mcpPrefix) else []

/-- The tools of the family. -/
def familyTools (engine : ToolPolicyEngine) (family : ToolFamily) : List String :=
  offered (builtinToolForFamily family) ++ offered (mcpToolForFamily family engine.mcpPrefix)

theorem ofFamily_of_mem_familyTools (h : name ∈ familyTools engine family) :
    OfFamily engine family name := by
  rw [familyTools, List.mem_append, mem_offered, mem_offered] at h
  exact h.imp And.left And.left

theorem mem_familyTools_of_mem_scoredTools (h : name ∈ scoredTools engine family) :
    name ∈ familyTools engine family := by
  unfold scoredTools at h
  unfold familyTools
  rw [List.mem_append] at h ⊢
  refine h.imp ?_ ?_
  · intro hmem
    split at hmem
    · exact hmem
    · cases hmem
  · intro hmem
    split at hmem
    · exact hmem
    · cases hmem

theorem getProvider_of_not_hasFamily {stats : ToolReliabilityStats} {own : String}
    (h : stats.hasFamily own = false) (provider : String) :
    stats.getProvider own provider = none := by
  unfold ToolReliabilityStats.hasFamily at h
  unfold ToolReliabilityStats.getProvider
  cases hfamily : stats.families.get? own with
  | none => rfl
  | some providers =>
      rw [hfamily] at h
      have hentries : providers.entries = [] := by simpa using h
      simp [Dict.get?, Dict.lookup, hentries]

/-- The choice of at most two candidates, and the other one as its fallback. -/
theorem mem_choice {chosen : ReliabilityScore × Option String}
    {rest : List (ReliabilityScore × Option String)} (hlength : rest.length ≤ 1)
    (hnamed : ∀ candidate ∈ chosen :: rest, truthy candidate.2 = true) :
    name ∈ chosen.2.toList ++ offered (rest.head?.bind Prod.snd) ↔
      ∃ candidate ∈ chosen :: rest, candidate.2 = some name := by
  cases rest with
  | nil => simp [offered]
  | cons other rest =>
      obtain rfl : rest = [] := by simpa using hlength
      obtain ⟨text, htext, hne⟩ := truthy_iff.mp (hnamed other (by simp))
      simp only [List.head?_cons, Option.bind_some, List.mem_append, Option.mem_toList, mem_offered,
        List.mem_cons, List.not_mem_nil, or_false, exists_eq_or_imp, exists_eq_left]
      refine or_congr Iff.rfl (and_iff_left_of_imp ?_)
      rintro hname rfl
      exact hne (Option.some.inj (htext.symm.trans hname))

/-- The candidates of `reliabilityAware`, in the order they are collected. -/
def candidatesOf (engine : ToolPolicyEngine) (family : ToolFamily) (builtin mcp : Option String) :
    List (ReliabilityScore × Option String) :=
  let scores := compareProvidersForFamily engine.floats family.text engine.stats builtin mcp
    engine.weights
  (if truthy builtin then scores.1.toList.map fun own => (own, builtin) else []) ++
    if truthy mcp then scores.2.toList.map fun own => (own, mcp) else []

theorem length_candidatesOf (engine : ToolPolicyEngine) (family : ToolFamily)
    (builtin mcp : Option String) : (candidatesOf engine family builtin mcp).length ≤ 2 := by
  have hone : ∀ (tool : Option String) (score : Option ReliabilityScore),
      (if truthy tool then score.toList.map fun own => (own, tool) else []).length ≤ 1 := by
    intro tool score
    split
    · cases score <;> simp
    · simp
  have hbuiltin := hone builtin
    (compareProvidersForFamily engine.floats family.text engine.stats builtin mcp
      engine.weights).1
  have hmcp := hone mcp
    (compareProvidersForFamily engine.floats family.text engine.stats builtin mcp
      engine.weights).2
  rw [candidatesOf, List.length_append]
  omega

theorem exists_candidate_iff {tool : Option String} {score : Option ReliabilityScore}
    {known : Bool} (hknown : score.isSome = known) :
    (∃ candidate ∈ (if truthy tool then score.toList.map fun own => (own, tool) else []),
      candidate.2 = some name) ↔ name ∈ if known then offered tool else [] := by
  subst hknown
  cases score with
  | none => simp
  | some own =>
      cases tool with
      | none => simp [truthy, offered]
      | some text =>
          by_cases hempty : text = ""
          · simp [truthy, offered, hempty]
          · simp [truthy, offered, hempty, eq_comm]

theorem exists_mem_candidatesOf :
    (∃ candidate ∈ candidatesOf engine family (builtinToolForFamily family)
      (mcpToolForFamily family engine.mcpPrefix), candidate.2 = some name) ↔
        name ∈ scoredTools engine family := by
  simp only [candidatesOf, scoredTools, List.mem_append, or_and_right, exists_or]
  apply or_congr <;> apply exists_candidate_iff <;>
    simp [compareProvidersForFamily, scoreToolProvider]

theorem truthy_of_mem_candidatesOf {builtin mcp : Option String}
    {candidate : ReliabilityScore × Option String}
    (h : candidate ∈ candidatesOf engine family builtin mcp) : truthy candidate.2 = true := by
  rw [candidatesOf, List.mem_append] at h
  rcases h with h | h <;> split at h
  next htruthy =>
    obtain ⟨own, -, rfl⟩ := List.mem_map.mp h
    exact htruthy
  · cases h
  next htruthy =>
    obtain ⟨own, -, rfl⟩ := List.mem_map.mp h
    exact htruthy
  · cases h

/-- `reliabilityAware` considers the tools with statistics, if there are any. -/
theorem reliabilityAware_cases (engine : ToolPolicyEngine) (family : ToolFamily) :
    (scoredTools engine family = [] ∧ ∃ reason,
      engine.reliabilityAware family (builtinToolForFamily family)
        (mcpToolForFamily family engine.mcpPrefix) =
      engine.providerFirst (builtinToolForFamily family)
        (mcpToolForFamily family engine.mcpPrefix) reason) ∨
    scoredTools engine family ≠ [] ∧ ∀ own, own ∈ Preference.tools
      (engine.reliabilityAware family (builtinToolForFamily family)
        (mcpToolForFamily family engine.mcpPrefix)) ↔ own ∈ scoredTools engine family := by
  unfold reliabilityAware
  split
  next hmissing =>
    refine Or.inl ⟨?_, _, rfl⟩
    rw [Bool.or_eq_true, decide_eq_true_eq, Bool.not_eq_true'] at hmissing
    rcases hmissing with rfl | hmissing
    · simp [scoredTools, builtinToolForFamily, mcpToolForFamily, offered]
    · simp [scoredTools, getProvider_of_not_hasFamily hmissing]
  next =>
    have hperm := List.perm_insertionSort
      (fun a b : ReliabilityScore × Option String => !a.1.score.lt b.1.score)
      (candidatesOf engine family (builtinToolForFamily family)
        (mcpToolForFamily family engine.mcpPrefix))
    dsimp only
    unfold candidatesOf at hperm
    dsimp only at hperm
    split
    next hsorted =>
      rw [hsorted] at hperm
      refine Or.inl ⟨List.eq_nil_iff_forall_not_mem.mpr ?_, _, rfl⟩
      intro own hown
      obtain ⟨candidate, hcandidate, -⟩ := exists_mem_candidatesOf.mpr hown
      have hnone : candidate ∈ [] := hperm.mem_iff.mpr hcandidate
      cases hnone
    next chosen rest hsorted =>
      rw [hsorted] at hperm
      have hlength : rest.length ≤ 1 := by
        have hcount := hperm.length_eq
        have hmost := length_candidatesOf engine family (builtinToolForFamily family)
          (mcpToolForFamily family engine.mcpPrefix)
        rw [List.length_cons] at hcount
        unfold candidatesOf at hmost
        dsimp only at hmost
        omega
      have hmem : ∀ own, own ∈ chosen.2.toList ++ offered (rest.head?.bind Prod.snd) ↔
          own ∈ scoredTools engine family := by
        intro own
        rw [← exists_mem_candidatesOf]
        refine (mem_choice hlength ?_).trans ?_
        · exact fun candidate h => truthy_of_mem_candidatesOf (hperm.mem_iff.mp h)
        · exact exists_congr fun candidate => and_congr_left fun _ => hperm.mem_iff
      refine Or.inr ⟨?_, hmem⟩
      obtain ⟨text, htext, -⟩ := truthy_iff.mp
        (truthy_of_mem_candidatesOf (hperm.mem_iff.mp List.mem_cons_self))
      exact List.ne_nil_of_mem ((hmem text).mp (by simp [htext]))

/-- The tools a strategy that does not respect the hint chooses from. -/
def choices (engine : ToolPolicyEngine) (strategy : ToolPolicyStrategy) (family : ToolFamily) :
    List String :=
  match strategy with
  | .reliabilityAware =>
      if scoredTools engine family = [] then familyTools engine family
      else scoredTools engine family
  | _ => familyTools engine family

theorem ofFamily_of_mem_tools (h : strategy.respectsHint = false)
    (hmem : name ∈ Preference.tools (engine.applyStrategy strategy toolHint family task query)) :
    OfFamily engine family name := by
  cases strategy with
  | plannerHintFirst | deterministic | costAware => cases h
  | builtinFirst => exact mem_tools_providerFirst hmem
  | mcpFirst => exact (mem_tools_providerFirst hmem).symm
  | reliabilityAware =>
      change name ∈ Preference.tools (engine.reliabilityAware family _ _) at hmem
      rcases reliabilityAware_cases engine family with
        ⟨-, reason, hsame⟩ | ⟨-, hmem_iff⟩
      · rw [hsame] at hmem
        exact mem_tools_providerFirst hmem
      · exact ofFamily_of_mem_familyTools
          (mem_familyTools_of_mem_scoredTools ((hmem_iff name).mp hmem))

/-- One of the tools of the preference is available if and only if one of the choices is. -/
theorem exists_available_iff (h : strategy.respectsHint = false) :
    (∃ own ∈ Preference.tools (engine.applyStrategy strategy toolHint family task query),
        engine.available own = true) ↔
      ∃ own ∈ choices engine strategy family, engine.available own = true := by
  cases strategy with
  | plannerHintFirst | deterministic | costAware => cases h
  | builtinFirst => exact exists_available_providerFirst
  | mcpFirst =>
      refine exists_available_providerFirst.trans
        (exists_congr fun own => and_congr_left fun _ => ?_)
      change own ∈ _ ++ _ ↔ own ∈ familyTools engine family
      rw [familyTools, List.mem_append, List.mem_append, or_comm]
  | reliabilityAware =>
      change (∃ own ∈ Preference.tools (engine.reliabilityAware family _ _), _) ↔ _
      unfold choices
      rcases reliabilityAware_cases engine family with
        ⟨hscored, reason, hsame⟩ | ⟨hscored, hmem_iff⟩
      · dsimp only
        rw [if_pos hscored, hsame]
        exact exists_available_providerFirst
      · dsimp only
        rw [if_neg hscored]
        exact exists_congr fun own => and_congr_left fun _ => hmem_iff own

/-! ## What a decision selects -/

/-- The hint, if it is registered. -/
def registeredHint (engine : ToolPolicyEngine) (toolHint : Option String) : Option String :=
  toolHint.filter fun name => Decidable.decide (name ≠ "") && engine.has name

/-- The first tool of the preference that is available, else the registered hint. -/
theorem selectedTool_of_decide {decision : ToolPolicyDecision}
    (h : engine.decide toolHint task query policyOverride = .ok decision) :
    decision.selectedTool =
      ((Preference.tools (engine.preference toolHint task query policyOverride)).find?
        engine.available).or (registeredHint engine toolHint) := by
  unfold ToolPolicyEngine.decide at h
  dsimp only at h
  unfold select at h
  rw [pickAvailable_eq] at h
  cases hfind : (Preference.tools (engine.preference toolHint task query policyOverride)).find?
      engine.available with
  | some own =>
      rw [hfind] at h
      obtain ⟨value, rfl⟩ := ToolPolicyDecision.eq_of_validated h
      rfl
  | none =>
      rw [hfind] at h
      dsimp only at h
      rw [Option.none_or, registeredHint]
      cases toolHint with
      | none =>
          obtain ⟨value, rfl⟩ := ToolPolicyDecision.eq_of_validated h
          rfl
      | some hint =>
          by_cases hregistered : (Decidable.decide (hint ≠ "") && engine.has hint) = true
          · have hne : hint ≠ "" := of_decide_eq_true (Bool.and_eq_true_iff.mp hregistered).1
            rw [Option.filter_some, if_pos hregistered]
            simp only [truthy, orText, if_neg hne, hregistered, if_true] at h
            obtain ⟨value, rfl⟩ := ToolPolicyDecision.eq_of_validated h
            rfl
          · rw [Option.filter_some, if_neg hregistered]
            have hnot : ¬ (truthy (some hint) && engine.has (orText (some hint) "")) = true := by
              by_cases hempty : hint = ""
              · simp [truthy, hempty]
              · simpa [truthy, orText, hempty] using hregistered
            rw [if_neg hnot] at h
            obtain ⟨value, rfl⟩ := ToolPolicyDecision.eq_of_validated h
            rfl

theorem applyStrategy_of_respectsHint (h : strategy.respectsHint = true) (hne : hint ≠ "")
    (hregistered : hint ∈ engine.registry) : Preference.tools
      (engine.applyStrategy strategy (some hint) family task query) =
        hint :: offered (if toolProvider (some hint) = .builtin
          then mcpToolForFamily family engine.mcpPrefix else builtinToolForFamily family) := by
  cases strategy <;> simp [ToolPolicyStrategy.respectsHint] at h <;>
    simp [applyStrategy, plannerHintFirst, truthy, orText, hne, has, hregistered, Preference.tools]

/-- The other strategies look at the family of the decision alone. -/
theorem applyStrategy_congr {other : Option String} (h : strategy.respectsHint = false) :
    engine.applyStrategy strategy toolHint family task query =
      engine.applyStrategy strategy other family task query := by
  cases strategy <;> first | rfl | cases h

/-! ## Staying in the family -/

/-- The tools that can be selected in place of a registered hint of no family. -/
def rivals (engine : ToolPolicyEngine) (strategy : ToolPolicyStrategy) (hint : String)
    (family : ToolFamily) : List String :=
  if strategy.respectsHint then
    if engine.available hint then [] else offered (builtinToolForFamily family)
  else choices engine strategy family

/-- The selected tool is registered, and it is the hint or of the hint's own family. -/
def StaysInFamily (engine : ToolPolicyEngine) (hint : String) (decision : ToolPolicyDecision) :
    Prop :=
  ∃ tool, decision.selectedTool = some tool ∧ tool ∈ engine.registry ∧
    (tool = hint ∨ toolFamily (some hint) ≠ .unknown ∧
      toolFamily (some tool) = toolFamily (some hint))

/-- Every tool that is considered for a registered hint is the hint or of the family of the
decision. -/
theorem eq_or_ofFamily_of_mem_tools (hne : hint ≠ "") (hregistered : hint ∈ engine.registry)
    (hmem : name ∈ Preference.tools
      (engine.applyStrategy strategy (some hint) family task query)) :
    name = hint ∨ OfFamily engine family name := by
  cases hrespects : strategy.respectsHint with
  | false => exact Or.inr (ofFamily_of_mem_tools hrespects hmem)
  | true =>
      rw [applyStrategy_of_respectsHint hrespects hne hregistered, List.mem_cons, mem_offered]
        at hmem
      refine hmem.imp_right fun hother => ?_
      split at hother
      · exact Or.inr hother.1
      · exact Or.inl hother.1

/-- For a hint of no family, another tool is found if and only if a rival is available. -/
theorem exists_diverted_iff (strategy : ToolPolicyStrategy) (family : ToolFamily)
    (task query : String) (hne : hint ≠ "") (hregistered : hint ∈ engine.registry)
    (hunknown : toolFamily (some hint) = .unknown) :
    (∃ own, (Preference.tools (engine.applyStrategy strategy (some hint) family task query)).find?
        engine.available = some own ∧ own ≠ hint) ↔
      ∃ own ∈ rivals engine strategy hint family, engine.available own = true := by
  have hother : ∀ own, OfFamily engine family own → own ≠ hint := by
    rintro own hown rfl
    obtain ⟨hfamily, hknown⟩ := hown.toolFamily_eq
    exact hknown (hfamily.symm.trans hunknown)
  have hfound : ∀ tools : List String, (∀ own ∈ tools, OfFamily engine family own) →
      ((∃ own, tools.find? engine.available = some own ∧ own ≠ hint) ↔
        ∃ own ∈ tools, engine.available own = true) := by
    intro tools htools
    constructor
    · rintro ⟨own, hfind, -⟩
      exact ⟨own, List.mem_of_find?_eq_some hfind, List.find?_some hfind⟩
    · intro hexists
      obtain ⟨first, hfirst⟩ := Option.isSome_iff_exists.mp (List.find?_isSome.mpr hexists)
      exact ⟨first, hfirst, hother first (htools first (List.mem_of_find?_eq_some hfirst))⟩
  unfold rivals
  cases hrespects : strategy.respectsHint with
  | false =>
      rw [hfound _ fun own hown => ofFamily_of_mem_tools hrespects hown]
      exact exists_available_iff hrespects
  | true =>
      rw [applyStrategy_of_respectsHint hrespects hne hregistered, if_pos rfl,
        if_neg (toolProvider_ne_builtin hunknown)]
      cases hhint : engine.available hint with
      | true => simp [hhint]
      | false =>
          rw [List.find?_cons_of_neg (by simp [hhint]), if_neg (by simp)]
          exact hfound _ fun own hown => Or.inl (mem_offered.mp hown).1

/-- The tools considered for a registered hint, on the family of the decision. -/
abbrev toolsFor (engine : ToolPolicyEngine) (toolHint : Option String) (task query : String)
    (policyOverride : Option ToolPolicyStrategy) : List String :=
  Preference.tools (engine.preference toolHint task query policyOverride)

theorem registeredHint_of_mem (hne : hint ≠ "") (hregistered : hint ∈ engine.registry) :
    registeredHint engine (some hint) = some hint := by
  simp [registeredHint, hne, has, hregistered]

/-- A hint with a family stays in it. -/
theorem staysInFamily_of_known (hne : hint ≠ "") (hregistered : hint ∈ engine.registry)
    (hknown : toolFamily (some hint) ≠ .unknown) {decision : ToolPolicyDecision}
    (h : engine.decide (some hint) task query policyOverride = .ok decision) :
    StaysInFamily engine hint decision := by
  have hfamily : familyFor (some hint) task query = toolFamily (some hint) := by
    simp [familyFor, hknown]
  unfold StaysInFamily
  rw [selectedTool_of_decide h, registeredHint_of_mem hne hregistered]
  cases hfind : (toolsFor engine (some hint) task query policyOverride).find? engine.available with
  | none => exact ⟨hint, rfl, hregistered, Or.inl rfl⟩
  | some own =>
      refine ⟨own, rfl, mem_registry_of_available (List.find?_some hfind), ?_⟩
      refine (eq_or_ofFamily_of_mem_tools hne hregistered
        (List.mem_of_find?_eq_some hfind)).imp_right fun hown => ?_
      exact ⟨hknown, hown.toolFamily_eq.1.trans hfamily⟩

/-- A hint without a family stays in it if and only if no other tool is found. -/
theorem staysInFamily_iff_of_unknown (hne : hint ≠ "") (hregistered : hint ∈ engine.registry)
    (hunknown : toolFamily (some hint) = .unknown) {decision : ToolPolicyDecision}
    (h : engine.decide (some hint) task query policyOverride = .ok decision) :
    StaysInFamily engine hint decision ↔
      ¬ ∃ own, (toolsFor engine (some hint) task query policyOverride).find? engine.available =
        some own ∧ own ≠ hint := by
  unfold StaysInFamily
  rw [selectedTool_of_decide h, registeredHint_of_mem hne hregistered]
  cases hfind : (toolsFor engine (some hint) task query policyOverride).find? engine.available with
  | none => simp [hregistered]
  | some own =>
      have hmem := mem_registry_of_available (List.find?_some hfind)
      simp only [Option.some_or, Option.some.injEq, exists_eq_left', hunknown, ne_eq,
        not_true_eq_false, false_and, or_false, not_not]
      exact and_iff_right hmem

/-- A decision on a registered hint stays in its family if and only if the hint is not empty
and, where it has no family, no tool of a family found in the text takes its place. -/
theorem staysInFamily_iff (hregistered : hint ∈ engine.registry) {decision : ToolPolicyDecision}
    (h : engine.decide (some hint) task query policyOverride = .ok decision) :
    StaysInFamily engine hint decision ↔ hint ≠ "" ∧
      (toolFamily (some hint) = .unknown → task ≠ "" →
        ∀ tool ∈ rivals engine (engine.resolveStrategy policyOverride) hint
          (inferFamilyFromText task query), engine.available tool = false) := by
  by_cases hne : hint = ""
  · -- the empty hint counts as none, and is never selected
    subst hne
    refine iff_of_false ?_ fun hcondition => hcondition.1 rfl
    rintro ⟨tool, htool, -, rfl | ⟨hknown, -⟩⟩
    · rw [selectedTool_of_decide h, registeredHint, Option.filter_some, if_neg (by simp),
        Option.or_none] at htool
      exact ne_empty_of_available (List.find?_some htool) rfl
    · exact hknown rfl
  by_cases hunknown : toolFamily (some hint) = .unknown
  · rw [staysInFamily_iff_of_unknown hne hregistered hunknown h, and_iff_right hne]
    by_cases htask : task = ""
    · -- without a task there is no family, and so no other tool
      refine iff_of_true ?_ fun _ hnot => absurd htask hnot
      rintro ⟨own, hfind, hdiffers⟩
      have hfamily : familyFor (some hint) task query = .unknown := by
        simp [familyFor, hunknown, htask]
      rcases eq_or_ofFamily_of_mem_tools hne hregistered (List.mem_of_find?_eq_some hfind) with
        heq | hown
      · exact hdiffers heq
      · exact hown.toolFamily_eq.2 hfamily
    · have hfamily : familyFor (some hint) task query = inferFamilyFromText task query := by
        simp [familyFor, hunknown, htask]
      have hdiverted := exists_diverted_iff (engine.resolveStrategy policyOverride)
        (familyFor (some hint) task query) task query hne hregistered hunknown
      rw [toolsFor, preference, hdiverted, hfamily]
      simp [hunknown, htask]
  · exact iff_of_true (staysInFamily_of_known hne hregistered hunknown h)
      ⟨hne, fun hnone => absurd hnone hunknown⟩

/-- An engine with a tool of no family. -/
def searchEngine : ToolPolicyEngine :=
  { registry := ["search", "weather"], strategy := .builtinFirst, floats := .exact }

/-- The registered hint `search` gives way to the tool of the family its task mentions. -/
theorem not_staysInFamily_searchEngine :
    ∃ decision, searchEngine.decide (some "search") "search the weather of Shanghai" "" none =
        .ok decision ∧
      "search" ∈ searchEngine.registry ∧ toolFamily (some "search") = .unknown ∧
      decision.selectedTool = some "weather" ∧ toolFamily (some "weather") = .weather ∧
      ¬ StaysInFamily searchEngine "search" decision := by
  have hdecision : (searchEngine.decide (some "search") "search the weather of Shanghai" ""
      none).map ToolPolicyDecision.selectedTool = .ok (some "weather") := by
    decide +kernel
  cases hown : searchEngine.decide (some "search") "search the weather of Shanghai" "" none with
  | error error =>
      rw [hown] at hdecision
      cases hdecision
  | ok decision =>
      rw [hown] at hdecision
      have hselected : decision.selectedTool = some "weather" := Except.ok.inj hdecision
      have hunknown : toolFamily (some "search") = .unknown := by decide +kernel
      refine ⟨decision, rfl, by decide, hunknown, hselected, by decide +kernel, ?_⟩
      rintro ⟨tool, htool, -, rfl | ⟨hknown, -⟩⟩
      · exact absurd (htool.symm.trans hselected) (by decide)
      · exact hknown hunknown

theorem staysInFamily_iff_searchEngine :
    ∃ decision, searchEngine.decide (some "search") "look it up" "" none = .ok decision ∧
      (StaysInFamily searchEngine "search" decision ↔ "search" ≠ "" ∧
        (toolFamily (some "search") = .unknown → "look it up" ≠ "" →
          ∀ tool ∈ rivals searchEngine (searchEngine.resolveStrategy none) "search"
            (inferFamilyFromText "look it up" ""), searchEngine.available tool = false)) := by
  have hreturns : (searchEngine.decide (some "search") "look it up" "" none).isOk = true := by
    decide +kernel
  cases hown : searchEngine.decide (some "search") "look it up" "" none with
  | error error =>
      rw [hown] at hreturns
      cases hreturns
  | ok decision => exact ⟨decision, rfl, staysInFamily_iff (by decide) hown⟩

/-! ## Deciding again -/

/-- With a tool of the preference available, the decision selects it and is valid if the
confidence of the preference is. -/
theorem decide_of_find (hfind : (toolsFor engine toolHint task query policyOverride).find?
      engine.available = some name) :
    (∃ decision, engine.decide toolHint task query policyOverride = .ok decision ∧
      decision.selectedTool = some name) ↔
        (engine.preference toolHint task query policyOverride).confidence.unit?.isSome := by
  have hselect : engine.select toolHint (engine.preference toolHint task query policyOverride) =
      some (name, (engine.preference toolHint task query policyOverride).reason,
        (engine.preference toolHint task query policyOverride).confidence) := by
    rw [select, pickAvailable_eq, hfind]
  unfold ToolPolicyEngine.decide ToolPolicyDecision.validated
  dsimp only
  rw [hselect]
  dsimp only
  split
  next hvalid =>
    rw [hvalid]
    exact iff_of_true ⟨_, rfl, rfl⟩ rfl
  next hinvalid =>
    rw [hinvalid]
    refine iff_of_false ?_ Bool.false_ne_true
    rintro ⟨decision, hdecision, -⟩
    cases hdecision

theorem confidence_of_respectsHint (h : strategy.respectsHint = true) (hne : hint ≠ "")
    (hregistered : hint ∈ engine.registry) :
    (engine.applyStrategy strategy (some hint) family task query).confidence =
      .finite (9 / 10) := by
  cases strategy <;> simp [ToolPolicyStrategy.respectsHint] at h <;>
    simp [applyStrategy, plannerHintFirst, truthy, orText, hne, has, hregistered]

/-- Deciding again on the selected tool selects it again. -/
theorem decide_selectedTool {decision : ToolPolicyDecision}
    (h : engine.decide toolHint task query policyOverride = .ok decision)
    (hselected : decision.selectedTool = some name) :
    ∃ again, engine.decide (some name) task query policyOverride = .ok again ∧
      again.selectedTool = some name := by
  have hcases := selectedTool_of_decide h
  cases hfind : (toolsFor engine toolHint task query policyOverride).find? engine.available with
  | none =>
      -- the hint itself was selected
      rw [toolsFor] at hfind
      rw [hselected, hfind, Option.none_or] at hcases
      obtain ⟨rfl, -⟩ := Option.filter_eq_some_iff.mp hcases.symm
      exact ⟨decision, h, hselected⟩
  | some own =>
      have hsame : own = name := by
        have hfirst := hfind
        rw [toolsFor] at hfirst
        rw [hselected, hfirst, Option.some_or] at hcases
        exact (Option.some.inj hcases).symm
      subst hsame
      have havailable := List.find?_some hfind
      have hvalid := (decide_of_find hfind).mp ⟨decision, h, hselected⟩
      cases hrespects : (engine.resolveStrategy policyOverride).respectsHint with
      | true =>
          have hne := ne_empty_of_available havailable
          have hregistered := mem_registry_of_available havailable
          apply (decide_of_find ?_).mpr
          · rw [preference, confidence_of_respectsHint hrespects hne hregistered]
            decide +kernel
          · rw [toolsFor, preference, applyStrategy_of_respectsHint hrespects hne hregistered,
              List.find?_cons_of_pos havailable]
      | false =>
          -- the selected tool belongs to the family of the first decision
          have hown := ofFamily_of_mem_tools hrespects (List.mem_of_find?_eq_some hfind)
          obtain ⟨hfamily, hknown⟩ := hown.toolFamily_eq
          have hagain : familyFor (some own) task query = familyFor toolHint task query := by
            rw [← hfamily] at hknown
            rw [← hfamily, familyFor, if_neg (fun hnone => hknown hnone.1)]
          have hpreference : engine.preference (some own) task query policyOverride =
              engine.preference toolHint task query policyOverride := by
            rw [preference, hagain]
            exact applyStrategy_congr hrespects
          apply (decide_of_find ?_).mpr
          · rw [hpreference]
            exact hvalid
          · rw [toolsFor, hpreference]
            exact hfind

/-! ## Routing again -/

section Rerouting

variable {deps : RuntimeDependencies} {state : AgentState} {planState : PlanState}

/-- The policy decisions of a run are those of the engine, with the times they took. -/
def Consults (engine : ToolPolicyEngine) : (op : Op) → op.Reply → Prop
  | .decidePolicy toolHint task query, decision =>
      engine.decide toolHint task query none = .ok decision.untimed
  | _, _ => True

/-- What the policy makes of a step: without an engine nothing, else it takes the selected
tool if there is one. -/
def Directs (engine : ToolPolicyEngine) (deps : RuntimeDependencies) (query : String)
    (step chosen : PlanStep) : Prop :=
  deps.hasPolicyEngine = false ∧ chosen = step ∨
    deps.hasPolicyEngine = true ∧
      ∃ decision, engine.decide step.toolHint step.task query none = .ok decision ∧
        chosen = if truthy decision.selectedTool then { step with toolHint :=
          decision.selectedTool }
          else step

/-- What the router makes of a step: a finished one is left alone, one without a tool may get
one before the policy is asked. -/
def Reroutes (engine : ToolPolicyEngine) (deps : RuntimeDependencies) (planState : PlanState)
    (query : String) (step chosen : PlanStep) : Prop :=
  ∃ status, planState.getStepStatus step.id = .ok status ∧
    if status.finished then chosen = step
    else ∃ hinted, hinted.id = step.id ∧ (truthy step.toolHint = true → hinted = step) ∧
      Directs engine deps query hinted chosen

theorem ensures_routeHint (step : PlanStep) :
    Program.Ensures (S := runtimeSig) (Consults engine) (fun _ => True)
      (fun hinted => hinted.1.id = step.id ∧ (truthy step.toolHint = true → hinted.1 = step))
      (routeHint step) := by
  unfold routeHint
  split
  next => exact ⟨rfl, fun _ => rfl⟩
  next hnone =>
    refine ensures_asking trivial fun answer _ => ?_
    refine Program.Ensures.bind (Q := fun _ => True) (by simp) fun selection _ => ?_
    refine ⟨?_, fun htruthy => absurd htruthy hnone⟩
    dsimp only
    split <;> rfl

theorem ensures_routePolicy {original step : PlanStep} (entries : List (String × Value))
    (acc : RoutingState) (h : truthy original.toolHint = true → step = original) :
    Program.Ensures (S := runtimeSig) (Consults engine) (fun _ => True)
      (fun routed => ∃ chosen, routed.steps = acc.steps ++ [chosen] ∧
        Directs engine deps state.query step chosen)
      (routePolicy deps state original step entries acc) := by
  have hhint : (if truthy original.toolHint then original.toolHint else step.toolHint) =
      step.toolHint := by
    split
    next htruthy => rw [h htruthy]
    next => rfl
  unfold routePolicy
  dsimp only
  rw [hhint]
  split
  next hengine =>
    refine ensures_asking trivial fun decision hdecision => ?_
    have hdirects : Directs engine deps state.query step (if truthy decision.selectedTool then
        { step with toolHint := decision.selectedTool } else step) :=
      Or.inr ⟨hengine, decision.untimed, hdecision, rfl⟩
    split
    · exact ensures_asking trivial fun _ _ => ⟨_, rfl, hdirects⟩
    · exact ⟨_, rfl, hdirects⟩
  next hengine => exact ⟨step, rfl, Or.inl ⟨Bool.eq_false_of_not_eq_true hengine, rfl⟩⟩

theorem ensures_routeSteps (steps : List PlanStep) (acc : RoutingState) :
    Program.Ensures (S := runtimeSig) (Consults engine) (fun _ => True)
      (fun routed => ∃ chosen, routed.steps = acc.steps ++ chosen ∧
        List.Forall₂ (Reroutes engine deps planState state.query) steps chosen)
      (routeSteps deps state planState steps acc) := by
  induction steps generalizing acc with
  | nil => exact ⟨[], by simp, .nil⟩
  | cons step rest ih =>
      rw [routeSteps]
      refine Program.Ensures.bind
        (Q := fun status => planState.getStepStatus step.id = .ok status)
          (by simp) fun status hstatus => ?_
      split
      next hfinished =>
        refine (ih _).mono ?_
        rintro routed ⟨chosen, hsteps, hchosen⟩
        refine ⟨step :: chosen, by simpa using hsteps, .cons ⟨status, hstatus, ?_⟩ hchosen⟩
        rw [if_pos hfinished]
      next hfinished =>
        refine (ensures_routeHint step).bind fun hinted hhinted => ?_
        refine (ensures_routePolicy hinted.2 acc hhinted.2).bind fun middle hmiddle => ?_
        obtain ⟨own, hown, hdirects⟩ := hmiddle
        refine (ih middle).mono ?_
        rintro routed ⟨chosen, hsteps, hchosen⟩
        refine ⟨own :: chosen, by simp [hsteps, hown], .cons ⟨status, hstatus, ?_⟩ hchosen⟩
        rw [if_neg hfinished]
        exact ⟨hinted.1, hhinted.1, hhinted.2, hdirects⟩

/-- The router changes nothing of the plan state but the tools of the steps and the policy
decisions. -/
theorem ensures_routerNode (hplan : state.planState = some planState) :
    Program.Ensures (S := runtimeSig) (Consults engine) (fun _ => True)
      (fun routed => ∃ after, routed.planState = some after ∧ routed.query = state.query ∧
        after.getStepStatus = planState.getStepStatus ∧
        List.Forall₂ (Reroutes engine deps planState state.query) planState.plan.steps
          after.plan.steps)
      (routerNode deps state) := by
  simp only [routerNode, hplan]
  refine Program.Ensures.bind (Q := fun _ => True) (by simp) fun policyTrace _ => ?_
  refine (ensures_routeSteps _ _).bind fun routed hrouted => ?_
  obtain ⟨chosen, hsteps, hchosen⟩ := hrouted
  rw [List.nil_append] at hsteps
  exact ⟨_, rfl, rfl, rfl, hsteps ▸ hchosen⟩

theorem Directs.id_eq {step chosen : PlanStep} (h : Directs engine deps query step chosen) :
    chosen.id = step.id := by
  rcases h with ⟨-, rfl⟩ | ⟨-, decision, -, rfl⟩
  · rfl
  · split <;> rfl

/-- What the policy has directed once it does not direct elsewhere. -/
theorem Directs.eq {step chosen next : PlanStep} (hfirst : Directs engine deps query step chosen)
    (hsecond : Directs engine deps query chosen next) : next = chosen := by
  rcases hsecond with ⟨-, rfl⟩ | ⟨hengine, again, hagain, rfl⟩
  · rfl
  rcases hfirst with ⟨hnone, -⟩ | ⟨-, decision, hdecision, hchosen⟩
  · cases hnone.symm.trans hengine
  by_cases hselected : truthy decision.selectedTool = true
  · rw [if_pos hselected] at hchosen
    obtain ⟨tool, htool, -⟩ := truthy_iff.mp hselected
    subst hchosen
    obtain ⟨other, hother, hsame⟩ := decide_selectedTool hdecision htool
    dsimp only at hagain
    rw [htool, hother] at hagain
    rw [← Except.ok.inj hagain, hsame, htool]
    exact ite_self _
  · rw [if_neg hselected] at hchosen
    subst hchosen
    rw [← Except.ok.inj (hdecision.symm.trans hagain), if_neg hselected]

/-- What has been routed once is not routed elsewhere. -/
theorem Reroutes.eq_of_truthy {step chosen next : PlanStep}
    (hfirst : Reroutes engine deps planState query step chosen)
    (hsecond : Reroutes engine deps planState query chosen next)
    (htool : truthy chosen.toolHint = true) : next = chosen := by
  obtain ⟨status, hstatus, hfirst⟩ := hfirst
  obtain ⟨own, hown, hsecond⟩ := hsecond
  split at hfirst
  next hfinished =>
    subst hfirst
    rw [hstatus] at hown
    rwa [← Except.ok.inj hown, if_pos hfinished] at hsecond
  next hfinished =>
    obtain ⟨hinted, hid, -, hdirects⟩ := hfirst
    rw [hdirects.id_eq, hid, hstatus] at hown
    rw [← Except.ok.inj hown, if_neg hfinished] at hsecond
    obtain ⟨again, -, hagain, hredirects⟩ := hsecond
    obtain rfl := hagain htool
    exact hdirects.eq hredirects

theorem forall₂_of_chain {α β γ : Type} {R : α → β → Prop} {S T : β → γ → Prop}
    (h : ∀ a b c, R a b → S b c → T b c) {first : List α} {second : List β} {third : List γ}
    (hfirst : List.Forall₂ R first second) (hsecond : List.Forall₂ S second third) :
    List.Forall₂ T second third := by
  induction hfirst generalizing third with
  | nil =>
      cases hsecond
      exact .nil
  | cons hhead _ ih =>
      cases hsecond with
      | cons hnext hrest => exact .cons (h _ _ _ hhead hnext) (ih hrest)

/-- Every step of the first plan that has a tool is the same in the second. -/
def KeepsTools (before after : AgentState) : Prop :=
  ∀ first second, before.planState = some first → after.planState = some second →
    List.Forall₂ (fun own next => truthy own.toolHint = true → next = own) first.plan.steps
      second.plan.steps

/-- Deciding again on the selected tool selects it, and so a second visit of the router
changes no tool of a step. -/
theorem routing_settles (engine : ToolPolicyEngine) :
    (∀ toolHint task query policyOverride decision tool,
      engine.decide toolHint task query policyOverride = .ok decision →
        decision.selectedTool = some tool →
          ∃ again, engine.decide (some tool) task query policyOverride = .ok again ∧
            again.selectedTool = some tool) ∧
    ∀ (deps : RuntimeDependencies) (state routed again : AgentState) (first second : List Event),
      Runs (routerNode deps state) first (.ok routed) →
        Runs (routerNode deps routed) second (.ok again) →
          (∀ event ∈ first ++ second, Consults engine event.op event.reply) →
            KeepsTools routed again := by
  refine ⟨fun _ _ _ _ _ _ => decide_selectedTool, ?_⟩
  intro deps state routed again first second hfirst hsecond hconsults own next hown hnext
  obtain ⟨hconsultsFirst, hconsultsSecond⟩ := List.forall_mem_append.mp hconsults
  cases hplan : state.planState with
  | none =>
      rw [routerNode, hplan] at hfirst
      obtain rfl := Except.ok.inj (runs_pure_iff.mp hfirst).2
      cases hplan.symm.trans hown
  | some planState =>
      obtain ⟨middle, hmiddle, hquery, hstatus, hrouted⟩ :=
        (ensures_routerNode hplan).returns_of_runs hfirst hconsultsFirst
      obtain rfl := Option.some.inj (hown.symm.trans hmiddle)
      obtain ⟨after, hafter, -, -, hagain⟩ :=
        (ensures_routerNode hown).returns_of_runs hsecond hconsultsSecond
      obtain rfl := Option.some.inj (hnext.symm.trans hafter)
      refine forall₂_of_chain ?_ hrouted hagain
      intro step chosen last hstep hlast htool
      apply hstep.eq_of_truthy _ htool
      rw [← hquery]
      unfold Reroutes at hlast ⊢
      rwa [← hstatus]

/-- MCP tools are preferred and enabled. -/
def mcpEngine : ToolPolicyEngine :=
  { registry := ["weather", "mcp_weather"], strategy := .mcpFirst, mcpEnabled := true,
    floats := .exact }

/-- The decision of `mcpEngine` for the hint `weather`. -/
def mcpDecision : ToolPolicyDecision :=
  { originalToolHint := some "weather"
    selectedTool := some "mcp_weather"
    selectedProvider := .mcp
    toolFamily := .weather
    policyName := "mcp_first"
    confidence := 85 / 100
    fallbackCandidates := ["weather"]
    reason := "mcp_first prefers MCP" }

/-- The router, with a policy engine and no tracer. -/
def mcpDependencies : RuntimeDependencies :=
  { plainDependencies .skip ["weather", "mcp_weather"] {} with
    hasPolicyEngine := true, hasPolicyTracer := false }

/-- A state before its plan is routed. -/
def unrouted : AgentState := { planState := some (.fromPlan weatherPlan "default") }

/-- The router visits the state twice. -/
def routeTwice : Runtime (AgentState × AgentState) := do
  let routed ← routerNode mcpDependencies unrouted
  let again ← routerNode mcpDependencies routed
  pure (routed, again)

/-- The engine answers with its decisions. -/
def mcpTools : Handler runtimeSig Unit where
  answer
    | .decidePolicy toolHint task query, _ =>
        (match mcpEngine.decide toolHint task query none with
          | .ok decision => decision
          | .error _ => {}, ())
    | op, _ => (op.plainReply, ())

/-- `Consults`, as a test. -/
def consults (engine : ToolPolicyEngine) : Event → Bool
  | ⟨.decidePolicy toolHint task query, decision⟩ =>
      Decidable.decide (engine.decide toolHint task query none = .ok decision.untimed)
  | _ => true

theorem consults_of_all {engine : ToolPolicyEngine} {trace : List Event}
    (h : trace.all (consults engine) = true) :
    ∀ event ∈ trace, Consults engine event.op event.reply := by
  rintro ⟨op, reply⟩ hevent
  have hown := List.all_eq_true.mp h _ hevent
  cases op with
  | decidePolicy toolHint task query =>
      change engine.decide toolHint task query none = .ok reply.untimed
      exact of_decide_eq_true hown
  | _ => trivial

/-- Routed once, the step of the plan has the MCP tool, and keeps it when it is routed again. -/
theorem routing_settles_mcpEngine :
    (∃ again, mcpEngine.decide (some "mcp_weather") "查询上海天气" "" none = .ok again ∧
      again.selectedTool = some "mcp_weather") ∧
    ∃ routed again first second, Runs (routerNode mcpDependencies unrouted) first (.ok routed) ∧
      Runs (routerNode mcpDependencies routed) second (.ok again) ∧ KeepsTools routed again := by
  have hfirst : mcpEngine.decide (some "weather") "查询上海天气" "" none = .ok mcpDecision := by
    decide +kernel
  refine ⟨(routing_settles mcpEngine).1 _ _ _ _ _ _ hfirst rfl, ?_⟩
  have hrun := Program.runs_exec mcpTools routeTwice ()
  have hreturns : (routeTwice.exec mcpTools ()).result.isOk = true := by
    decide +kernel
  have hconsults : (routeTwice.exec mcpTools ()).trace.all (consults mcpEngine) = true := by
    decide +kernel
  generalize routeTwice.exec mcpTools () = outcome at hrun hreturns hconsults
  cases hresult : outcome.result with
  | error error =>
      rw [hresult] at hreturns
      cases hreturns
  | ok states =>
      rw [hresult] at hrun
      obtain ⟨routed, first, rest, hvisit, hrest, htrace⟩ := runs_bind_ok_iff.mp hrun
      obtain ⟨again, second, last, hvisitAgain, hlast, rfl⟩ := runs_bind_ok_iff.mp hrest
      obtain ⟨rfl, -⟩ := runs_pure_iff.mp hlast
      rw [List.append_nil] at htrace
      exact ⟨routed, again, first, second, hvisit, hvisitAgain,
        (routing_settles mcpEngine).2 _ _ _ _
        _ _ hvisit hvisitAgain (htrace ▸ consults_of_all hconsults)⟩

end Rerouting

end ToolPolicyEngine

end TripGraph
