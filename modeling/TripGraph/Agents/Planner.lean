import TripGraph.Agents.Drafting
import TripGraph.Agents.PlannerPrompt
import TripGraph.Foundation.Program
import TripGraph.Plan.Normalization

/-! # The planner agent

The planner asks a language model for a plan. After an answer that cannot be read it asks again
and says why, and in the end it takes the plan of the rule-based client.
-/

namespace TripGraph

open Interaction

/-! ## The agent -/

/-- What the planner asks of its language model. -/
inductive LLMOp
  | complete (messages : List LLMMessage)

def LLMOp.Reply : LLMOp → Type
  | .complete _ => Except RaisedError String

@[reducible] def llmSig : Signature := ⟨LLMOp, LLMOp.Reply⟩

/-- The exceptions that are known by name and are value errors. -/
def valueErrorNames : List String :=
  ["ValueError", "JSONDecodeError", "ValidationError", "UnicodeError", "UnicodeDecodeError",
    "UnicodeEncodeError", "UnicodeTranslateError"]

/-- `except (ValidationError, json.JSONDecodeError, ValueError)`. -/
def RaisedError.isValueError : RaisedError → Bool
  | .valueError _ => true
  | .external kind _ => valueErrorNames.contains kind
  | _ => false

/-- `ruleBased` tells whether the unwrapped client is the rule-based one. `modelValidate` stands
for `Plan.model_validate` on what `json.loads` makes of a syntax tree. -/
structure PlannerAgent where
  ruleBased : Bool
  rules : RuleBasedLLMClient
  toolRegistry : Option (List ToolDefinition)
  maxRetries : Int
  decoder : JsonDecoder
  modelValidate : Json → Except RaisedError Plan

namespace PlannerAgent

open PlannerPrompt PlanValidator Repair RuleBased

variable (agent : PlannerAgent)

/-- The names that `list_names` gives. -/
def listNames (definitions : List ToolDefinition) : List String :=
  (sortedDefinitions definitions).map ToolDefinition.name

/-- `_build_retry_feedback` -/
def buildRetryFeedback (error : String) : String :=
  let parts :=
    ["Your previous response was invalid: " ++ error ++ ".", "Return corrected JSON only."]
  match agent.toolRegistry with
  | none => " ".intercalate parts
  | some definitions =>
      let available := orText (some (", ".intercalate (listNames definitions))) "(none)"
      " ".intercalate
        (parts ++ ["Remember: tool_hint must exactly match a registered tool name. " ++
        "Available tools: " ++ available ++ "."])

def feedback (error : RaisedError) : LLMMessage := ⟨"user", agent.buildRetryFeedback error.text⟩

/-- `_parse_plan` -/
def parsePlan (raw : String) : Except RaisedError Plan := do
  let text ← JsonText.extractJsonText agent.decoder raw
  match agent.decoder.loads text with
  | .ok tree => agent.modelValidate tree
  | .error failure => .error (JsonText.loadError failure)

/-- The messages of a request for a plan. -/
def planMessages (userQuery : String) : List LLMMessage :=
  [⟨"system", buildPlannerSystemPrompt agent.toolRegistry⟩, ⟨"user", userQuery⟩]

/-- `_fallback_rule_based_plan` -/
def fallbackRuleBasedPlan (userQuery : String) : Except RaisedError Plan := do
  let raw ← agent.rules.complete (agent.planMessages userQuery)
  let plan ← agent.parsePlan raw
  pure (normalizePlan plan).plan

/-- What an answer comes to: an error of the client, an error while it is read, or a value. -/
def judge {α : Type} (read : String → Except RaisedError α) (answer : Except RaisedError String) :
    Except RaisedError α := answer >>= read

/-- The loop over the attempts: it ends with a value, or with the last error when no attempt is
left. An error that is no value error is raised. -/
def attempt {α : Type} (read : String → Except RaisedError α)
    (feedback : RaisedError → LLMMessage) :
    Nat → Option RaisedError → List LLMMessage →
      Program llmSig RaisedError (Except (Option RaisedError) α)
  | 0, lastError, _ => .done (.error lastError)
  | remaining + 1, _, messages =>
      .ask (.complete messages) fun answer =>
        match judge read answer with
        | .ok value => .done (.ok value)
        | .error error =>
            if error.isValueError then
              attempt read feedback remaining (some error) (messages ++ [feedback error])
            else .fail error

/-- The length of `range(1, max_retries + 2)`. -/
def attempts : Nat := (agent.maxRetries + 1).toNat

/-- The error of a planner that gives up. -/
def refused (lastError : Option RaisedError) : RaisedError :=
  .agentLoop
    ("Failed to generate valid plan after retries: " ++ showText (lastError.map RaisedError.text))

/-- `create_plan` -/
def createPlan (userQuery : String) : Program llmSig RaisedError Plan := do
  let outcome ← attempt agent.parsePlan agent.feedback agent.attempts none
    (agent.planMessages userQuery)
  match outcome with
  | .ok plan => .done (normalizePlan plan).plan
  | .error lastError =>
      if agent.ruleBased then .fail (refused lastError)
      else
        match agent.fallbackRuleBasedPlan userQuery with
        | .ok plan => .done plan
        | .error error =>
            if error.isValueError then .fail (refused lastError) else .fail error

/-! ## Conversations -/

section Conversations

variable {α : Type} {read : String → Except RaisedError α} {feedback : RaisedError → LLMMessage}
  {messages : List LLMMessage} {events : List (Exchange llmSig)}

/-- What the answer of an exchange comes to. -/
def judged (read : String → Except RaisedError α) : Exchange llmSig → Except RaisedError α
  | ⟨.complete _, answer⟩ => judge read answer

/-- Each question repeats the messages and quotes the failures so far, all of them value errors.
What follows the failures is a value or another error. -/
structure Conversation (read : String → Except RaisedError α) (feedback : RaisedError → LLMMessage)
    (messages : List LLMMessage) (events : List (Exchange llmSig)) (failures : List RaisedError)
    (last : Option (Except RaisedError α)) : Prop where
  asked : ∀ (index : Nat) (own : Exchange llmSig), events[index]? = some own →
    own.op = .complete (messages ++ (failures.take index).map feedback)
  judged : events.map (judged read) = failures.map .error ++ last.toList
  refused : ∀ error ∈ failures, error.isValueError = true
  final : ∀ error, last = some (.error error) → error.isValueError = false

/-- What the loop comes to after these failures. -/
def Concludes (attempts : Nat) (lastError : Option RaisedError) (failures : List RaisedError)
    (last : Option (Except RaisedError α))
    (result : Except RaisedError (Except (Option RaisedError) α)) : Prop :=
  match last with
  | some (.ok value) => failures.length < attempts ∧ result = .ok (.ok value)
  | some (.error error) => failures.length < attempts ∧ result = .error error
  | none => failures.length = attempts ∧ result = .ok (.error (failures.getLast?.or lastError))

/-- A first question in front of a conversation that quotes its failure. -/
theorem Conversation.cons {answer : Except RaisedError String} {error : RaisedError}
    {failures : List RaisedError} {last : Option (Except RaisedError α)}
    (hanswer : judge read answer = .error error) (herror : error.isValueError = true)
    (h : Conversation read feedback (messages ++ [feedback error]) events failures last) :
    Conversation read feedback messages (⟨.complete messages, answer⟩ :: events)
      (error :: failures) last where
  asked := by
    intro index own hown
    cases index with
    | zero =>
        rw [← Option.some.inj hown, List.take_zero, List.map_nil, List.append_nil]
    | succ index =>
        rw [h.asked index own hown, List.append_assoc]
        rfl
  judged := by
    rw [List.map_cons, h.judged, List.map_cons, List.cons_append]
    congr 1
  refused := by
    intro own hown
    rcases List.mem_cons.mp hown with rfl | hrest
    · exact herror
    · exact h.refused own hrest
  final := h.final

/-- A question whose answer ends the conversation. -/
theorem conversation_last {answer : Except RaisedError String} {outcome : Except RaisedError α}
    (hanswer : judge read answer = outcome)
    (hfinal : ∀ error, outcome = .error error → error.isValueError = false) :
    Conversation read feedback messages [⟨.complete messages, answer⟩] [] (some outcome) where
  asked := by
    intro index own hown
    cases index with
    | zero => rw [← Option.some.inj hown, List.take_zero, List.map_nil, List.append_nil]
    | succ index => cases hown
  judged := by
    rw [← hanswer]
    rfl
  refused := fun own hown => nomatch hown
  final := fun error heq => hfinal error (Option.some.inj heq)

theorem runs_attempt_failed {attempts : Nat} {lastError : Option RaisedError}
    {answer : Except RaisedError String} {error : RaisedError}
    {result : Except RaisedError (Except (Option RaisedError) α)}
    (hanswer : judge read answer = .error error) (herror : error.isValueError = true)
    (h : Runs (attempt read feedback attempts (some error) (messages ++ [feedback error]))
      events result) : Runs (attempt read feedback (attempts + 1) lastError messages)
        (⟨.complete messages, answer⟩ :: events) result := by
  refine runs_ask_iff.mpr ⟨answer, events, rfl, ?_⟩
  rw [hanswer]
  dsimp only
  rw [if_pos herror]
  exact h

/-- Every run of the loop is such a conversation. -/
theorem conversation_of_runs {attempts : Nat} {lastError : Option RaisedError}
    {result : Except RaisedError (Except (Option RaisedError) α)}
    (h : Runs (attempt read feedback attempts lastError messages) events result) :
    ∃ failures last, Conversation read feedback messages events failures last ∧
      Concludes attempts lastError failures last result := by
  induction attempts generalizing lastError messages events with
  | zero =>
      obtain ⟨rfl, rfl⟩ := runs_done_iff.mp h
      refine ⟨[], none, ⟨?_, rfl, ?_, ?_⟩, rfl, rfl⟩
      · exact fun index own hown => nomatch hown
      · exact fun own hown => nomatch hown
      · exact fun error heq => nomatch heq
  | succ attempts ih =>
      obtain ⟨answer, rest, rfl, hrest⟩ := runs_ask_iff.mp h
      split at hrest
      next value hvalue =>
        obtain ⟨rfl, rfl⟩ := runs_done_iff.mp hrest
        refine ⟨[], some (.ok value), conversation_last hvalue ?_, Nat.zero_lt_succ _, rfl⟩
        exact fun error heq => nomatch heq
      next error hfailed =>
        split at hrest
        next hvalue =>
          obtain ⟨failures, last, hconversation, hconcludes⟩ := ih hrest
          refine ⟨error :: failures, last, hconversation.cons hfailed hvalue, ?_⟩
          unfold Concludes at hconcludes ⊢
          split
          next => exact ⟨Nat.succ_lt_succ hconcludes.1, hconcludes.2⟩
          next => exact ⟨Nat.succ_lt_succ hconcludes.1, hconcludes.2⟩
          next =>
            obtain ⟨hlength, rfl⟩ := hconcludes
            refine ⟨congrArg Nat.succ hlength, ?_⟩
            cases failures with
            | nil => rfl
            | cons next others => rw [List.getLast?_cons_cons]; rfl
        next hraised =>
          obtain ⟨rfl, rfl⟩ := runs_fail_iff.mp hrest
          refine ⟨[], some (.error error), conversation_last hfailed ?_, Nat.zero_lt_succ _, rfl⟩
          rintro own ⟨⟩
          exact Bool.eq_false_iff.mpr hraised

end Conversations

/-! ## The plan of the rule-based client -/

/-- The steps are numbered, and they wait for prior steps only. -/
structure Ordered (payload : PlanPayload) : Prop where
  ids : payload.steps.map StepPayload.id = expectedIds payload.steps.length
  prior : ∀ step ∈ payload.steps, Prior step.id step.deps

/-- The dictionaries of ordered plans are not beyond a limit, and validation takes them as the
plans they show. -/
def Validates : Prop := ∀ payload : PlanPayload, Ordered payload →
  agent.decoder.Reads (payload.toValue.tree agent.rules.host) ∧
    agent.modelValidate (payload.toValue.tree agent.rules.host) = .ok payload.plan

/-- The words of the prompt do not hand the request to another component. -/
structure Routed : Prop where
  critic : isIn "execution critic"
    (agent.rules.tables.lower (buildPlannerSystemPrompt agent.toolRegistry)) = false
  summarizer : isIn "compress plan execution context"
    (agent.rules.tables.lower (buildPlannerSystemPrompt agent.toolRegistry)) = false
  router : isIn "tool selection router"
    (agent.rules.tables.lower (buildPlannerSystemPrompt agent.toolRegistry)) = false

/-- The query says something, holds no fence, is not worded as a replan, and names no number of
days that is too long to convert. -/
structure Plannable (userQuery : String) : Prop where
  spoken : Spoken userQuery
  first : RuleBasedLLMClient.asksForReplan userQuery = false
  days : ∃ days, extractDays agent.rules.tables userQuery = .ok days

theorem quiet_stepPayload {host : TextHost} {available : List String} {step : StepPayload}
    (h : step.Sound available) : step.toValue.Quiet host := by
  have hkey : ∀ key ∈ ["id", "task", "tool_hint", "dependency"], Unticked key := by decide
  apply Value.quiet_ofEntries
  intro entry hentry
  rcases List.mem_append.mp hentry with hfixed | hdependency
  · simp only [List.mem_cons, List.not_mem_nil, or_false] at hfixed
    rcases hfixed with rfl | rfl | rfl
    · exact ⟨(hkey "id" (by simp)).unfenced, Value.quiet_integer step.id⟩
    · exact ⟨(hkey "task" (by simp)).unfenced, Value.quiet_text h.task.unfenced⟩
    · exact ⟨(hkey "tool_hint" (by simp)).unfenced,
        Value.quiet_ofText fun own heq => (h.hint own heq).2.unfenced⟩
  · cases hkeyed : step.dependency with
    | none =>
        rw [hkeyed] at hdependency
        cases hdependency
    | some deps =>
        rw [hkeyed] at hdependency
        obtain rfl := List.mem_singleton.mp hdependency
        refine ⟨(hkey "dependency" (by simp)).unfenced, ?_⟩
        cases deps with
        | none => exact Value.quiet_null
        | some ids =>
            apply Value.quiet_list
            intro item hitem
            obtain ⟨dep, -, rfl⟩ := List.mem_map.mp hitem
            exact Value.quiet_integer dep

theorem quiet_payload {host : TextHost} {available : List String} {payload : PlanPayload}
    (h : payload.Sound available) : payload.toValue.Quiet host := by
  have hkey : ∀ key ∈ ["goal", "steps"], Unticked key := by decide
  apply Value.quiet_ofEntries
  intro entry hentry
  simp only [List.mem_cons, List.not_mem_nil, or_false] at hentry
  rcases hentry with rfl | rfl
  · exact ⟨(hkey "goal" (by simp)).unfenced, Value.quiet_text h.goal.unfenced⟩
  · refine ⟨(hkey "steps" (by simp)).unfenced, Value.quiet_list ?_⟩
    intro item hitem
    obtain ⟨step, hstep, rfl⟩ := List.mem_map.mp hitem
    exact quiet_stepPayload (h.steps.sound step hstep)

variable {agent}

theorem parsePlan_of_loads {raw : String} {tree : Json}
    (hextract : JsonText.extractJsonText agent.decoder raw = .ok raw)
    (hloads : agent.decoder.loads raw = .ok tree) :
    agent.parsePlan raw = agent.modelValidate tree := by
  unfold parsePlan
  rw [hextract]
  change (match agent.decoder.loads raw with
    | .ok tree => agent.modelValidate tree
    | .error failure => .error (JsonText.loadError failure)) = _
  rw [hloads]

/-- What the rule-based client dumps is read as the plan it means. -/
theorem parsePlan_dumps (hvalidates : agent.Validates) {available : List String}
    {payload : PlanPayload} (h : payload.Sound available) :
    agent.parsePlan (payload.toValue.dumps agent.rules.host) = .ok payload.plan := by
  obtain ⟨hreads, hplan⟩ := hvalidates payload
    ⟨h.steps.ids, fun step hstep => (h.steps.sound step hstep).prior⟩
  obtain ⟨hextract, hloads⟩ := Value.Quiet.reads (quiet_payload h) hreads
  rw [← hplan]
  exact parsePlan_of_loads hextract hloads

/-- A request with a prompt and a query that is no replan is answered with a plan. -/
theorem complete_request {rules : RuleBasedLLMClient} {prompt userQuery : String}
    (hcritic : isIn "execution critic" (rules.tables.lower prompt) = false)
    (hsummarizer : isIn "compress plan execution context" (rules.tables.lower prompt) = false)
    (hrouter : isIn "tool selection router" (rules.tables.lower prompt) = false)
    (hfirst : RuleBasedLLMClient.asksForReplan userQuery = false) {payload : PlanPayload}
    (hpayload : buildPlanForQuery rules.tables userQuery
      (extractAvailableTools [⟨"system", prompt⟩, ⟨"user", userQuery⟩]) = .ok payload) :
    rules.complete [⟨"system", prompt⟩, ⟨"user", userQuery⟩] =
      .ok (payload.toValue.dumps rules.host) := by
  have hsystem : ([⟨"system", prompt⟩, ⟨"user", userQuery⟩] : List LLMMessage).filter
      (fun message => message.role = "system") = [⟨"system", prompt⟩] := by simp
  have huser : ([⟨"system", prompt⟩, ⟨"user", userQuery⟩] : List LLMMessage).filter
      (fun message => message.role = "user") = [⟨"user", userQuery⟩] := by simp
  unfold RuleBasedLLMClient.complete
  rw [hsystem, huser]
  simp only [List.head?_cons, Option.map_some, Option.getD_some, List.map_cons, List.map_nil,
    List.getLast?_singleton]
  rw [hcritic, if_neg Bool.false_ne_true, hsummarizer, if_neg Bool.false_ne_true, hrouter,
    if_neg Bool.false_ne_true, hfirst, if_neg Bool.false_ne_true, hpayload]
  rfl

/-- On a plannable query the client answers with a plan. -/
theorem exists_complete (hrouted : agent.Routed) {userQuery : String}
    (hquery : agent.Plannable userQuery) : ∃ payload : PlanPayload,
    agent.rules.complete (agent.planMessages userQuery) =
        .ok (payload.toValue.dumps agent.rules.host) ∧
      buildPlanForQuery agent.rules.tables userQuery
        (extractAvailableTools (agent.planMessages userQuery)) = .ok payload := by
  obtain ⟨days, hdays⟩ := hquery.days
  obtain ⟨payload, hpayload⟩ := exists_buildPlanForQuery hdays
    (extractAvailableTools (agent.planMessages userQuery))
  exact ⟨payload, complete_request hrouted.critic hrouted.summarizer hrouted.router hquery.first
    hpayload, hpayload⟩

/-- A plan with distinct ids is normalized to a well-formed plan. -/
theorem wellFormed_normalizePlan {registry : List String} {plan : Plan}
    (hgoal : isBlank plan.goal = false) (hsteps : plan.steps ≠ []) (hids : plan.ids.Nodup)
    (htask : ∀ step ∈ plan.steps, isBlank step.task = false)
    (hhint : ∀ step ∈ plan.steps, ∀ hint, step.toolHint = some hint → hint ∈ registry) :
    (normalizePlan plan).plan.WellFormed registry := by
  obtain ⟨ordered, hperm, hplan, -⟩ := exists_ordered plan
  have hsource : ∀ step ∈ ordered, ∃ own ∈ plan.steps, own.cleared = step := by
    intro step hstep
    obtain ⟨position, own, hkept, rfl⟩ := mem_clearedSteps_iff.mp (hperm.mem_iff.mp hstep)
    exact ⟨own, hkept.mem, rfl⟩
  rw [hplan]
  apply (wellFormed_renumberSteps_iff hgoal ?_ ?_ ?_).mpr
  · exact (hperm.map PlanStep.id).nodup_iff.mpr
      (clearedSteps_ids_nodup_iff.mpr (kept_distinctBy hids))
  · intro hnil
    rw [hnil] at hperm
    exact kept_ne_nil hsteps (List.map_eq_nil_iff.mp hperm.nil_eq.symm)
  · intro step hstep
    obtain ⟨own, hown, rfl⟩ := hsource step hstep
    rw [own.task_cleared]
    exact htask own hown
  · intro step hstep hint heq
    obtain ⟨own, hown, rfl⟩ := hsource step hstep
    rcases own.toolHint_cleared with hnone | hsame
    · exact absurd (hnone.symm.trans heq) (Option.some_ne_none _).symm
    · exact hhint own hown hint (hsame ▸ heq)

theorem wellFormed_payload {available : List String} {payload : PlanPayload}
    (h : payload.Sound available) : (normalizePlan payload.plan).plan.WellFormed available := by
  have hids : payload.plan.ids = payload.steps.map StepPayload.id := List.map_map
  apply wellFormed_normalizePlan h.goal.not_blank
  · exact fun hnil => h.nonempty (List.map_eq_nil_iff.mp hnil)
  · rw [hids, h.steps.ids]
    exact expectedIds_nodup _
  · intro step hstep
    obtain ⟨own, hown, rfl⟩ := List.mem_map.mp hstep
    exact (h.steps.sound own hown).task.not_blank
  · intro step hstep hint heq
    obtain ⟨own, hown, rfl⟩ := List.mem_map.mp hstep
    exact ((h.steps.sound own hown).hint hint heq).1

/-- A step that is first, no budget step and no synthesis keeps its tool. -/
theorem exists_hint_of_first (goal : String) {hint : String} {first : PlanStep}
    (rest : List PlanStep) (hhint : first.toolHint = some hint) (hbudget : first.isBudget = false)
    (hclears : first.clears = false) :
    ∃ step ∈ (normalizePlan ⟨goal, first :: rest⟩).plan.steps, step.toolHint = some hint := by
  obtain ⟨ordered, hperm, hplan, -⟩ := exists_ordered ⟨goal, first :: rest⟩
  have hkept : Kept (first :: rest) 0 first := by
    refine ⟨⟨rfl, fun earlier hearlier => absurd hearlier (Nat.not_lt_zero _)⟩, fun hown => ?_⟩
    exact absurd (hown.symm.trans hbudget) Bool.noConfusion
  have hmem : first ∈ sortById ordered := by
    rw [mem_sortById, hperm.mem_iff, mem_clearedSteps_iff]
    exact ⟨0, first, hkept, by rw [PlanStep.cleared, hclears, if_neg Bool.false_ne_true]⟩
  rw [hplan]
  refine ⟨(remapStep (positions (sortById ordered)) first).1, ?_, hhint⟩
  dsimp only
  rw [(renumberSteps_eq ordered).1]
  exact List.mem_map_of_mem hmem

/-- A plan that begins with the weather is not valid without tools. -/
theorem not_wellFormed_of_weather {payload : PlanPayload} {task : String}
    (htask : task ∈ weatherTasks) (h : [weatherStep task] <+: payload.steps) :
    ¬ (normalizePlan payload.plan).plan.WellFormed [] := by
  intro hvalid
  obtain ⟨rest, hrest⟩ := h
  have htasks : ∀ own ∈ weatherTasks, (weatherStep own).step.isBudget = false ∧
      (weatherStep own).step.clears = false := by decide +kernel
  have hplan : payload.plan = ⟨payload.goal, (weatherStep task).step ::
      rest.map StepPayload.step⟩ := by
    rw [PlanPayload.plan, ← hrest]
    rfl
  rw [hplan] at hvalid
  obtain ⟨step, hstep, hhint⟩ := exists_hint_of_first payload.goal (rest.map StepPayload.step) rfl
    (htasks task htask).1 (htasks task htask).2
  cases hvalid.hints step hstep _ hhint

/-- What the client takes for the registered tools. -/
theorem extractAvailableTools_planMessages {definitions : List ToolDefinition}
    (hregistry : agent.toolRegistry = some definitions) (hlistable : Listable definitions)
    (userQuery : String) : extractAvailableTools (agent.planMessages userQuery) =
      if definitions = [] then assumedTools else listNames definitions := by
  unfold planMessages
  rw [hregistry, buildPlannerSystemPrompt]
  split
  next hnil =>
    have hprompt := searchToolHints_empty unlabelled_plannerHeader
    rw [← hnil] at hprompt
    have huser : searchToolHints ⟨"user", userQuery⟩ = none :=
      if_neg (show ¬ "user" = "system" by decide)
    rw [extractAvailableTools, List.findSome?_cons, hprompt, List.findSome?_cons, huser]
    rfl
  next hne => exact extractAvailableTools_joinLines unlabelled_plannerHeader hne hlistable _

theorem fallback_of_complete {userQuery raw : String} {plan : Plan}
    (hcomplete : agent.rules.complete (agent.planMessages userQuery) = .ok raw)
    (hparsed : agent.parsePlan raw = .ok plan) :
    agent.fallbackRuleBasedPlan userQuery = .ok (normalizePlan plan).plan := by
  unfold fallbackRuleBasedPlan
  rw [hcomplete]
  change (agent.parsePlan raw >>= fun own => pure (normalizePlan own).plan) = _
  rw [hparsed]
  rfl

/-- The fallback comes to the normalized plan of the client. -/
theorem exists_fallback (hrouted : agent.Routed) (hvalidates : agent.Validates) {userQuery : String}
    (hquery : agent.Plannable userQuery) : ∃ payload : PlanPayload,
    agent.fallbackRuleBasedPlan userQuery = .ok (normalizePlan payload.plan).plan ∧
      buildPlanForQuery agent.rules.tables userQuery
        (extractAvailableTools (agent.planMessages userQuery)) = .ok payload := by
  obtain ⟨payload, hcomplete, hpayload⟩ := exists_complete hrouted hquery
  have hparsed := parsePlan_dumps hvalidates (sound_buildPlanForQuery hquery.spoken hpayload)
  exact ⟨payload, fallback_of_complete hcomplete hparsed, hpayload⟩

/-- What the fallback relies on: a registry that the prompt lists, a prompt and a query that the
client takes for a request for a plan, and a validation that takes what the client dumps. -/
structure Equipped (agent : PlannerAgent) (definitions : List ToolDefinition)
    (userQuery : String) : Prop where
  registry : agent.toolRegistry = some definitions
  listable : Listable definitions
  routed : agent.Routed
  validates : agent.Validates
  plannable : agent.Plannable userQuery

theorem Equipped.names {definitions : List ToolDefinition} {userQuery : String}
    (h : agent.Equipped definitions userQuery) (hne : definitions ≠ []) :
    extractAvailableTools (agent.planMessages userQuery) = listNames definitions :=
  (extractAvailableTools_planMessages h.registry h.listable userQuery).trans (if_neg hne)

/-- The plan of the client gets through the JSON text and the normalization, and the validator
accepts it if and only if there are tools. -/
theorem Equipped.exists_plan {definitions : List ToolDefinition} {userQuery : String}
    (h : agent.Equipped definitions userQuery) : ∃ payload : PlanPayload,
    buildPlanForQuery agent.rules.tables userQuery
      (extractAvailableTools (agent.planMessages userQuery)) = .ok payload ∧
    agent.fallbackRuleBasedPlan userQuery = .ok (normalizePlan payload.plan).plan ∧
    ((validate (listNames definitions) (normalizePlan payload.plan).plan).success = true ↔
      definitions ≠ []) := by
  obtain ⟨payload, hfallback, hpayload⟩ := exists_fallback h.routed h.validates h.plannable
  refine ⟨payload, hpayload, hfallback, ?_⟩
  rw [validate_success_iff]
  constructor
  · rintro hvalid rfl
    rw [extractAvailableTools_planMessages h.registry h.listable, if_pos rfl] at hpayload
    obtain ⟨task, htask, hbegins⟩ := begins_buildPlanForQuery hpayload
    exact not_wellFormed_of_weather htask hbegins hvalid
  · intro hne
    rw [h.names hne] at hpayload
    exact wellFormed_payload (sound_buildPlanForQuery h.plannable.spoken hpayload)

/-- The rule-based client reads the names of the tools off the prompt as the registry lists them.
Its plan gets through the JSON text and the normalization, and the validator accepts it if and
only if there are tools. -/
theorem fallback_valid_iff {definitions : List ToolDefinition} {userQuery : String}
    (h : agent.Equipped definitions userQuery) :
    (definitions ≠ [] →
      extractAvailableTools (agent.planMessages userQuery) = listNames definitions) ∧
    ∃ payload : PlanPayload,
      buildPlanForQuery agent.rules.tables userQuery
        (extractAvailableTools (agent.planMessages userQuery)) = .ok payload ∧
      agent.fallbackRuleBasedPlan userQuery = .ok (normalizePlan payload.plan).plan ∧
      ((validate (listNames definitions) (normalizePlan payload.plan).plan).success = true ↔
        definitions ≠ []) :=
  ⟨h.names, h.exists_plan⟩

/-! ## A reader of plans -/

section Readers

def textOf? : Json → Option String
  | .str text => some (String.ofList (Json.unescape text))
  | _ => none

def intOf? : Json → Option Int
  | .atom text =>
      if text.head? = some '-' then some (-(Nat.ofDigitChars 10 text.tail 0 : Nat))
      else some (Nat.ofDigitChars 10 text 0)
  | _ => none

def intsOf? : Json → Option (List Int)
  | .arr items => items.mapM intOf?
  | _ => none

/-- A field that may be missing, and may be `null`. -/
def optionalOf? {α : Type} (own : Json → Option α) : Option Json → Option (Option α)
  | none | some (.atom ['n', 'u', 'l', 'l']) => some none
  | some item => (own item).map some

def memberOf? (key : String) : Json → Option Json
  | .obj members => (members.find? fun own => own.1 == key.toList).map Prod.snd
  | _ => none

def stepOf? (tree : Json) : Option PlanStep := do
  let id ← (memberOf? "id" tree).bind intOf?
  let task ← (memberOf? "task" tree).bind textOf?
  let toolHint ← optionalOf? textOf? (memberOf? "tool_hint" tree)
  let dependency ← optionalOf? intsOf? (memberOf? "dependency" tree)
  pure ⟨id, task, toolHint, dependency⟩

def stepsOf? : Json → Option (List PlanStep)
  | .arr items => items.mapM stepOf?
  | _ => none

def planOf? (tree : Json) : Option Plan := do
  let goal ← (memberOf? "goal" tree).bind textOf?
  let steps ← (memberOf? "steps" tree).bind stepsOf?
  pure ⟨goal, steps⟩

/-- Validation of the dictionaries that a client dumps; nothing is converted. -/
def readPlan (tree : Json) : Except RaisedError Plan :=
  match planOf? tree with
  | some plan => .ok plan
  | none => .error (.external "ValidationError" "")

variable {host : TextHost}

theorem textOf?_tree (text : String) : textOf? ((Value.str text).tree host) = some text := by
  rw [Value.tree, textOf?, Json.unescape_escape, String.ofList_toList]

theorem intOf?_tree (value : Int) : intOf? ((Value.int value).tree host) = some value := by
  rw [Value.tree]
  cases value with
  | ofNat n =>
      have htext : (toString (Int.ofNat n)).toList = Nat.toDigits 10 n := Nat.toList_repr
      have hsign : (Nat.toDigits 10 n).head? ≠ some '-' := by
        intro hhead
        have hdigit := Json.isDigit_of_mem_toDigits (List.mem_of_mem_head? hhead)
        exact absurd hdigit (by decide)
      rw [htext, intOf?, if_neg hsign, Nat.ofDigitChars_ten_toDigits]
      rfl
  | negSucc n =>
      have htext : (toString (Int.negSucc n)).toList = '-' :: Nat.toDigits 10 (n + 1) := by
        change ("-" ++ (n + 1).repr).toList = _
        rw [String.toList_append, Nat.toList_repr]
        rfl
      rw [htext, intOf?, List.head?_cons, if_pos rfl, List.tail_cons, Nat.ofDigitChars_ten_toDigits]
      rfl

theorem mapM_tree {α β : Type} {own : Json → Option β} {value : α → Value} {result : α → β}
    (h : ∀ item, own ((value item).tree host) = some (result item)) (items : List α) :
    ((items.map value).map (Value.tree host)).mapM own = some (items.map result) := by
  induction items with
  | nil => rfl
  | cons item rest ih =>
      rw [List.map_cons, List.map_cons, List.mapM_cons, h item, ih]
      rfl

theorem intsOf?_tree (values : List Int) :
    intsOf? ((Value.list (values.map .int)).tree host) = some values := by
  have hints := @mapM_tree host Int Int intOf? .int id intOf?_tree values
  rw [Value.tree_list, intsOf?, hints, List.map_id]

/-- The keys of a plan. -/
def planKeys : List String := ["id", "task", "tool_hint", "dependency", "goal", "steps"]

theorem escape_planKeys : ∀ key ∈ planKeys, key.toList.flatMap Json.escape = key.toList := by
  decide

theorem memberOf?_tree (key : String) {entries : List (String × Value)}
    (hkeys : ∀ entry ∈ entries, entry.1 ∈ planKeys) :
    memberOf? key ((Value.ofEntries entries).tree host) =
      (entries.find? fun entry => entry.1 == key).map fun entry => entry.2.tree host := by
  rw [Value.tree_ofEntries, memberOf?]
  induction entries with
  | nil => rfl
  | cons entry rest ih =>
      have hrest := ih fun own hown => hkeys own (List.mem_cons_of_mem entry hown)
      have hsame : (entry.1.toList == key.toList) = (entry.1 == key) := by
        rw [Bool.eq_iff_iff, beq_iff_eq, beq_iff_eq, String.toList_inj]
      rw [List.map_cons, List.find?_cons, List.find?_cons]
      dsimp only
      rw [escape_planKeys _ (hkeys entry List.mem_cons_self), hsame]
      cases entry.1 == key with
      | true => rfl
      | false => exact hrest

theorem optionalOf?_tree {α : Type} {own : Json → Option α} {value : α → Value}
    (hread : ∀ item, own ((value item).tree host) = some item)
    (hnull : ∀ item, (value item).tree host ≠ .atom ['n', 'u', 'l', 'l']) (item : Option α) :
    optionalOf? own (some ((Value.ofOption (item.map value)).tree host)) = some item := by
  cases item with
  | none => rfl
  | some item =>
      have hne := hnull item
      rw [Option.map_some, Value.ofOption]
      unfold optionalOf?
      split
      next heq => cases heq
      next heq => exact absurd (Option.some.inj heq) hne
      next _ _ heq =>
        rw [← Option.some.inj heq, hread]
        rfl

theorem optionalOf?_hint (hint : Option String) :
    optionalOf? textOf? (some ((Value.ofText hint).tree host)) = some hint := by
  have hread := @optionalOf?_tree host String textOf? .str textOf?_tree
    (fun text heq => nomatch heq) hint
  cases hint <;> exact hread

theorem optionalOf?_deps (deps : Option (List Int)) :
    optionalOf? intsOf?
      (some ((Value.ofOption (deps.map fun ids => .list (ids.map .int))).tree host)) = some deps :=
  optionalOf?_tree intsOf?_tree (fun _ heq => nomatch heq) deps

/-- The fields of a step are found, whether its last key is missing or not. -/
theorem stepOf?_entries {id : Int} {task : String} {hint : Option String}
    {last : List (String × Value)} {deps : Option (List Int)}
    (hlast : ∀ entry ∈ last, entry.1 ∈ planKeys)
    (hdeps : optionalOf? intsOf? ((last.find? fun entry => entry.1 == "dependency").map
      fun entry => entry.2.tree host) = some deps) :
    stepOf? ((Value.ofEntries ([("id", .int id), ("task", .str task),
      ("tool_hint", .ofText hint)] ++ last)).tree host) = some ⟨id, task, hint, deps⟩ := by
  have hkeys : ∀ entry ∈ [("id", Value.int id), ("task", .str task), ("tool_hint", .ofText hint)] ++
      last, entry.1 ∈ planKeys := by
    intro entry hentry
    rcases List.mem_append.mp hentry with hfixed | hown
    · simp only [List.mem_cons, List.not_mem_nil, or_false] at hfixed
      rcases hfixed with rfl | rfl | rfl <;> simp [planKeys]
    · exact hlast entry hown
  have hdependency : memberOf? "dependency" ((Value.ofEntries ([("id", .int id),
      ("task", .str task), ("tool_hint", .ofText hint)] ++ last)).tree host) =
        (last.find? fun entry => entry.1 == "dependency").map fun entry => entry.2.tree host := by
    rw [memberOf?_tree "dependency" hkeys]
    rfl
  unfold stepOf?
  rw [hdependency, hdeps, memberOf?_tree "id" hkeys, memberOf?_tree "task" hkeys,
    memberOf?_tree "tool_hint" hkeys]
  change (do
    let own ← intOf? ((Value.int id).tree host)
    let text ← textOf? ((Value.str task).tree host)
    let hints ← optionalOf? textOf? (some ((Value.ofText hint).tree host))
    let ids ← some deps
    pure (PlanStep.mk own text hints ids)) = _
  rw [intOf?_tree, textOf?_tree, optionalOf?_hint]
  rfl

theorem stepOf?_tree (step : StepPayload) : stepOf? (step.toValue.tree host) = some step.step := by
  obtain ⟨id, task, hint, dependency⟩ := step
  cases dependency with
  | none => exact stepOf?_entries (fun _ hentry => nomatch hentry) rfl
  | some deps =>
      apply stepOf?_entries
      · simp [planKeys]
      · exact optionalOf?_deps deps

/-- A dictionary of a plan is read as the plan it means. -/
theorem readPlan_tree (payload : PlanPayload) :
    readPlan (payload.toValue.tree host) = .ok payload.plan := by
  have hkeys : ∀ entry ∈ [("goal", Value.str payload.goal),
      ("steps", .list (payload.steps.map StepPayload.toValue))], entry.1 ∈ planKeys := by
    simp [planKeys]
  have hsteps : stepsOf? ((Value.list (payload.steps.map StepPayload.toValue)).tree host) =
      some (payload.steps.map StepPayload.step) := by
    rw [Value.tree_list, stepsOf?]
    exact mapM_tree stepOf?_tree payload.steps
  have hplan : planOf? (payload.toValue.tree host) = some payload.plan := by
    unfold planOf? PlanPayload.toValue
    rw [memberOf?_tree "goal" hkeys, memberOf?_tree "steps" hkeys]
    change (do
      let goal ← textOf? ((Value.str payload.goal).tree host)
      let steps ← stepsOf? ((Value.list (payload.steps.map StepPayload.toValue)).tree host)
      pure (Plan.mk goal steps)) = _
    rw [textOf?_tree, hsteps]
    rfl
  rw [readPlan, hplan]

end Readers

/-! ## Runs -/

/-- What the planner comes to when no answer could be read. -/
inductive Exhausted (agent : PlannerAgent) (userQuery : String) (failures : List RaisedError) :
    Except RaisedError Plan → Prop
  | own (hclient : agent.ruleBased = true) :
      Exhausted agent userQuery failures (.error (refused failures.getLast?))
  | plan {plan : Plan} (hclient : agent.ruleBased = false)
      (hplan : agent.fallbackRuleBasedPlan userQuery = .ok plan) :
      Exhausted agent userQuery failures (.ok plan)
  | refused {error : RaisedError} (hclient : agent.ruleBased = false)
      (herror : agent.fallbackRuleBasedPlan userQuery = .error error)
      (hvalue : error.isValueError = true) :
      Exhausted agent userQuery failures (.error (refused failures.getLast?))
  | raised {error : RaisedError} (hclient : agent.ruleBased = false)
      (herror : agent.fallbackRuleBasedPlan userQuery = .error error)
      (hvalue : error.isValueError = false) :
      Exhausted agent userQuery failures (.error error)

/-- Another client than the rule-based one comes to what the fallback comes to. -/
theorem Exhausted.eq_of_plan {userQuery : String} {failures : List RaisedError}
    {result : Except RaisedError Plan} {plan : Plan}
    (h : Exhausted agent userQuery failures result) (hclient : agent.ruleBased = false)
    (hplan : agent.fallbackRuleBasedPlan userQuery = .ok plan) : result = .ok plan := by
  cases h with
  | own hown => exact absurd (hclient.symm.trans hown) Bool.false_ne_true
  | plan _ hown => exact hown.symm.trans hplan
  | refused _ herror => cases hplan.symm.trans herror
  | raised _ herror => cases hplan.symm.trans herror

/-- There are no more questions than attempts. -/
theorem Conversation.length_le {α : Type} {read : String → Except RaisedError α}
    {feedback : RaisedError → LLMMessage} {messages : List LLMMessage}
    {trace : List (Exchange llmSig)} {failures : List RaisedError}
    {last : Option (Except RaisedError α)} {attempts : Nat} {lastError : Option RaisedError}
    {result : Except RaisedError (Except (Option RaisedError) α)}
    (h : Conversation read feedback messages trace failures last)
    (hconcludes : Concludes attempts lastError failures last result) :
    trace.length ≤ attempts := by
  have hlength : trace.length = failures.length + last.toList.length := by
    simpa using congrArg List.length h.judged
  unfold Concludes at hconcludes
  split at hconcludes
  next => exact hlength.trans_le hconcludes.1
  next => exact hlength.trans_le hconcludes.1
  next => exact hlength.trans_le hconcludes.1.le

/-- The planner without a readable answer. -/
theorem exhausted_of_runs {userQuery : String} {failures : List RaisedError}
    {trace : List (Exchange llmSig)} {result : Except RaisedError Plan}
    (h : Runs (if agent.ruleBased then .fail (refused failures.getLast?)
      else
        match agent.fallbackRuleBasedPlan userQuery with
        | .ok plan => .done plan
        | .error error =>
            if error.isValueError then .fail (refused failures.getLast?) else .fail error)
      trace result) : trace = [] ∧ Exhausted agent userQuery failures result := by
  split at h
  next hclient =>
    obtain ⟨rfl, rfl⟩ := runs_fail_iff.mp h
    exact ⟨rfl, .own hclient⟩
  next hclient =>
    have hother := Bool.eq_false_iff.mpr hclient
    split at h
    next plan hplan =>
      obtain ⟨rfl, rfl⟩ := runs_done_iff.mp h
      exact ⟨rfl, .plan hother hplan⟩
    next error herror =>
      split at h
      next hvalue =>
        obtain ⟨rfl, rfl⟩ := runs_fail_iff.mp h
        exact ⟨rfl, .refused hother herror hvalue⟩
      next hvalue =>
        obtain ⟨rfl, rfl⟩ := runs_fail_iff.mp h
        exact ⟨rfl, .raised hother herror (Bool.eq_false_iff.mpr hvalue)⟩

/-- Whatever is answered, the planner asks a bounded number of times, each time quoting every
failure so far, and takes the first answer that can be read or raises the first error that is no
value error. If no answer can be read it takes the plan of the rule-based client, which the
validator accepts, unless this client has answered or cannot plan the query. -/
theorem createPlan_conversation {userQuery : String} {trace : List (Exchange llmSig)}
    {result : Except RaisedError Plan} (h : Runs (agent.createPlan userQuery) trace result) :
    ∃ failures last,
      Conversation agent.parsePlan agent.feedback (agent.planMessages userQuery) trace failures
        last ∧ trace.length ≤ agent.attempts ∧
      match last with
      | some (.ok plan) => result = .ok (normalizePlan plan).plan
      | some (.error error) => result = .error error
      | none => failures.length = agent.attempts ∧ Exhausted agent userQuery failures result ∧
          ∀ definitions, agent.Equipped definitions userQuery → definitions ≠ [] →
            agent.ruleBased = false → ∃ payload : PlanPayload,
              buildPlanForQuery agent.rules.tables userQuery (listNames definitions) =
                .ok payload ∧
              result = .ok (normalizePlan payload.plan).plan ∧
              (validate (listNames definitions) (normalizePlan payload.plan).plan).success =
                true := by
  rcases runs_bind_iff.mp h with ⟨outcome, first, second, hfirst, hsecond, rfl⟩ |
    ⟨error, hfirst, rfl⟩
  · obtain ⟨failures, last, hconversation, hconcludes⟩ := conversation_of_runs hfirst
    have hlength := hconversation.length_le hconcludes
    unfold Concludes at hconcludes
    split at hconcludes
    next plan =>
      obtain ⟨-, heq⟩ := hconcludes
      obtain rfl := Except.ok.inj heq
      obtain ⟨rfl, rfl⟩ := runs_done_iff.mp hsecond
      rw [List.append_nil]
      exact ⟨failures, some (.ok plan), hconversation, hlength, rfl⟩
    next => cases hconcludes.2
    next =>
      obtain ⟨hall, heq⟩ := hconcludes
      obtain rfl := Except.ok.inj heq
      rw [Option.or_none] at hsecond
      obtain ⟨rfl, hexhausted⟩ := exhausted_of_runs hsecond
      rw [List.append_nil]
      refine ⟨failures, none, hconversation, hlength, hall, hexhausted, ?_⟩
      intro definitions hequipped hne hclient
      obtain ⟨payload, hpayload, hfallback, hvalid⟩ := hequipped.exists_plan
      rw [hequipped.names hne] at hpayload
      exact ⟨payload, hpayload, hexhausted.eq_of_plan hclient hfallback, hvalid.mpr hne⟩
  · obtain ⟨failures, last, hconversation, hconcludes⟩ := conversation_of_runs hfirst
    have hlength := hconversation.length_le hconcludes
    unfold Concludes at hconcludes
    split at hconcludes
    next => cases hconcludes.2
    next raised =>
      obtain ⟨-, heq⟩ := hconcludes
      obtain rfl := Except.error.inj heq
      exact ⟨failures, some (.error error), hconversation, hlength, rfl⟩
    next => cases hconcludes.2

/-! ## A planner for one tool -/

/-- The parts of the words that hand a request to another component. -/
def handingParts : List (List Char) := ["critic".toList, "compress".toList, "router".toList]

def weatherDefinition : ToolDefinition :=
  ⟨"weather", "查询城市天气", [("city", ⟨some "string", none⟩)], ["city"]⟩

/-- A planner with one tool, whose model may be asked twice. -/
def weatherAgent : PlannerAgent where
  ruleBased := false
  rules :=
    { tables := ⟨asciiLower, fun c => if c.isDigit then some (c.toNat - '0'.toNat) else none⟩
      host := ⟨fun value => toString value, fun _ => ""⟩
      executionCritic := fun _ => .error .outOfFuel
      contextSummarizer := fun _ => .error .outOfFuel
      toolSelection := fun _ => .error .outOfFuel }
  toolRegistry := some [weatherDefinition]
  maxRetries := 1
  decoder := JsonText.unlimitedDecoder
  modelValidate := readPlan

set_option maxRecDepth 4000 in
theorem lacks_weatherPrompt : ∀ line ∈
    plannerHeader ++ toolContext (some [weatherDefinition]) ++ [""], Lacks handingParts line := by
  have hcontext : toolContext (some [weatherDefinition]) = registryHeader ++
      ["- **weather**: 查询城市天气", "  Parameters: city (string, required)",
        "Valid tool_hint values: weather"] := by decide +kernel
  rw [hcontext]
  simp only [plannerHeader, registryHeader, outputSchema, plannerPlanningRules,
    travelPlanningHeuristics, List.cons_append, List.nil_append, String.reduceAppend]
  repeat refine lacks_cons (by decide +kernel) ?_
  exact fun line hline => absurd hline List.not_mem_nil

theorem routed_weatherAgent : weatherAgent.Routed := by
  have hlacks : Lacks handingParts (buildPlannerSystemPrompt (some [weatherDefinition])) :=
    lacks_joinLines (by decide +kernel) lacks_weatherPrompt
  have hfree : ∀ (words : String) (part : List Char), part ∈ handingParts →
      part <:+: words.toList →
      isIn words (asciiLower (buildPlannerSystemPrompt (some [weatherDefinition]))) = false := by
    intro words part hpart hwithin
    apply isIn_eq_false
    rw [asciiLower, String.toList_ofList]
    exact fun hown => hlacks part hpart (hwithin.trans hown)
  constructor
  · exact hfree _ "critic".toList (by decide +kernel) (by decide +kernel)
  · exact hfree _ "compress".toList (by decide +kernel) (by decide +kernel)
  · exact hfree _ "router".toList (by decide +kernel) (by decide +kernel)

theorem listable_weatherDefinition : Listable [weatherDefinition] := by
  constructor
  · intro definition hmem
    rw [List.mem_singleton.mp hmem]
    exact ⟨by decide, by decide, by decide, by decide⟩
  · intro definition hmem
    rw [List.mem_singleton.mp hmem]
    decide +kernel

theorem plannable_weatherAgent : weatherAgent.Plannable "规划上海3日游，预算2000" := by
  refine ⟨⟨by decide +kernel, Unticked.unfenced (by decide)⟩, by decide +kernel, some 3, ?_⟩
  decide +kernel

theorem equipped_weatherAgent :
    weatherAgent.Equipped [weatherDefinition] "规划上海3日游，预算2000" where
  registry := rfl
  listable := listable_weatherDefinition
  routed := routed_weatherAgent
  validates := fun payload _ => ⟨fun _ _ => rfl, readPlan_tree payload⟩
  plannable := plannable_weatherAgent

/-- For one tool its name is read, and the plan is valid. -/
theorem fallback_valid_weatherAgent :
    extractAvailableTools (weatherAgent.planMessages "规划上海3日游，预算2000") = ["weather"] ∧
    ∃ payload : PlanPayload,
      buildPlanForQuery weatherAgent.rules.tables "规划上海3日游，预算2000" ["weather"] =
        .ok payload ∧
      weatherAgent.fallbackRuleBasedPlan "规划上海3日游，预算2000" =
        .ok (normalizePlan payload.plan).plan ∧
      (validate ["weather"] (normalizePlan payload.plan).plan).success = true := by
  obtain ⟨hnames, payload, hpayload, hfallback, hvalid⟩ := fallback_valid_iff equipped_weatherAgent
  have hsome : [weatherDefinition] ≠ [] := List.cons_ne_nil _ _
  have hread : extractAvailableTools (weatherAgent.planMessages "规划上海3日游，预算2000") =
      ["weather"] := hnames hsome
  rw [hread] at hpayload
  exact ⟨hread, payload, hpayload, hfallback, hvalid.mpr hsome⟩

/-- Two answers without JSON. -/
def silentTrace : List (Exchange llmSig) :=
  [⟨.complete (weatherAgent.planMessages "规划上海3日游，预算2000"), .ok ""⟩,
    ⟨.complete (weatherAgent.planMessages "规划上海3日游，预算2000" ++
      [weatherAgent.feedback (.valueError "empty LLM response")]), .ok ""⟩]

theorem runs_silentTrace : ∃ plan,
    Runs (weatherAgent.createPlan "规划上海3日游，预算2000") silentTrace (.ok plan) := by
  obtain ⟨payload, -, hfallback, -⟩ := equipped_weatherAgent.exists_plan
  have hempty : judge weatherAgent.parsePlan (.ok "") =
      .error (.valueError "empty LLM response") := by decide +kernel
  have hnone : ∀ messages, Runs (attempt weatherAgent.parsePlan weatherAgent.feedback 0
      (some (.valueError "empty LLM response")) messages) [] (.ok (.error (some _))) :=
    fun messages => .done _
  refine ⟨(normalizePlan payload.plan).plan, ?_⟩
  unfold createPlan
  apply Runs.bind (runs_attempt_failed hempty rfl (runs_attempt_failed hempty rfl (hnone _)))
  dsimp only
  rw [if_neg (show ¬ weatherAgent.ruleBased = true from Bool.false_ne_true), hfallback]
  exact .done _

/-- After two answers without JSON comes the plan of the rule-based client, which is valid. -/
theorem createPlan_conversation_silentTrace : ∃ (plan : Plan) (payload : PlanPayload),
    Runs (weatherAgent.createPlan "规划上海3日游，预算2000") silentTrace (.ok plan) ∧
    silentTrace.length ≤ weatherAgent.attempts ∧
    buildPlanForQuery weatherAgent.rules.tables "规划上海3日游，预算2000" ["weather"] =
      .ok payload ∧
    plan = (normalizePlan payload.plan).plan ∧ (validate ["weather"] plan).success = true := by
  obtain ⟨plan, hruns⟩ := runs_silentTrace
  obtain ⟨failures, last, hconversation, hlength, hlast⟩ := createPlan_conversation hruns
  have hempty : judge weatherAgent.parsePlan (.ok "") =
      .error (.valueError "empty LLM response") := by decide +kernel
  have hjudged := hconversation.judged
  rw [show silentTrace.map (judged weatherAgent.parsePlan) =
    [judge weatherAgent.parsePlan (.ok ""), judge weatherAgent.parsePlan (.ok "")] from rfl,
    hempty] at hjudged
  cases last with
  | some answer =>
      -- the second answer is no value, and its error is a value error
      have hanswer := congrArg List.getLast? hjudged
      rw [Option.toList_some, List.getLast?_concat] at hanswer
      obtain rfl := Option.some.inj hanswer
      exact absurd (hconversation.final _ rfl) (by decide)
  | none =>
      obtain ⟨-, -, hplan⟩ := hlast
      obtain ⟨payload, hpayload, hresult, hvalid⟩ :=
        hplan [weatherDefinition] equipped_weatherAgent (List.cons_ne_nil _ _) rfl
      obtain rfl := Except.ok.inj hresult
      exact ⟨_, payload, hruns, hlength, hpayload, rfl, hvalid⟩

end PlannerAgent

end TripGraph
