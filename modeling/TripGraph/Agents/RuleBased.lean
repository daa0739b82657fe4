import TripGraph.Core.JsonAnswers
import TripGraph.Plan.Validator
import TripGraph.Tools.Selection

/-! # The rule-based language model

It answers planning requests without a provider: a plan is built from the words of the query and
from the tools that the system prompt lists, and written as JSON.
-/

namespace TripGraph

open Interaction

structure LLMMessage where
  role : String
  content : String
deriving DecidableEq

/-- What the host language knows about characters: `str.lower`, and the value of a character
that is a decimal digit. -/
structure CharTables where
  lower : String → String
  digit : Char → Option Nat

/-! ## Fields of a prompt -/

/-- What `\s*(.+)` matches at the front of a text. White space is given back if nothing else is
left, and then the last of it that ends no line is matched. -/
def fieldBehind (text : List Char) : Option (List Char) :=
  let body := text.dropWhile isSpace
  if body = [] then ((text.filter (· ≠ '\n')).getLast?).map fun c => [c]
  else some (body.takeWhile (· ≠ '\n'))

/-- The group of the first match of a label and `\s*(.+)`. -/
def searchField (label : List Char) : List Char → Option (List Char)
  | [] => none
  | c :: rest =>
      match (if label.isPrefixOf (c :: rest) then
        fieldBehind ((c :: rest).drop label.length) else none) with
      | some own => some own
      | none => searchField label rest

/-- `[name.strip() for name in text.split(",") if name.strip()]`. -/
def namesIn (text : List Char) : List String :=
  (((text.splitOn ',').map JsonText.stripChars).filter (· ≠ [])).map String.ofList

def toolHintLabel : List Char := "Valid tool_hint values:".toList

/-- The list of tools in a system message. -/
def searchToolHints (message : LLMMessage) : Option (List Char) :=
  if message.role = "system" then searchField toolHintLabel message.content.toList else none

/-- `_extract_available_tools` -/
def extractAvailableTools (messages : List LLMMessage) : List String :=
  match messages.findSome? searchToolHints with
  | some own => namesIn own
  | none => ["weather", "map", "budget"]

namespace RuleBased

/-- `_pick_tool` -/
def pickTool (name : String) (available : List String) (preferMcp : Bool) : Option String :=
  let mcpName := "mcp_" ++ name
  if preferMcp ∧ mcpName ∈ available then some mcpName
  else if name ∈ available then some name
  else if mcpName ∈ available then some mcpName
  else none

/-! ## The words of a query -/

def cityNames : List String := ["上海", "北京", "广州", "深圳", "杭州", "成都", "西安", "南京", "苏州"]

def extractCity (query : String) : Option String := cityNames.find? fun city => isIn city query

section Queries

variable (tables : CharTables)

/-- `"mcp" in lowered or "mcp_" in lowered`. -/
def preferMcpTools (query : String) : Bool :=
  let lowered := tables.lower query
  isIn "mcp" lowered || isIn "mcp_" lowered

/-- The digits that `(\d+)\s*[日天]` matches first. A shorter run of digits is followed by a
digit, so only whole runs match. -/
def dayDigits : List Char → Option (List Nat)
  | [] => none
  | c :: rest =>
      let digits :=
        ((c :: rest).takeWhile fun own => (tables.digit own).isSome).filterMap tables.digit
      let behind := ((c :: rest).dropWhile fun own => (tables.digit own).isSome).dropWhile isSpace
      if digits ≠ [] ∧ (behind.head? = some '日' ∨ behind.head? = some '天') then some digits
      else dayDigits rest

/-- The digits that `int` converts at most. -/
def maxStrDigits : Nat := 4300

/-- The error of `int` for a text of this many digits. -/
def tooManyDigits (count : Nat) : RaisedError :=
  .valueError ("Exceeds the limit (4300 digits) for integer string conversion: value has " ++
    toString count ++ " digits; use sys.set_int_max_str_digits() to increase the limit")

/-- `_extract_days`; `int` refuses to convert very long texts. -/
def extractDays (query : String) : Except RaisedError (Option Nat) :=
  match dayDigits tables query.toList with
  | none => .ok none
  | some digits =>
      if maxStrDigits < digits.length then
        .error (tooManyDigits digits.length)
      else .ok (some (digits.foldl (fun value digit => 10 * value + digit) 0))

def isTripWithBudget (query : String) : Except RaisedError Bool := do
  let lowered := tables.lower query
  let hasBudget := ["预算", "费用", "花费", "budget"].any fun token =>
    isIn token query || isIn token lowered
  let hasTrip := ["规划", "日游", "旅行", "行程", "旅游", "出游", "游玩"].any fun token => isIn token query
  let hasDays ← if (extractCity query).isSome then pure true
    else (extractDays tables query).map Option.isSome
  pure (hasBudget && hasTrip && hasDays)

def dualCities : List String := ["上海", "北京", "广州", "深圳", "杭州", "成都"]

def isDualCityQuery (query : String) : Bool :=
  decide (2 ≤ (dualCities.filter fun city => isIn city query).length)

/-- The pattern `[5-9]日|[5-9]天|1[0-9]日|1[0-9]天`. -/
def mentionsLongTrip (query : String) : Bool :=
  let days := ["5", "6", "7", "8", "9", "10", "11", "12", "13", "14", "15", "16", "17", "18", "19"]
  days.any fun count => isIn (count ++ "日") query || isIn (count ++ "天") query

def isComplexQuery (query : String) : Bool :=
  mentionsLongTrip query ||
    ["双城", "多城", "对比", "详细", "并且", "同时", "分段"].any fun keyword => isIn keyword query

/-! ## Plans -/

/-- The dictionary of a step; its last key may be missing. -/
structure StepPayload where
  id : Int
  task : String
  toolHint : Option String
  dependency : Option (Option (List Int)) := none
deriving DecidableEq

structure PlanPayload where
  goal : String
  steps : List StepPayload
deriving DecidableEq

def StepPayload.toValue (step : StepPayload) : Value :=
  .ofEntries ([("id", .int step.id), ("task", .str step.task),
    ("tool_hint", .ofText step.toolHint)] ++
      match step.dependency with
      | none => []
      | some deps => [("dependency", .ofOption (deps.map fun ids => .list (ids.map .int)))])

def PlanPayload.toValue (payload : PlanPayload) : Value :=
  .ofEntries [("goal", .str payload.goal), ("steps", .list (payload.steps.map StepPayload.toValue))]

/-- The steps written so far, and the next id. -/
structure Draft where
  steps : List StepPayload
  stepId : Int

def Draft.empty : Draft := ⟨[], 1⟩

def Draft.add (draft : Draft) (task tool : String) (dependency : Option (Option (List Int))) :
    Draft :=
  ⟨draft.steps ++ [⟨draft.stepId, task, some tool, dependency⟩], draft.stepId + 1⟩

/-- The steps, or a single one without a tool. -/
def Draft.orSingle (draft : Draft) (task : String) : List StepPayload :=
  if draft.steps = [] then [⟨1, task, none, none⟩] else draft.steps

/-- The steps of a plan whose steps wait for all steps before them, and the ids of those. -/
structure Chain where
  draft : Draft
  deps : List Int

/-- One more step, if there is a tool for it. The first step has no key for its dependencies. -/
def Chain.extend (chain : Chain) (tool : Option String) (task : String) (keyed : Bool) : Chain :=
  match tool with
  | some tool =>
      ⟨chain.draft.add task tool (if keyed then some (normalizeDeps chain.deps) else none),
        chain.deps ++ [chain.draft.stepId]⟩
  | none => chain

/-- Weather, then the map, then the budget, as far as there are tools. What the source names
`map_dep or weather_dep` are the steps so far. -/
def chainSteps (available : List String) (preferMcp : Bool)
    (weatherTask mapTask budgetTask singleTask : String) : List StepPayload :=
  let chain : Chain := ⟨.empty, []⟩
  let chain := chain.extend (pickTool "weather" available preferMcp) weatherTask false
  let chain := chain.extend (pickTool "map" available preferMcp) mapTask true
  let chain := chain.extend (pickTool "budget" available preferMcp) budgetTask true
  chain.draft.orSingle singleTask

/-- `days or _extract_days(query) or 3`. -/
def resolveDays (query : String) (days : Option Nat) : Except RaisedError Nat :=
  let given := days.getD 0
  if given ≠ 0 then .ok given
  else (extractDays tables query).map fun found => if found.getD 0 ≠ 0 then found.getD 0 else 3

/-- `_build_trip_weather_map_budget_plan` -/
def buildTripWeatherMapBudgetPlan (query : String) (available : List String)
    (city : Option String) (days : Option Nat) : Except RaisedError PlanPayload := do
  let resolvedCity := orText (some (orText city ((extractCity query).getD ""))) "目的地"
  let resolvedDays := toString (← resolveDays tables query days)
  let steps := chainSteps available (preferMcpTools tables query)
    ("查询" ++ resolvedCity ++ "天气") ("规划" ++ resolvedCity ++ resolvedDays ++ "日景点路线")
    ("计算" ++ resolvedCity ++ resolvedDays ++ "天旅行预算")
    ("规划" ++ resolvedCity ++ resolvedDays ++ "日游")
  pure ⟨orText (some (strip query)) ("规划" ++ resolvedCity ++ resolvedDays ++ "日游并计算预算"), steps⟩

/-- The steps of a plan for several cities, and the steps that each city waits for. -/
structure CityDraft where
  draft : Draft
  cityDeps : Dict String (List Int)

namespace CityDraft

def depsOf (own : CityDraft) (city : String) : List Int := (own.cityDeps.get? city).getD []

def addWeather (tool : String) (own : CityDraft) (city : String) : CityDraft :=
  ⟨own.draft.add ("查询" ++ city ++ "天气") tool none,
    own.cityDeps.set city [own.draft.stepId]⟩

def addMap (tool : String) (own : CityDraft) (city : String) : CityDraft :=
  ⟨own.draft.add ("规划" ++ city ++ "市内路线") tool (some (normalizeDeps (own.depsOf city))),
    own.cityDeps.set city (own.depsOf city ++ [own.draft.stepId])⟩

def addBudget (tool : String) (own : CityDraft) (city : String) : CityDraft :=
  ⟨own.draft.add ("估算" ++ city ++ "段旅行预算") tool (some (normalizeDeps (own.depsOf city))),
    own.cityDeps⟩

/-- One pass over the cities, if there is a tool for it. -/
def visitCities (visit : String → CityDraft → String → CityDraft) (tool : Option String)
    (cities : List String) (own : CityDraft) : CityDraft :=
  match tool with
  | some tool => cities.foldl (visit tool) own
  | none => own

end CityDraft

/-- `_build_dual_city_plan` -/
def buildDualCityPlan (query : String) (available : List String) : PlanPayload :=
  let named := dualCities.filter fun city => isIn city query
  let cities := if named.length < 2 then ["上海", "北京"] else named
  let title := "规划" ++ "、".intercalate cities ++ "双城游"
  let own :=
    CityDraft.visitCities .addWeather (pickTool "weather" available false) cities ⟨.empty, .empty⟩
  let own := CityDraft.visitCities .addMap (pickTool "map" available false) cities own
  let own := CityDraft.visitCities .addBudget (pickTool "budget" available false) cities own
  ⟨title, own.draft.orSingle title⟩

/-- `_build_complex_plan` -/
def buildComplexPlan (query : String) (available : List String) : PlanPayload :=
  ⟨query, chainSteps available false "查询目的地天气" "规划主要景点与交通路线" "分段估算旅行预算"
    ("分析并规划: " ++ query)⟩

/-- `_build_default_plan` -/
def buildDefaultPlan (query : String) (available : List String) :
    Except RaisedError PlanPayload := do
  if ← isTripWithBudget tables query then
    buildTripWeatherMapBudgetPlan tables query available none none
  else
    pure ⟨query, chainSteps available false "查询天气" "规划路线" "计算预算" ("分析需求: " ++ query)⟩

/-- `_build_plan_for_query` -/
def buildPlanForQuery (query : String) (available : List String) :
    Except RaisedError PlanPayload := do
  if isDualCityQuery query then pure (buildDualCityPlan query available)
  else if ← isTripWithBudget tables query then
    buildTripWeatherMapBudgetPlan tables query available none none
  else if isIn "上海" query && (isIn "3日" query || isIn "3天" query) then
    buildTripWeatherMapBudgetPlan tables query available (some "上海") (some 3)
  else if isComplexQuery query then pure (buildComplexPlan query available)
  else buildDefaultPlan tables query available

/-! ## Replacement steps -/

/-- `int(text)`: a sign that may be missing, and digits with single underscores between them. -/
def readInt (text : String) : Except RaisedError Int :=
  let refused := RaisedError.valueError
    ("invalid literal for int() with base 10: " ++ reprText text)
  let stripped := JsonText.stripChars text.toList
  let signed : Bool := stripped.head? = some '-' ∨ stripped.head? = some '+'
  let groups := (if signed then stripped.tail else stripped).splitOn '_'
  if groups.all fun own => !own.isEmpty && own.all fun c => (tables.digit c).isSome then
    let digits := groups.flatten.filterMap tables.digit
    if maxStrDigits < digits.length then
      .error (tooManyDigits digits.length)
    else
      let value : Nat := digits.foldl (fun value digit => 10 * value + digit) 0
      .ok (if stripped.head? = some '-' then -(value : Int) else value)
  else .error refused

def completedLabel : List Char := "Completed step ids:".toList

/-- The group of `Completed step ids:\s*\[(.*?)\]`. -/
def searchCompleted : List Char → Option (List Char)
  | [] => none
  | c :: rest =>
      let body := ((c :: rest).drop completedLabel.length).dropWhile isSpace
      let own := body.tail.takeWhile (· ≠ ']')
      if completedLabel.isPrefixOf (c :: rest) ∧ body.head? = some '[' ∧ '\n' ∉ own ∧
        own.length < body.tail.length then some own
      else searchCompleted rest

/-- `_build_replan_steps`; the answer has steps and no goal. -/
def buildReplanSteps (query : String) (available : List String) :
    Except RaisedError (List StepPayload) := do
  let goal :=
    match searchField "Original goal:".toList query.toList with
    | some own => String.ofList (JsonText.stripChars own)
    | none => query
  let tripLike ← if ← isTripWithBudget tables goal then pure true else isTripWithBudget tables query
  if tripLike then
    return (← buildTripWeatherMapBudgetPlan tables goal available none none).steps
  let completed ←
    match searchCompleted query.toList with
    | some own => (namesIn own).mapM (readInt tables)
    | none => pure []
  pure [⟨1, "重新计算3天旅行预算", pickTool "budget" available false, some (normalizeDeps completed)⟩]

end Queries

end RuleBased

/-! ## The client -/

/-- The client, with the other rule-based components that it hands requests to. -/
structure RuleBasedLLMClient where
  tables : CharTables
  host : TextHost
  executionCritic : List LLMMessage → Except RaisedError String
  contextSummarizer : List LLMMessage → Except RaisedError String
  toolSelection : List LLMMessage → Except RaisedError String

namespace RuleBasedLLMClient

open RuleBased

variable (client : RuleBasedLLMClient)

/-- The words that mark a query as one for replacement steps. -/
def asksForReplan (query : String) : Bool :=
  isIn "Failed step id" query || isIn "replacement steps" query || isIn "Critic assessment" query

/-- `RuleBasedLLMClient.complete` -/
def complete (messages : List LLMMessage) : Except RaisedError String := do
  let system := ((messages.filter fun message => message.role = "system").head?.map
    LLMMessage.content).getD ""
  let lowered := client.tables.lower system
  if isIn "execution critic" lowered then client.executionCritic messages
  else if isIn "compress plan execution context" lowered then client.contextSummarizer messages
  else if isIn "tool selection router" lowered then client.toolSelection messages
  else
    let userTexts := (messages.filter fun message => message.role = "user").map LLMMessage.content
    let availableTools := extractAvailableTools messages
    if asksForReplan (userTexts.getLast?.getD "") then
      let steps ← buildReplanSteps client.tables (userTexts.getLast?.getD "") availableTools
      pure ((Value.ofEntries [("steps", .list (steps.map StepPayload.toValue))]).dumps client.host)
    else
      let plan ← buildPlanForQuery client.tables (userTexts.head?.getD "") availableTools
      pure (plan.toValue.dumps client.host)

end RuleBasedLLMClient

end TripGraph
