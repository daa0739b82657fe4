import TripGraph.Foundation.Firsts
import TripGraph.Plan.State
import TripGraph.Schemas.Rendering

/-! # The final answer

The observations of each family of tools are rendered as lines. An observation is left out if
one before it has the same key, which is made of some of its fields; a line may show others.
-/

namespace TripGraph

open Interaction

/-- The observation of a tool, if it is a dictionary. -/
abbrev Observation := List (Key × Value)

/-- `observation.get(name, "")` -/
def Observation.field (observation : Observation) (name : String) : Value :=
  (Dict.lookup observation (.str name)).getD (.str "")

def Value.observation? : Value → Option Observation
  | .dict items => some items
  | _ => none

namespace FinalSynthesis

variable (host : TextHost)

/-! ## Rendering -/

def weatherLine (observation : Observation) : Option String :=
  let temperature := observation.field "temp_c"
  let parts := [observation.field "city", observation.field "date", observation.field "condition",
    .str (if temperature = .str "" then "" else temperature.toStr host ++ "°C")]
  let shown := parts.filter Value.isTrue
  if shown = [] then none else some ("，".intercalate (shown.map (Value.toStr host)))

def routeLine (observation : Observation) : String :=
  let text := observation.field "route"
  let route :=
    if text.isTrue then text.toStr host
    else
      (observation.field "origin").toStr host ++ " → " ++
        (observation.field "destination").toStr host
  let duration := observation.field "duration_min"
  let mode := observation.field "mode"
  let timed :=
    if duration = .str "" then route
    else
      route ++ "（约" ++ duration.toStr host ++ "分钟" ++
        (if mode.isTrue then "，" ++ mode.toStr host else "") ++ "）"
  match Dict.lookup observation (.str "places") with
  | some (.list (place :: places)) =>
      timed ++ "；途经：" ++ ", ".intercalate ((place :: places).map (Value.toStr host))
  | _ => timed

def budgetLine (observation : Observation) : String :=
  let line := strip ((observation.field "total").toStr host ++ " " ++
    (observation.field "currency").toStr host)
  let days := observation.field "days"
  let counted := if days = .str "" then line else line ++ "（" ++ days.toStr host ++ "天）"
  match Dict.lookup observation (.str "breakdown") with
  | some (.dict (item :: items)) =>
      let details := (item :: items).map fun entry => entry.1.toStr ++ ":" ++ entry.2.toStr host
      strip (counted ++ "；明细：" ++ ", ".intercalate details)
  | _ => strip counted

/-! ## Families -/

/-- The families of tools whose observations are shown. -/
inductive Findings
  | weather
  | route
  | budget

namespace Findings

def toolNames : Findings → List String
  | .weather => ["weather", "mcp_weather"]
  | .route => ["map", "mcp_map"]
  | .budget => ["budget", "mcp_budget"]

def heading : Findings → String
  | .weather => "天气信息："
  | .route => "行程路线："
  | .budget => "预算估算："

/-- The fields the key of an observation is made of. -/
def keyFields : Findings → List String
  | .weather => ["city", "date", "condition", "temp_c"]
  | .route => ["origin", "destination", "duration_min", "mode", "route"]
  | .budget => ["total", "currency", "days"]

def line : Findings → Observation → Option String
  | .weather, observation => weatherLine host observation
  | .route, observation => some (routeLine host observation)
  | .budget, observation => some (budgetLine host observation)

def key (family : Findings) (observation : Observation) : Except RaisedError String :=
  (Value.ofEntries (family.keyFields.map fun name => (name, observation.field name))).sortedDumps
    host

end Findings

/-! ## Observations -/

/-- The step a step output belongs to. -/
def stepById (state : PlanState) (stepId : Int) : Option PlanStep :=
  (Dict.ofList (state.plan.steps.map fun step => (step.id, step))).get? stepId

/-- The observations of a tool: of completed steps, of the outputs by step and by tool. -/
def candidates (state : PlanState) (toolName : String) : List Observation :=
  let results := state.stepResults.values.filterMap fun result =>
    if result.status = .completed ∧ result.toolName = some toolName then
      result.observation.observation?
    else none
  let outputs := (state.globalContext.stepOutputs.getD .empty).entries.filterMap fun entry =>
    if (stepById state entry.1).any fun step => decide (step.toolHint = some toolName) then
      entry.2.observation?
    else none
  let last := ((state.globalContext.toolOutputs.getD .empty).get? toolName).bind Value.observation?
  results ++ outputs ++ last.toList

/-- `_iter_tool_observations`: each JSON text once. -/
def iterToolObservations (state : PlanState) (toolName : String) :
    Except RaisedError (List Observation) :=
  firstsBy (fun observation => (Value.dict observation).sortedDumps host) []
    (candidates state toolName)

/-- The observations of tools, one tool after the other. -/
def observationsOf (state : PlanState) : List String → Except RaisedError (List Observation)
  | [] => .ok []
  | toolName :: rest => do
      let own ← iterToolObservations host state toolName
      let others ← observationsOf state rest
      return own ++ others

/-- The loops of `_collect_weather_lines`, `_collect_route_lines` and `_collect_budget_lines`.
What has been written as JSON has a key, so the keys may come last. -/
def collectLines (family : Findings) (state : PlanState) : Except RaisedError (List String) := do
  let observations ← observationsOf host state family.toolNames
  let kept ← firstsBy (family.key host) [] observations
  return kept.filterMap (family.line host)

/-! ## The text -/

/-- The lines of a family under its heading, if there are any. -/
def Findings.paragraph (family : Findings) (lines : List String) : List String :=
  if lines = [] then [] else family.heading :: lines.map fun line => "- " ++ line

def buildSummary (state : PlanState) (weatherLines routeLines budgetLines : List String) : String :=
  let misc := state.globalContext.misc
  let city := (misc.get? "city").getD (.str "")
  let days := (misc.get? "days").getD (.str "")
  let hint :=
    if city.isTrue || days.isTrue then city.toStr host ++ days.toStr host ++ "日游" else "旅行"
  let parts := (if weatherLines = [] then [] else ["天气"]) ++
    (if routeLines = [] then [] else ["路线"]) ++ (if budgetLines = [] then [] else ["预算"])
  if parts = [] then s!"总结：已完成{hint}规划。"
  else s!"总结：已完成{hint}规划，包含" ++ "、".intercalate parts ++ "信息。"

def finalSections (plan : Plan) (state : PlanState) : Except RaisedError (List String) := do
  let weatherLines ← collectLines host .weather state
  let routeLines ← collectLines host .route state
  let budgetLines ← collectLines host .budget state
  return s!"目标：{plan.goal}" :: (Findings.weather.paragraph weatherLines ++
    Findings.route.paragraph routeLines ++ Findings.budget.paragraph budgetLines ++
      [buildSummary host state weatherLines routeLines budgetLines])

/-- `synthesize_final_result` -/
def synthesizeFinalResult (plan : Plan) (state : PlanState) : Except RaisedError String := do
  let sections ← finalSections host plan state
  return "\n".intercalate sections

/-! ## What is shown -/

/-- The dictionary of a completed step whose tool is of the family. -/
def Finding (state : PlanState) (family : Findings) (observation : Observation) : Prop :=
  ∃ result ∈ state.stepResults.values, result.status = .completed ∧
    (∃ toolName ∈ family.toolNames, result.toolName = some toolName) ∧
      result.observation = .dict observation

/-- The text has an entry with this line, which is one of the lines of the family. -/
def Shows (plan : Plan) (state : PlanState) (family : Findings) (line : String) : Prop :=
  ∃ text lines, synthesizeFinalResult host plan state = .ok text ∧
    collectLines host family state = .ok lines ∧ line ∈ lines ∧
      ("- " ++ line).toList <:+: text.toList

/-- Of any two findings that are rendered differently, both are shown. -/
def KeepsFindings (plan : Plan) (state : PlanState) (family : Findings) : Prop :=
  ∀ first second, Finding state family first → Finding state family second →
    ∀ line other, family.line host first = some line → family.line host second = some other →
      line ≠ "" → other ≠ "" → line ≠ other →
        Shows host plan state family line ∧ Shows host plan state family other

/-- Every observation can be written with sorted keys. -/
def Serialisable (state : PlanState) : Prop :=
  ∀ (family : Findings), ∀ toolName ∈ family.toolNames, ∀ observation ∈ candidates state toolName,
    (Value.dict observation).sortable = true

/-- An observation is rendered as this line that has none with its key before it. -/
def Unmasked (state : PlanState) (family : Findings) (line : String) : Prop :=
  ∃ observations, observationsOf host state family.toolNames = .ok observations ∧
    ∃ leader, Leads (family.key host) observations leader ∧ family.line host leader = some line

section Lines

variable {host} {plan : Plan} {state : PlanState} {family : Findings} {line : String}
  {observation : Observation} {observations : List Observation}

theorem sortable_field (h : (Value.dict observation).sortable = true) (name : String) :
    (observation.field name).sortable = true := by
  unfold Observation.field
  cases hvalue : Dict.lookup observation (.str name) with
  | none => rfl
  | some value => exact Value.sortable_of_mem h (Dict.mem_of_lookup hvalue)

/-- What can be written has a key. -/
theorem exists_key (h : (Value.dict observation).sortable = true) :
    ∃ own, family.key host observation = .ok own := by
  refine (Value.exists_sortedDumps_iff host).mpr (Value.sortable_ofEntries fun entry hmem => ?_)
  obtain ⟨name, -, rfl⟩ := List.mem_map.mp hmem
  exact sortable_field h name

theorem exists_iterToolObservations_iff (host : TextHost) {toolName : String} :
    (∃ observations, iterToolObservations host state toolName = .ok observations) ↔
      ∀ observation ∈ candidates state toolName, (Value.dict observation).sortable = true := by
  rw [iterToolObservations, exists_firstsBy_iff]
  exact forall₂_congr fun _ _ => Value.exists_sortedDumps_iff host

theorem observationsOf_cons_iff {toolName : String} {rest : List String} :
    observationsOf host state (toolName :: rest) = .ok observations ↔
      ∃ own, iterToolObservations host state toolName = .ok own ∧
        ∃ others, observationsOf host state rest = .ok others ∧ own ++ others = observations := by
  simp only [observationsOf, bind_eq_ok_iff, pure_eq_ok_iff]

theorem exists_observationsOf_iff (host : TextHost) {toolNames : List String} :
    (∃ observations, observationsOf host state toolNames = .ok observations) ↔
      ∀ toolName ∈ toolNames, ∀ observation ∈ candidates state toolName,
        (Value.dict observation).sortable = true := by
  induction toolNames with
  | nil => simp [observationsOf]
  | cons toolName rest ih =>
      rw [List.forall_mem_cons, ← exists_iterToolObservations_iff host, ← ih]
      simp only [observationsOf_cons_iff]
      constructor
      · rintro ⟨observations, own, hown, others, hothers, -⟩
        exact ⟨⟨own, hown⟩, others, hothers⟩
      · rintro ⟨⟨own, hown⟩, others, hothers⟩
        exact ⟨own ++ others, own, hown, others, hothers, rfl⟩

/-- What is iterated with a tool are the first of its observations with each JSON text. -/
theorem mem_observationsOf_iff {toolNames : List String}
    (h : observationsOf host state toolNames = .ok observations) :
    observation ∈ observations ↔ ∃ toolName ∈ toolNames,
      Leads (fun own => (Value.dict own).sortedDumps host)
        (candidates state toolName) observation := by
  induction toolNames generalizing observations with
  | nil =>
      obtain rfl := Except.ok.inj h
      simp
  | cons toolName rest ih =>
      obtain ⟨own, hown, others, hothers, rfl⟩ := observationsOf_cons_iff.mp h
      rw [List.mem_append, List.exists_mem_cons_iff, ih hothers]
      exact or_congr_left (mem_firstsBy_iff hown)

/-- The lines of a family are collected if its observations can be written. -/
theorem exists_collectLines_iff (host : TextHost) :
    (∃ lines, collectLines host family state = .ok lines) ↔
    ∀ toolName ∈ family.toolNames, ∀ observation ∈ candidates state toolName,
      (Value.dict observation).sortable = true := by
  simp only [collectLines, bind_eq_ok_iff, pure_eq_ok_iff]
  constructor
  · rintro ⟨lines, observations, hobservations, -⟩
    exact (exists_observationsOf_iff host).mp ⟨observations, hobservations⟩
  · intro hall
    obtain ⟨observations, hobservations⟩ := (exists_observationsOf_iff host).mpr hall
    have hkeys : ∀ observation ∈ observations, ∃ own, family.key host observation = .ok own := by
      intro observation hmem
      obtain ⟨toolName, htool, hleads⟩ := (mem_observationsOf_iff hobservations).mp hmem
      exact exists_key (hall toolName htool observation hleads.mem)
    obtain ⟨kept, hkept⟩ := exists_firstsBy_iff.mpr hkeys
    exact ⟨_, observations, hobservations, kept, hkept, rfl⟩

/-- The lines are those of the observations that come first with their keys. -/
theorem mem_lines_iff {lines : List String} (h : collectLines host family state = .ok lines) :
    line ∈ lines ↔ Unmasked host state family line := by
  simp only [collectLines, bind_eq_ok_iff, pure_eq_ok_iff] at h
  obtain ⟨observations, hobservations, kept, hkept, rfl⟩ := h
  rw [List.mem_filterMap]
  constructor
  · rintro ⟨leader, hleader, hline⟩
    exact ⟨observations, hobservations, leader, (mem_firstsBy_iff hkept).mp hleader, hline⟩
  · rintro ⟨own, hown, leader, hleads, hline⟩
    obtain rfl := Except.ok.inj (hobservations.symm.trans hown)
    exact ⟨leader, (mem_firstsBy_iff hkept).mpr hleads, hline⟩

theorem exists_synthesizeFinalResult_iff (host : TextHost) (plan : Plan) :
    (∃ text, synthesizeFinalResult host plan state = .ok text) ↔ Serialisable state := by
  simp only [synthesizeFinalResult, finalSections, bind_eq_ok_iff, pure_eq_ok_iff]
  constructor
  · rintro ⟨text, sections,
      ⟨weatherLines, hweather, routeLines, hroute, budgetLines, hbudget, -⟩, -⟩
    intro family
    cases family with
    | weather => exact (exists_collectLines_iff host).mp ⟨weatherLines, hweather⟩
    | route => exact (exists_collectLines_iff host).mp ⟨routeLines, hroute⟩
    | budget => exact (exists_collectLines_iff host).mp ⟨budgetLines, hbudget⟩
  · intro hall
    obtain ⟨weatherLines, hweather⟩ := (exists_collectLines_iff host).mpr (hall .weather)
    obtain ⟨routeLines, hroute⟩ := (exists_collectLines_iff host).mpr (hall .route)
    obtain ⟨budgetLines, hbudget⟩ := (exists_collectLines_iff host).mpr (hall .budget)
    exact ⟨_, _, ⟨weatherLines, hweather, routeLines, hroute, budgetLines, hbudget, rfl⟩, rfl⟩

/-- A text that is joined from others contains each of them. -/
theorem infix_intercalate {sections : List String} {own : String} (h : own ∈ sections)
    (separator : String) : own.toList <:+: (separator.intercalate sections).toList := by
  induction sections with
  | nil => cases h
  | cons first rest ih =>
      cases rest with
      | nil =>
          obtain rfl := List.mem_singleton.mp h
          simp
      | cons next others =>
          rw [String.intercalate_cons_cons, String.toList_append, String.toList_append]
          rcases List.mem_cons.mp h with rfl | hrest
          · rw [List.append_assoc]
            exact (List.prefix_append _ _).isInfix
          · exact (ih hrest).trans (List.suffix_append _ _).isInfix

theorem mem_paragraph {lines : List String} (h : line ∈ lines) :
    "- " ++ line ∈ family.paragraph lines := by
  rw [Findings.paragraph, if_neg (List.ne_nil_of_mem h)]
  exact List.mem_cons_of_mem _ (List.mem_map_of_mem h)

/-- A line that is collected has its entry in the text. -/
theorem infix_of_mem_lines {text : String} {lines : List String}
    (htext : synthesizeFinalResult host plan state = .ok text)
    (hlines : collectLines host family state = .ok lines) (hmem : line ∈ lines) :
    ("- " ++ line).toList <:+: text.toList := by
  simp only [synthesizeFinalResult, finalSections, bind_eq_ok_iff, pure_eq_ok_iff] at htext
  obtain ⟨sections, ⟨weatherLines, hweather, routeLines, hroute, budgetLines, hbudget, rfl⟩, rfl⟩ :=
    htext
  apply infix_intercalate
  have hentry := @mem_paragraph family line lines hmem
  cases family with
  | weather =>
      obtain rfl := Except.ok.inj (hweather.symm.trans hlines)
      simp [hentry]
  | route =>
      obtain rfl := Except.ok.inj (hroute.symm.trans hlines)
      simp [hentry]
  | budget =>
      obtain rfl := Except.ok.inj (hbudget.symm.trans hlines)
      simp [hentry]

theorem shows_iff : Shows host plan state family line ↔
    Serialisable state ∧ Unmasked host state family line := by
  constructor
  · rintro ⟨text, lines, htext, hlines, hmem, -⟩
    exact ⟨(exists_synthesizeFinalResult_iff host plan).mp ⟨text, htext⟩,
      (mem_lines_iff hlines).mp hmem⟩
  · rintro ⟨hall, hunmasked⟩
    obtain ⟨text, htext⟩ := (exists_synthesizeFinalResult_iff host plan).mpr hall
    obtain ⟨lines, hlines⟩ := (exists_collectLines_iff host).mpr (hall family)
    have hmem := (mem_lines_iff hlines).mpr hunmasked
    exact ⟨text, lines, htext, hlines, hmem, infix_of_mem_lines htext hlines hmem⟩

end Lines

/-- Both of any two findings that are rendered differently are shown, if and only if there are no
such findings, or every observation can be written and no finding is masked by one before it with
the same key. -/
theorem keepsFindings_iff (plan : Plan) (state : PlanState) (family : Findings) :
    KeepsFindings host plan state family ↔
      (∀ first second, Finding state family first → Finding state family second →
        ∀ line other, family.line host first = some line → family.line host second = some other →
          line ≠ "" → other ≠ "" → line = other) ∨
      Serialisable state ∧ ∀ observation, Finding state family observation →
        ∀ line, family.line host observation = some line → line ≠ "" →
          Unmasked host state family line := by
  constructor
  · intro hkeeps
    by_cases hdiffer : ∀ first second, Finding state family first → Finding state family second →
        ∀ line other, family.line host first = some line → family.line host second = some other →
          line ≠ "" → other ≠ "" → line = other
    · exact .inl hdiffer
    · push Not at hdiffer
      obtain ⟨first, second, hfirst, hsecond, line, other, hline, hother, hshown, hshown', hne⟩ :=
        hdiffer
      have hboth := hkeeps first second hfirst hsecond line other hline hother hshown hshown' hne
      refine .inr ⟨(shows_iff.mp hboth.1).1, fun observation hfinding own hown hnonempty => ?_⟩
      by_cases hsame : own = line
      · rw [hsame]
        exact (shows_iff.mp hboth.1).2
      · have hpair := hkeeps observation first hfinding hfirst own line hown hline hnonempty hshown
          hsame
        exact (shows_iff.mp hpair.1).2
  · rintro (hsame | ⟨hall, hunmasked⟩)
    · intro first second hfirst hsecond line other hline hother hshown hshown' hne
      exact absurd (hsame first second hfirst hsecond line other hline hother hshown hshown') hne
    · intro first second hfirst hsecond line other hline hother hshown hshown' _
      exact ⟨shows_iff.mpr ⟨hall, hunmasked first hfirst line hline hshown⟩,
        shows_iff.mpr ⟨hall, hunmasked second hsecond other hother hshown'⟩⟩

/-! ## Two budgets with one key -/

def plainHost : TextHost where
  showFloat := fun _ => ""
  sortError := fun _ => ""

/-- A budget for three days. -/
def threeDays (food transport : Int) : Observation :=
  [(.str "total", .int 1350), (.str "currency", .str "CNY"), (.str "days", .int 3),
    (.str "breakdown", .ofEntries [("food", .int food), ("transport", .int transport)])]

def budgetPlan : Plan where
  goal := "Trip"
  steps := [⟨1, "Budget", some "budget", none⟩, ⟨2, "Budget by train", some "budget", none⟩]

def budgetResult (stepId : Int) (observation : Observation) : StepResult where
  stepId := stepId
  task := "Budget"
  status := .completed
  toolName := some "budget"
  observation := .dict observation

/-- The same total, spent in two ways. -/
def budgetState : PlanState :=
  ((PlanState.fromPlan budgetPlan "default").recordStepResult
    (budgetResult 1 (threeDays 300 150))).recordStepResult (budgetResult 2 (threeDays 150 300))

/-- Only the first of the two is shown. -/
theorem synthesizeFinalResult_budgetState :
    synthesizeFinalResult plainHost budgetPlan budgetState = .ok ("目标：Trip\n预算估算：\n" ++
      "- 1350 CNY（3天）；明细：food:300, transport:150\n总结：已完成旅行规划，包含预算信息。") := by
  decide +kernel

theorem synthesizeFinalResult_hides_breakdown :
    Finding budgetState .budget (threeDays 300 150) ∧
      Finding budgetState .budget (threeDays 150 300) ∧
        ∃ line other, Findings.budget.line plainHost (threeDays 300 150) = some line ∧
          Findings.budget.line plainHost (threeDays 150 300) = some other ∧
            line ≠ "" ∧ other ≠ "" ∧ line ≠ other ∧
              ¬ ∃ text, synthesizeFinalResult plainHost budgetPlan budgetState = .ok text ∧
                line.toList <:+: text.toList ∧ other.toList <:+: text.toList := by
  have hfirst : budgetResult 1 (threeDays 300 150) ∈ budgetState.stepResults.values := by decide
  have hsecond : budgetResult 2 (threeDays 150 300) ∈ budgetState.stepResults.values := by decide
  refine ⟨⟨_, hfirst, rfl, ⟨"budget", List.mem_cons_self, rfl⟩, rfl⟩,
    ⟨_, hsecond, rfl, ⟨"budget", List.mem_cons_self, rfl⟩, rfl⟩,
    "1350 CNY（3天）；明细：food:300, transport:150", "1350 CNY（3天）；明细：food:150, transport:300",
    by decide +kernel, by decide +kernel, by decide, by decide, by decide, ?_⟩
  rintro ⟨text, htext, -, hother⟩
  obtain rfl := Except.ok.inj (synthesizeFinalResult_budgetState.symm.trans htext)
  revert hother
  decide +kernel

end FinalSynthesis

end TripGraph
