import TripGraph.Agents.RuleBased

/-! # The planner's system prompts

The prompts list the registered tools, and the rule-based client reads their names off the last
line of the list.
-/

namespace TripGraph

open Interaction

/-! ## Tool definitions -/

/-- The schema of a parameter, as far as the prompt shows it. -/
structure ParameterSchema where
  type : Option String
  description : Option String
deriving DecidableEq

structure ToolDefinition where
  name : String
  description : String
  properties : List (String × ParameterSchema)
  required : List String
deriving DecidableEq

namespace PlannerPrompt

/-! ## Texts -/

/-- `PLANNER_OUTPUT_SCHEMA` and `REPLAN_OUTPUT_SCHEMA`. -/
def outputSchema : List String :=
  ["\x7b",
    "  \"goal\": \"<overall goal string>\",",
    "  \"steps\": [",
    "    \x7b",
    "      \"id\": 1,",
    "      \"task\": \"<concise subtask description>\",",
    "      \"tool_hint\": \"<exact registered tool name, or null if no tool applies>\",",
    "      \"dependency\": [<optional list of prior step ids>]",
    "    \x7d",
    "  ]",
    "\x7d"]

def travelPlanningHeuristics : List String :=
  ["## Travel Planning Heuristics",
    "- If the query mentions itinerary / trip / \"X日游\" / route planning, " ++
      "include a **map** step for route or itinerary.",
    "- If the query mentions budget / cost / expense / \"预算\" / \"费用\", include a **budget** step.",
    "- If the query mentions a destination and trip length, " ++
      "strongly prefer a **weather** step for that destination.",
    "- Avoid duplicate steps with the same task and tool_hint.",
    "- Every executable step should include a valid `tool_hint` when a registered tool applies.",
    "- `tool_hint` MUST be one of the registered tool names from the Tool Registry below."]

def plannerPlanningRules : List String :=
  ["## Planning Rules",
    "1. **Minimum steps**: Use the fewest steps that fully satisfy the goal. " ++
      "Do not add redundant or duplicate tool calls.",
    "2. **tool_hint accuracy**: When a step needs a tool, `tool_hint` MUST exactly match " ++
      "one registered tool `name` (case-sensitive). Never invent tool names.",
    "3. **Executable steps**: Prefer assigning `tool_hint` for weather / map / budget / echo " ++
      "when the step calls a tool.",
    "4. **Dependencies**: Add `dependency` only when a step truly needs outputs or context " ++
      "from prior steps. Independent tool calls should not depend on each other.",
    "5. **Complex tasks**: For multi-city trips, long itineraries, or multi-concern requests, " ++
      "decompose into focused subtasks (one clear action per step).",
    "6. **Step ids**: Sequential integers starting at 1 with no gaps.",
    "7. **Output**: Return strict JSON only — no markdown fences, no code blocks, " ++
      "no commentary or explanations."]

/-- `_format_tool_entry` -/
def formatToolEntry (definition : ToolDefinition) : List String :=
  let title := "- **" ++ definition.name ++ "**: " ++ definition.description
  if definition.properties = [] then [title]
  else
    let part (own : String × ParameterSchema) : String :=
      let reqLabel := if own.1 ∈ definition.required then "required" else "optional"
      let detail := own.1 ++ " (" ++ own.2.type.getD "any" ++ ", " ++ reqLabel ++ ")"
      let description := own.2.description.getD ""
      if description = "" then detail else detail ++ ": " ++ description
    [title, "  Parameters: " ++ "; ".intercalate (definition.properties.map part)]

/-- The definitions in the order of their names. -/
def sortedDefinitions (definitions : List ToolDefinition) : List ToolDefinition :=
  definitions.insertionSort fun first second => first.name ≤ second.name

/-- The last line of the tool list. -/
def hintLine (definitions : List ToolDefinition) : String :=
  "Valid tool_hint values: " ++
    ", ".intercalate ((sortedDefinitions definitions).map ToolDefinition.name)

/-- The lines in front of the listed tools. -/
def registryHeader : List String :=
  ["## Tool Registry",
    "You may ONLY use the tools listed below. Each `tool_hint` must exactly match a tool `name`.",
    ""]

def emptyRegistry : List String :=
  ["## Tool Registry", "No tools are registered. Do not set `tool_hint` on any step.", ""]

/-- `format_tool_registry_context`, by lines. -/
def formatToolRegistryContext (definitions : List ToolDefinition) : List String :=
  if definitions = [] then emptyRegistry
  else
    registryHeader ++ (sortedDefinitions definitions).flatMap formatToolEntry ++
      [hintLine definitions]

/-- The tool list, or what stands in its place without a registry. -/
def toolContext : Option (List ToolDefinition) → List String
  | some definitions => formatToolRegistryContext definitions
  | none =>
      ["## Tool Registry", "(no registry provided — omit tool_hint unless explicitly known)", ""]

def joinLines (lines : List String) : String := "\n".intercalate lines

/-- The lines of the planner's prompt in front of the tool list. -/
def plannerHeader : List String :=
  ["You are a travel planning assistant. Given a user query, produce an executable JSON plan.", "",
    "## Output Schema"] ++ outputSchema ++ [""] ++ plannerPlanningRules ++ [""] ++
    travelPlanningHeuristics ++ [""]

/-- `build_planner_system_prompt` -/
def buildPlannerSystemPrompt (registry : Option (List ToolDefinition)) : String :=
  joinLines (plannerHeader ++ toolContext registry ++ [""])

/-! ## Searching lines -/

/-- No part of the text is the label. -/
def Unlabelled (text : String) : Prop := ¬ toolHintLabel <:+: text.toList

instance (text : String) : Decidable (Unlabelled text) := inferInstanceAs (Decidable ¬ _)

theorem label_head : toolHintLabel = 'V' :: toolHintLabel.tail := by decide +kernel

theorem newline_not_mem_label : '\n' ∉ toolHintLabel := by decide

/-- A part of a line does not go on behind its end. -/
theorem isPrefixOf_line {part : List Char} (hpart : '\n' ∉ part) (own behind : List Char) :
    part.isPrefixOf (own ++ '\n' :: behind) = part.isPrefixOf own := by
  induction part generalizing own with
  | nil => cases own <;> rfl
  | cons c rest ih =>
      obtain ⟨hc, hrest⟩ := not_or.mp (mt List.mem_cons.mpr hpart)
      cases own with
      | nil =>
          have hne : (c == '\n') = false := beq_eq_false_iff_ne.mpr (Ne.symm hc)
          rw [List.nil_append, List.isPrefixOf_cons_cons, hne, Bool.false_and]
          rfl
      | cons d tail =>
          rw [List.cons_append, List.isPrefixOf_cons_cons, List.isPrefixOf_cons_cons, ih hrest]

/-- A search passes a line without the label. -/
theorem searchField_line {line : List Char} (h : ¬ toolHintLabel <:+: line) (behind : List Char) :
    searchField toolHintLabel (line ++ '\n' :: behind) = searchField toolHintLabel behind := by
  induction line with
  | nil =>
      have hfront : toolHintLabel.isPrefixOf ('\n' :: behind) = false :=
        isPrefixOf_line newline_not_mem_label [] behind
      rw [List.nil_append, searchField, hfront, if_neg Bool.false_ne_true]
  | cons c rest ih =>
      have hfront : toolHintLabel.isPrefixOf (c :: (rest ++ '\n' :: behind)) = false := by
        rw [← List.cons_append, isPrefixOf_line newline_not_mem_label, Bool.eq_false_iff]
        exact fun hown => h (List.isPrefixOf_iff_prefix.mp hown).isInfix
      rw [List.cons_append, searchField, hfront, if_neg Bool.false_ne_true]
      exact ih fun hrest => h (hrest.trans (List.suffix_cons c rest).isInfix)

theorem toList_joinLines_cons (line : String) {rest : List String} (hrest : rest ≠ []) :
    (joinLines (line :: rest)).toList = line.toList ++ '\n' :: (joinLines rest).toList := by
  rw [joinLines, String.intercalate_cons_of_ne_nil hrest, String.toList_append,
    String.toList_append, List.append_assoc]
  rfl

/-- A search passes lines without the label. -/
theorem searchField_lines {lines rest : List String} (h : ∀ line ∈ lines, Unlabelled line)
    (hrest : rest ≠ []) : searchField toolHintLabel (joinLines (lines ++ rest)).toList =
      searchField toolHintLabel (joinLines rest).toList := by
  induction lines with
  | nil => rfl
  | cons line others ih =>
      have hne : others ++ rest ≠ [] := List.append_ne_nil_of_right_ne_nil _ hrest
      rw [List.cons_append, toList_joinLines_cons line hne,
        searchField_line (h line List.mem_cons_self),
        ih fun own hown => h own (List.mem_cons_of_mem line hown)]

theorem searchField_eq_none {text : List Char} (h : ¬ toolHintLabel <:+: text) :
    searchField toolHintLabel text = none := by
  induction text with
  | nil => rfl
  | cons c rest ih =>
      have hfront : ¬ toolHintLabel.isPrefixOf (c :: rest) = true :=
        fun hown => h (List.isPrefixOf_iff_prefix.mp hown).isInfix
      rw [searchField, if_neg hfront]
      exact ih fun hrest => h (hrest.trans (List.suffix_cons c rest).isInfix)

/-- Lines without the label have no match. -/
theorem searchField_joinLines {lines : List String} (h : ∀ line ∈ lines, Unlabelled line) :
    searchField toolHintLabel (joinLines lines).toList = none := by
  induction lines with
  | nil => rfl
  | cons line rest ih =>
      have hline := h line List.mem_cons_self
      have hrest := ih fun own hown => h own (List.mem_cons_of_mem line hown)
      cases rest with
      | nil =>
          rw [joinLines, String.intercalate_singleton]
          exact searchField_eq_none hline
      | cons next others =>
          rwa [toList_joinLines_cons line (List.cons_ne_nil next others), searchField_line hline]

/-- The label does not stand in a line in which its first letters do not. -/
theorem unlabelled_cons {chars : List Char} {rest : List String}
    (h : ¬ ['V', 'a', 'l', 'i', 'd', ' ', 't'] <:+: chars)
    (hrest : ∀ line ∈ rest, Unlabelled line) :
    ∀ line ∈ String.ofList chars :: rest, Unlabelled line := by
  apply List.forall_mem_cons.mpr ⟨?_, hrest⟩
  intro hlabel
  rw [String.toList_ofList] at hlabel
  have hstart : ['V', 'a', 'l', 'i', 'd', ' ', 't'] <+: toolHintLabel :=
    List.isPrefixOf_iff_prefix.mp (by decide +kernel)
  exact h (hstart.isInfix.trans hlabel)

set_option maxRecDepth 4000 in
theorem unlabelled_plannerHeader : ∀ line ∈ plannerHeader, Unlabelled line := by
  simp only [plannerHeader, outputSchema, plannerPlanningRules, travelPlanningHeuristics,
    List.cons_append, List.nil_append, String.reduceAppend]
  repeat refine unlabelled_cons (by decide +kernel) ?_
  exact fun line hline => nomatch hline

theorem unlabelled_registryHeader : ∀ line ∈ registryHeader, Unlabelled line := by
  unfold registryHeader
  repeat refine unlabelled_cons (by decide +kernel) ?_
  exact fun line hline => nomatch hline

theorem unlabelled_emptyRegistry : ∀ line ∈ emptyRegistry ++ [""], Unlabelled line := by
  simp only [emptyRegistry, List.cons_append, List.nil_append]
  repeat refine unlabelled_cons (by decide +kernel) ?_
  exact fun line hline => nomatch hline

/-! ## Names -/

/-- A name that a list with commas shows as it is. -/
structure PlainName (name : String) : Prop where
  stripped : JsonText.stripChars name.toList = name.toList
  ne_nil : name.toList ≠ []
  no_comma : ',' ∉ name.toList
  no_newline : '\n' ∉ name.toList

theorem stripChars_blank (text : List Char) :
    JsonText.stripChars (' ' :: text) = JsonText.stripChars text := by
  rw [JsonText.stripChars, List.dropWhile_cons_of_pos (by decide)]
  rfl

theorem toList_listed {name : String} {rest : List String} (hrest : rest ≠ []) :
    (", ".intercalate (name :: rest)).toList =
      name.toList ++ ',' :: ' ' :: (", ".intercalate rest).toList := by
  rw [String.intercalate_cons_of_ne_nil hrest, String.toList_append, String.toList_append,
    List.append_assoc]
  rfl

/-- Plain names are read off the list that shows them, also behind a blank. -/
theorem namesIn_listed {names : List String} (hne : names ≠ [])
    (h : ∀ name ∈ names, PlainName name) :
    namesIn (", ".intercalate names).toList = names ∧
      namesIn (' ' :: (", ".intercalate names).toList) = names := by
  have hsingle : ∀ {name : String}, PlainName name → ∀ {own : List Char},
      JsonText.stripChars own = name.toList → ∀ others : List (List Char),
      (((own :: others).map JsonText.stripChars).filter (· ≠ [])).map String.ofList =
        name :: ((others.map JsonText.stripChars).filter (· ≠ [])).map String.ofList := by
    intro name hname own hown others
    rw [List.map_cons, hown, List.filter_cons_of_pos (by simpa using hname.ne_nil), List.map_cons,
      String.ofList_toList]
  induction names with
  | nil => exact absurd rfl hne
  | cons name rest ih =>
      have hname := h name List.mem_cons_self
      have hstripped : JsonText.stripChars (' ' :: name.toList) = name.toList := by
        rw [stripChars_blank, hname.stripped]
      have hcomma : ',' ∉ ' ' :: name.toList := by
        simpa using hname.no_comma
      cases rest with
      | nil =>
          rw [String.intercalate_singleton]
          unfold namesIn
          rw [List.splitOn_eq_singleton hname.no_comma, List.splitOn_eq_singleton hcomma]
          exact ⟨hsingle hname hname.stripped [], hsingle hname hstripped []⟩
      | cons next others =>
          obtain ⟨-, hrest⟩ := ih (List.cons_ne_nil next others)
            fun own hown => h own (List.mem_cons_of_mem name hown)
          rw [toList_listed (List.cons_ne_nil next others)]
          unfold namesIn at hrest ⊢
          rw [← List.cons_append, List.splitOn_append_cons_self_of_not_mem hname.no_comma,
            List.splitOn_append_cons_self_of_not_mem hcomma, hsingle hname hname.stripped,
            hsingle hname hstripped, hrest]
          exact ⟨rfl, rfl⟩

/-! ## What the client reads -/

theorem PlainName.not_space {name : String} (h : PlainName name) :
    ∃ c rest, name.toList = c :: rest ∧ isSpace c = false := by
  cases hname : name.toList with
  | nil => exact absurd hname h.ne_nil
  | cons c rest =>
      refine ⟨c, rest, rfl, ?_⟩
      by_contra hspace
      rw [Bool.not_eq_false] at hspace
      have hlength := congrArg List.length h.stripped
      have hdropped := ((List.dropWhile_sublist isSpace (l := rest)).length_le)
      rw [hname, JsonText.stripChars, List.dropWhile_cons_of_pos hspace, List.length_reverse,
        List.length_cons] at hlength
      have hstripped := (List.dropWhile_sublist isSpace
        (l := (rest.dropWhile isSpace).reverse)).length_le
      rw [List.length_reverse] at hstripped
      omega

theorem newline_not_mem_listed {names : List String} (h : ∀ name ∈ names, PlainName name) :
    '\n' ∉ (", ".intercalate names).toList := by
  induction names with
  | nil =>
      rw [String.intercalate_nil]
      exact fun hmem => nomatch hmem
  | cons name rest ih =>
      have hname := (h name List.mem_cons_self).no_newline
      have hrest := ih fun own hown => h own (List.mem_cons_of_mem name hown)
      cases rest with
      | nil => rwa [String.intercalate_singleton]
      | cons next others =>
          rw [toList_listed (List.cons_ne_nil next others)]
          intro hmem
          rcases List.mem_append.mp hmem with hown | hown
          · exact hname hown
          · rcases List.mem_cons.mp hown with heq | hown
            · exact absurd heq (by decide)
            · rcases List.mem_cons.mp hown with heq | hown
              · exact absurd heq (by decide)
              · exact hrest hown

/-- The last line of the list shows the names, whatever follows. -/
theorem searchField_hintLine {names : List String} (hne : names ≠ [])
    (h : ∀ name ∈ names, PlainName name) :
    searchField toolHintLabel
      (joinLines ["Valid tool_hint values: " ++ ", ".intercalate names, ""]).toList =
        some (", ".intercalate names).toList := by
  have htext : (joinLines ["Valid tool_hint values: " ++ ", ".intercalate names, ""]).toList =
      toolHintLabel ++ ' ' :: ((", ".intercalate names).toList ++ ['\n']) := by
    have hlabel : "Valid tool_hint values: ".toList = toolHintLabel ++ [' '] := by decide +kernel
    rw [toList_joinLines_cons _ (List.cons_ne_nil _ _), String.toList_append, hlabel, joinLines,
      String.intercalate_singleton, List.append_assoc, List.append_assoc]
    rfl
  have hhead : ∃ c rest, (", ".intercalate names).toList = c :: rest ∧ isSpace c = false := by
    cases names with
    | nil => exact absurd rfl hne
    | cons name rest =>
        obtain ⟨c, own, hname, hspace⟩ := (h name List.mem_cons_self).not_space
        cases rest with
        | nil => exact ⟨c, own, by rw [String.intercalate_singleton, hname], hspace⟩
        | cons next others =>
            rw [toList_listed (List.cons_ne_nil next others), hname]
            exact ⟨c, _, rfl, hspace⟩
  have hline := newline_not_mem_listed h
  rw [htext, label_head, List.cons_append, searchField, ← List.cons_append, ← label_head]
  generalize (", ".intercalate names).toList = text at hhead hline
  obtain ⟨c, rest, rfl, hspace⟩ := hhead
  have hfront : toolHintLabel.isPrefixOf (toolHintLabel ++ ' ' :: (c :: rest ++ ['\n'])) = true :=
    List.isPrefixOf_iff_prefix.mpr (List.prefix_append _ _)
  rw [hfront, if_pos rfl, List.drop_left]
  have hbody : (' ' :: (c :: rest ++ ['\n'])).dropWhile isSpace = c :: rest ++ ['\n'] := by
    rw [List.dropWhile_cons_of_pos (by decide), List.cons_append,
      List.dropWhile_cons_of_neg (by simp [hspace])]
  have htake : (c :: rest ++ ['\n']).takeWhile (· ≠ '\n') = c :: rest := by
    rw [List.takeWhile_append_of_pos]
    · simp
    · intro own hown
      simp only [ne_eq, decide_not, Bool.not_eq_true', decide_eq_false_iff_not]
      rintro rfl
      exact hline hown
  rw [fieldBehind]
  rw [hbody, htake, if_neg (by simp)]

/-- Names are plain, and nothing in front of their list looks like it. -/
structure Listable (definitions : List ToolDefinition) : Prop where
  names : ∀ definition ∈ definitions, PlainName definition.name
  entries : ∀ definition ∈ definitions, ∀ line ∈ formatToolEntry definition, Unlabelled line

theorem mem_sortedDefinitions {definitions : List ToolDefinition} {definition : ToolDefinition} :
    definition ∈ sortedDefinitions definitions ↔ definition ∈ definitions :=
  (List.perm_insertionSort _ definitions).mem_iff

/-- Without tools nothing is read. -/
theorem searchToolHints_empty {header : List String} (hheader : ∀ line ∈ header, Unlabelled line) :
    searchToolHints ⟨"system", joinLines (header ++ toolContext (some []) ++ [""])⟩ = none := by
  rw [searchToolHints, if_pos rfl, toolContext, formatToolRegistryContext, if_pos rfl,
    List.append_assoc]
  apply searchField_joinLines
  intro line hline
  exact (List.mem_append.mp hline).elim (hheader line) (unlabelled_emptyRegistry line)

/-- Behind lines without the label, the names of a list are read as they were listed. -/
theorem extractAvailableTools_joinLines {header : List String}
    (hheader : ∀ line ∈ header, Unlabelled line) {definitions : List ToolDefinition}
    (hne : definitions ≠ []) (h : Listable definitions) (rest : List LLMMessage) :
    extractAvailableTools
      (⟨"system", joinLines (header ++ toolContext (some definitions) ++ [""])⟩ :: rest) =
        (sortedDefinitions definitions).map ToolDefinition.name := by
  have hnames : ∀ name ∈ (sortedDefinitions definitions).map ToolDefinition.name,
      PlainName name := by
    intro name hname
    obtain ⟨definition, hmem, rfl⟩ := List.mem_map.mp hname
    exact h.names definition (mem_sortedDefinitions.mp hmem)
  have hsorted : (sortedDefinitions definitions).map ToolDefinition.name ≠ [] := by
    intro hnil
    have hlength := (List.perm_insertionSort
      (fun first second : ToolDefinition => first.name ≤ second.name) definitions).length_eq
    rw [List.map_eq_nil_iff] at hnil
    rw [sortedDefinitions] at hnil
    rw [hnil] at hlength
    exact hne (List.length_eq_zero_iff.mp hlength.symm)
  have hentries : ∀ line ∈ (sortedDefinitions definitions).flatMap formatToolEntry,
      Unlabelled line := by
    intro line hline
    obtain ⟨definition, hmem, hown⟩ := List.mem_flatMap.mp hline
    exact h.entries definition (mem_sortedDefinitions.mp hmem) line hown
  have hsearch := searchField_hintLine hsorted hnames
  have hcontext : header ++ toolContext (some definitions) ++ [""] =
      (header ++ (registryHeader ++ (sortedDefinitions definitions).flatMap formatToolEntry)) ++
        [hintLine definitions, ""] := by
    rw [toolContext, formatToolRegistryContext, if_neg hne]
    simp only [List.append_assoc, List.cons_append, List.nil_append]
  have hunlabelled : ∀ line ∈ header ++ (registryHeader ++
      (sortedDefinitions definitions).flatMap formatToolEntry), Unlabelled line := by
    intro line hline
    rcases List.mem_append.mp hline with hown | hown
    · exact hheader line hown
    · exact (List.mem_append.mp hown).elim (unlabelled_registryHeader line) (hentries line)
  rw [hcontext]
  generalize header ++ (registryHeader ++ (sortedDefinitions definitions).flatMap formatToolEntry) =
    before at hunlabelled
  have hfound : (⟨"system", joinLines (before ++ [hintLine definitions, ""])⟩ :: rest).findSome?
      searchToolHints =
        some (", ".intercalate
          ((sortedDefinitions definitions).map ToolDefinition.name)).toList := by
    have hown : searchToolHints ⟨"system", joinLines (before ++ [hintLine definitions, ""])⟩ =
        some (", ".intercalate
          ((sortedDefinitions definitions).map ToolDefinition.name)).toList := by
      rw [searchToolHints, if_pos rfl, searchField_lines hunlabelled (List.cons_ne_nil _ _)]
      exact hsearch
    rw [List.findSome?_cons, hown]
  rw [extractAvailableTools, hfound]
  exact (namesIn_listed hsorted hnames).1


/-! ## Words of a prompt -/

theorem isIn_eq_false {part text : String} (h : ¬ part.toList <:+: text.toList) :
    isIn part text = false := by
  rw [isIn, List.any_eq_false]
  intro tail htail hfront
  apply h
  rw [List.infix_iff_prefix_suffix]
  exact ⟨tail, List.isPrefixOf_iff_prefix.mp hfront, (List.mem_tails tail _).mp htail⟩

/-- A part of two lines is a part of one of them. -/
theorem infix_line {part own behind : List Char} (hpart : '\n' ∉ part) (hne : part ≠ [])
    (h : part <:+: own ++ '\n' :: behind) : part <:+: own ∨ part <:+: behind := by
  induction own with
  | nil =>
      rcases List.infix_cons_iff.mp h with hfront | hrest
      · have hempty := isPrefixOf_line hpart [] behind
        rw [List.nil_append, List.isPrefixOf_iff_prefix.mpr hfront] at hempty
        exact absurd (List.prefix_nil.mp (List.isPrefixOf_iff_prefix.mp hempty.symm)) hne
      · exact Or.inr hrest
  | cons c rest ih =>
      rw [List.cons_append] at h
      rcases List.infix_cons_iff.mp h with hfront | hrest
      · have hline := isPrefixOf_line hpart (c :: rest) behind
        rw [List.cons_append, List.isPrefixOf_iff_prefix.mpr hfront] at hline
        exact Or.inl (List.isPrefixOf_iff_prefix.mp hline.symm).isInfix
      · exact (ih hrest).imp_left fun hown => hown.trans (List.suffix_cons c rest).isInfix

/-- `str.lower` of a text with the letters of ASCII. -/
def asciiLower (text : String) : String := String.ofList (text.toList.map Char.toLower)

/-- The line has none of the parts, in whatever case. -/
def Lacks (parts : List (List Char)) (line : String) : Prop :=
  ∀ part ∈ parts, ¬ part <:+: line.toList.map Char.toLower

theorem lacks_cons {parts : List (List Char)} {chars : List Char} {rest : List String}
    (h : ∀ part ∈ parts, ¬ part <:+: chars.map Char.toLower)
    (hrest : ∀ line ∈ rest, Lacks parts line) :
    ∀ line ∈ String.ofList chars :: rest, Lacks parts line := by
  apply List.forall_mem_cons.mpr ⟨?_, hrest⟩
  unfold Lacks
  rwa [String.toList_ofList]

/-- What the lines have not, their text has not. -/
theorem lacks_joinLines {parts : List (List Char)}
    (hparts : ∀ part ∈ parts, '\n' ∉ part ∧ part ≠ [])
    {lines : List String} (h : ∀ line ∈ lines, Lacks parts line) :
    Lacks parts (joinLines lines) := by
  intro part hpart
  induction lines with
  | nil =>
      rw [joinLines, String.intercalate_nil]
      exact fun hwithin => (hparts part hpart).2 (List.infix_nil.mp hwithin)
  | cons line rest ih =>
      have hline := h line List.mem_cons_self part hpart
      have hrest := ih fun own hown => h own (List.mem_cons_of_mem line hown)
      cases rest with
      | nil => rwa [joinLines, String.intercalate_singleton]
      | cons next others =>
          rw [toList_joinLines_cons line (List.cons_ne_nil next others), List.map_append,
            List.map_cons]
          intro hwithin
          rcases infix_line (hparts part hpart).1 (hparts part hpart).2 hwithin with hown | hown
          · exact hline hown
          · exact hrest hown

end PlannerPrompt

end TripGraph
