import Mathlib.Algebra.Order.Ring.Rat
import TripGraph.Foundation.Selection
import TripGraph.Tools.Policy

/-! # Rule-based tool selection

Tools are scored by the keywords and names found in a task, and the first of the highest
scores is selected. The scores stand in the order in which the set of available tools is
enumerated, which differs from process to process.
-/

namespace TripGraph

open Interaction

/-! ## Scores -/

/-- `TOOL_KEYWORDS`. -/
def toolKeywords : List (String × List String) :=
  [("weather", ["天气", "气温", "温度", "降雨", "forecast", "weather", "climate"]),
    ("map", ["路线", "导航", "地图", "交通", "出行", "route", "map", "directions", "driving"]),
    ("budget", ["预算", "费用", "花费", "成本", "价格", "budget", "cost", "spend"]),
    ("echo", ["echo", "回显", "测试", "test"])]

/-- `part in text`. -/
def isIn (part text : String) : Bool := text.toList.tails.any fun tail =>
    part.toList.isPrefixOf tail

/-- The matches of a literal pattern that do not overlap, from left to right; an empty pattern
matches everywhere. `skip` characters belong to the last match. -/
def occurrences (pattern : List Char) : Nat → List Char → Nat
  | _, [] => if pattern = [] then 1 else 0
  | skip + 1, _ :: rest => occurrences pattern skip rest
  | 0, c :: rest =>
      if pattern.isPrefixOf (c :: rest) then 1 + occurrences pattern (pattern.length - 1) rest
      else occurrences pattern 0 rest

/-- `rank_to_result`. -/
def rankToResult : List (String × Rat) → ToolSelectionResult
  | [] => ⟨none, 0, []⟩
  | (bestTool, bestScore) :: rest =>
      ⟨some bestTool, roundTo 4 bestScore,
        (rest.filter fun entry => decide (0 < entry.2)).map fun entry =>
          ⟨entry.1, roundTo 4 entry.2⟩⟩

/-- The available tools are a set, enumerated in the order of this process; the catalog has
the names of the registered definitions. Lower-casing is that of the host language. -/
structure RuleBasedToolSelector where
  available : List String
  catalog : List String
  lower : String → String
  nodup : available.Nodup
  nodupCatalog : catalog.Nodup

namespace RuleBasedToolSelector

variable (selector : RuleBasedToolSelector) (task : String)

/-- The score of some keywords, if one of them is found. -/
def keywordScore (keywords : List String) : Option Rat :=
  let hits := keywords.countP fun keyword =>
    isIn keyword (selector.lower task) || isIn keyword task
  if hits = 0 then none else some (min 1 (hits / max (keywords.length * (35 / 100)) 1))

/-- The score of a name, if it is found. -/
def nameScore (name : String) : Option Rat :=
  let hits := occurrences name.toList 0 (selector.lower task).toList
  if hits = 0 then none else some (min 1 (1 / 2 + hits * (2 / 10)))

/-- `tool_catalog`: the definitions sorted by name. -/
def toolCatalog : List String := selector.catalog.insertionSort (· ≤ ·)

def scores : Dict String Rat :=
  let initial := Dict.ofList (selector.available.map fun name => (name, 0))
  let keyworded := toolKeywords.foldl
    (fun scores entry =>
      if entry.1 ∈ selector.available then
        match selector.keywordScore task entry.2 with
        | some score => scores.set entry.1 score
        | none => scores
      else scores)
    initial
  selector.toolCatalog.foldl
    (fun scores name =>
      -- a name counts only for a tool without keywords in the task
      if 0 < (scores.get? name).getD 0 then scores
      else
        match selector.nameScore task name with
        | some score => scores.set name score
        | none => scores)
    keyworded

def ranked : List (String × Rat) :=
  ((selector.scores task).entries.filter fun entry => decide (0 < entry.2)).insertionSort
    fun a b => b.2 ≤ a.2

def select : ToolSelectionResult := rankToResult (selector.ranked task)

/-- The score a tool comes to, whatever the order of the set. -/
def score (name : String) : Rat :=
  let own := if name ∈ selector.available then
    ((toolKeywords.lookup name).bind (selector.keywordScore task)).getD 0 else 0
  if 0 < own then own
  else if name ∈ selector.catalog then (selector.nameScore task name).getD own else own

/-- The tools that are scored by their name although they are not in the set. -/
def newcomers : List String :=
  selector.toolCatalog.filter fun name =>
    decide (name ∉ selector.available) && (selector.nameScore task name).isSome

variable {selector task} {name : String}

/-- The score of the keywords of a tool, if it is available and one of them is found. -/
def ownKeywordScore (selector : RuleBasedToolSelector) (task name : String) : Option Rat :=
  if name ∈ selector.available then
    (toolKeywords.lookup name).bind (selector.keywordScore task) else none

theorem nodup_keys_toolKeywords : (toolKeywords.map Prod.fst).Nodup := by decide

theorem lookup_of_mem_toolKeywords {entry : String × List String} (h : entry ∈ toolKeywords) :
    toolKeywords.lookup entry.1 = some entry.2 := by
  revert entry
  decide

theorem scores_eq_adjustAll : selector.scores task =
    ((Dict.ofList (selector.available.map fun name => (name, (0 : Rat)))).adjustAll
      (fun name _ => ownKeywordScore selector task name) (toolKeywords.map Prod.fst)).adjustAll
        (fun name value => if 0 < value.getD 0 then none else selector.nameScore task name)
        selector.toolCatalog := by
  unfold scores
  dsimp only
  have hkeyworded : ∀ initial : Dict String Rat, toolKeywords.foldl
      (fun scores entry =>
        if entry.1 ∈ selector.available then
          match selector.keywordScore task entry.2 with
          | some score => scores.set entry.1 score
          | none => scores
        else scores) initial =
      initial.adjustAll (fun name _ => ownKeywordScore selector task name)
        (toolKeywords.map Prod.fst) := by
    intro initial
    rw [Dict.adjustAll, List.foldl_map]
    apply List.foldl_ext
    intro scores entry hentry
    rw [Dict.adjust, ownKeywordScore, lookup_of_mem_toolKeywords hentry, Option.bind_some]
    by_cases havailable : entry.1 ∈ selector.available
    · rw [if_pos havailable, if_pos havailable]
      cases selector.keywordScore task entry.2 <;> rfl
    · rw [if_neg havailable, if_neg havailable]
  rw [hkeyworded, Dict.adjustAll]
  apply List.foldl_ext
  intro scores name _
  unfold Dict.adjust
  dsimp only
  by_cases hpositive : 0 < (scores.get? name).getD 0
  · rw [if_pos hpositive, if_pos hpositive]
  · rw [if_neg hpositive, if_neg hpositive]
    cases selector.nameScore task name <;> rfl

theorem lookup_eq_none_of_not_mem (h : name ∉ toolKeywords.map Prod.fst) :
    toolKeywords.lookup name = none := by
  rw [List.lookup_eq_none_iff]
  intro entry hentry
  have hne : name ≠ entry.1 := fun heq => h (heq ▸ List.mem_map_of_mem hentry)
  simpa using hne

theorem nodup_toolCatalog : selector.toolCatalog.Nodup :=
  (List.perm_insertionSort _ _).nodup_iff.mpr selector.nodupCatalog

@[simp] theorem mem_toolCatalog : name ∈ selector.toolCatalog ↔ name ∈ selector.catalog :=
  (List.perm_insertionSort _ _).mem_iff

theorem keys_initial : (Dict.ofList (selector.available.map fun name => (name, (0 : Rat)))).keys =
    selector.available := by
  have hnodup : ((selector.available.map fun name => (name, (0 : Rat))).map Prod.fst).Nodup := by
    simpa [Function.comp_def] using selector.nodup
  rw [Dict.keys, Dict.entries_ofList hnodup]
  simp [Function.comp_def]

/-- The score of a tool after its keywords. -/
theorem getD_keyworded (selector : RuleBasedToolSelector) :
    ((((Dict.ofList (selector.available.map fun name => (name, (0 : Rat)))).adjustAll
      (fun name _ => ownKeywordScore selector task name) (toolKeywords.map Prod.fst)).get?
        name).getD
        0) = (ownKeywordScore selector task name).getD 0 := by
  have hinitial : ((Dict.ofList (selector.available.map fun name => (name, (0 : Rat)))).get?
      name).getD 0 = 0 := by
    cases hget : (Dict.ofList (selector.available.map fun name => (name, (0 : Rat)))).get? name with
    | none => rfl
    | some value =>
        have hmem := Dict.mem_of_get?_ofList hget
        obtain ⟨own, -, heq⟩ := List.mem_map.mp hmem
        cases heq
        rfl
  rw [Dict.get?_adjustAll _ nodup_keys_toolKeywords]
  split
  · cases ownKeywordScore selector task name with
    | none => rw [Option.none_or, hinitial, Option.getD_none]
    | some own => rfl
  next hnot =>
    rw [hinitial, ownKeywordScore, lookup_eq_none_of_not_mem hnot]
    simp

theorem keys_keyworded :
    ((Dict.ofList (selector.available.map fun name => (name, (0 : Rat)))).adjustAll
      (fun name _ => ownKeywordScore selector task name) (toolKeywords.map Prod.fst)).keys =
        selector.available := by
  have hnone : (toolKeywords.map Prod.fst).filter (fun own => decide (own ∉ selector.available) &&
      (ownKeywordScore selector task own).isSome) = [] := by
    rw [List.filter_eq_nil_iff]
    intro own _
    by_cases hmem : own ∈ selector.available <;> simp [ownKeywordScore, hmem]
  rw [Dict.keys_adjustAll _ nodup_keys_toolKeywords, keys_initial, hnone, List.append_nil]

theorem score_eq : selector.score task name =
    if 0 < (ownKeywordScore selector task name).getD 0 then
      (ownKeywordScore selector task name).getD 0
    else if name ∈ selector.catalog then
      (selector.nameScore task name).getD ((ownKeywordScore selector task name).getD 0)
    else (ownKeywordScore selector task name).getD 0 := by
  have hown : (ownKeywordScore selector task name).getD 0 = if name ∈ selector.available then
      ((toolKeywords.lookup name).bind (selector.keywordScore task)).getD 0 else 0 := by
    unfold ownKeywordScore
    split <;> rfl
  rw [hown]
  rfl

theorem getD_scores : ((selector.scores task).get? name).getD 0 = selector.score task name := by
  rw [scores_eq_adjustAll, Dict.get?_adjustAll _ nodup_toolCatalog, score_eq,
    ← getD_keyworded selector]
  generalize ((Dict.ofList (selector.available.map fun name => (name, (0 : Rat)))).adjustAll
    (fun name _ => ownKeywordScore selector task name) (toolKeywords.map Prod.fst)).get?
      name = value
  simp only [mem_toolCatalog]
  by_cases hpositive : 0 < value.getD 0
  · simp [hpositive]
  · by_cases hmem : name ∈ selector.catalog
    · cases selector.nameScore task name <;> simp [hpositive, hmem]
    · simp [hpositive, hmem]

theorem keys_scores : (selector.scores task).keys = selector.available ++
    selector.newcomers task := by
  rw [scores_eq_adjustAll, Dict.keys_adjustAll _ nodup_toolCatalog, keys_keyworded]
  simp [newcomers]

/-- The scored tools: those of the set in its order, then the newcomers. -/
theorem entries_scores : (selector.scores task).entries =
    (selector.available ++ selector.newcomers task).map fun name =>
      (name, selector.score task name) := by
  rw [Dict.entries_eq_map_keys _ 0, keys_scores]
  exact List.map_congr_left fun name _ => by rw [getD_scores]

/-! ## The selected tool -/

/-- The tools with a positive score. -/
def scored (selector : RuleBasedToolSelector) (task : String) (names : List String) :
    List (String × Rat) :=
  (names.map fun name => (name, selector.score task name)).filter fun entry => decide (0 < entry.2)

theorem mem_scored {names : List String} {entry : String × Rat} :
    entry ∈ scored selector task names ↔
      entry.1 ∈ names ∧ entry.2 = selector.score task entry.1 ∧ 0 < entry.2 := by
  obtain ⟨own, value⟩ := entry
  simp only [scored, List.mem_filter, List.mem_map, Prod.mk.injEq, decide_eq_true_eq]
  constructor
  · rintro ⟨⟨other, hmem, rfl, rfl⟩, hpositive⟩
    exact ⟨hmem, rfl, hpositive⟩
  · rintro ⟨hmem, rfl, hpositive⟩
    exact ⟨⟨own, hmem, rfl, rfl⟩, hpositive⟩

theorem bestTool_select : (selector.select task).bestTool =
    ((scored selector task selector.available ++
      scored selector task (selector.newcomers task)).argmax Prod.snd).map Prod.fst := by
  have hhead : ∀ ranked, (rankToResult ranked).bestTool = ranked.head?.map Prod.fst := by
    intro ranked
    cases ranked <;> rfl
  rw [select, hhead, ranked, head?_insertionSort, entries_scores, List.map_append,
    List.filter_append]
  rfl

/-- Another enumeration of the same set. -/
def reordered (selector : RuleBasedToolSelector) (order : List String)
    (h : order.Perm selector.available) : RuleBasedToolSelector :=
  { selector with available := order, nodup := h.nodup_iff.mpr selector.nodup }

/-- Whichever way the set is enumerated, the same tool is selected. -/
def OrderIndependent (selector : RuleBasedToolSelector) (task : String) : Prop :=
  ∀ (first second : List String) (hfirst : first.Perm selector.available)
    (hsecond : second.Perm selector.available),
      ((selector.reordered first hfirst).select task).bestTool =
        ((selector.reordered second hsecond).select task).bestTool

/-- The tool has a score, and no tool has a higher one. -/
def Leads (selector : RuleBasedToolSelector) (task name : String) : Prop :=
  0 < selector.score task name ∧
    ∀ other, other ∈ selector.available ∨ other ∈ selector.catalog →
      selector.score task other ≤ selector.score task name

/-- No two tools of the set lead together. -/
def Unrivalled (selector : RuleBasedToolSelector) (task : String) : Prop :=
  ∀ first ∈ selector.available, ∀ second ∈ selector.available,
    Leads selector task first → Leads selector task second → first = second

section Reordering

variable {order : List String} (h : order.Perm selector.available)

include h in
theorem bestTool_select_reordered : ((selector.reordered order h).select task).bestTool =
    ((scored selector task order ++
      scored selector task (selector.newcomers task)).argmax Prod.snd).map Prod.fst := by
  have hscore : ∀ name, (selector.reordered order h).score task name =
      selector.score task name := by
    intro name
    simp only [score, reordered, h.mem_iff]
    rfl
  have hnewcomers : (selector.reordered order h).newcomers task = selector.newcomers task := by
    simp only [newcomers, reordered, h.mem_iff]
    rfl
  have hscored : ∀ names, scored (selector.reordered order h) task names =
      scored selector task names := by
    intro names
    simp only [scored, hscore]
  rw [bestTool_select, hscored, hscored, hnewcomers]
  rfl

/-- A tool without a score in the set that has one is a newcomer. -/
theorem mem_newcomers (hmem : name ∈ selector.catalog) (hnot : name ∉ selector.available)
    (hpositive : 0 < selector.score task name) : name ∈ selector.newcomers task := by
  rw [newcomers, List.mem_filter, mem_toolCatalog]
  refine ⟨hmem, ?_⟩
  have hvalue : selector.score task name = (selector.nameScore task name).getD 0 := by
    simp [score, hnot, hmem]
  cases hscore : selector.nameScore task name with
  | none =>
      rw [hvalue, hscore] at hpositive
      exact absurd hpositive (by simp)
  | some value => simp [hnot]

include h in
/-- What leads the scored tools leads. -/
theorem leads_of_argmax {entry : String × Rat} (hmem : entry ∈ scored selector task order)
    (hlargest : ∀ other ∈ scored selector task order ++
      scored selector task (selector.newcomers task), other.2 ≤ entry.2) :
    entry.1 ∈ selector.available ∧ Leads selector task entry.1 := by
  obtain ⟨hname, hvalue, hpositive⟩ := mem_scored.mp hmem
  refine ⟨h.mem_iff.mp hname, hvalue ▸ hpositive, ?_⟩
  intro other hother
  rw [← hvalue]
  by_cases hscore : 0 < selector.score task other
  · apply hlargest (other, selector.score task other)
    rw [List.mem_append, mem_scored, mem_scored]
    by_cases hset : other ∈ selector.available
    · exact Or.inl ⟨h.mem_iff.mpr hset, rfl, hscore⟩
    · have hcatalog := hother.resolve_left hset
      exact Or.inr ⟨mem_newcomers hcatalog hset hscore, rfl, hscore⟩
  · exact (not_lt.mp hscore).trans hpositive.le

/-- A leading tool is selected when it comes first. -/
theorem bestTool_of_leads {rest : List String} (hlead : Leads selector task name)
    (hperm : (name :: rest).Perm selector.available) :
    ((selector.reordered (name :: rest) hperm).select task).bestTool = some name := by
  have hfirst : scored selector task (name :: rest) =
      (name, selector.score task name) :: scored selector task rest :=
    List.filter_cons_of_pos (decide_eq_true hlead.1)
  rw [bestTool_select_reordered, hfirst, List.cons_append, argmax_cons_of_largest]
  · rfl
  · intro entry hentry
    rw [List.mem_append, mem_scored, mem_scored] at hentry
    rcases hentry with ⟨hmem, hvalue, -⟩ | ⟨hmem, hvalue, -⟩
    · rw [hvalue]
      exact hlead.2 entry.1 (Or.inl (hperm.mem_iff.mp (List.mem_cons_of_mem _ hmem)))
    · rw [hvalue]
      exact hlead.2 entry.1 (Or.inr (mem_toolCatalog.mp (List.mem_filter.mp hmem).1))

end Reordering

/-- The selected tool does not depend on the order of the set if and only if no two tools of
the set share the highest score. -/
theorem orderIndependent_iff : OrderIndependent selector task ↔ Unrivalled selector task := by
  constructor
  · intro hsame first hfirst second hsecond hleads hleads'
    have heq :=
      hsame (first :: selector.available.erase first) (second :: selector.available.erase second)
      (List.perm_cons_erase hfirst).symm (List.perm_cons_erase hsecond).symm
    rw [bestTool_of_leads hleads, bestTool_of_leads hleads'] at heq
    exact Option.some.inj heq
  · intro hunrivalled first second hfirst hsecond
    rw [bestTool_select_reordered, bestTool_select_reordered]
    have hperm : (scored selector task first).Perm (scored selector task second) :=
      ((hfirst.trans hsecond.symm).map _).filter _
    have hvalues := map_argmax_of_perm (f := Prod.snd) hperm
    rw [argmax_append, argmax_append]
    cases hone : (scored selector task first).argmax Prod.snd with
    | none =>
        rw [hone] at hvalues
        rw [Option.map_eq_none_iff.mp hvalues.symm]
    | some a =>
        rw [hone] at hvalues
        obtain ⟨b, htwo, hsame⟩ := Option.map_eq_some_iff.mp hvalues.symm
        rw [htwo]
        -- unless a newcomer has more, both lead
        have hlargest : ∀ {order : List String} {entry : String × Rat},
            (scored selector task order).argmax Prod.snd = some entry →
              (∀ other ∈ scored selector task (selector.newcomers task), other.2 ≤ entry.2) →
                ∀ other ∈ scored selector task order ++
                  scored selector task (selector.newcomers task), other.2 ≤ entry.2 := by
          intro order entry hentry hnew other hother
          rcases List.mem_append.mp hother with hown | hother
          · exact List.le_of_mem_argmax hown hentry
          · exact hnew other hother
        have hnames : (∀ other ∈ scored selector task (selector.newcomers task), other.2 ≤ a.2) →
            a.1 = b.1 := by
          intro hnew
          obtain ⟨ha, hleads⟩ := leads_of_argmax hfirst (List.argmax_mem hone) (hlargest hone hnew)
          obtain ⟨hb, hleads'⟩ := leads_of_argmax hsecond (List.argmax_mem htwo)
            (hlargest htwo fun other hother => hsame ▸ hnew other hother)
          exact hunrivalled a.1 ha b.1 hb hleads hleads'
        cases hnew : (scored selector task (selector.newcomers task)).argmax Prod.snd with
        | none =>
            have hnil := List.argmax_eq_none.mp hnew
            exact congrArg some (hnames (by simp [hnil]))
        | some newest =>
            dsimp only
            rw [hsame]
            by_cases hmore : a.2 < newest.2
            · rw [if_pos hmore, if_pos hmore]
            · rw [if_neg hmore, if_neg hmore]
              refine congrArg some (hnames fun other hother => ?_)
              exact (List.le_of_mem_argmax hother hnew).trans (not_lt.mp hmore)

/-- The default tools. -/
def defaultSelector : RuleBasedToolSelector where
  available := ["budget", "echo", "map", "weather"]
  catalog := ["budget", "echo", "map", "weather"]
  lower := id
  nodup := by decide
  nodupCatalog := by decide

/-- Three keywords of `weather` and three of `budget`: both scores are cut off at 1. -/
theorem not_orderIndependent_defaultSelector :
    ¬ OrderIndependent defaultSelector "天气 气温 温度 预算 费用 花费" := by
  intro h
  have hsame := h ["budget", "echo", "map", "weather"] ["weather", "budget", "echo", "map"]
    (by decide) (by decide)
  have hfirst : ((defaultSelector.reordered ["budget", "echo", "map", "weather"]
      (by decide)).select "天气 气温 温度 预算 费用 花费").bestTool = some "budget" := by
    decide +kernel
  have hsecond : ((defaultSelector.reordered ["weather", "budget", "echo", "map"]
      (by decide)).select "天气 气温 温度 预算 费用 花费").bestTool = some "weather" := by
    decide +kernel
  rw [hfirst, hsecond] at hsame
  exact absurd hsame (by decide)

end RuleBasedToolSelector

end TripGraph
