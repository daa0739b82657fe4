import TripGraph.Agents.RuleBased
import TripGraph.Foundation.Firsts

/-! # What the rule-based plans are like

The steps are numbered from one on, use listed tools only, and their texts hold no fence unless
the query does.
-/

namespace TripGraph

open Interaction

/-! ## Texts -/

/-- A text without a backtick. -/
def Unticked (text : String) : Prop := ∀ c ∈ text.toList, c ≠ '`'

instance (text : String) : Decidable (Unticked text) := List.decidableBAll (· ≠ '`') text.toList

theorem Unticked.append {first second : String} (hfirst : Unticked first)
    (hsecond : Unticked second) : Unticked (first ++ second) := by
  intro c hc
  rw [String.toList_append] at hc
  exact (List.mem_append.mp hc).elim (hfirst c) (hsecond c)

theorem Unticked.intercalate {separator : String} (hseparator : Unticked separator)
    {parts : List String} (h : ∀ part ∈ parts, Unticked part) :
    Unticked (separator.intercalate parts) := by
  induction parts with
  | nil =>
      rw [String.intercalate_nil]
      exact fun c hc => nomatch hc
  | cons part rest ih =>
      have hpart := h part List.mem_cons_self
      have hrest := ih fun own hown => h own (List.mem_cons_of_mem part hown)
      cases rest with
      | nil => rwa [String.intercalate_singleton]
      | cons next others =>
          rw [String.intercalate_cons_of_ne_nil (List.cons_ne_nil next others)]
          exact (hpart.append hseparator).append hrest

theorem unticked_toString (n : Nat) : Unticked (toString n) := by
  intro c hc
  have hdigits : c ∈ Nat.toDigits 10 n := by
    rw [← Nat.toList_repr]
    exact hc
  rintro rfl
  exact absurd (Json.isDigit_of_mem_toDigits hdigits) (by decide)

theorem isBlank_append (first second : String) :
    isBlank (first ++ second) = (isBlank first && isBlank second) := by
  rw [isBlank, String.toList_append, List.all_append]
  rfl

/-- A text that says something, and in which no fence stands. -/
structure Spoken (text : String) : Prop where
  not_blank : isBlank text = false
  unfenced : JsonText.Unfenced text.toList

theorem Unticked.spoken_append {first second : String} (hblank : isBlank first = false)
    (hfirst : Unticked first) (hsecond : JsonText.Unfenced second.toList) :
    Spoken (first ++ second) := by
  refine ⟨?_, ?_⟩
  · rw [isBlank_append, hblank, Bool.false_and]
  · rw [String.toList_append]
    exact .append_plain hfirst hsecond

theorem Unticked.unfenced {text : String} (h : Unticked text) :
    JsonText.Unfenced text.toList := JsonText.unfenced_of_plain h

theorem mem_dropWhile {p : Char → Bool} {c : Char} {text : List Char} (hc : p c = false)
    (hmem : c ∈ text) : c ∈ text.dropWhile p := by
  rw [← List.takeWhile_append_dropWhile (p := p) (l := text)] at hmem
  apply (List.mem_append.mp hmem).resolve_left
  intro htake
  exact absurd ((List.mem_takeWhile_imp htake).symm.trans hc) Bool.noConfusion

/-- White space around a text is no part of what it says. -/
theorem Spoken.strip {text : String} (h : Spoken text) : Spoken (strip text) := by
  refine ⟨?_, ?_⟩
  · have hspoken := h.not_blank
    rw [isBlank, List.all_eq_false] at hspoken ⊢
    obtain ⟨c, hc, hspace⟩ := hspoken
    rw [Bool.not_eq_true] at hspace
    refine ⟨c, ?_, by rw [hspace]; exact Bool.false_ne_true⟩
    rw [TripGraph.strip, String.toList_ofList, List.mem_reverse]
    exact mem_dropWhile hspace (List.mem_reverse.mpr (mem_dropWhile hspace hc))
  · rw [TripGraph.strip, String.toList_ofList]
    apply JsonText.splitFence_of_infix h.unfenced
    refine List.IsInfix.trans ?_ (List.dropWhile_suffix isSpace).isInfix
    have hreversed := List.reverse_prefix.mpr
      (List.dropWhile_suffix isSpace (l := (text.toList.dropWhile isSpace).reverse))
    rw [List.reverse_reverse] at hreversed
    exact hreversed.isInfix

namespace RuleBased

variable {available : List String}

/-! ## Steps -/

/-- The step of the plan that the payload is read as. -/
def StepPayload.step (step : StepPayload) : PlanStep :=
  ⟨step.id, step.task, step.toolHint, step.dependency.getD none⟩

def PlanPayload.plan (payload : PlanPayload) : Plan :=
  ⟨payload.goal, payload.steps.map StepPayload.step⟩

/-- The ids a step waits for. -/
def StepPayload.deps (step : StepPayload) : List Int := (step.dependency.getD none).getD []

/-- The ids come before this one. -/
def Prior (stepId : Int) (deps : List Int) : Prop := ∀ dep ∈ deps, 1 ≤ dep ∧ dep < stepId

instance (stepId : Int) (deps : List Int) : Decidable (Prior stepId deps) :=
  inferInstanceAs (Decidable (∀ _ ∈ _, _))

theorem Prior.normalizeDeps {stepId : Int} {deps : List Int} (h : Prior stepId deps) :
    Prior stepId (((some (normalizeDeps deps)).getD none).getD []) := by
  rw [Option.getD_some, getD_normalizeDeps]
  exact h

theorem Prior.mono {stepId next : Int} {deps : List Int} (h : Prior stepId deps)
    (hle : stepId ≤ next) : Prior next deps := by
  intro dep hdep
  obtain ⟨hlow, hhigh⟩ := h dep hdep
  exact ⟨hlow, by omega⟩

theorem prior_nil (stepId : Int) : Prior stepId [] := fun _ hdep => nomatch hdep

structure StepPayload.Sound (available : List String) (step : StepPayload) : Prop where
  task : Spoken step.task
  hint : ∀ hint, step.toolHint = some hint → hint ∈ available ∧ Unticked hint
  prior : Prior step.id step.deps

/-- The steps are numbered from one on. -/
structure Numbered (available : List String) (steps : List StepPayload) : Prop where
  ids : steps.map StepPayload.id = expectedIds steps.length
  sound : ∀ step ∈ steps, step.Sound available

structure Draft.Sound (available : List String) (draft : Draft) : Prop where
  numbered : Numbered available draft.steps
  next : draft.stepId = (draft.steps.length : Int) + 1

theorem expectedIds_succ (n : Nat) : expectedIds (n + 1) = expectedIds n ++ [(n : Int) + 1] := by
  rw [expectedIds, List.range_succ, List.map_append]
  rfl

theorem sound_empty : Draft.empty.Sound available :=
  ⟨⟨rfl, fun _ hstep => nomatch hstep⟩, rfl⟩

theorem Draft.Sound.add {draft : Draft} (h : draft.Sound available) {task tool : String}
    (htask : Spoken task) (htool : tool ∈ available ∧ Unticked tool)
    {dependency : Option (Option (List Int))}
    (hdeps : Prior draft.stepId ((dependency.getD none).getD [])) :
    (draft.add task tool dependency).Sound available := by
  refine ⟨⟨?_, ?_⟩, ?_⟩
  · rw [Draft.add, List.map_append, h.numbered.ids, List.length_append, List.length_singleton,
      expectedIds_succ, ← h.next]
    rfl
  · intro step hstep
    rcases List.mem_append.mp hstep with hold | hnew
    · exact h.numbered.sound step hold
    · rw [List.mem_singleton.mp hnew]
      refine ⟨htask, ?_, hdeps⟩
      rintro hint ⟨⟩
      exact htool
  · rw [Draft.add, List.length_append, List.length_singleton, h.next]
    push_cast
    rfl

theorem Draft.Sound.orSingle {draft : Draft} (h : draft.Sound available) {task : String}
    (htask : Spoken task) :
    Numbered available (draft.orSingle task) ∧ draft.orSingle task ≠ [] := by
  unfold Draft.orSingle
  split
  · refine ⟨⟨rfl, ?_⟩, List.cons_ne_nil _ _⟩
    intro step hstep
    rw [List.mem_singleton.mp hstep]
    exact ⟨htask, (fun hint heq => nomatch heq), prior_nil 1⟩
  next hne => exact ⟨h.numbered, hne⟩

/-- A picked tool is listed. -/
theorem mem_of_pickTool {name tool : String} {preferMcp : Bool} (hname : Unticked name)
    (h : pickTool name available preferMcp = some tool) : tool ∈ available ∧ Unticked tool := by
  have hmcp : Unticked ("mcp_" ++ name) := Unticked.append (by decide) hname
  unfold pickTool at h
  dsimp only at h
  split at h
  next hpreferred =>
    obtain rfl := Option.some.inj h
    exact ⟨hpreferred.2, hmcp⟩
  next =>
    split at h
    next hmem =>
      obtain rfl := Option.some.inj h
      exact ⟨hmem, hname⟩
    next =>
      split at h
      next hmem =>
        obtain rfl := Option.some.inj h
        exact ⟨hmem, hmcp⟩
      next => cases h

/-- The steps so far are sound, and those to wait for are among them. -/
structure Chain.Sound (available : List String) (chain : Chain) : Prop where
  draft : chain.draft.Sound available
  prior : Prior chain.draft.stepId chain.deps

theorem Chain.Sound.extend {chain : Chain} (h : chain.Sound available) (name : String)
    {task : String} (hname : Unticked name) (htask : Spoken task) (preferMcp keyed : Bool) :
    (chain.extend (pickTool name available preferMcp) task keyed).Sound available := by
  unfold Chain.extend
  split
  next tool htool =>
    refine ⟨h.draft.add htask (mem_of_pickTool hname htool) ?_, ?_⟩
    · cases keyed with
      | false => exact prior_nil _
      | true => exact h.prior.normalizeDeps
    · intro dep hdep
      have hnext := h.draft.next
      rcases List.mem_append.mp hdep with hold | hnew
      · exact h.prior.mono (Int.le_of_lt (Int.lt_succ _)) dep hold
      · rw [List.mem_singleton.mp hnew]
        exact ⟨by omega, Int.lt_succ _⟩
  next => exact h

theorem numbered_chainSteps {preferMcp : Bool} {weatherTask mapTask budgetTask singleTask : String}
    (hweather : Spoken weatherTask) (hmap : Spoken mapTask) (hbudget : Spoken budgetTask)
    (hsingle : Spoken singleTask) :
    Numbered available
      (chainSteps available preferMcp weatherTask mapTask budgetTask singleTask) ∧
    chainSteps available preferMcp weatherTask mapTask budgetTask singleTask ≠ [] := by
  have hstart : (Chain.mk .empty []).Sound available := ⟨sound_empty, prior_nil _⟩
  have hweathered := hstart.extend "weather" (by decide) hweather preferMcp false
  have hmapped := hweathered.extend "map" (by decide) hmap preferMcp true
  have hbudgeted := hmapped.extend "budget" (by decide) hbudget preferMcp true
  exact hbudgeted.draft.orSingle hsingle

/-! ## Plans for several cities -/

/-- The steps so far are sound, and each city waits for some of them. -/
structure CityDraft.Sound (available : List String) (own : CityDraft) : Prop where
  draft : own.draft.Sound available
  waiting : ∀ city, Prior own.draft.stepId (own.depsOf city)

theorem depsOf_set (cityDeps : Dict String (List Int)) (draft : Draft) (city other : String)
    (deps : List Int) : (CityDraft.mk draft (cityDeps.set city deps)).depsOf other =
      if other = city then deps else (CityDraft.mk draft cityDeps).depsOf other := by
  unfold CityDraft.depsOf
  dsimp only
  by_cases h : other = city
  · rw [h, Dict.get?_set_self, if_pos rfl, Option.getD_some]
  · rw [Dict.get?_set_ne _ h, if_neg h]

/-- A new step for a city, which then waits for it or not. -/
theorem CityDraft.Sound.add {own : CityDraft} (h : own.Sound available) {task tool : String}
    (htask : Spoken task) (htool : tool ∈ available ∧ Unticked tool)
    {dependency : Option (Option (List Int))}
    (hdeps : Prior own.draft.stepId ((dependency.getD none).getD []))
    {cityDeps : Dict String (List Int)}
    (hwaiting : ∀ city, Prior (own.draft.stepId + 1)
      ((CityDraft.mk own.draft cityDeps).depsOf city)) :
    (CityDraft.mk (own.draft.add task tool dependency) cityDeps).Sound available :=
  ⟨h.draft.add htask htool hdeps, hwaiting⟩

theorem CityDraft.Sound.stepId_pos {own : CityDraft} (h : own.Sound available) :
    1 ≤ own.draft.stepId := by
  rw [h.draft.next]
  omega

theorem sound_visitCities (visit : String → CityDraft → String → CityDraft) (name : String)
    (hname : Unticked name) {cities : List String} {own : CityDraft}
    (hvisit : ∀ tool, tool ∈ available ∧ Unticked tool → ∀ city ∈ cities, ∀ before : CityDraft,
      before.Sound available → (visit tool before city).Sound available)
    (h : own.Sound available) :
    (CityDraft.visitCities visit (pickTool name available false) cities own).Sound available := by
  unfold CityDraft.visitCities
  split
  next tool htool =>
    have hfold := hvisit tool (mem_of_pickTool hname htool)
    clear hvisit htool
    induction cities generalizing own with
    | nil => exact h
    | cons city rest ih =>
        apply ih (hfold city List.mem_cons_self own h)
        exact fun next hnext => hfold next (List.mem_cons_of_mem city hnext)
  next => exact h

/-- A task about a city, between two other words. -/
theorem spoken_about (first last : String) {city : String} (hblank : isBlank first = false)
    (hfirst : Unticked first) (hcity : Unticked city) (hlast : Unticked last) :
    Spoken (first ++ city ++ last) := by
  refine ⟨?_, ((hfirst.append hcity).append hlast).unfenced⟩
  rw [isBlank_append, isBlank_append, hblank, Bool.false_and, Bool.false_and]

section Cities

variable {own : CityDraft} {city tool : String}

theorem CityDraft.Sound.addWeather (h : own.Sound available) (hcity : Unticked city)
    (htool : tool ∈ available ∧ Unticked tool) : (own.addWeather tool city).Sound available := by
  apply h.add (spoken_about _ _ (by decide) (by decide) hcity (by decide)) htool (prior_nil _)
  intro other
  rw [depsOf_set]
  split
  · intro dep hdep
    have hpos := h.stepId_pos
    rw [List.mem_singleton.mp hdep]
    exact ⟨hpos, by omega⟩
  · exact (h.waiting other).mono (by omega)

theorem CityDraft.Sound.addMap (h : own.Sound available) (hcity : Unticked city)
    (htool : tool ∈ available ∧ Unticked tool) : (own.addMap tool city).Sound available := by
  apply h.add (spoken_about _ _ (by decide) (by decide) hcity (by decide)) htool
    (h.waiting city).normalizeDeps
  intro other
  rw [depsOf_set]
  split
  · intro dep hdep
    have hpos := h.stepId_pos
    rcases List.mem_append.mp hdep with hold | hnew
    · exact (h.waiting city).mono (by omega) dep hold
    · rw [List.mem_singleton.mp hnew]
      exact ⟨hpos, by omega⟩
  · exact (h.waiting other).mono (by omega)

theorem CityDraft.Sound.addBudget (h : own.Sound available) (hcity : Unticked city)
    (htool : tool ∈ available ∧ Unticked tool) : (own.addBudget tool city).Sound available := by
  apply h.add (spoken_about _ _ (by decide) (by decide) hcity (by decide)) htool
    (h.waiting city).normalizeDeps
  exact fun other => (h.waiting other).mono (by omega)

end Cities

/-- What a payload is to be like. -/
structure PlanPayload.Sound (available : List String) (payload : PlanPayload) : Prop where
  goal : Spoken payload.goal
  steps : Numbered available payload.steps
  nonempty : payload.steps ≠ []

theorem sound_mk {goal : String} {steps : List StepPayload} (hgoal : Spoken goal)
    (hsteps : Numbered available steps ∧ steps ≠ []) :
    (PlanPayload.mk goal steps).Sound available :=
  ⟨hgoal, hsteps.1, hsteps.2⟩

theorem sound_buildDualCityPlan (query : String) :
    (buildDualCityPlan query available).Sound available := by
  have hdual : ∀ city ∈ dualCities, Unticked city := by decide
  have hpair : ∀ city ∈ ["上海", "北京"], Unticked city := by decide
  have hnamed : ∀ city ∈ (if (dualCities.filter fun city => isIn city query).length < 2 then
      ["上海", "北京"] else dualCities.filter fun city => isIn city query), Unticked city := by
    intro city hcity
    split at hcity
    · exact hpair city hcity
    · exact hdual city (List.mem_filter.mp hcity).1
  unfold buildDualCityPlan
  dsimp only
  generalize (if (dualCities.filter fun city => isIn city query).length < 2 then
    ["上海", "北京"] else dualCities.filter fun city => isIn city query) = cities at hnamed
  have htitle : Spoken ("规划" ++ "、".intercalate cities ++ "双城游") :=
    spoken_about _ _ (by decide) (by decide) (Unticked.intercalate (by decide) hnamed) (by decide)
  have hstart : (CityDraft.mk .empty .empty).Sound available :=
    ⟨sound_empty, fun _ => prior_nil _⟩
  have hweather := sound_visitCities .addWeather "weather" (by decide)
    (fun tool htool city hcity before hbefore => hbefore.addWeather (hnamed city hcity) htool)
      hstart
  have hmap := sound_visitCities .addMap "map" (by decide)
    (fun tool htool city hcity before hbefore => hbefore.addMap (hnamed city hcity) htool) hweather
  have hbudget := sound_visitCities .addBudget "budget" (by decide)
    (fun tool htool city hcity before hbefore => hbefore.addBudget (hnamed city hcity) htool) hmap
  exact sound_mk htitle (hbudget.draft.orSingle htitle)

/-! ## Plans for one query -/

variable {tables : CharTables} {query : String}

theorem unticked_of_extractCity {city : String} (h : extractCity query = some city) :
    Unticked city := by
  have hcities : ∀ own ∈ cityNames, Unticked own := by decide
  exact hcities city (List.mem_of_find?_eq_some h)

theorem unticked_orText {text fallback : String} (htext : Unticked text)
    (hfallback : Unticked fallback) : Unticked (orText (some text) fallback) := by
  unfold orText
  dsimp only
  split
  · exact hfallback
  · exact htext

theorem spoken_goal (hquery : Spoken query) (fallback : String) :
    Spoken (orText (some (strip query)) fallback) := by
  unfold orText
  dsimp only
  rw [if_neg]
  · exact hquery.strip
  · intro hnil
    have hblank := hquery.strip.not_blank
    rw [hnil] at hblank
    exact absurd hblank (by decide)

/-- A plan for one city; only the words of the goal are those of the query. -/
theorem sound_tripPlan (hquery : Spoken query) {city : Option String} {days : Option Nat}
    (hcity : ∀ own, city = some own → Unticked own) {payload : PlanPayload}
    (h : buildTripWeatherMapBudgetPlan tables query available city days = .ok payload) :
    payload.Sound available := by
  have hname : Unticked (orText (some (orText city ((extractCity query).getD ""))) "目的地") := by
    apply unticked_orText _ (by decide)
    have hfound : Unticked ((extractCity query).getD "") := by
      cases hextract : extractCity query with
      | none => decide
      | some own => exact unticked_of_extractCity hextract
    cases city with
    | none => exact hfound
    | some own => exact unticked_orText (hcity own rfl) hfound
  unfold buildTripWeatherMapBudgetPlan at h
  dsimp only at h
  generalize orText (some (orText city ((extractCity query).getD ""))) "目的地" = name at h hname
  obtain ⟨found, -, hpure⟩ := bind_eq_ok_iff.mp h
  rw [← Except.ok.inj hpure]
  have hdays : Unticked (toString found) := unticked_toString found
  generalize toString found = count at hdays ⊢
  have hcount : ∀ first last : String, isBlank first = false → Unticked first → Unticked last →
      Spoken (first ++ name ++ count ++ last) := by
    intro first last hblank hfirst hlast
    refine ⟨?_, (((hfirst.append hname).append hdays).append hlast).unfenced⟩
    rw [isBlank_append, isBlank_append, isBlank_append, hblank]
    rfl
  have hsteps := @numbered_chainSteps available (preferMcpTools tables query) _ _ _ _
    (spoken_about "查询" "天气" (by decide) (by decide) hname (by decide))
    (hcount "规划" "日景点路线" (by decide) (by decide) (by decide))
    (hcount "计算" "天旅行预算" (by decide) (by decide) (by decide))
    (hcount "规划" "日游" (by decide) (by decide) (by decide))
  exact sound_mk (spoken_goal hquery _) hsteps

/-- A plan with fixed tasks; the query is its goal. -/
theorem sound_fixedPlan (hquery : Spoken query) {weatherTask mapTask budgetTask first : String}
    (hweather : Spoken weatherTask) (hmap : Spoken mapTask) (hbudget : Spoken budgetTask)
    (hblank : isBlank first = false) (hfirst : Unticked first) :
    (PlanPayload.mk query (chainSteps available false weatherTask mapTask budgetTask
      (first ++ query))).Sound available := by
  exact sound_mk hquery (numbered_chainSteps hweather hmap hbudget
    (Unticked.spoken_append hblank hfirst hquery.unfenced))

theorem Unticked.spoken {text : String} (h : Unticked text) (hblank : isBlank text = false) :
    Spoken text := ⟨hblank, h.unfenced⟩

theorem sound_buildDefaultPlan (hquery : Spoken query) {payload : PlanPayload}
    (h : buildDefaultPlan tables query available = .ok payload) : payload.Sound available := by
  unfold buildDefaultPlan at h
  obtain ⟨tripLike, -, hrest⟩ := bind_eq_ok_iff.mp h
  split at hrest
  · exact sound_tripPlan hquery (by rintro own ⟨⟩) hrest
  · obtain rfl := Except.ok.inj hrest
    exact sound_fixedPlan hquery (Unticked.spoken (by decide) (by decide))
      (Unticked.spoken (by decide) (by decide)) (Unticked.spoken (by decide) (by decide))
      (by decide) (by decide)

/-- Whatever branch a query takes, the plan is sound. -/
theorem sound_buildPlanForQuery (hquery : Spoken query) {payload : PlanPayload}
    (h : buildPlanForQuery tables query available = .ok payload) : payload.Sound available := by
  unfold buildPlanForQuery at h
  split at h
  · obtain rfl := Except.ok.inj h
    exact sound_buildDualCityPlan query
  obtain ⟨tripLike, -, hrest⟩ := bind_eq_ok_iff.mp h
  split at hrest
  · exact sound_tripPlan hquery (by rintro own ⟨⟩) hrest
  split at hrest
  · refine sound_tripPlan hquery ?_ hrest
    rintro own ⟨⟩
    decide
  split at hrest
  · obtain rfl := Except.ok.inj hrest
    exact sound_fixedPlan hquery (Unticked.spoken (by decide) (by decide))
      (Unticked.spoken (by decide) (by decide)) (Unticked.spoken (by decide) (by decide))
      (by decide) (by decide)
  · exact sound_buildDefaultPlan hquery hrest

/-! ## Queries with a readable number of days -/

/-- Without a text of digits that is too long, a plan is found. -/
theorem exists_buildPlanForQuery {days : Option Nat} (h : extractDays tables query = .ok days)
    (available : List String) :
    ∃ payload, buildPlanForQuery tables query available = .ok payload := by
  have htripLike : ∃ answer, isTripWithBudget tables query = .ok answer := by
    unfold isTripWithBudget
    dsimp only
    split
    · exact ⟨_, rfl⟩
    · rw [h]
      exact ⟨_, rfl⟩
  have htrip : ∀ city count, ∃ payload,
      buildTripWeatherMapBudgetPlan tables query available city count = .ok payload := by
    intro city count
    unfold buildTripWeatherMapBudgetPlan resolveDays
    dsimp only
    split
    · exact ⟨_, rfl⟩
    · rw [h]
      exact ⟨_, rfl⟩
  obtain ⟨answer, hanswer⟩ := htripLike
  unfold buildPlanForQuery
  split
  · exact ⟨_, rfl⟩
  rw [hanswer]
  change ∃ payload, (if answer = true then _ else _) = Except.ok payload
  split
  · exact htrip none none
  split
  · exact htrip (some "上海") (some 3)
  split
  · exact ⟨_, rfl⟩
  · unfold buildDefaultPlan
    rw [hanswer]
    change ∃ payload, (if answer = true then _ else _) = Except.ok payload
    split
    · exact htrip none none
    · exact ⟨_, rfl⟩

/-! ## Plans for the tools that stand in for a missing list -/

/-- The tools of `_extract_available_tools` without a list. -/
def assumedTools : List String := ["weather", "map", "budget"]

/-- The first step of a plan, if there is a tool for the weather. -/
def weatherStep (task : String) : StepPayload := ⟨1, task, some "weather", none⟩

theorem prefix_extend (chain : Chain) (tool : Option String) (task : String) (keyed : Bool) :
    chain.draft.steps <+: (chain.extend tool task keyed).draft.steps := by
  cases tool with
  | none => exact List.prefix_rfl
  | some tool => exact List.prefix_append _ _

theorem prefix_orSingle {draft : Draft} {first : StepPayload} (h : [first] <+: draft.steps)
    (task : String) : [first] <+: draft.orSingle task := by
  unfold Draft.orSingle
  rw [if_neg]
  · exact h
  · intro hnil
    rw [hnil] at h
    cases List.prefix_nil.mp h

theorem pickTool_weather (preferMcp : Bool) :
    pickTool "weather" assumedTools preferMcp = some "weather" := by
  cases preferMcp <;> decide

theorem begins_chainSteps (preferMcp : Bool) (weatherTask mapTask budgetTask singleTask : String) :
    [weatherStep weatherTask] <+:
      chainSteps assumedTools preferMcp weatherTask mapTask budgetTask singleTask := by
  unfold chainSteps
  dsimp only
  rw [pickTool_weather]
  have hfirst : [weatherStep weatherTask] <+:
      (Chain.extend ⟨.empty, []⟩ (some "weather") weatherTask false).draft.steps := List.prefix_rfl
  apply prefix_orSingle
  exact (hfirst.trans (prefix_extend _ _ mapTask true)).trans (prefix_extend _ _ budgetTask true)

theorem prefix_visitCities {visit : String → CityDraft → String → CityDraft}
    (hvisit : ∀ tool own city, own.draft.steps <+: (visit tool own city).draft.steps)
    (tool : Option String) (cities : List String) (own : CityDraft) :
    own.draft.steps <+: (CityDraft.visitCities visit tool cities own).draft.steps := by
  cases tool with
  | none => exact List.prefix_rfl
  | some tool =>
      change own.draft.steps <+: (cities.foldl (visit tool) own).draft.steps
      induction cities generalizing own with
      | nil => exact List.prefix_rfl
      | cons city rest ih => exact (hvisit tool own city).trans (ih (visit tool own city))

theorem begins_buildDualCityPlan (query : String) : ∃ city ∈ dualCities,
    [weatherStep ("查询" ++ city ++ "天气")] <+: (buildDualCityPlan query assumedTools).steps := by
  have hcities : ∀ cities : List String, (∀ city ∈ cities, city ∈ dualCities) → cities ≠ [] →
      ∀ title : String, ∃ city ∈ dualCities, [weatherStep ("查询" ++ city ++ "天气")] <+:
        (CityDraft.visitCities .addBudget (pickTool "budget" assumedTools false) cities
          (CityDraft.visitCities .addMap (pickTool "map" assumedTools false) cities
            (CityDraft.visitCities .addWeather (pickTool "weather" assumedTools false) cities
              ⟨.empty, .empty⟩))).draft.orSingle title := by
    intro cities hcities hne title
    cases cities with
    | nil => exact absurd rfl hne
    | cons city rest =>
        refine ⟨city, hcities city List.mem_cons_self, prefix_orSingle ?_ title⟩
        refine List.IsPrefix.trans ?_
          (prefix_visitCities (fun _ _ _ => List.prefix_append _ _) _ _ _)
        refine List.IsPrefix.trans ?_
          (prefix_visitCities (fun _ _ _ => List.prefix_append _ _) _ _ _)
        rw [pickTool_weather]
        exact prefix_visitCities (fun _ _ _ => List.prefix_append _ _) (some "weather") rest
          (CityDraft.addWeather "weather" ⟨.empty, .empty⟩ city)
  have hpair : ∀ city ∈ ["上海", "北京"], city ∈ dualCities := by decide +kernel
  unfold buildDualCityPlan
  dsimp only
  split
  · exact hcities _ hpair (List.cons_ne_nil _ _) _
  next hmany =>
    apply hcities _ (fun city hcity => (List.mem_filter.mp hcity).1)
    intro hnil
    rw [hnil] at hmany
    exact hmany (by decide)

/-- The tasks about the weather. -/
def weatherTasks : List String :=
  ["查询天气", "查询目的地天气"] ++ (cityNames ++ dualCities).map fun city => "查询" ++ city ++ "天气"

theorem begins_tripPlan {city : Option String} {days : Option Nat}
    (hcity : ∀ own, city = some own → own ∈ cityNames) {payload : PlanPayload}
    (h : buildTripWeatherMapBudgetPlan tables query assumedTools city days = .ok payload) :
    ∃ task ∈ weatherTasks, [weatherStep task] <+: payload.steps := by
  have hname : "查询" ++ orText (some (orText city ((extractCity query).getD ""))) "目的地" ++ "天气" ∈
      weatherTasks := by
    have hnamed : ∀ own ∈ cityNames, "查询" ++ orText (some own) "目的地" ++ "天气" ∈ weatherTasks := by
      decide +kernel
    have hnone : "查询" ++ orText (some "") "目的地" ++ "天气" ∈ weatherTasks := by decide +kernel
    have hfound : "查询" ++ orText (some ((extractCity query).getD "")) "目的地" ++ "天气" ∈
        weatherTasks := by
      cases hextract : extractCity query with
      | none => exact hnone
      | some own => exact hnamed own (List.mem_of_find?_eq_some hextract)
    cases city with
    | none => exact hfound
    | some own =>
        have hown : orText (some own) ((extractCity query).getD "") = own := by
          have hfull : ∀ name ∈ cityNames, name ≠ "" := by decide +kernel
          exact if_neg (hfull own (hcity own rfl))
        rw [hown]
        exact hnamed own (hcity own rfl)
  unfold buildTripWeatherMapBudgetPlan at h
  dsimp only at h
  generalize orText (some (orText city ((extractCity query).getD ""))) "目的地" = name at h hname
  obtain ⟨found, -, hpure⟩ := bind_eq_ok_iff.mp h
  rw [← Except.ok.inj hpure]
  exact ⟨_, hname, begins_chainSteps _ _ _ _ _⟩

/-- Every plan for the assumed tools begins with the weather. -/
theorem begins_buildPlanForQuery {payload : PlanPayload}
    (h : buildPlanForQuery tables query assumedTools = .ok payload) :
    ∃ task ∈ weatherTasks, [weatherStep task] <+: payload.steps := by
  have hfixed : ∀ task ∈ ["查询天气", "查询目的地天气"], task ∈ weatherTasks := by decide +kernel
  unfold buildPlanForQuery at h
  split at h
  · rw [← Except.ok.inj h]
    obtain ⟨city, hcity, hbegins⟩ := begins_buildDualCityPlan query
    refine ⟨_, List.mem_append_right _ (List.mem_map.mpr ⟨city, ?_, rfl⟩), hbegins⟩
    exact List.mem_append_right _ hcity
  obtain ⟨tripLike, -, hrest⟩ := bind_eq_ok_iff.mp h
  split at hrest
  · exact begins_tripPlan (by rintro own ⟨⟩) hrest
  split at hrest
  · refine begins_tripPlan ?_ hrest
    rintro own ⟨⟩
    decide +kernel
  split at hrest
  · rw [← Except.ok.inj hrest]
    refine ⟨"查询目的地天气", hfixed _ (List.mem_cons_of_mem _ List.mem_cons_self), ?_⟩
    exact begins_chainSteps false "查询目的地天气" _ _ ("分析并规划: " ++ query)
  unfold buildDefaultPlan at hrest
  obtain ⟨again, -, hdefault⟩ := bind_eq_ok_iff.mp hrest
  split at hdefault
  · exact begins_tripPlan (by rintro own ⟨⟩) hdefault
  · rw [← Except.ok.inj hdefault]
    refine ⟨"查询天气", hfixed _ List.mem_cons_self, ?_⟩
    exact begins_chainSteps false "查询天气" _ _ ("分析需求: " ++ query)

end RuleBased

end TripGraph
