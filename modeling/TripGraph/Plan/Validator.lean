import TripGraph.Foundation.Cycles
import TripGraph.Plan.State

/-! # Validating structured plans before execution -/

namespace TripGraph

open Interaction

/-- `[1, 2, …, n]`. -/
def expectedIds (n : Nat) : List Int := (List.range n).map fun index : Nat => (index : Int) + 1

namespace PlanValidator

def validateStructure (plan : Plan) : List String :=
  (if isBlank plan.goal then ["Field 'goal' must be a non-empty string."] else []) ++
    (if plan.steps = [] then ["Plan must contain at least one step."] else []) ++
    plan.steps.flatMap fun step =>
      if isBlank step.task then [s!"Step {step.id}: 'task' must be a non-empty string."] else []

def validateStepIdContinuity (steps : List PlanStep) : List String :=
  let sortedIds := (steps.map PlanStep.id).insertionSort (· ≤ ·)
  let expected := expectedIds steps.length
  if sortedIds ≠ expected then
    ["Step ids must be continuous starting from 1; " ++
      s!"expected {showInts expected}, got {showInts sortedIds}."]
  else []

def validateDuplicateStepIds : List Int → List PlanStep → List String
  | _, [] => []
  | seen, step :: rest =>
      (if step.id ∈ seen then [s!"Duplicate step id: {step.id}."] else []) ++
        validateDuplicateStepIds (step.id :: seen) rest

def validateDependenciesExist (steps : List PlanStep) (stepIds : List Int) : List String :=
  steps.flatMap fun step => step.deps.flatMap fun dep =>
    (if dep ∉ stepIds then [s!"Step {step.id}: dependency {dep} references unknown step."]
      else []) ++
    (if dep ≥ step.id then [s!"Step {step.id}: dependency {dep} must refer to a prior step."]
      else [])

/-! ## Cycle search -/

/-- The ids on the search path and the ids already cleared. -/
structure Search where
  visiting : List Int
  visited : List Int
deriving DecidableEq

/-- Visit the neighbours that are in the graph until one reports a cycle. -/
def visitAll (graph : Dict Int (List Int)) (visit : Int → Search → Option (Bool × Search)) :
    List Int → Search → Option (Bool × Search)
  | [], search => some (false, search)
  | neighbor :: rest, search =>
      if graph.contains neighbor then
        match visit neighbor search with
        | none => none
        | some (true, after) => some (true, after)
        | some (false, after) => visitAll graph visit rest after
      else visitAll graph visit rest search

/-- The depth-first search, to a bounded depth; `none` when the bound is exceeded. -/
def dfs (graph : Dict Int (List Int)) : Nat → Int → Search → Option (Bool × Search)
  | 0, _, _ => none
  | depth + 1, node, search =>
      if node ∈ search.visiting then some (true, search)
      else if node ∈ search.visited then some (false, search)
      else
        match visitAll graph (dfs graph depth) ((graph.get? node).getD [])
            { search with visiting := node :: search.visiting } with
        | none => none
        | some (true, after) => some (true, after)
        | some (false, after) =>
            some (false, ⟨after.visiting.erase node, node :: after.visited⟩)

def dependencyGraph (steps : List PlanStep) : Dict Int (List Int) :=
  .ofList (steps.map fun step => (step.id, step.deps))

/-- A path visits each id at most once, so it is at most as long as the graph is large. -/
def validateDependencyCycles (steps : List PlanStep) : List String :=
  let graph := dependencyGraph steps
  match visitAll graph (dfs graph (graph.entries.length + 1)) graph.keys ⟨[], []⟩ with
  | some (false, _) => []
  | _ => ["Dependency graph contains a cycle."]

/-! ## The report -/

def validateToolHints (registry : List String) (steps : List PlanStep) : List String :=
  steps.flatMap fun step =>
    match step.toolHint with
    | none => []
    | some hint =>
        if hint ∈ registry then []
        else
          let names := ", ".intercalate (registry.insertionSort (· ≤ ·))
          let available := orText (some names) "(none)"
          [s!"Step {step.id}: tool_hint '{hint}' is not registered. " ++
            s!"Available tools: {available}."]

def validate (registry : List String) (plan : Plan) : PlanValidationReport :=
  let structural := validateStructure plan
  if structural ≠ [] then ⟨false, structural⟩
  else
    let errors := validateStepIdContinuity plan.steps ++ validateDuplicateStepIds [] plan.steps ++
      validateDependenciesExist plan.steps plan.ids ++ validateDependencyCycles plan.steps ++
      validateToolHints registry plan.steps
    ⟨decide (errors = []), errors⟩

/-- `assert_valid`: raise when the report is not successful. -/
def assertValid (registry : List String) (plan : Plan) : Except RaisedError Unit :=
  let report := validate registry plan
  if report.success then .ok () else .error (.planValidation report.readableMessage report.errors)

end PlanValidator

/-- What a successful validation says about the plan. -/
structure Plan.WellFormed (registry : List String) (plan : Plan) : Prop where
  goal : isBlank plan.goal = false
  nonempty : plan.steps ≠ []
  task : ∀ step ∈ plan.steps, isBlank step.task = false
  ids : plan.ids.Perm (expectedIds plan.steps.length)
  deps : ∀ step ∈ plan.steps, ∀ dep ∈ step.deps, dep ∈ plan.ids ∧ dep < step.id
  hints : ∀ step ∈ plan.steps, ∀ hint, step.toolHint = some hint → hint ∈ registry

theorem expectedIds_nodup (n : Nat) : (expectedIds n).Nodup := by
  refine List.nodup_range.map ?_
  intro a b h
  dsimp only at h
  omega

theorem mem_expectedIds {n : Nat} {stepId : Int} :
    stepId ∈ expectedIds n ↔ 1 ≤ stepId ∧ stepId ≤ n := by
  simp only [expectedIds, List.mem_map, List.mem_range]
  constructor
  · rintro ⟨index, hlt, rfl⟩
    omega
  · rintro ⟨hlow, hhigh⟩
    exact ⟨(stepId - 1).toNat, by omega, by omega⟩

namespace Plan.WellFormed

variable {registry : List String} {plan : Plan}

theorem ids_nodup (h : plan.WellFormed registry) : plan.ids.Nodup :=
  h.ids.nodup_iff.mpr (expectedIds_nodup _)

theorem mem_ids_iff (h : plan.WellFormed registry) {stepId : Int} :
    stepId ∈ plan.ids ↔ 1 ≤ stepId ∧ stepId ≤ plan.steps.length := by
  rw [h.ids.mem_iff, mem_expectedIds]

theorem eq_of_id_eq (h : plan.WellFormed registry) {a b : PlanStep} (ha : a ∈ plan.steps)
    (hb : b ∈ plan.steps) (hid : a.id = b.id) : a = b :=
  List.inj_on_of_nodup_map h.ids_nodup ha hb hid

end Plan.WellFormed

/-- A plan the validator accepts is well formed. -/
theorem PlanValidator.wellFormed_of_validate {registry : List String} {plan : Plan}
    (h : (PlanValidator.validate registry plan).success = true) : plan.WellFormed registry := by
  simp only [PlanValidator.validate] at h
  split at h
  next => simp at h
  next hstructural =>
    simp only [ne_eq, not_not, PlanValidator.validateStructure, List.append_eq_nil_iff,
      ite_eq_right_iff, List.cons_ne_self, imp_false, List.flatMap_eq_nil_iff] at hstructural
    obtain ⟨⟨hgoal, hnonempty⟩, htask⟩ := hstructural
    simp only [decide_eq_true_eq, List.append_eq_nil_iff] at h
    obtain ⟨⟨⟨⟨hids, -⟩, hdeps⟩, -⟩, hhints⟩ := h
    refine ⟨by simpa using hgoal, hnonempty, fun step hstep => by simpa using htask step hstep,
      ?_, ?_, ?_⟩
    · simp only [PlanValidator.validateStepIdContinuity] at hids
      split at hids
      next => simp at hids
      next hsorted =>
        rw [ne_eq, not_not] at hsorted
        exact hsorted ▸ (List.perm_insertionSort _ _).symm
    · intro step hstep dep hdep
      simp only [PlanValidator.validateDependenciesExist, List.flatMap_eq_nil_iff,
        List.append_eq_nil_iff, ite_eq_right_iff, List.cons_ne_self, imp_false, not_not,
        ge_iff_le, not_le] at hdeps
      exact hdeps step hstep dep hdep
    · intro step hstep hint hhint
      simp only [PlanValidator.validateToolHints, List.flatMap_eq_nil_iff] at hhints
      have hcheck := hhints step hstep
      rw [hhint] at hcheck
      simpa using hcheck

namespace PlanValidator

/-! ## Well-formed plans are accepted -/

section Cycles

variable {graph : Dict Int (List Int)}

/-- An edge between two ids of the graph. -/
def Waits (graph : Dict Int (List Int)) (node neighbor : Int) : Prop :=
  neighbor ∈ (graph.get? node).getD [] ∧ neighbor ∈ graph.keys

/-- What a search from some nodes may answer: a cycle, or that none is reached from them. Then
the search path is as before. -/
inductive Answers (graph : Dict Int (List Int)) (nodes visiting : List Int) :
    Option (Bool × Search) → Prop
  | cycle {node : Int} {after : Search} (closed : Relation.TransGen (Waits graph) node node) :
      Answers graph nodes visiting (some (true, after))
  | clear {visited : List Int}
      (cleared : ∀ node ∈ nodes, node ∈ graph.keys → Cleared (Waits graph) node)
      (earlier : ∀ node ∈ visited, Cleared (Waits graph) node) :
      Answers graph nodes visiting (some (false, ⟨visiting, visited⟩))

/-- One more node that is cleared or not in the graph. -/
theorem Answers.cons {node : Int} {nodes visiting : List Int} {answer : Option (Bool × Search)}
    (h : Answers graph nodes visiting answer)
    (hnode : node ∈ graph.keys → Cleared (Waits graph) node) :
    Answers graph (node :: nodes) visiting answer := by
  cases h with
  | cycle closed => exact .cycle closed
  | clear cleared earlier =>
      refine .clear (fun own hown hkey => ?_) earlier
      rcases List.mem_cons.mp hown with rfl | hown
      · exact hnode hkey
      · exact cleared own hown hkey

theorem Answers.exists_eq {nodes visiting : List Int} {answer : Option (Bool × Search)}
    (h : Answers graph nodes visiting answer) : ∃ found after, answer = some (found, after) := by
  cases h with
  | cycle closed => exact ⟨_, _, rfl⟩
  | clear cleared earlier => exact ⟨_, _, rfl⟩

theorem visitAll_answers {visit : Int → Search → Option (Bool × Search)}
    {visiting neighbors visited : List Int}
    (hvisit : ∀ neighbor ∈ neighbors, neighbor ∈ graph.keys → ∀ visited,
      (∀ node ∈ visited, Cleared (Waits graph) node) →
        Answers graph [neighbor] visiting (visit neighbor ⟨visiting, visited⟩))
    (hvisited : ∀ node ∈ visited, Cleared (Waits graph) node) :
    Answers graph neighbors visiting (visitAll graph visit neighbors ⟨visiting, visited⟩) := by
  induction neighbors generalizing visited with
  | nil => exact .clear (fun _ hmem => absurd hmem List.not_mem_nil) hvisited
  | cons neighbor rest ih =>
      have hrest := fun own hmem => hvisit own (List.mem_cons_of_mem _ hmem)
      rw [visitAll]
      split
      next hcontains =>
        have hneighbor := hvisit neighbor List.mem_cons_self (Dict.contains_iff.mp hcontains)
          visited hvisited
        generalize visit neighbor ⟨visiting, visited⟩ = answer at hneighbor ⊢
        cases hneighbor with
        | cycle closed => exact .cycle closed
        | clear cleared earlier =>
            exact (ih hrest earlier).cons (cleared neighbor List.mem_cons_self)
      next hcontains =>
        exact (ih hrest hvisited).cons fun hkey =>
          absurd (Dict.contains_iff.mpr hkey) hcontains

/-- No id is on the search path twice, so the depth suffices. An id met again closes a cycle, and
one that was left behind had none to reach. -/
theorem dfs_answers {depth : Nat} {node : Int} {visiting visited : List Int}
    (hnode : node ∈ graph.keys) (hnodup : visiting.Nodup) (hkeys : visiting ⊆ graph.keys)
    (hpath : ∀ own ∈ visiting, Relation.TransGen (Waits graph) own node)
    (hdepth : graph.keys.length < depth + visiting.length)
    (hvisited : ∀ own ∈ visited, Cleared (Waits graph) own) :
    Answers graph [node] visiting (dfs graph depth node ⟨visiting, visited⟩) := by
  induction depth generalizing node visiting visited with
  | zero =>
      have hle := (List.subperm_of_subset hnodup hkeys).length_le
      omega
  | succ depth ih =>
      rw [dfs]
      split
      next hmem => exact .cycle (hpath node hmem)
      next hfresh =>
        split
        next hmem =>
          refine .clear (fun own hown _ => ?_) hvisited
          obtain rfl := List.mem_singleton.mp hown
          exact hvisited own hmem
        next =>
          have hall : Answers graph ((graph.get? node).getD []) (node :: visiting)
              (visitAll graph (dfs graph depth) ((graph.get? node).getD [])
                ⟨node :: visiting, visited⟩) := by
            refine visitAll_answers (fun neighbor hneighbor hkey visited hvisited => ?_) hvisited
            have hedge : Waits graph node neighbor := ⟨hneighbor, hkey⟩
            refine ih hkey (List.nodup_cons.mpr ⟨hfresh, hnodup⟩)
              (List.cons_subset.mpr ⟨hnode, hkeys⟩) (fun own hown => ?_) ?_ hvisited
            · rcases List.mem_cons.mp hown with rfl | hown
              · exact .single hedge
              · exact (hpath own hown).tail hedge
            · rw [List.length_cons]
              omega
          generalize visitAll graph (dfs graph depth) _ _ = answer at hall ⊢
          cases hall with
          | cycle closed => exact .cycle closed
          | clear cleared earlier =>
              have hclear : Cleared (Waits graph) node :=
                .of_next fun next hedge => cleared next hedge.1 hedge.2
              dsimp only
              rw [List.erase_cons_head]
              refine .clear
                (fun own hown _ => List.mem_singleton.mp hown ▸ hclear) fun own hown => ?_
              rcases List.mem_cons.mp hown with rfl | hown
              · exact hclear
              · exact earlier own hown

theorem search_answers (graph : Dict Int (List Int)) : Answers graph graph.keys []
    (visitAll graph (dfs graph (graph.entries.length + 1)) graph.keys ⟨[], []⟩) := by
  refine visitAll_answers (fun node _ hnode visited hvisited => ?_) (fun _ h => by cases h)
  refine dfs_answers hnode List.nodup_nil (List.nil_subset _) (fun _ h => by cases h) ?_ hvisited
  simp [Dict.keys]

/-- The report is empty if and only if no id of the graph waits for itself. -/
theorem validateDependencyCycles_eq_nil_iff {steps : List PlanStep} :
    validateDependencyCycles steps = [] ↔
      ∀ node, ¬ Relation.TransGen (Waits (dependencyGraph steps)) node node := by
  have hanswers := search_answers (dependencyGraph steps)
  rw [validateDependencyCycles]
  generalize visitAll (dependencyGraph steps) _ _ _ = answer at hanswers ⊢
  cases hanswers with
  | cycle closed => exact iff_of_false (List.cons_ne_nil _ _) fun hnone => hnone _ closed
  | clear cleared earlier =>
      refine iff_of_true rfl fun node hcycle => ?_
      obtain ⟨last, -, hlast⟩ := Relation.TransGen.tail'_iff.mp hcycle
      exact (cleared node hlast.2 hlast.2).not_cycle hcycle

/-- A step waits for another of the steps. -/
def WaitsAmong (steps : List PlanStep) (stepId dep : Int) : Prop :=
  ∃ step ∈ steps, step.id = stepId ∧ dep ∈ step.deps ∧ dep ∈ steps.map PlanStep.id

theorem waits_dependencyGraph_iff {steps : List PlanStep} (hids : (steps.map PlanStep.id).Nodup)
    {stepId dep : Int} :
    Waits (dependencyGraph steps) stepId dep ↔ WaitsAmong steps stepId dep := by
  have hfst : (steps.map fun step => (step.id, step.deps)).map Prod.fst =
      steps.map PlanStep.id := by
    simp [Function.comp_def]
  have hkeys : ∀ own, own ∈ (dependencyGraph steps).keys ↔ own ∈ steps.map PlanStep.id := by
    intro own
    rw [← Dict.contains_iff, dependencyGraph, Dict.contains_ofList, hfst]
  have hget : ∀ step ∈ steps, (dependencyGraph steps).get? step.id = some step.deps := by
    intro step hstep
    exact Dict.get?_ofList (by rwa [hfst]) (List.mem_map.mpr ⟨step, hstep, rfl⟩)
  constructor
  · rintro ⟨hdep, hkey⟩
    cases hown : (dependencyGraph steps).get? stepId with
    | none =>
        rw [hown] at hdep
        cases hdep
    | some deps =>
        have hmem : stepId ∈ (dependencyGraph steps).keys := by
          rw [← Dict.contains_iff, Dict.contains, hown]
          rfl
        obtain ⟨step, hstep, rfl⟩ := List.mem_map.mp ((hkeys stepId).mp hmem)
        rw [hget step hstep] at hdep
        exact ⟨step, hstep, rfl, hdep, (hkeys dep).mp hkey⟩
  · rintro ⟨step, hstep, rfl, hdep, hmem⟩
    refine ⟨?_, (hkeys dep).mpr hmem⟩
    rw [hget step hstep]
    exact hdep

theorem validateDependencyCycles_eq_nil {steps : List PlanStep}
    (hids : (steps.map PlanStep.id).Nodup)
    (hprior : ∀ step ∈ steps, ∀ dep ∈ step.deps, dep < step.id) :
    validateDependencyCycles steps = [] := by
  refine validateDependencyCycles_eq_nil_iff.mpr fun node hcycle => ?_
  have hlt : ∀ stepId dep, Waits (dependencyGraph steps) stepId dep → dep < stepId := by
    intro stepId dep hedge
    obtain ⟨step, hstep, rfl, hdep, -⟩ := (waits_dependencyGraph_iff hids).mp hedge
    exact hprior step hstep dep hdep
  have hgt : node > node := Relation.transGen_minimal hlt _ _ hcycle
  exact lt_irrefl node hgt

/-- The search ends, and it reports a cycle if and only if there is one among the steps. -/
theorem validateDependencyCycles_exact {steps : List PlanStep}
    (hids : (steps.map PlanStep.id).Nodup) :
    (∃ found after, visitAll (dependencyGraph steps)
        (dfs (dependencyGraph steps) ((dependencyGraph steps).entries.length + 1))
        (dependencyGraph steps).keys ⟨[], []⟩ = some (found, after)) ∧
      (validateDependencyCycles steps = ["Dependency graph contains a cycle."] ↔
        ∃ stepId, Relation.TransGen (WaitsAmong steps) stepId stepId) := by
  have hedges : Waits (dependencyGraph steps) = WaitsAmong steps :=
    funext₂ fun stepId dep => propext (waits_dependencyGraph_iff hids)
  have hreport : validateDependencyCycles steps = [] ∨
      validateDependencyCycles steps = ["Dependency graph contains a cycle."] := by
    rw [validateDependencyCycles]
    split
    · exact .inl rfl
    · exact .inr rfl
  refine ⟨(search_answers _).exists_eq, fun hreported => ?_, fun ⟨stepId, hcycle⟩ => ?_⟩
  · by_contra hnone
    have hempty : validateDependencyCycles steps = [] :=
      validateDependencyCycles_eq_nil_iff.mpr fun node hcycle => hnone ⟨node, hedges ▸ hcycle⟩
    rw [hreported] at hempty
    cases hempty
  · refine hreport.resolve_left fun hempty => ?_
    exact validateDependencyCycles_eq_nil_iff.mp hempty stepId (hedges ▸ hcycle)

/-- A step that waits for itself, beside one that waits for an id of no step. -/
theorem validateDependencyCycles_exact_loop :
    validateDependencyCycles [⟨1, "查询天气", none, some [7]⟩, ⟨2, "规划路线", none, some [2]⟩] =
      ["Dependency graph contains a cycle."] :=
  (validateDependencyCycles_exact (by decide)).2.mpr
    ⟨2, .single ⟨⟨2, "规划路线", none, some [2]⟩, by simp, rfl, by decide, by decide⟩⟩

end Cycles

theorem validateDuplicateStepIds_eq_nil {steps : List PlanStep} {seen : List Int}
    (hids : (steps.map PlanStep.id).Nodup) (hseen : ∀ step ∈ steps, step.id ∉ seen) :
    validateDuplicateStepIds seen steps = [] := by
  induction steps generalizing seen with
  | nil => rfl
  | cons step rest ih =>
      obtain ⟨hnot, hids⟩ := List.nodup_cons.mp hids
      rw [validateDuplicateStepIds, if_neg (hseen step List.mem_cons_self), List.nil_append]
      refine ih hids fun own hown hmem => ?_
      rcases List.mem_cons.mp hmem with heq | hmem
      · exact hnot (heq ▸ List.mem_map_of_mem hown)
      · exact hseen own (List.mem_cons_of_mem _ hown) hmem

theorem pairwise_expectedIds (n : Nat) : (expectedIds n).Pairwise (· ≤ ·) := by
  refine List.pairwise_map.mpr (List.pairwise_le_range.imp ?_)
  intro a b h
  omega

/-- The validator accepts exactly the well-formed plans. -/
theorem validate_success_iff {registry : List String} {plan : Plan} :
    (validate registry plan).success = true ↔ plan.WellFormed registry := by
  refine ⟨wellFormed_of_validate, fun h => ?_⟩
  have hstructural : validateStructure plan = [] := by
    simp only [validateStructure, h.goal, h.nonempty, if_false, Bool.false_eq_true, List.nil_append,
      List.flatMap_eq_nil_iff]
    intro step hstep
    simp [h.task step hstep]
  have hcontinuity : validateStepIdContinuity plan.steps = [] := by
    have hsorted : (plan.steps.map PlanStep.id).insertionSort (· ≤ ·) =
        expectedIds plan.steps.length :=
      ((List.perm_insertionSort _ _).trans h.ids).eq_of_sortedLE List.sortedLE_insertionSort
        (pairwise_expectedIds _).sortedLE
    simp [validateStepIdContinuity, hsorted]
  have hduplicates : validateDuplicateStepIds [] plan.steps = [] :=
    validateDuplicateStepIds_eq_nil h.ids_nodup fun _ _ => List.not_mem_nil
  have hdeps : validateDependenciesExist plan.steps plan.ids = [] := by
    simp only [validateDependenciesExist, List.flatMap_eq_nil_iff, List.append_eq_nil_iff]
    intro step hstep dep hdep
    have := h.deps step hstep dep hdep
    simp [this.1, this.2]
  have hhints : validateToolHints registry plan.steps = [] := by
    simp only [validateToolHints, List.flatMap_eq_nil_iff]
    intro step hstep
    split
    · rfl
    next hint hhint => simp [h.hints step hstep hint hhint]
  simp [validate, hstructural, hcontinuity, hduplicates, hdeps, hhints,
    validateDependencyCycles_eq_nil h.ids_nodup fun step hstep dep hdep =>
      (h.deps step hstep dep hdep).2]

end PlanValidator

/-! ## Acyclicity -/

namespace Plan

/-- A step waits directly for another. -/
def DependsOn (plan : Plan) (stepId dep : Int) : Prop :=
  ∃ step ∈ plan.steps, step.id = stepId ∧ dep ∈ step.deps

/-- No step waits for itself, however indirectly. -/
def Acyclic (plan : Plan) : Prop := ∀ stepId, ¬ Relation.TransGen plan.DependsOn stepId stepId

theorem acyclic_of_prior {plan : Plan}
    (h : ∀ step ∈ plan.steps, ∀ dep ∈ step.deps, dep < step.id) : plan.Acyclic := by
  have hlt : ∀ stepId dep, Relation.TransGen plan.DependsOn stepId dep → dep < stepId := by
    intro stepId dep hpath
    induction hpath with
    | single hfirst =>
        obtain ⟨step, hstep, rfl, hdep⟩ := hfirst
        exact h step hstep _ hdep
    | tail _ hlast ih =>
        obtain ⟨step, hstep, rfl, hdep⟩ := hlast
        exact (h step hstep _ hdep).trans ih
  intro stepId hcycle
  exact lt_irrefl _ (hlt stepId stepId hcycle)

end Plan

/-- The validator accepts a plan if and only if it passes the six checks, and the plans it
accepts have no cycles. -/
theorem PlanValidator.accepts_wellFormed_iff (registry : List String) (plan : Plan) :
    ((validate registry plan).success = true ↔
      (isBlank plan.goal = false ∧ ∀ step ∈ plan.steps, isBlank step.task = false) ∧
        plan.steps ≠ [] ∧ plan.ids.Perm (expectedIds plan.steps.length) ∧
        (∀ step ∈ plan.steps, ∀ dep ∈ step.deps, dep ∈ plan.ids ∧ dep < step.id) ∧
        ∀ step ∈ plan.steps, ∀ hint, step.toolHint = some hint → hint ∈ registry) ∧
    ((validate registry plan).success = true → plan.Acyclic) := by
  rw [validate_success_iff]
  refine ⟨⟨?_, ?_⟩, ?_⟩
  · intro h
    exact ⟨⟨h.goal, h.task⟩, h.nonempty, h.ids, h.deps, h.hints⟩
  · rintro ⟨⟨hgoal, htask⟩, hnonempty, hids, hdeps, hhints⟩
    exact ⟨hgoal, hnonempty, htask, hids, hdeps, hhints⟩
  · intro h
    apply Plan.acyclic_of_prior
    intro step hstep dep hdep
    exact (h.deps step hstep dep hdep).2

end TripGraph
