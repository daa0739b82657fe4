import TripGraph.Foundation.Renaming
import TripGraph.Plan.Repair
import TripGraph.Plan.Validator

/-! # Renumbering a plan under execution

A repair gives the surviving steps new ids, and their statuses and results have to follow
them. The maps are rewritten in place while old and new ids overlap.
-/

namespace TripGraph

open Interaction

namespace Repair

/-! ## Repaired plans -/

/-- The steps a repair keeps. -/
def survivors (steps : List PlanStep) : List PlanStep := (removeDuplicateSteps [] steps).1

theorem removeDuplicateSteps_sublist (seen : List (String × Option String))
    (steps : List PlanStep) : (removeDuplicateSteps seen steps).1.Sublist steps := by
  induction steps generalizing seen with
  | nil => exact List.Sublist.slnil
  | cons step rest ih =>
      simp only [removeDuplicateSteps]
      split
      · exact (ih seen).cons step
      · exact (ih _).cons_cons step

theorem survivors_sublist (steps : List PlanStep) : (survivors steps).Sublist steps :=
  removeDuplicateSteps_sublist [] steps

theorem survivors_ids_nodup {steps : List PlanStep} (h : (steps.map PlanStep.id).Nodup) :
    ((survivors steps).map PlanStep.id).Nodup := h.sublist ((survivors_sublist steps).map _)

theorem renumberSteps_eq (steps : List PlanStep) :
    (renumberSteps steps).1 = (sortById steps).map (fun step =>
      (remapStep (positions (sortById steps)) step).1) ∧
    (renumberSteps steps).2.1 = positions (sortById steps) := by
  unfold renumberSteps
  split
  next h => subst h; exact ⟨rfl, rfl⟩
  next => simp

theorem steps_repairPlan (plan : Plan) : (repairPlan plan).plan.steps =
    (sortById (survivors plan.steps)).map (fun step =>
      (remapStep (positions (sortById (survivors plan.steps))) step).1) :=
  (renumberSteps_eq _).1

theorem idMap_repairPlan (plan : Plan) :
    (repairPlan plan).idMap = positions (sortById (survivors plan.steps)) :=
  (renumberSteps_eq _).2

/-- Each id with its position. -/
theorem entries_positions_of_nodup {steps : List PlanStep} (h : (steps.map PlanStep.id).Nodup) :
    (positions steps).entries = (steps.map PlanStep.id).zip (expectedIds steps.length) := by
  have hzip : (steps.zipIdx.map fun entry => (entry.1.id, (entry.2 : Int) + 1)) =
      (steps.map PlanStep.id).zip (expectedIds steps.length) := by
    rw [List.zipIdx_eq_zip_range', expectedIds, List.zip_map, List.range_eq_range']
    rfl
  rw [positions, hzip, Dict.entries_ofList]
  rwa [List.map_fst_zip (by simp [expectedIds])]

theorem keys_positions {steps : List PlanStep} (h : (steps.map PlanStep.id).Nodup) :
    (positions steps).keys = steps.map PlanStep.id := by
  rw [Dict.keys, entries_positions_of_nodup h, List.map_fst_zip (by simp [expectedIds])]

theorem values_positions {steps : List PlanStep} (h : (steps.map PlanStep.id).Nodup) :
    (positions steps).values = expectedIds steps.length := by
  rw [Dict.values, entries_positions_of_nodup h, List.map_snd_zip (by simp [expectedIds])]

theorem length_sortById (steps : List PlanStep) : (sortById steps).length = steps.length :=
  (perm_sortById steps).length_eq

theorem sortById_ids_nodup {steps : List PlanStep} (h : (steps.map PlanStep.id).Nodup) :
    ((sortById steps).map PlanStep.id).Nodup := ((perm_sortById steps).map _).nodup_iff.mpr h

/-- The new id of a surviving step. -/
theorem id_remapStep (idMap : Dict Int Int) (step : PlanStep) :
    (remapStep idMap step).1.id = (idMap.get? step.id).getD step.id := rfl

theorem toolHint_remapStep (idMap : Dict Int Int) (step : PlanStep) :
    (remapStep idMap step).1.toolHint = step.toolHint := rfl

theorem removeDuplicateSteps_append (seen : List (String × Option String))
    (first second : List PlanStep) : ∃ rest, rest.Sublist second ∧
      (removeDuplicateSteps seen (first ++ second)).1 =
        (removeDuplicateSteps seen first).1 ++ rest := by
  induction first generalizing seen with
  | nil => exact ⟨_, removeDuplicateSteps_sublist seen second, rfl⟩
  | cons step rest ih =>
      rw [List.cons_append]
      simp only [removeDuplicateSteps]
      split
      · exact ih seen
      · obtain ⟨kept, hkept, heq⟩ := ih ((strip step.task, step.toolHint) :: seen)
        exact ⟨kept, hkept, by rw [heq, List.cons_append]⟩

/-- The steps that are kept differ in their task or in their tool hint. -/
theorem removeDuplicateSteps_distinct (seen : List (String × Option String))
    (steps : List PlanStep) :
    ((removeDuplicateSteps seen steps).1.map fun step => (strip step.task, step.toolHint)).Nodup ∧
      ∀ step ∈ (removeDuplicateSteps seen steps).1, (strip step.task, step.toolHint) ∉ seen := by
  induction steps generalizing seen with
  | nil => exact ⟨List.nodup_nil, fun step hstep => by cases hstep⟩
  | cons step rest ih =>
      simp only [removeDuplicateSteps]
      split
      · exact ih seen
      next hnew =>
        obtain ⟨hdistinct, hseen⟩ := ih ((strip step.task, step.toolHint) :: seen)
        constructor
        · refine List.nodup_cons.mpr ⟨fun hmem => ?_, hdistinct⟩
          obtain ⟨own, hown, heq⟩ := List.mem_map.mp hmem
          exact hseen own hown (heq ▸ List.mem_cons_self)
        · intro own hown
          rcases List.mem_cons.mp hown with rfl | hrest
          · exact hnew
          · exact fun hmem => hseen own hrest (List.mem_cons_of_mem _ hmem)

theorem survivors_distinct (steps : List PlanStep) :
    ((survivors steps).map fun step => (strip step.task, step.toolHint)).Nodup :=
  (removeDuplicateSteps_distinct [] steps).1

/-- Only a plan without steps is repaired without renumbering. -/
theorem entries_ne_nil_of_steps {plan : Plan} (h : (repairPlan plan).plan.steps ≠ []) :
    (repairPlan plan).idMap.entries ≠ [] := by
  rw [steps_repairPlan, ne_eq, List.map_eq_nil_iff] at h
  obtain ⟨step, rest, hsteps⟩ := List.exists_cons_of_ne_nil h
  rw [idMap_repairPlan, hsteps]
  intro hnil
  have hkey : step.id ∈ (positions (step :: rest)).keys := by
    rw [positions, Dict.ofList, Dict.mem_keys_fold]
    exact Or.inl (by simp)
  simp [Dict.keys, hnil] at hkey

/-- The dependencies that are kept are those on known prior steps. -/
theorem mem_remapDeps_iff {idMap : Dict Int Int} {stepId newId target : Int} {deps : List Int} :
    target ∈ (remapDeps idMap stepId newId deps).1 ↔
      target < newId ∧ ∃ dep ∈ deps, idMap.get? dep = some target := by
  induction deps with
  | nil => simp [remapDeps]
  | cons dep rest ih =>
      simp only [remapDeps, List.exists_mem_cons_iff]
      cases hdep : idMap.get? dep with
      | none => simpa using ih
      | some own =>
          dsimp only
          split
          next hle =>
            rw [ih, Option.some.injEq]
            refine and_congr_right fun hlt => (or_iff_right ?_).symm
            rintro rfl
            exact absurd hlt (not_lt.mpr hle)
          next hlt =>
            rw [List.mem_cons, ih, Option.some.injEq, eq_comm]
            constructor
            · rintro (rfl | ⟨hlt, hrest⟩)
              · exact ⟨not_le.mp hlt, Or.inl rfl⟩
              · exact ⟨hlt, Or.inr hrest⟩
            · rintro ⟨hlt, rfl | hrest⟩
              · exact Or.inl rfl
              · exact Or.inr ⟨hlt, hrest⟩

theorem deps_remapStep (idMap : Dict Int Int) (step : PlanStep) :
    (remapStep idMap step).1.deps = (remapDeps idMap step.id
      ((idMap.get? step.id).getD step.id) step.deps).1 := getD_normalizeDeps _

/-- Steps with distinct ids are renumbered to `1..n`. -/
theorem ids_renumberSteps {steps : List PlanStep} (h : (steps.map PlanStep.id).Nodup) :
    (renumberSteps steps).1.map PlanStep.id = expectedIds steps.length := by
  have hsorted := sortById_ids_nodup h
  rw [(renumberSteps_eq steps).1, List.map_map, ← length_sortById]
  generalize sortById steps = steps at hsorted
  calc steps.map (PlanStep.id ∘ fun step => (remapStep (positions steps) step).1)
      = (positions steps).keys.map fun stepId => ((positions steps).get? stepId).getD stepId := by
        rw [keys_positions hsorted, List.map_map]
        rfl
    _ = (positions steps).values := by
        rw [Dict.keys, List.map_map]
        apply List.map_congr_left
        intro entry hentry
        simp [Dict.get?_of_mem_entries hentry]
    _ = expectedIds steps.length := values_positions hsorted

/-- A repaired plan is numbered `1..n`. -/
theorem ids_repairPlan {plan : Plan} (h : ((survivors plan.steps).map PlanStep.id).Nodup) :
    (repairPlan plan).plan.ids = expectedIds (survivors plan.steps).length :=
  ids_renumberSteps h

/-- The moves a repair asks for: the surviving ids in increasing order, onto `1..n`. -/
structure Numbering (survivors : List PlanStep) (idMap : Dict Int Int) : Prop where
  keys : idMap.keys.Perm (survivors.map PlanStep.id)
  sorted : idMap.keys.Pairwise (· < ·)
  values : idMap.values = expectedIds survivors.length

theorem numbering_renumberSteps {steps : List PlanStep} (h : (steps.map PlanStep.id).Nodup) :
    Numbering steps (renumberSteps steps).2.1 := by
  have hsorted := sortById_ids_nodup h
  have hperm := (perm_sortById steps).map PlanStep.id
  rw [(renumberSteps_eq steps).2]
  refine ⟨?_, ?_, ?_⟩
  · rwa [keys_positions hsorted]
  · rw [keys_positions hsorted]
    have hle : ((sortById steps).map PlanStep.id).Pairwise (· ≤ ·) :=
      List.pairwise_map.mpr (List.pairwise_insertionSort _ _)
    exact (hle.and hsorted).imp fun h => lt_of_le_of_ne h.1 h.2
  · rw [values_positions hsorted, length_sortById]

theorem numbering_repairPlan {plan : Plan} (h : ((survivors plan.steps).map PlanStep.id).Nodup) :
    Numbering (survivors plan.steps) (repairPlan plan).idMap := numbering_renumberSteps h

/-- Steps with distinct new ids had distinct ids. -/
theorem ids_nodup_of_renumbered {steps : List PlanStep}
    (h : ((renumberSteps steps).1.map PlanStep.id).Nodup) : (steps.map PlanStep.id).Nodup := by
  rw [(renumberSteps_eq steps).1, List.map_map] at h
  have hsorted : ((sortById steps).map PlanStep.id).Nodup := by
    apply List.Nodup.of_map fun stepId =>
      ((positions (sortById steps)).get? stepId).getD stepId
    rw [List.map_map]
    exact h
  exact ((perm_sortById _).map _).nodup_iff.mp hsorted

theorem survivors_ids_nodup_of_repaired {plan : Plan} (h : (repairPlan plan).plan.ids.Nodup) :
    ((survivors plan.steps).map PlanStep.id).Nodup := ids_nodup_of_renumbered h

namespace Numbering

variable {steps : List PlanStep} {idMap : Dict Int Int}

theorem mem_values (h : Numbering steps idMap) {step : PlanStep} (hstep : step ∈ steps) :
    ∃ newId, idMap.get? step.id = some newId ∧ newId ∈ idMap.values := by
  have hkey := h.keys.mem_iff.mpr (List.mem_map_of_mem hstep)
  obtain ⟨newId, hnewId⟩ := Option.isSome_iff_exists.mp ((idMap.mem_keys_iff _).mp hkey)
  exact ⟨newId, hnewId, List.mem_map_of_mem (Dict.mem_entries_of_get? hnewId)⟩

/-- The steps keep their order. -/
theorem lt (h : Numbering steps idMap) {first second firstNew secondNew : Int}
    (hfirst : idMap.get? first = some firstNew) (hsecond : idMap.get? second = some secondNew)
    (hlt : first < second) : firstNew < secondNew := by
  have hkeys : idMap.entries.Pairwise fun a b => a.1 < b.1 := List.pairwise_map.mp h.sorted
  have hvalues : idMap.entries.Pairwise fun a b => a.2 < b.2 := by
    apply List.pairwise_map.mp
    rw [← Dict.values.eq_1, h.values, expectedIds]
    exact List.pairwise_map.mpr (List.pairwise_lt_range.imp fun h => by omega)
  have hboth : ∀ a ∈ idMap.entries, ∀ b ∈ idMap.entries, a.1 < b.1 → a.2 < b.2 := by
    apply List.Pairwise.forall_of_forall_of_flip
    · exact fun _ _ hlt => absurd hlt (lt_irrefl _)
    · refine hvalues.imp fun hlt => ?_
      exact fun _ => hlt
    · refine hkeys.imp fun hlt => ?_
      exact fun hgt => absurd (hlt.trans hgt) (lt_irrefl _)
  exact hboth _ (Dict.mem_entries_of_get? hfirst) _ (Dict.mem_entries_of_get? hsecond) hlt

theorem inj (h : Numbering steps idMap) {first second newId : Int}
    (hfirst : idMap.get? first = some newId) (hsecond : idMap.get? second = some newId) :
    first = second := by
  rcases lt_trichotomy first second with hlt | heq | hlt
  · exact absurd (h.lt hfirst hsecond hlt) (lt_irrefl _)
  · exact heq
  · exact absurd (h.lt hsecond hfirst hlt) (lt_irrefl _)

end Numbering

end Repair

namespace PlanState

/-! ## Renumbered statuses and results -/

theorem get?_fill (steps : List PlanStep) (kept : Dict Int StepStatus) (stepId : Int) :
    (steps.foldl (fun acc step => if acc.contains step.id then acc else acc.set step.id .pending)
      kept).get? stepId =
      if stepId ∈ steps.map PlanStep.id then some ((kept.get? stepId).getD .pending)
      else kept.get? stepId := by
  induction steps generalizing kept with
  | nil => simp
  | cons step rest ih =>
      rw [List.foldl_cons, ih]
      have hstep : (if kept.contains step.id then kept else kept.set step.id .pending).get? stepId =
          if stepId = step.id then some ((kept.get? stepId).getD .pending)
          else kept.get? stepId := by
        split
        next hcontains =>
          split
          next heq =>
            rw [Dict.contains, ← heq] at hcontains
            obtain ⟨status, hstatus⟩ := Option.isSome_iff_exists.mp hcontains
            rw [hstatus, Option.getD_some]
          next => rfl
        next hcontains =>
          rw [Dict.get?_set]
          split
          next heq =>
            rw [Dict.contains, ← heq, Option.not_isSome_iff_eq_none] at hcontains
            rw [hcontains, Option.getD_none]
          next => rfl
      rw [hstep, List.map_cons]
      by_cases hmem : stepId ∈ rest.map PlanStep.id <;> by_cases heq : stepId = step.id <;>
        simp [hmem, heq]

section Remapped

variable {state : PlanState} {idMap : Dict Int Int}

/-- The result under another step id. -/
def withStepId (stepId : Int) (result : StepResult) : StepResult := { result with stepId := stepId }

theorem moveStatus_eq_move (statuses : Dict Int StepStatus) (old new : Int) :
    moveStatus statuses old new = statuses.move (fun _ status => status) old new := by
  unfold moveStatus Dict.move
  split <;> simp_all

theorem moveResult_eq_move (results : Dict Int StepResult) (old new : Int) :
    moveResult results old new = results.move withStepId old new := by
  unfold moveResult Dict.move
  split <;> simp_all [withStepId]

@[simp] theorem plan_remapStepStatus (state : PlanState) (idMap : Dict Int Int) :
    (state.remapStepStatus idMap).plan = state.plan := by
  unfold remapStepStatus
  split <;> rfl

theorem get?_status_remapStepStatus (h : idMap.entries ≠ []) (stepId : Int) :
    (state.remapStepStatus idMap).stepStatus.get? stepId =
      if stepId ∈ state.plan.ids then
        some (((state.stepStatus.moveEach idMap.entries).get? stepId).getD .pending)
      else none := by
  simp only [remapStepStatus, if_neg h, get?_fill, Dict.get?_filterKeys, moveStatus_eq_move,
    ← Dict.moveAll.eq_1, ← Plan.ids.eq_1]
  split
  next hmem => simp [hmem]
  next hmem => simp [hmem]

theorem get?_result_remapStepStatus (h : idMap.entries ≠ []) (stepId : Int) :
    (state.remapStepStatus idMap).stepResults.get? stepId =
      if stepId ∈ state.plan.ids then
        (state.stepResults.moveAll withStepId idMap.entries).get? stepId
      else none := by
  simp only [remapStepStatus, if_neg h, Dict.get?_filterKeys, moveResult_eq_move,
    ← Dict.moveAll.eq_1, decide_eq_true_eq]

end Remapped

/-! ## Simultaneous renaming -/

/-- Install the repaired plan and renumber the statuses and results. -/
def installRepair (state : PlanState) : PlanState :=
  let repair := Repair.repairPlan state.plan
  { state with plan := repair.plan }.remapStepStatus repair.idMap

/-- Each surviving step has its status and its result under its new id, and nothing is left
under an id that is not a new one. -/
structure SimultaneouslyRenamed (idMap : Dict Int Int) (before after : PlanState) : Prop where
  status : ∀ entry ∈ idMap.entries,
    after.stepStatus.get? entry.2 = before.stepStatus.get? entry.1
  result : ∀ entry ∈ idMap.entries,
    after.stepResults.get? entry.2 = (before.stepResults.get? entry.1).map (withStepId entry.2)
  left : before.plan.steps ≠ [] → ∀ stepId ∉ idMap.values,
    after.stepStatus.get? stepId = none ∧ after.stepResults.get? stepId = none

/-- No step that matters moves onto the id of a step still to be moved, and none without a
result moves onto an id that has one and is not vacated. -/
structure Renamable (idMap : Dict Int Int) (state : PlanState) : Prop where
  overtaking : idMap.entries.Pairwise fun first second => second.1 = first.2 →
    (state.stepStatus.get? first.1 = some .pending ∧
      state.stepStatus.get? second.1 = some .pending) ∧ state.stepResults.get? first.1 = none
  stale : ∀ entry ∈ idMap.entries, state.stepResults.get? entry.1 = none →
    entry.2 ∉ idMap.keys → state.stepResults.get? entry.2 = none

theorem survivors_ne_nil {steps : List PlanStep} (h : steps ≠ []) :
    Repair.survivors steps ≠ [] := by
  cases steps with
  | nil => exact absurd rfl h
  | cons step rest => simp [Repair.survivors, Repair.removeDuplicateSteps]

section Install

variable {state : PlanState}

theorem entries_ne_nil (h : state.plan.steps ≠ [])
    (hids : ((Repair.survivors state.plan.steps).map PlanStep.id).Nodup) :
    (Repair.repairPlan state.plan).idMap.entries ≠ [] := by
  intro hnil
  apply survivors_ne_nil h
  have hkeys := (Repair.numbering_repairPlan hids).keys
  simpa [Dict.keys, hnil] using hkeys

theorem ids_repairPlan_eq_values
    (hids : ((Repair.survivors state.plan.steps).map PlanStep.id).Nodup) :
    (Repair.repairPlan state.plan).plan.ids = (Repair.repairPlan state.plan).idMap.values :=
  (Repair.ids_repairPlan hids).trans (Repair.numbering_repairPlan hids).values.symm

theorem values_nodup (hids : ((Repair.survivors state.plan.steps).map PlanStep.id).Nodup) :
    (Repair.repairPlan state.plan).idMap.values.Nodup := by
  rw [(Repair.numbering_repairPlan hids).values]
  exact expectedIds_nodup _

theorem get?_status_installRepair (hne : state.plan.steps ≠ [])
    (hids : ((Repair.survivors state.plan.steps).map PlanStep.id).Nodup) (stepId : Int) :
    state.installRepair.stepStatus.get? stepId =
      if stepId ∈ (Repair.repairPlan state.plan).idMap.values then
        some (((state.stepStatus.moveEach (Repair.repairPlan state.plan).idMap.entries).get?
          stepId).getD .pending)
      else none := by
  rw [← ids_repairPlan_eq_values hids]
  exact get?_status_remapStepStatus (entries_ne_nil hne hids) stepId

theorem get?_result_installRepair (hne : state.plan.steps ≠ [])
    (hids : ((Repair.survivors state.plan.steps).map PlanStep.id).Nodup) (stepId : Int) :
    state.installRepair.stepResults.get? stepId =
      if stepId ∈ (Repair.repairPlan state.plan).idMap.values then
        (state.stepResults.moveAll withStepId (Repair.repairPlan state.plan).idMap.entries).get?
          stepId
      else none := by
  rw [← ids_repairPlan_eq_values hids]
  exact get?_result_remapStepStatus (entries_ne_nil hne hids) stepId

theorem get?_status_moved (hne : state.plan.steps ≠ [])
    (hids : ((Repair.survivors state.plan.steps).map PlanStep.id).Nodup) {entry : Int × Int}
    (hentry : entry ∈ (Repair.repairPlan state.plan).idMap.entries) :
    state.installRepair.stepStatus.get? entry.2 = some (((state.stepStatus.moveEach
      (Repair.repairPlan state.plan).idMap.entries).get? entry.2).getD .pending) := by
  have hvalue : entry.2 ∈ (Repair.repairPlan state.plan).idMap.values :=
    List.mem_map_of_mem hentry
  rw [get?_status_installRepair hne hids, if_pos hvalue]

theorem get?_result_moved (hne : state.plan.steps ≠ [])
    (hids : ((Repair.survivors state.plan.steps).map PlanStep.id).Nodup) {entry : Int × Int}
    (hentry : entry ∈ (Repair.repairPlan state.plan).idMap.entries) :
    state.installRepair.stepResults.get? entry.2 = (state.stepResults.moveAll withStepId
      (Repair.repairPlan state.plan).idMap.entries).get? entry.2 := by
  have hvalue : entry.2 ∈ (Repair.repairPlan state.plan).idMap.values :=
    List.mem_map_of_mem hentry
  rw [get?_result_installRepair hne hids, if_pos hvalue]

theorem total_installRepair
    (hids : ((Repair.survivors state.plan.steps).map PlanStep.id).Nodup)
    (hstatus : ∀ step ∈ Repair.survivors state.plan.steps,
      (state.stepStatus.get? step.id).isSome) :
    state.stepStatus.Total (Repair.repairPlan state.plan).idMap.entries := by
  intro entry hentry
  have hkey := (Repair.numbering_repairPlan hids).keys.mem_iff.mp (List.mem_map_of_mem hentry)
  obtain ⟨step, hstep, heq⟩ := List.mem_map.mp hkey
  exact heq ▸ Option.isSome_iff_exists.mp (hstatus step hstep)

/-- If every surviving step keeps its status, and results are missing where they were, the
moves do not get in each other's way. -/
theorem renamable_of_missing_iff (hne : state.plan.steps ≠ [])
    (hids : ((Repair.survivors state.plan.steps).map PlanStep.id).Nodup)
    (hstatus : ∀ step ∈ Repair.survivors state.plan.steps,
      (state.stepStatus.get? step.id).isSome)
    (hsame : ∀ entry ∈ (Repair.repairPlan state.plan).idMap.entries,
      state.installRepair.stepStatus.get? entry.2 = state.stepStatus.get? entry.1)
    (hmissing : ∀ entry ∈ (Repair.repairPlan state.plan).idMap.entries,
      state.installRepair.stepResults.get? entry.2 = none ↔
        state.stepResults.get? entry.1 = none) :
    Renamable (Repair.repairPlan state.plan).idMap state := by
  have hnews := values_nodup hids
  have hstatuses := (Dict.getD_moveEach_iff (total_installRepair hids hstatus)
    (Repair.repairPlan state.plan).idMap.nodup hnews).mp fun entry hentry => by
      rw [← hsame entry hentry, get?_status_moved hne hids hentry]
  have hresults := Dict.orderly_of_missing_iff hnews fun entry hentry => by
    rw [← hmissing entry hentry, get?_result_moved hne hids hentry]
  refine ⟨?_, hresults.2⟩
  exact (hstatuses.and hresults.1).imp fun h hmeet => ⟨h.1 hmeet, h.2 hmeet⟩

theorem Renamable.renamed (h : Renamable (Repair.repairPlan state.plan).idMap state)
    (hids : ((Repair.survivors state.plan.steps).map PlanStep.id).Nodup)
    (hstatus : ∀ step ∈ Repair.survivors state.plan.steps,
      (state.stepStatus.get? step.id).isSome) :
    SimultaneouslyRenamed (Repair.repairPlan state.plan).idMap state state.installRepair := by
  by_cases hempty : state.plan.steps = []
  · have hnil : (Repair.repairPlan state.plan).idMap.entries = [] := by
      rw [Repair.idMap_repairPlan, hempty]
      rfl
    refine ⟨?_, ?_, fun hne => absurd hempty hne⟩ <;> simp [hnil]
  · have hnews := values_nodup hids
    have hstatuses := (Dict.getD_moveEach_iff (total_installRepair hids hstatus)
      (Repair.repairPlan state.plan).idMap.nodup hnews).mpr
        (h.overtaking.imp fun h hmeet => (h hmeet).1)
    have hresults : Dict.Renamed withStepId state.stepResults _ _ :=
      (Dict.renamed_moveAll_iff (Repair.repairPlan state.plan).idMap.nodup hnews).mpr
        ⟨h.overtaking.imp fun h hmeet => (h hmeet).2, h.stale⟩
    refine ⟨fun entry hentry => ?_, fun entry hentry => ?_, fun _ stepId hstepId => ?_⟩
    · rw [get?_status_moved hempty hids hentry, hstatuses entry hentry]
    · rw [get?_result_moved hempty hids hentry, hresults entry hentry]
    · rw [get?_status_installRepair hempty hids, get?_result_installRepair hempty hids,
        if_neg hstepId, if_neg hstepId]
      exact ⟨rfl, rfl⟩

/-- Renumbering the maps is a simultaneous renaming if and only if the moves do not get in
each other's way. -/
theorem simultaneouslyRenamed_iff (hids : state.plan.ids.Nodup)
    (hstatus : ∀ stepId ∈ state.plan.ids, (state.stepStatus.get? stepId).isSome) :
    SimultaneouslyRenamed (Repair.repairPlan state.plan).idMap state state.installRepair ↔
      Renamable (Repair.repairPlan state.plan).idMap state := by
  have hids := Repair.survivors_ids_nodup hids
  have hstatus : ∀ step ∈ Repair.survivors state.plan.steps,
      (state.stepStatus.get? step.id).isSome := fun step hstep =>
    hstatus step.id (List.mem_map_of_mem ((Repair.survivors_sublist _).subset hstep))
  refine ⟨fun h => ?_, fun h => h.renamed hids hstatus⟩
  by_cases hempty : state.plan.steps = []
  · have hnil : (Repair.repairPlan state.plan).idMap.entries = [] := by
      rw [Repair.idMap_repairPlan, hempty]
      rfl
    exact ⟨by simp [hnil], by simp [hnil]⟩
  · apply renamable_of_missing_iff hempty hids hstatus h.status
    intro entry hentry
    rw [h.result entry hentry, Option.map_eq_none_iff]

end Install

/-- A plan with a gap and a duplicate, of which some steps have results. -/
def duplicatePlan : Plan :=
  ⟨"上海周末", [⟨1, "查询上海天气", some "weather", none⟩, ⟨2, "查询上海天气", some "weather", none⟩,
    ⟨4, "估算上海预算", some "budget", none⟩]⟩

def doneResult (stepId : Int) : StepResult :=
  { stepId := stepId, task := "查询上海天气", status := .completed }

/-- The state after the given steps of the plan have been completed. -/
def duplicateState (done : List Int) : PlanState :=
  done.foldl (fun state stepId => state.recordStepResult (doneResult stepId))
    (fromPlan duplicatePlan "default")

/-- The first and the last step keep what they have when the gap between them is closed. -/
theorem simultaneouslyRenamed_firstDone :
    SimultaneouslyRenamed (Repair.repairPlan (duplicateState [1]).plan).idMap (duplicateState [1])
      (duplicateState [1]).installRepair :=
  (simultaneouslyRenamed_iff (by decide) (by decide)).mpr ⟨by decide +kernel, by decide +kernel⟩

/-- The result of the duplicate becomes the result of the step that takes its id. -/
theorem not_simultaneouslyRenamed_duplicateDone :
    ¬ SimultaneouslyRenamed (Repair.repairPlan (duplicateState [1, 2]).plan).idMap
      (duplicateState [1, 2]) (duplicateState [1, 2]).installRepair := by
  intro h
  have hresult := h.result (4, 2) (by decide +kernel)
  revert hresult
  decide +kernel

end PlanState

end TripGraph
