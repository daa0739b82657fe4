import Mathlib.Data.List.MinMax
import TripGraph.Runtime.Nodes

/-! # The topological levels of a plan

A well-formed plan is split into nonempty levels that together are its steps, and every
dependency of a step lies in an earlier level.
-/

namespace TripGraph

open Interaction

/-- Every dependency of a step is finished before its level or lies in an earlier one. -/
def Layered : List Int → List (List PlanStep) → Prop
  | _, [] => True
  | finished, level :: rest =>
      (∀ step ∈ level, ∀ dep ∈ step.deps, dep ∈ finished) ∧
        Layered (finished ++ level.map PlanStep.id) rest

theorem Layered.mono {finished finished' : List Int} {levels : List (List PlanStep)}
    (h : Layered finished levels) (hsub : ∀ dep ∈ finished, dep ∈ finished') :
    Layered finished' levels := by
  induction levels generalizing finished finished' with
  | nil => trivial
  | cons level rest ih =>
      refine ⟨fun step hstep dep hdep => hsub dep (h.1 step hstep dep hdep), ih h.2 ?_⟩
      intro dep hdep
      rcases List.mem_append.mp hdep with hfinished | hlevel
      · exact List.mem_append_left _ (hsub dep hfinished)
      · exact List.mem_append_right _ hlevel

namespace PlanGraphCompiler

/-- The steps that remain to be placed depend on smaller ids, placed or remaining. -/
structure Placeable (remaining : List PlanStep) (finished : List Int) : Prop where
  nodup : (remaining.map PlanStep.id).Nodup
  deps : ∀ step ∈ remaining, ∀ dep ∈ step.deps,
    dep < step.id ∧ (dep ∈ finished ∨ dep ∈ remaining.map PlanStep.id)

theorem sortById_eq_nil {steps : List PlanStep} (h : sortById steps = []) : steps = [] :=
  List.perm_nil.mp (h ▸ (perm_sortById steps).symm)

namespace Placeable

variable {remaining : List PlanStep} {finished : List Int}

/-- The remaining step with the smallest id is ready. -/
theorem ready_of_smallest (h : Placeable remaining finished) {first : PlanStep}
    (hfirst : first ∈ remaining) (hsmallest : ∀ other ∈ remaining, first.id ≤ other.id) :
    ready finished first = true := by
  simp only [ready, List.all_eq_true, decide_eq_true_eq]
  intro dep hdep
  obtain ⟨hlt, hplaced | hremaining⟩ := h.deps first hfirst dep hdep
  · exact hplaced
  · obtain ⟨other, hother, rfl⟩ := List.mem_map.mp hremaining
    exact absurd hlt (not_lt.mpr (hsmallest other hother))

theorem exists_smallest (hne : remaining ≠ []) :
    ∃ first ∈ remaining, ∀ other ∈ remaining, first.id ≤ other.id := by
  obtain ⟨first, hfirst⟩ := Option.ne_none_iff_exists'.mp
    (fun hnone => hne (List.argmin_eq_none (f := PlanStep.id).mp hnone))
  exact ⟨first, List.argmin_mem hfirst, fun _ hother => List.le_of_mem_argmin hother hfirst⟩

theorem exists_ready (h : Placeable remaining finished) (hne : remaining ≠ []) :
    remaining.filter (ready finished) ≠ [] := by
  obtain ⟨first, hfirst, hsmallest⟩ := exists_smallest hne
  exact List.ne_nil_of_mem
    (List.mem_filter.mpr ⟨hfirst, h.ready_of_smallest hfirst hsmallest⟩)

/-- Placing the ready steps leaves placeable ones. -/
theorem next (h : Placeable remaining finished) :
    Placeable (remaining.filter fun step => !ready finished step)
      (finished ++ (remaining.filter (ready finished)).map PlanStep.id) where
  nodup := h.nodup.sublist (List.filter_sublist.map PlanStep.id)
  deps step hstep dep hdep := by
    obtain ⟨hmem, -⟩ := List.mem_filter.mp hstep
    obtain ⟨hlt, hplaced⟩ := h.deps step hmem dep hdep
    refine ⟨hlt, ?_⟩
    rcases hplaced with hfinished | hremaining
    · exact Or.inl (List.mem_append_left _ hfinished)
    · obtain ⟨other, hother, rfl⟩ := List.mem_map.mp hremaining
      cases hready : ready finished other with
      | true =>
          exact Or.inl (List.mem_append_right _
            (List.mem_map_of_mem (List.mem_filter.mpr ⟨hother, hready⟩)))
      | false =>
          exact Or.inr (List.mem_map_of_mem (List.mem_filter.mpr ⟨hother, by simp [hready]⟩))

end Placeable

theorem length_filter_not_lt {remaining : List PlanStep} {finished : List Int}
    (h : remaining.filter (ready finished) ≠ []) :
    (remaining.filter fun step => !ready finished step).length < remaining.length := by
  obtain ⟨step, hstep⟩ := List.exists_mem_of_ne_nil _ h
  obtain ⟨hmem, hready⟩ := List.mem_filter.mp hstep
  exact List.length_filter_lt_length_iff_exists.mpr ⟨step, hmem, by simp [hready]⟩

/-- The levels are nonempty. -/
theorem ne_nil_of_mem_levelsFrom {rounds : Nat} {remaining : List PlanStep} {finished : List Int}
    {level : List PlanStep} (h : level ∈ levelsFrom rounds remaining finished) : level ≠ [] := by
  induction rounds generalizing remaining finished with
  | zero => simp [levelsFrom] at h
  | succ rounds ih =>
      simp only [levelsFrom] at h
      split at h
      next => simp at h
      next hne =>
        rcases List.mem_cons.mp h with rfl | hrest
        · exact fun hnil => hne (sortById_eq_nil hnil)
        · exact ih hrest

/-- As long as steps remain, some are ready: the levels are then the steps. -/
theorem flatten_levelsFrom_perm (Keeps : List PlanStep → List Int → Prop)
    (hready : ∀ remaining finished, Keeps remaining finished → remaining ≠ [] →
      remaining.filter (ready finished) ≠ [])
    (hnext : ∀ remaining finished, Keeps remaining finished →
      Keeps (remaining.filter fun step => !ready finished step)
        (finished ++ (remaining.filter (ready finished)).map PlanStep.id))
    {rounds : Nat} {remaining : List PlanStep} {finished : List Int}
    (h : Keeps remaining finished) (hrounds : remaining.length ≤ rounds) :
    (levelsFrom rounds remaining finished).flatten.Perm remaining := by
  induction rounds generalizing remaining finished with
  | zero =>
      obtain rfl := List.length_eq_zero_iff.mp (Nat.le_zero.mp hrounds)
      exact .refl _
  | succ rounds ih =>
      simp only [levelsFrom]
      split
      next hnil =>
        by_cases hremaining : remaining = []
        · subst hremaining
          exact .refl _
        · exact absurd hnil (hready remaining finished h hremaining)
      next hne =>
        have hshorter := length_filter_not_lt hne
        have hperm := ih (hnext remaining finished h) (by omega)
        exact ((perm_sortById _).append hperm).trans (List.filter_append_perm _ _)

theorem layered_levelsFrom (rounds : Nat) (remaining : List PlanStep) (finished : List Int) :
    Layered finished (levelsFrom rounds remaining finished) := by
  induction rounds generalizing remaining finished with
  | zero => trivial
  | succ rounds ih =>
      simp only [levelsFrom]
      split
      · trivial
      refine ⟨fun step hstep dep hdep => ?_, ?_⟩
      · have hready := (List.mem_filter.mp (mem_sortById.mp hstep)).2
        simp only [ready, List.all_eq_true, decide_eq_true_eq] at hready
        exact hready dep hdep
      · exact (ih _ _).mono fun dep => by
          simp only [List.mem_append]
          exact Or.imp_right ((((perm_sortById _).map PlanStep.id).mem_iff).mpr)

/-- The levels of placeable steps are these steps, and they are layered. -/
theorem levelsFrom_spec {rounds : Nat} {remaining : List PlanStep} {finished : List Int}
    (h : Placeable remaining finished) (hrounds : remaining.length ≤ rounds) :
    (levelsFrom rounds remaining finished).flatten.Perm remaining ∧
      Layered finished (levelsFrom rounds remaining finished) :=
  ⟨flatten_levelsFrom_perm Placeable (fun _ _ h => h.exists_ready) (fun _ _ h => h.next) h hrounds,
    layered_levelsFrom _ _ _⟩

theorem values_stepDict {steps : List PlanStep} (hnodup : (steps.map PlanStep.id).Nodup) :
    (Dict.ofList (steps.map fun step => (step.id, step))).values = steps := by
  have hkeys : (steps.map fun step => (step.id, step)).map Prod.fst = steps.map PlanStep.id := by
    simp [Function.comp_def]
  rw [Dict.values, Dict.entries_ofList (by rwa [hkeys])]
  simp [Function.comp_def]

section WellFormed

variable {registry : List String} {plan : Plan} (h : plan.WellFormed registry)

include h

theorem placeable_of_wellFormed : Placeable plan.steps [] where
  nodup := h.ids_nodup
  deps step hstep dep hdep :=
    ⟨(h.deps step hstep dep hdep).2, Or.inr (h.deps step hstep dep hdep).1⟩

theorem topologicalLevels_spec : (topologicalLevels plan).flatten.Perm plan.steps ∧
    Layered [] (topologicalLevels plan) := by
  simp only [topologicalLevels]
  rw [values_stepDict h.ids_nodup]
  exact levelsFrom_spec (placeable_of_wellFormed h) le_rfl

theorem flatten_topologicalLevels_perm : (topologicalLevels plan).flatten.Perm plan.steps :=
  (topologicalLevels_spec h).1

theorem layered_topologicalLevels : Layered [] (topologicalLevels plan) :=
  (topologicalLevels_spec h).2

theorem topologicalLevels_ids_nodup :
    ((topologicalLevels plan).flatten.map PlanStep.id).Nodup :=
  ((flatten_topologicalLevels_perm h).map PlanStep.id).nodup_iff.mpr h.ids_nodup

end WellFormed

theorem ne_nil_of_mem_topologicalLevels {plan : Plan} {level : List PlanStep}
    (h : level ∈ topologicalLevels plan) : level ≠ [] := ne_nil_of_mem_levelsFrom h

theorem length_le_of_ne_nil {levels : List (List PlanStep)} (h : ∀ level ∈ levels, level ≠ []) :
    levels.length ≤ levels.flatten.length := by
  induction levels with
  | nil => exact le_rfl
  | cons level rest ih =>
      have hlevel := List.length_pos_iff.mpr (h level List.mem_cons_self)
      have hrest := ih fun other hmem => h other (List.mem_cons_of_mem _ hmem)
      simp only [List.length_cons, List.flatten_cons, List.length_append]
      omega

/-! ## Levels and longest chains -/

/-- The loop, from the steps that remain and the ids that are finished to the levels it appends
until it ends. -/
inductive Peels : List PlanStep → List Int → List (List PlanStep) → Prop
  | done {finished : List Int} : Peels [] finished []
  | stuck {remaining : List PlanStep} {finished : List Int} (some : remaining ≠ [])
      (none : remaining.filter (ready finished) = []) : Peels remaining finished []
  | round {remaining : List PlanStep} {finished : List Int} {levels : List (List PlanStep)}
      (some : remaining.filter (ready finished) ≠ [])
      (later : Peels (remaining.filter fun step => !ready finished step)
        (finished ++ (remaining.filter (ready finished)).map PlanStep.id) levels) :
      Peels remaining finished (sortById (remaining.filter (ready finished)) :: levels)

theorem peels_levelsFrom {rounds : Nat} {remaining : List PlanStep} {finished : List Int}
    (hrounds : remaining.length ≤ rounds) :
    Peels remaining finished (levelsFrom rounds remaining finished) := by
  induction rounds generalizing remaining finished with
  | zero =>
      obtain rfl := List.length_eq_zero_iff.mp (Nat.le_zero.mp hrounds)
      exact .done
  | succ rounds ih =>
      rw [levelsFrom]
      split
      next hnil =>
        by_cases hremaining : remaining = []
        · subst hremaining
          exact .done
        · exact .stuck hremaining hnil
      next hne =>
        have hshorter := length_filter_not_lt hne
        exact .round hne (ih (by omega))

/-- What holds after so many rounds: a chain as long starts in each step that remains, and only
shorter ones start in the finished steps. -/
structure Peeled (plan : Plan) (round : Nat) (remaining : List PlanStep) (finished : List Int) :
    Prop where
  steps : ∀ step ∈ remaining, step ∈ plan.steps
  deps : ∀ step ∈ remaining, ∀ dep ∈ step.deps, dep ∈ finished ∨ dep ∈ remaining.map PlanStep.id
  chained : ∀ step ∈ remaining, Chained plan.DependsOn round step.id
  bounded : ∀ stepId ∈ finished, ∀ length, Chained plan.DependsOn length stepId → length < round

theorem exists_dep_of_not_ready {finished : List Int} {step : PlanStep}
    (h : ready finished step = false) : ∃ dep ∈ step.deps, dep ∉ finished := by
  by_contra hnone
  push Not at hnone
  have hready : ready finished step = true := by
    simpa only [ready, List.all_eq_true, decide_eq_true_eq] using hnone
  rw [hready] at h
  cases h

namespace Peeled

variable {plan : Plan} {round : Nat} {remaining : List PlanStep} {finished : List Int}

/-- A step that waits on does so for a step that remains. -/
theorem exists_next (h : Peeled plan round remaining finished) {step : PlanStep}
    (hstep : step ∈ remaining) (hready : ready finished step = false) :
    ∃ other ∈ remaining, plan.DependsOn step.id other.id := by
  obtain ⟨dep, hdep, hopen⟩ := exists_dep_of_not_ready hready
  obtain ⟨other, hother, rfl⟩ := List.mem_map.mp ((h.deps step hstep dep hdep).resolve_left hopen)
  exact ⟨other, hother, step, h.steps step hstep, rfl, hdep⟩

theorem exists_ready (h : Peeled plan round remaining finished) (hacyclic : plan.Acyclic)
    (hne : remaining ≠ []) : remaining.filter (ready finished) ≠ [] := by
  intro hnil
  obtain ⟨stepId, hcycle⟩ : ∃ stepId, Relation.TransGen plan.DependsOn stepId stepId := by
    have hids : remaining.map PlanStep.id ≠ [] := by simpa using hne
    refine exists_cycle_of_next hids fun stepId hmem => ?_
    obtain ⟨step, hstep, rfl⟩ := List.mem_map.mp hmem
    have hready : ready finished step = false := by
      simpa using List.filter_eq_nil_iff.mp hnil step hstep
    obtain ⟨other, hother, hedge⟩ := h.exists_next hstep hready
    exact ⟨other.id, List.mem_map_of_mem hother, hedge⟩
  exact hacyclic stepId hcycle

/-- The longest chain from a step that is ready has an edge for each round before. -/
theorem isGreatest_of_ready (h : Peeled plan round remaining finished) (hids : plan.ids.Nodup)
    {step : PlanStep} (hstep : step ∈ remaining) (hready : ready finished step = true) :
    IsGreatest { length | Chained plan.DependsOn length step.id } round := by
  refine ⟨h.chained step hstep, fun length hchain => ?_⟩
  cases hchain with
  | nil => exact Nat.zero_le _
  | cons first rest =>
      obtain ⟨own, hown, hid, hdep⟩ := first
      obtain rfl := List.inj_on_of_nodup_map hids hown (h.steps step hstep) hid
      simp only [ready, List.all_eq_true, decide_eq_true_eq] at hready
      exact h.bounded _ (hready _ hdep) _ rest

theorem next (h : Peeled plan round remaining finished) (hids : plan.ids.Nodup) :
    Peeled plan (round + 1) (remaining.filter fun step => !ready finished step)
      (finished ++ (remaining.filter (ready finished)).map PlanStep.id) where
  steps step hstep := h.steps step (List.mem_of_mem_filter hstep)
  deps step hstep dep hdep := by
    rcases h.deps step (List.mem_of_mem_filter hstep) dep hdep with hfinished | hremaining
    · exact .inl (List.mem_append_left _ hfinished)
    · obtain ⟨other, hother, rfl⟩ := List.mem_map.mp hremaining
      cases hready : ready finished other with
      | true =>
          exact .inl (List.mem_append_right _
            (List.mem_map_of_mem (List.mem_filter.mpr ⟨hother, hready⟩)))
      | false =>
          exact .inr (List.mem_map_of_mem (List.mem_filter.mpr ⟨hother, by simp [hready]⟩))
  chained step hstep := by
    obtain ⟨hmem, hready⟩ := List.mem_filter.mp hstep
    obtain ⟨other, hother, hedge⟩ := h.exists_next hmem (by simpa using hready)
    exact .cons hedge (h.chained other hother)
  bounded stepId hmem length hchain := by
    rcases List.mem_append.mp hmem with hfinished | hlevel
    · exact Nat.lt_succ_of_lt (h.bounded stepId hfinished length hchain)
    · obtain ⟨step, hstep, rfl⟩ := List.mem_map.mp hlevel
      obtain ⟨hstep, hready⟩ := List.mem_filter.mp hstep
      exact Nat.lt_succ_of_le ((h.isGreatest_of_ready hids hstep hready).2 hchain)

theorem levelsFrom_isGreatest (h : Peeled plan round remaining finished) (hids : plan.ids.Nodup)
    {rounds index : Nat} {level : List PlanStep}
    (hlevel : (levelsFrom rounds remaining finished)[index]? = some level) {step : PlanStep}
    (hstep : step ∈ level) :
    IsGreatest { length | Chained plan.DependsOn length step.id } (round + index) := by
  induction rounds generalizing round remaining finished index with
  | zero => cases hlevel
  | succ rounds ih =>
      rw [levelsFrom] at hlevel
      split at hlevel
      · cases hlevel
      cases index with
      | zero =>
          obtain rfl : sortById (remaining.filter (ready finished)) = level := by simpa using hlevel
          obtain ⟨hmem, hready⟩ := List.mem_filter.mp (mem_sortById.mp hstep)
          exact h.isGreatest_of_ready hids hmem hready
      | succ index =>
          rw [List.getElem?_cons_succ] at hlevel
          have := ih (h.next hids) hlevel
          rwa [Nat.add_right_comm] at this

end Peeled

/-- On a plan without cycles the levels hold each step once, at the length of the longest chain
of dependencies behind it. -/
theorem topologicalLevels_longest {plan : Plan} (hids : plan.ids.Nodup)
    (hdeps : ∀ step ∈ plan.steps, ∀ dep ∈ step.deps, dep ∈ plan.ids) (hacyclic : plan.Acyclic) :
    Peels plan.steps [] (topologicalLevels plan) ∧
      (topologicalLevels plan).flatten.Perm plan.steps ∧
      (∀ level ∈ topologicalLevels plan, level ≠ []) ∧
      (∀ step ∈ plan.steps, ∃! index : Nat, ∃ level : List PlanStep,
        (topologicalLevels plan)[index]? = some level ∧ step ∈ level) ∧
      ∀ (index : Nat) (level : List PlanStep), (topologicalLevels plan)[index]? = some level →
        ∀ step ∈ level, IsGreatest { length | Chained plan.DependsOn length step.id } index := by
  have hstart : Peeled plan 0 plan.steps [] :=
    { steps := fun _ hstep => hstep
      deps := fun step hstep dep hdep => .inr (hdeps step hstep dep hdep)
      chained := fun step _ => .nil step.id
      bounded := fun _ h => absurd h List.not_mem_nil }
  have heq : topologicalLevels plan = levelsFrom plan.steps.length plan.steps [] := by
    simp only [topologicalLevels]
    rw [values_stepDict hids]
  have hperm : (topologicalLevels plan).flatten.Perm plan.steps := by
    rw [heq]
    exact flatten_levelsFrom_perm
      (fun remaining finished => ∃ round, Peeled plan round remaining finished)
      (fun _ _ ⟨_, h⟩ hne => h.exists_ready hacyclic hne)
      (fun _ _ ⟨round, h⟩ => ⟨round + 1, h.next hids⟩) ⟨0, hstart⟩ le_rfl
  have hgreatest : ∀ (index : Nat) (level : List PlanStep),
      (topologicalLevels plan)[index]? = some level → ∀ step ∈ level,
      IsGreatest { length | Chained plan.DependsOn length step.id } index := by
    intro index level hlevel step hstep
    rw [heq] at hlevel
    simpa using hstart.levelsFrom_isGreatest hids hlevel hstep
  refine ⟨heq ▸ peels_levelsFrom le_rfl, hperm, fun level hlevel =>
    ne_nil_of_mem_topologicalLevels hlevel, fun step hstep => ?_, hgreatest⟩
  obtain ⟨level, hlevel, hmem⟩ := List.mem_flatten.mp (hperm.mem_iff.mpr hstep)
  obtain ⟨index, hindex⟩ := List.mem_iff_getElem?.mp hlevel
  refine ⟨index, ⟨level, hindex, hmem⟩, fun other ⟨level', hother, hmem'⟩ => ?_⟩
  exact (hgreatest other level' hother step hmem').unique (hgreatest index level hindex step hmem)

/-- A route between two places that are looked up first, and a budget for all of it. -/
def routePlan : Plan :=
  ⟨"上海一日游", [⟨1, "查询外滩", none, none⟩, ⟨2, "查询豫园", none, none⟩,
    ⟨3, "规划路线", none, some [1, 2]⟩, ⟨4, "估算费用", none, some [1, 3]⟩]⟩

theorem topologicalLevels_longest_routePlan :
    IsGreatest { length | Chained routePlan.DependsOn length 4 } 2 := by
  have hacyclic : routePlan.Acyclic := Plan.acyclic_of_prior (by decide)
  obtain ⟨-, -, -, -, hlongest⟩ :=
    @topologicalLevels_longest routePlan (by decide) (by decide) hacyclic
  exact hlongest 2 [⟨4, "估算费用", none, some [1, 3]⟩] rfl _ List.mem_cons_self

end PlanGraphCompiler

end TripGraph
