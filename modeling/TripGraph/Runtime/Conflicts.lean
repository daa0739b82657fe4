import TripGraph.Runtime.Merging

/-! # Which conflicts a merge detects

The strategy that fails on conflicts compares each branch with what has been merged so far,
field by field. A field that the base has set and one branch has replaced counts as a
conflict; dictionaries and step statuses are not compared.
-/

namespace TripGraph

open Interaction

/-- Two branches have changed what `get` reads, to different values. -/
def InConflict {α : Type} (get : AgentState → α) (base : AgentState) (branches : List AgentState) :
    Prop :=
  ∃ first ∈ branches, ∃ second ∈ branches,
    get first ≠ get base ∧ get second ≠ get base ∧ get first ≠ get second

/-- The status of a plan step. -/
def stepStatusOf (stepId : Int) (state : AgentState) : Option StepStatus :=
  state.planState.bind fun own => own.stepStatus.get? stepId

namespace MergeField

/-- The fields whose values are compared. -/
def checked : MergeField → Bool
  | .plan | .currentStep | .finalResult | .executionCritique | .shouldStop | .query => true
  | _ => false

/-- `value is not None`. -/
def isSet : (field : MergeField) → field.Value → Bool
  | .observation _, value => value.isSome
  | .memory _, value => value.isSome
  | .plan, value => value.isSome
  | .currentStep, value => value.isSome
  | .finalResult, value => value.isSome
  | .executionCritique, value => value.isSome
  | .stateVersionId, value => value.isSome
  | .parentGraphId, value => value.isSome
  | .nestedGraphId, value => value.isSome
  | .executionSeed, value => value.isSome
  | .shouldStop, _ | .query, _ | .replanAttempts, _ | .sessionId, _ | .branchId, _ => true

/-- Among the base and the branches the field is set to one value only. -/
def Undisputed (field : MergeField) (base : AgentState) (branches : List AgentState) : Prop :=
  ∀ first ∈ base :: branches, ∀ second ∈ base :: branches, field.isSet (field.get first) = true →
    field.isSet (field.get second) = true → field.get first = field.get second

variable {field : MergeField}

theorem eq_of_not_isSet {first second : field.Value} (hfirst : field.isSet first = false)
    (hsecond : field.isSet second = false) : first = second := by
  cases field <;> simp_all [isSet]

/-- A merged value is that of the state that has one, if the two do not differ. -/
theorem step_of_compatible (hchecked : field.checked = true) {left right : field.Value}
    (h : field.isSet left = true → field.isSet right = true → left = right) :
    field.step left right = if field.isSet right = true then right else left := by
  cases field with
  | plan => cases right <;> rfl
  | currentStep => cases right <;> rfl
  | finalResult => cases right <;> rfl
  | executionCritique => cases right <;> rfl
  | shouldStop =>
      obtain rfl := h rfl rfl
      simp [step]
  | query => exact h rfl rfl
  | _ => cases hchecked

theorem undisputed_cons_iff (hchecked : field.checked = true) {base branch merged : AgentState}
    {rest : List AgentState}
    (hmerged : field.get merged = field.step (field.get base) (field.get branch))
    (h : field.isSet (field.get base) = true → field.isSet (field.get branch) = true →
      field.get base = field.get branch) :
    field.Undisputed base (branch :: rest) ↔ field.Undisputed merged rest := by
  rw [step_of_compatible hchecked h] at hmerged
  have hbase : field.isSet (field.get base) = true → field.get base = field.get merged := by
    intro hset
    rw [hmerged]
    split
    next hbranch => exact h hset hbranch
    next => rfl
  have hbranch : field.isSet (field.get branch) = true → field.get branch = field.get merged := by
    intro hset
    rw [hmerged, if_pos hset]
  -- the states with a value are the same up to the merged one
  have hreplace : ∀ state ∈ base :: branch :: rest, field.isSet (field.get state) = true →
      ∃ other ∈ merged :: rest, field.get state = field.get other := by
    intro state hmem hset
    rcases List.mem_cons.mp hmem with rfl | hmem
    · exact ⟨merged, List.mem_cons_self, hbase hset⟩
    rcases List.mem_cons.mp hmem with rfl | hmem
    · exact ⟨merged, List.mem_cons_self, hbranch hset⟩
    · exact ⟨state, List.mem_cons_of_mem _ hmem, rfl⟩
  -- and the merged one has its value from one of the two
  have hrestore : ∀ state ∈ merged :: rest, ∃ other ∈ base :: branch :: rest,
      field.get state = field.get other := by
    intro state hmem
    rcases List.mem_cons.mp hmem with rfl | hmem
    · rw [hmerged]
      split
      next => exact ⟨branch, by simp, rfl⟩
      next => exact ⟨base, by simp, rfl⟩
    · exact ⟨state, by simp [hmem], rfl⟩
  constructor
  · intro hundisputed first hfirst second hsecond hset hset'
    obtain ⟨own, hown, heq⟩ := hrestore first hfirst
    obtain ⟨own', hown', heq'⟩ := hrestore second hsecond
    rw [heq] at hset ⊢
    rw [heq'] at hset' ⊢
    exact hundisputed own hown own' hown' hset hset'
  · intro hundisputed first hfirst second hsecond hset hset'
    obtain ⟨own, hown, heq⟩ := hreplace first hfirst hset
    obtain ⟨own', hown', heq'⟩ := hreplace second hsecond hset'
    rw [heq] at hset ⊢
    rw [heq'] at hset' ⊢
    exact hundisputed own hown own' hown' hset hset'

end MergeField

/-! ## What is detected -/

/-- A conflict is detected when a checked field is set to different values. -/
theorem detectConflicts_eq_nil_iff {left right : AgentState} :
    detectConflicts left right = [] ↔ ∀ field : MergeField, field.checked = true →
      field.isSet (field.get left) = true → field.isSet (field.get right) = true →
      field.get left = field.get right := by
  have hsplit : detectConflicts left right = [] ↔
      (left.plan.isSome = true → right.plan.isSome = true → left.plan = right.plan) ∧
      (left.currentStep.isSome = true → right.currentStep.isSome = true →
        left.currentStep = right.currentStep) ∧
      (left.finalResult.isSome = true → right.finalResult.isSome = true →
        left.finalResult = right.finalResult) ∧
      (left.executionCritique.isSome = true → right.executionCritique.isSome = true →
        left.executionCritique = right.executionCritique) ∧
      left.shouldStop = right.shouldStop ∧ left.query = right.query := by
    simp [detectConflicts]
  rw [hsplit]
  constructor
  · rintro ⟨hplan, hstep, hresult, hcritique, hstop, hquery⟩ field hchecked
    cases field with
    | plan => exact hplan
    | currentStep => exact hstep
    | finalResult => exact hresult
    | executionCritique => exact hcritique
    | shouldStop => exact fun _ _ => hstop
    | query => exact fun _ _ => hquery
    | _ => cases hchecked
  · intro h
    exact ⟨h .plan rfl, h .currentStep rfl, h .finalResult rfl, h .executionCritique rfl,
      h .shouldStop rfl rfl rfl, h .query rfl rfl rfl⟩

theorem not_runs_deepMerge_error {left right : AgentState} {trace : List Event}
    {error : RaisedError} : ¬Runs (deepMerge left right) trace (.error error) := by
  intro h
  rcases runs_bind_iff.mp h with ⟨_, _, _, -, hpure, -⟩ | ⟨own, hgraphs, -⟩
  · simp at hpure
  · unfold mergeExecutionGraphs at hgraphs
    split at hgraphs
    · simp at hgraphs
    · simp at hgraphs
    · obtain ⟨_, _, -, hpure⟩ := runs_asking_iff.mp hgraphs
      simp at hpure

/-- The merge raises exactly if a checked field is set to different values among the base
and the branches. -/
theorem raises_iff {base : AgentState} {branches : List AgentState} {trace : List Event}
    {result : Except RaisedError AgentState}
    (h : Runs (mergeStates .failOnConflict base branches) trace result) :
    (∃ fields, result = .error (.mergeConflict fields)) ↔
      ∃ field : MergeField, field.checked = true ∧ ¬field.Undisputed base branches := by
  -- induction on the branches: the merged state is the base of the rest
  induction branches generalizing base trace with
  | nil =>
      obtain ⟨-, rfl⟩ := runs_pure_iff.mp h
      constructor
      · rintro ⟨_, hresult⟩
        cases hresult
      · rintro ⟨field, -, hdisputed⟩
        apply absurd _ hdisputed
        intro first hfirst second hsecond _ _
        rw [List.mem_singleton.mp hfirst, List.mem_singleton.mp hsecond]
  | cons branch rest ih =>
      simp only [mergeStates, mergePair] at h
      by_cases hconflicts : detectConflicts base branch = []
      · rw [if_pos hconflicts] at h
        have hcompatible := detectConflicts_eq_nil_iff.mp hconflicts
        rcases runs_bind_iff.mp h with ⟨merged, own, last, hown, hlast, rfl⟩ | ⟨error, herror, -⟩
        · have hmerged := (deepMerged_deepMerge base branch).returns_of_runs hown
          rw [ih hlast]
          apply exists_congr
          intro field
          apply and_congr_right
          intro hchecked
          rw [MergeField.undisputed_cons_iff hchecked (field.get_deepMerged hmerged)
            (hcompatible field hchecked)]
        · exact absurd herror not_runs_deepMerge_error
      · rw [if_neg hconflicts] at h
        have hresult : result = .error (.mergeConflict (detectConflicts base branch)) := by
          rcases runs_bind_iff.mp h with ⟨_, _, _, hraised, -⟩ | ⟨error, herror, rfl⟩
          · simp at hraised
          · obtain ⟨-, hraised⟩ := runs_fail_iff.mp herror
            cases hraised
            rfl
        refine ⟨fun _ => ?_, fun _ => ⟨_, hresult⟩⟩
        by_contra hnone
        apply hconflicts
        rw [detectConflicts_eq_nil_iff]
        intro field hchecked hbase hbranch
        by_contra hdiffer
        apply hnone
        refine ⟨field, hchecked, ?_⟩
        intro hundisputed
        exact hdiffer (hundisputed base (by simp) branch (by simp) hbase hbranch)

/-! ## Detected and real conflicts -/

/-- A branch has replaced a checked field that the base has set. -/
def Replaced (base : AgentState) (branches : List AgentState) : Prop :=
  ∃ field : MergeField, field.checked = true ∧ field.isSet (field.get base) = true ∧
    ∃ branch ∈ branches, field.isSet (field.get branch) = true ∧ field.get branch ≠ field.get base

/-- A checked field is in conflict. -/
def CheckedConflict (base : AgentState) (branches : List AgentState) : Prop :=
  ∃ field : MergeField, field.checked = true ∧ InConflict field.get base branches

/-- A field or entry that counts but is not checked, or a step status, is in conflict. -/
def UncheckedConflict (counts : MergeField → Prop) (base : AgentState)
    (branches : List AgentState) : Prop :=
  (∃ field : MergeField, counts field ∧ field.checked = false ∧
    InConflict field.get base branches) ∨
    ∃ stepId, InConflict (stepStatusOf stepId) base branches

/-- A field or entry that counts, or a step status, is in conflict. -/
def Conflict (counts : MergeField → Prop) (base : AgentState) (branches : List AgentState) : Prop :=
  (∃ field : MergeField, counts field ∧ InConflict field.get base branches) ∨
    ∃ stepId, InConflict (stepStatusOf stepId) base branches

theorem disputed_iff {base : AgentState} {branches : List AgentState} :
    (∃ field : MergeField, field.checked = true ∧ ¬field.Undisputed base branches) ↔
      Replaced base branches ∨ CheckedConflict base branches := by
  constructor
  · rintro ⟨field, hchecked, hdisputed⟩
    simp only [MergeField.Undisputed, not_forall] at hdisputed
    obtain ⟨first, hfirst, second, hsecond, hset, hset', hdiffer⟩ := hdisputed
    by_cases hbase : field.get first = field.get base
    · -- the base is set, so the other value replaces it
      refine Or.inl ⟨field, hchecked, hbase ▸ hset, second, ?_, hset', ?_⟩
      · rcases List.mem_cons.mp hsecond with rfl | hmem
        · exact absurd hbase hdiffer
        · exact hmem
      · exact fun heq => hdiffer (hbase.trans heq.symm)
    have hmem : first ∈ branches := by
      rcases List.mem_cons.mp hfirst with rfl | hmem
      · exact absurd rfl hbase
      · exact hmem
    by_cases hbase' : field.get second = field.get base
    · exact Or.inl ⟨field, hchecked, hbase' ▸ hset', first, hmem, hset, hbase⟩
    · refine Or.inr ⟨field, hchecked, first, hmem, second, ?_, hbase, hbase', hdiffer⟩
      rcases List.mem_cons.mp hsecond with rfl | hmem
      · exact absurd rfl hbase'
      · exact hmem
  · rintro (⟨field, hchecked, hbase, branch, hmem, hset, hdiffer⟩ |
      ⟨field, hchecked, first, hfirst, second, hsecond, hbase, hbase', hdiffer⟩)
    · refine ⟨field, hchecked, ?_⟩
      intro hundisputed
      exact hdiffer (hundisputed branch (by simp [hmem]) base (by simp) hset hbase)
    · refine ⟨field, hchecked, ?_⟩
      intro hundisputed
      by_cases hset : field.isSet (field.get first) = true
      · by_cases hset' : field.isSet (field.get second) = true
        · exact hdiffer (hundisputed first (by simp [hfirst]) second (by simp [hsecond]) hset hset')
        · -- the second branch has cleared the field, so the base has it set
          have hown : field.isSet (field.get base) = true := by
            by_contra hnot
            exact hbase' (MergeField.eq_of_not_isSet (by simpa using hset') (by simpa using hnot))
          exact hbase (hundisputed first (by simp [hfirst]) base (by simp) hset hown)
      · have hown : field.isSet (field.get base) = true := by
          by_contra hnot
          exact hbase (MergeField.eq_of_not_isSet (by simpa using hset) (by simpa using hnot))
        have hset' : field.isSet (field.get second) = true := by
          by_contra hnot
          exact hdiffer (MergeField.eq_of_not_isSet (by simpa using hset) (by simpa using hnot))
        exact hbase' (hundisputed second (by simp [hsecond]) base (by simp) hset' hown)

/-- The merge raises exactly on real conflicts if and only if what a branch replaces comes
with a real conflict and what is not checked comes with something that is detected. -/
theorem failOnConflict_exact_iff {counts : MergeField → Prop}
    (hcounts : ∀ field : MergeField, field.checked = true → counts field) {base : AgentState}
    {branches : List AgentState} {trace : List Event} {result : Except RaisedError AgentState}
    (h : Runs (mergeStates .failOnConflict base branches) trace result) :
    ((∃ fields, result = .error (.mergeConflict fields)) ↔ Conflict counts base branches) ↔
      (Replaced base branches → Conflict counts base branches) ∧
        (UncheckedConflict counts base branches →
          Replaced base branches ∨ CheckedConflict base branches) := by
  rw [raises_iff h, disputed_iff]
  have hchecked : CheckedConflict base branches → Conflict counts base branches := by
    rintro ⟨field, hchecked, hconflict⟩
    exact Or.inl ⟨field, hcounts field hchecked, hconflict⟩
  have hunchecked : UncheckedConflict counts base branches → Conflict counts base branches := by
    rintro (⟨field, hfield, -, hconflict⟩ | hstatus)
    · exact Or.inl ⟨field, hfield, hconflict⟩
    · exact Or.inr hstatus
  have hsplit : Conflict counts base branches →
      CheckedConflict base branches ∨ UncheckedConflict counts base branches := by
    rintro (⟨field, hfield, hconflict⟩ | hstatus)
    · by_cases hown : field.checked = true
      · exact Or.inl ⟨field, hown, hconflict⟩
      · exact Or.inr (Or.inl ⟨field, hfield, by simpa using hown, hconflict⟩)
    · exact Or.inr (Or.inr hstatus)
  constructor
  · intro hexact
    exact ⟨fun hreplaced => hexact.mp (Or.inl hreplaced), fun hown => hexact.mpr (hunchecked hown)⟩
  · rintro ⟨hreplaced, hdetected⟩
    constructor
    · rintro (hown | hown)
      · exact hreplaced hown
      · exact hchecked hown
    · intro hconflict
      rcases hsplit hconflict with hown | hown
      · exact Or.inr hown
      · exact hdetected hown

/-- The fields and entries the strategy is about: the checked ones and the dictionary entries. -/
def contested : MergeField → Prop
  | .observation _ | .memory _ => True
  | field => field.checked = true

/-- A state at a plan step. -/
def steppedState (stepId : Int) : AgentState where
  currentStep := some stepId

/-- Two branches are at different steps. -/
theorem failOnConflict_exact_iff_twoSteps : ∃ fields,
    Runs (mergeStates .failOnConflict {} [steppedState 1, steppedState 2]) []
      (.error (.mergeConflict fields)) ∧
    (((∃ own, (.error (.mergeConflict fields) : Except RaisedError AgentState) =
          .error (.mergeConflict own)) ↔
        Conflict contested {} [steppedState 1, steppedState 2]) ↔
      (Replaced {} [steppedState 1, steppedState 2] →
        Conflict contested {} [steppedState 1, steppedState 2]) ∧
      (UncheckedConflict contested {} [steppedState 1, steppedState 2] →
        Replaced {} [steppedState 1, steppedState 2] ∨
          CheckedConflict {} [steppedState 1, steppedState 2])) := by
  refine ⟨_, .fail _, failOnConflict_exact_iff ?_
    (show Runs (mergeStates .failOnConflict {} [steppedState 1, steppedState 2]) []
      (.error (.mergeConflict _)) from .fail _)⟩
  intro field hchecked
  cases field <;> trivial

/-- One branch alone moves on to step 2, and the merge raises; two branches observe
different budgets, and it does not. -/
theorem failOnConflict_not_exact :
    (∃ fields, Runs (mergeStates .failOnConflict (steppedState 1) [steppedState 2]) []
        (.error (.mergeConflict fields)) ∧
      ¬Conflict contested (steppedState 1) [steppedState 2]) ∧
    ∃ merged, Runs (mergeStates .failOnConflict (budgetState 1) [budgetState 2, budgetState 3]) []
        (.ok merged) ∧
      Conflict contested (budgetState 1) [budgetState 2, budgetState 3] := by
  constructor
  · refine ⟨_, .fail _, ?_⟩
    have hsingle : ∀ {α : Type} (get : AgentState → α),
        ¬InConflict get (steppedState 1) [steppedState 2] := by
      rintro α get ⟨first, hfirst, second, hsecond, -, -, hdiffer⟩
      rw [List.mem_singleton.mp hfirst, List.mem_singleton.mp hsecond] at hdiffer
      exact hdiffer rfl
    rintro (⟨field, -, hconflict⟩ | ⟨stepId, hconflict⟩)
    · exact hsingle _ hconflict
    · exact hsingle _ hconflict
  · refine ⟨_, .done _, Or.inl ⟨.observation "budget", trivial, budgetState 2, by simp,
      budgetState 3, by simp, ?_⟩⟩
    decide

end TripGraph
