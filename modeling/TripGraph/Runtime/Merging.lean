import TripGraph.Foundation.ThreeWay
import TripGraph.Runtime.Merge

/-! # What a merge makes of its branches

Field by field a deep merge folds the branch states into the base. The fold knows the base
only as its first operand, so it cannot tell a change from a copy of the base: a change, a
repeated log entry and a conflict are each judged without it.
-/

namespace TripGraph

open Interaction

/-! ## One deep merge -/

/-- What a deep merge makes of each field. -/
structure DeepMerged (left right merged : AgentState) : Prop where
  observations : merged.observations = left.observations.update right.observations
  memory : merged.memory = left.memory.update right.memory
  messages : merged.messages = dedupeList (left.messages ++ right.messages)
  executionTrace : merged.executionTrace = dedupeList (left.executionTrace ++ right.executionTrace)
  graphTrace : merged.graphTrace = dedupeList (left.graphTrace ++ right.graphTrace)
  plan : merged.plan = right.plan.orElse fun _ => left.plan
  currentStep : merged.currentStep = right.currentStep.orElse fun _ => left.currentStep
  finalResult : merged.finalResult = right.finalResult.orElse fun _ => left.finalResult
  executionCritique :
    merged.executionCritique = right.executionCritique.orElse fun _ => left.executionCritique
  shouldStop : merged.shouldStop = (left.shouldStop || right.shouldStop)
  replanAttempts : merged.replanAttempts = max left.replanAttempts right.replanAttempts
  stateVersionId : merged.stateVersionId =
    if truthy right.stateVersionId then right.stateVersionId else left.stateVersionId
  query : merged.query = left.query
  sessionId : merged.sessionId = left.sessionId
  branchId : merged.branchId = left.branchId
  parentGraphId : merged.parentGraphId = left.parentGraphId
  nestedGraphId : merged.nestedGraphId = left.nestedGraphId
  executionSeed : merged.executionSeed = left.executionSeed

theorem plan_of_planRef {state : AgentState} {plan : Option Plan}
    (h : state.planRef = plan.elim .unset .own) : state.plan = plan := by
  unfold AgentState.plan
  rw [h]
  cases plan <;> rfl

theorem deepMerged_deepMerge (left right : AgentState) :
    Program.Returns (S := runtimeSig) (DeepMerged left right) (deepMerge left right) := by
  refine Program.Respects.bind (Q := fun _ => True) ?_ ?_
  · unfold mergeExecutionGraphs
    split
    · trivial
    · trivial
    · exact respects_asking trivial fun _ => trivial
  · intro executionGraph _
    refine ⟨rfl, rfl, rfl, rfl, rfl, ?_, rfl, rfl, rfl, rfl, rfl, rfl, rfl, rfl, rfl, rfl, rfl, rfl⟩
    exact plan_of_planRef rfl

/-- Every strategy but the one that takes the last branch merges deeply. -/
theorem deepMerged_mergePair {strategy : MergeStrategy} (hstrategy : strategy ≠ .lastWins)
    (left right : AgentState) :
    Program.Returns (S := runtimeSig) (DeepMerged left right) (mergePair strategy left right) := by
  cases strategy with
  | lastWins => exact absurd rfl hstrategy
  | deepMerge => exact deepMerged_deepMerge left right
  | mergeLists =>
      refine (deepMerged_deepMerge left right).bind fun merged h => ?_
      exact { h with messages := rfl, executionTrace := rfl, graphTrace := rfl }
  | failOnConflict =>
      unfold mergePair
      dsimp only
      split
      · exact deepMerged_deepMerge left right
      · trivial

/-- A field that each deep merge combines in the same way is folded over the branches. -/
theorem field_mergeStates {α : Type} {field : AgentState → α} {step : α → α → α}
    (hstep : ∀ left right merged, DeepMerged left right merged →
      field merged = step (field left) (field right))
    {strategy : MergeStrategy} (hstrategy : strategy ≠ .lastWins) {base : AgentState}
    {branches : List AgentState} :
    Program.Returns (S := runtimeSig)
      (fun merged => field merged = (branches.map field).foldl step (field base))
      (mergeStates strategy base branches) := by
  induction branches generalizing base with
  | nil => rfl
  | cons branch rest ih =>
      refine (deepMerged_mergePair hstrategy base branch).bind fun merged hmerged => ?_
      refine ih.mono (fun _ h => h) fun last hlast => ?_
      rw [hlast, hstep _ _ _ hmerged, List.map_cons, List.foldl_cons]

/-! ## The fields -/

/-- A field or an entry of a dictionary that a merge treats as one value. -/
inductive MergeField
  | observation (key : String)
  | memory (key : String)
  | plan
  | currentStep
  | finalResult
  | executionCritique
  | shouldStop
  | query
  | replanAttempts
  | stateVersionId
  | sessionId
  | branchId
  | parentGraphId
  | nestedGraphId
  | executionSeed
deriving DecidableEq

namespace MergeField

/-- What the field holds; an entry that is missing holds `none`. -/
@[reducible] def Value : MergeField → Type
  | .observation _ | .memory _ => Option TripGraph.Value
  | .plan => Option Plan
  | .currentStep | .executionSeed => Option Int
  | .finalResult | .stateVersionId | .parentGraphId | .nestedGraphId => Option String
  | .executionCritique => Option ExecutionCritique
  | .shouldStop => Bool
  | .query | .sessionId | .branchId => String
  | .replanAttempts => Nat

def get : (field : MergeField) → AgentState → field.Value
  | .observation key, state => state.observations.get? key
  | .memory key, state => state.memory.get? key
  | .plan, state => state.plan
  | .currentStep, state => state.currentStep
  | .finalResult, state => state.finalResult
  | .executionCritique, state => state.executionCritique
  | .shouldStop, state => state.shouldStop
  | .query, state => state.query
  | .replanAttempts, state => state.replanAttempts
  | .stateVersionId, state => state.stateVersionId
  | .sessionId, state => state.sessionId
  | .branchId, state => state.branchId
  | .parentGraphId, state => state.parentGraphId
  | .nestedGraphId, state => state.nestedGraphId
  | .executionSeed, state => state.executionSeed

/-- The right value where there is one. -/
def override {α : Type} (left right : Option α) : Option α := right.orElse fun _ => left

/-- How a deep merge combines the field of the left and of the right state. -/
def step : (field : MergeField) → field.Value → field.Value → field.Value
  | .observation _, left, right => override left right
  | .memory _, left, right => override left right
  | .plan, left, right => override left right
  | .currentStep, left, right => override left right
  | .finalResult, left, right => override left right
  | .executionCritique, left, right => override left right
  | .shouldStop, left, right => left || right
  | .replanAttempts, left, right => max left right
  | .stateVersionId, left, right => if truthy right then right else left
  | .query, left, _ => left
  | .sessionId, left, _ => left
  | .branchId, left, _ => left
  | .parentGraphId, left, _ => left
  | .nestedGraphId, left, _ => left
  | .executionSeed, left, _ => left

theorem get_deepMerged (field : MergeField) {left right merged : AgentState}
    (h : DeepMerged left right merged) :
    field.get merged = field.step (field.get left) (field.get right) := by
  cases field with
  | observation key =>
      simp only [get, step, override, h.observations]
      exact Dict.get?_update _ _ key
  | memory key =>
      simp only [get, step, override, h.memory]
      exact Dict.get?_update _ _ key
  | plan => exact h.plan
  | currentStep => exact h.currentStep
  | finalResult => exact h.finalResult
  | executionCritique => exact h.executionCritique
  | shouldStop => exact h.shouldStop
  | query => exact h.query
  | replanAttempts => exact h.replanAttempts
  | stateVersionId => exact h.stateVersionId
  | sessionId => exact h.sessionId
  | branchId => exact h.branchId
  | parentGraphId => exact h.parentGraphId
  | nestedGraphId => exact h.nestedGraphId
  | executionSeed => exact h.executionSeed

theorem step_self (field : MergeField) (value : field.Value) : field.step value value = value := by
  cases field <;> simp only [step, override, Bool.or_self, max_self, ite_self]
  all_goals cases value <;> rfl

/-- A second copy of the base changes nothing more. -/
theorem step_absorb (field : MergeField) (value base : field.Value) :
    field.step (field.step value base) base = field.step value base := by
  cases field with
  | shouldStop => simp [step]
  | replanAttempts => simp [step]
  | stateVersionId => simp only [step]; split <;> rfl
  | query => rfl
  | sessionId => rfl
  | branchId => rfl
  | parentGraphId => rfl
  | nestedGraphId => rfl
  | executionSeed => rfl
  | _ => cases base <;> rfl

/-- When a value that one branch alone has set is what the merge ends with. -/
def Survives : (field : MergeField) → (base value : field.Value) → (last : Prop) → Prop
  | .observation _, base, value, last => value.isSome ∧ (last ∨ base = none)
  | .memory _, base, value, last => value.isSome ∧ (last ∨ base = none)
  | .plan, base, value, last => value.isSome ∧ (last ∨ base = none)
  | .currentStep, base, value, last => value.isSome ∧ (last ∨ base = none)
  | .finalResult, base, value, last => value.isSome ∧ (last ∨ base = none)
  | .executionCritique, base, value, last => value.isSome ∧ (last ∨ base = none)
  | .stateVersionId, base, value, last => truthy value ∧ (last ∨ ¬truthy base)
  | .shouldStop, base, _, _ => base = false
  | .replanAttempts, base, value, _ => base ≤ value
  | .query, _, _, _ | .sessionId, _, _, _ | .branchId, _, _, _ | .parentGraphId, _, _, _
  | .nestedGraphId, _, _, _ | .executionSeed, _, _, _ => False

theorem override_survives_iff {α : Type} {base value : Option α} {last : Prop} [Decidable last]
    (hchanged : value ≠ base) :
    (if last then override base value else override (override base value) base) = value ↔
      value.isSome ∧ (last ∨ base = none) := by
  by_cases hlast : last
  · cases value with
    | none => simpa [hlast, override] using Ne.symm hchanged
    | some own => simp [hlast, override]
  · cases base with
    | none => cases value <;> simp [hlast, override] at hchanged ⊢
    | some own => simpa [hlast, override] using Ne.symm hchanged

theorem step_survives_iff (field : MergeField) {base value : field.Value} {last : Prop}
    [Decidable last] (hchanged : value ≠ base) :
    (if last then field.step base value else field.step (field.step base value) base) = value ↔
      field.Survives base value last := by
  cases field with
  | shouldStop => cases base <;> cases value <;> simp [step, Survives] at hchanged ⊢
  | replanAttempts => simp [step, Survives]
  | stateVersionId =>
      simp only [step, Survives]
      by_cases hlast : last <;> by_cases hvalue : truthy value = true <;>
        by_cases hbase : truthy base = true <;> simp [hlast, hvalue, hbase, Ne.symm hchanged]
  | query => simpa [step, Survives] using Ne.symm hchanged
  | sessionId => simpa [step, Survives] using Ne.symm hchanged
  | branchId => simpa [step, Survives] using Ne.symm hchanged
  | parentGraphId => simpa [step, Survives] using Ne.symm hchanged
  | nestedGraphId => simpa [step, Survives] using Ne.symm hchanged
  | executionSeed => simpa [step, Survives] using Ne.symm hchanged
  | _ => exact override_survives_iff hchanged

end MergeField

/-! ## Changes of one branch -/

/-- A deep merge is a three-way merge exactly if every change that one branch alone has made
survives the branches behind it. -/
theorem threeWay_iff {base merged : AgentState} {branches : List AgentState} {trace : List Event}
    (h : Runs (mergeStates .deepMerge base branches) trace (.ok merged)) :
    (∀ field : MergeField,
      ThreeWay (field.get base) (branches.map field.get) (field.get merged)) ↔
      ∀ (field : MergeField) value after,
        SoleChange (field.get base) (branches.map field.get) value after →
          field.Survives (field.get base) value (after = []) := by
  have hfold : ∀ field : MergeField,
      field.get merged = (branches.map field.get).foldl field.step (field.get base) := fun field =>
    (field_mergeStates (fun _ _ _ hmerged => field.get_deepMerged hmerged)
      (show MergeStrategy.deepMerge ≠ .lastWins by decide)).returns_of_runs h
  apply forall_congr'
  intro field
  rw [hfold, threeWay_foldl_iff (field.step_self _) fun own => field.step_absorb own _]
  refine forall_congr' fun value => forall_congr' fun after => ?_
  constructor
  · intro hkept hchange
    exact (field.step_survives_iff hchange.changed).mp (hkept hchange)
  · intro hsurvives hchange
    exact (field.step_survives_iff hchange.changed).mpr (hsurvives hchange)

/-- A state that observed a budget. -/
def budgetState (budget : Int) : AgentState where
  observations := .ofList [("budget", .int budget)]

theorem threeWay_iff_lastBudget : ∃ merged,
    Runs (mergeStates .deepMerge (budgetState 1) [budgetState 1, budgetState 2]) [] (.ok merged) ∧
    ((∀ field : MergeField, ThreeWay (field.get (budgetState 1))
        ([budgetState 1, budgetState 2].map field.get) (field.get merged)) ↔
      ∀ (field : MergeField) value after,
        SoleChange (field.get (budgetState 1)) ([budgetState 1, budgetState 2].map field.get) value
          after → field.Survives (field.get (budgetState 1)) value (after = [])) :=
  ⟨_, .done _, threeWay_iff (show Runs (mergeStates .deepMerge (budgetState 1)
    [budgetState 1, budgetState 2]) [] (.ok _) from .done _)⟩

/-- The first branch has doubled the budget; the copy in the second branch undoes it. -/
theorem firstBudget_not_threeWay : ∃ merged,
    Runs (mergeStates .deepMerge (budgetState 1) [budgetState 2, budgetState 1]) [] (.ok merged) ∧
    ¬∀ field : MergeField, ThreeWay (field.get (budgetState 1))
      ([budgetState 2, budgetState 1].map field.get) (field.get merged) := by
  refine ⟨_, .done _, ?_⟩
  intro h
  have hkept := (h (.observation "budget")).changed (some (.int 2)) [some (.int 1)]
    ⟨⟨[], rfl, by simp⟩, by decide, by decide⟩
  exact absurd hkept (by decide)

/-! ## Logs -/

/-- What a branch has appended to the logs. -/
structure Suffixes where
  messages : List Value
  executionTrace : List ExecutionTraceEntry
  graphTrace : List GraphTraceEntry

/-- The branch is a copy of the base with these entries appended to its logs. -/
structure Appended (base branch : AgentState) (suffixes : Suffixes) : Prop where
  messages : branch.messages = base.messages ++ suffixes.messages
  executionTrace : branch.executionTrace = base.executionTrace ++ suffixes.executionTrace
  graphTrace : branch.graphTrace = base.graphTrace ++ suffixes.graphTrace

/-- The logs of the base followed by everything the branches have appended. -/
structure Concatenated (base : AgentState) (appended : List Suffixes) (merged : AgentState) :
    Prop where
  messages : merged.messages = base.messages ++ (appended.map Suffixes.messages).flatten
  executionTrace :
    merged.executionTrace = base.executionTrace ++ (appended.map Suffixes.executionTrace).flatten
  graphTrace : merged.graphTrace = base.graphTrace ++ (appended.map Suffixes.graphTrace).flatten

/-- No entry occurs twice in what is to be concatenated. -/
structure Distinct (base : AgentState) (appended : List Suffixes) : Prop where
  messages : (base.messages ++ (appended.map Suffixes.messages).flatten).Nodup
  executionTrace : (base.executionTrace ++ (appended.map Suffixes.executionTrace).flatten).Nodup
  graphTrace : (base.graphTrace ++ (appended.map Suffixes.graphTrace).flatten).Nodup

/-- One log: the merged log is the concatenation exactly if nothing occurs twice in it. -/
theorem log_eq_iff {α : Type} [DecidableEq α] {field : AgentState → List α}
    {own : Suffixes → List α} (hstep : ∀ left right merged, DeepMerged left right merged →
      field merged = dedupeList (field left ++ field right))
    {strategy : MergeStrategy} (hstrategy : strategy ≠ .lastWins) {base merged : AgentState}
    {branches : List AgentState} {appended : List Suffixes}
    (hbranches : branches.map field = appended.map fun suffixes => field base ++ own suffixes)
    {trace : List Event} (h : Runs (mergeStates strategy base branches) trace (.ok merged)) :
    field merged = field base ++ (appended.map own).flatten ↔
      appended = [] ∨ (field base ++ (appended.map own).flatten).Nodup := by
  let step : List α → List α → List α := fun left right => dedupeList (left ++ right)
  have hfold : field merged = (branches.map field).foldl step (field base) :=
    (field_mergeStates hstep hstrategy).returns_of_runs h
  have hcopies : branches.map field = (appended.map own).map (field base ++ ·) := by
    rw [hbranches, List.map_map]
    rfl
  have hempty : appended.map own = [] ↔ appended = [] := List.map_eq_nil_iff
  rw [hfold, hcopies, ← hempty]
  exact foldl_eraseDups_eq_iff

theorem map_of_appended {α : Type} {field : AgentState → List α} {own : Suffixes → List α}
    {base : AgentState} {branches : List AgentState} {appended : List Suffixes}
    (hown : ∀ branch suffixes, Appended base branch suffixes →
      field branch = field base ++ own suffixes)
    (h : List.Forall₂ (Appended base) branches appended) :
    branches.map field = appended.map fun suffixes => field base ++ own suffixes := by
  induction h with
  | nil => rfl
  | cons hbranch _ ih => rw [List.map_cons, List.map_cons, hown _ _ hbranch, ih]

/-- The merged logs are the concatenation of what there was and what was appended exactly if
no entry occurs twice in it, or if there is no branch. -/
theorem concatenated_iff {strategy : MergeStrategy} (hstrategy : strategy ≠ .lastWins)
    {base merged : AgentState} {branches : List AgentState} {appended : List Suffixes}
    (hbranches : List.Forall₂ (Appended base) branches appended) {trace : List Event}
    (h : Runs (mergeStates strategy base branches) trace (.ok merged)) :
    Concatenated base appended merged ↔ appended = [] ∨ Distinct base appended := by
  have hmessages := log_eq_iff (fun _ _ _ hmerged => hmerged.messages) hstrategy
    (map_of_appended (fun _ _ hown => hown.messages) hbranches) h
  have hexecution := log_eq_iff (fun _ _ _ hmerged => hmerged.executionTrace) hstrategy
    (map_of_appended (fun _ _ hown => hown.executionTrace) hbranches) h
  have hgraph := log_eq_iff (fun _ _ _ hmerged => hmerged.graphTrace) hstrategy
    (map_of_appended (fun _ _ hown => hown.graphTrace) hbranches) h
  constructor
  · intro hmerged
    by_cases hempty : appended = []
    · exact Or.inl hempty
    · exact Or.inr ⟨(hmessages.mp hmerged.messages).resolve_left hempty,
        (hexecution.mp hmerged.executionTrace).resolve_left hempty,
        (hgraph.mp hmerged.graphTrace).resolve_left hempty⟩
  · rintro (hempty | hdistinct)
    · exact ⟨hmessages.mpr (Or.inl hempty), hexecution.mpr (Or.inl hempty),
        hgraph.mpr (Or.inl hempty)⟩
    · exact ⟨hmessages.mpr (Or.inr hdistinct.messages),
        hexecution.mpr (Or.inr hdistinct.executionTrace), hgraph.mpr (Or.inr hdistinct.graphTrace)⟩

/-- A state with these messages. -/
def chatState (messages : List String) : AgentState where
  messages := messages.map .str

theorem concatenated_iff_twoReplies : ∃ merged,
    Runs (mergeStates .mergeLists (chatState ["hello"])
      [chatState ["hello", "rain"], chatState ["hello", "sun"]]) [] (.ok merged) ∧
    (Concatenated (chatState ["hello"]) [⟨[.str "rain"], [], []⟩, ⟨[.str "sun"], [], []⟩] merged ↔
      [(⟨[.str "rain"], [], []⟩ : Suffixes), ⟨[.str "sun"], [], []⟩] = [] ∨
        Distinct (chatState ["hello"]) [⟨[.str "rain"], [], []⟩, ⟨[.str "sun"], [], []⟩]) := by
  refine ⟨_, .done _, concatenated_iff (by decide) ?_ (show Runs (mergeStates .mergeLists
    (chatState ["hello"]) [chatState ["hello", "rain"], chatState ["hello", "sun"]]) [] (.ok _)
    from .done _)⟩
  exact .cons ⟨rfl, rfl, rfl⟩ (.cons ⟨rfl, rfl, rfl⟩ .nil)

/-- Two branches append the same reply; the merged messages have it once. -/
theorem sameReplies_not_concatenated : ∃ merged,
    Runs (mergeStates .deepMerge (chatState ["hello"])
      [chatState ["hello", "rain"], chatState ["hello", "rain"]]) [] (.ok merged) ∧
    ¬Concatenated (chatState ["hello"]) [⟨[.str "rain"], [], []⟩, ⟨[.str "rain"], [], []⟩]
      merged := by
  refine ⟨_, .done _, ?_⟩
  intro h
  exact absurd h.messages (by decide)

end TripGraph
