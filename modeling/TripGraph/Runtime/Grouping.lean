import TripGraph.Foundation.Unions
import TripGraph.Runtime.Merging
import TripGraph.Runtime.Records

/-! # Fan-ins in groups

It makes no difference how the branches of a fan-in are grouped: merging them among themselves
and the outcome into the base is merging them into the base one after the other, and merging
them all a second time adds nothing. States are compared with the content of their execution
graphs, since every merge of two graphs makes a new one.
-/

namespace TripGraph

open Interaction

/-! ## Execution graphs -/

/-- What identifies a node record in a merge. -/
def NodeExecutionRecord.mergeKey (record : NodeExecutionRecord) : String × Nat :=
  (record.nodeId, record.sequence)

/-- What identifies an edge record in a merge. -/
def GraphEdgeRecord.mergeKey (edge : GraphEdgeRecord) : String × String × Nat :=
  (edge.source, edge.target, edge.sequence)

namespace ExecutionGraphModel

theorem unseenNodes_eq (own records : List NodeExecutionRecord) :
    unseenNodes own records = uniteBy NodeExecutionRecord.mergeKey own records := by
  induction records generalizing own with
  | nil => rfl
  | cons record rest ih =>
      have hmem : (own.any fun other => decide
          (other.nodeId = record.nodeId ∧ other.sequence = record.sequence)) = true ↔
          record.mergeKey ∈ own.map NodeExecutionRecord.mergeKey := by
        simp [NodeExecutionRecord.mergeKey]
      rw [unseenNodes, uniteBy_cons, addBy]
      simp only [hmem, ih]
      split <;> rfl

theorem merge_eq (left right : ExecutionGraphModel) : left.merge right =
    { left with
      nodeRecords := sortBy NodeExecutionRecord.sequence
        (uniteBy NodeExecutionRecord.mergeKey left.nodeRecords right.nodeRecords)
      edgeRecords := sortBy GraphEdgeRecord.sequence
        (extendBy GraphEdgeRecord.mergeKey left.edgeRecords right.edgeRecords) } := by
  have hedges : (right.edgeRecords.filter fun edge => !left.edgeRecords.any fun other => decide
      (other.source = edge.source ∧ other.target = edge.target ∧ other.sequence = edge.sequence)) =
      right.edgeRecords.filter fun edge =>
        edge.mergeKey ∉ left.edgeRecords.map GraphEdgeRecord.mergeKey := by
    apply List.filter_congr
    intro edge _
    rw [Bool.eq_iff_iff]
    simp [GraphEdgeRecord.mergeKey]
  simp only [merge, hedges, unseenNodes_eq, sortBy, extendBy]
  congr!

theorem rankWise_nodes :
    RankWise NodeExecutionRecord.sequence (uniteBy NodeExecutionRecord.mergeKey) :=
  rankWise_uniteBy fun _ _ h => (Prod.mk.inj h).2

theorem rankWise_edges :
    RankWise GraphEdgeRecord.sequence (extendBy GraphEdgeRecord.mergeKey) :=
  rankWise_extendBy fun _ _ h => (Prod.mk.inj (Prod.mk.inj h).2).2

theorem merge_assoc (first second third : ExecutionGraphModel) :
    first.merge (second.merge third) = (first.merge second).merge third := by
  simp only [merge_eq, rankWise_nodes.sorted_assoc uniteBy_assoc,
    rankWise_edges.sorted_assoc extendBy_assoc]

theorem merge_again (own other : ExecutionGraphModel) :
    (own.merge other).merge other = own.merge other := by
  simp only [merge_eq, rankWise_nodes.sorted_again uniteBy_again,
    rankWise_edges.sorted_again extendBy_again]

end ExecutionGraphModel

/-! ## Version stores -/

theorem unseenVersions_eq_uniteBy (own versions : List StateVersion) :
    unseenVersions own versions = uniteBy StateVersion.versionId own versions := by
  induction versions generalizing own with
  | nil => rfl
  | cons version rest ih =>
      have hmem : (own.any fun other => decide (other.versionId = version.versionId)) = true ↔
          version.versionId ∈ own.map StateVersion.versionId := by
        simp
      rw [unseenVersions, uniteBy_cons, addBy]
      simp only [hmem, ih]
      split <;> rfl

/-- The right text if it is set and not empty. -/
def overrideText (left right : Option String) : Option String :=
  if truthy right then right else left

theorem overrideText_assoc (first second third : Option String) :
    overrideText first (overrideText second third) =
      overrideText (overrideText first second) third := by
  unfold overrideText
  by_cases hthird : truthy third
  · simp [hthird]
  · simp [hthird]

theorem overrideText_again (own other : Option String) :
    overrideText (overrideText own other) other = overrideText own other := by
  unfold overrideText
  split <;> rfl

theorem mergeVersionStores_assoc (first second third : Option StateVersionStore) :
    mergeVersionStores first (mergeVersionStores second third) =
      mergeVersionStores (mergeVersionStores first second) third := by
  cases first with
  | none => rfl
  | some first =>
      cases second with
      | none => cases third <;> rfl
      | some second =>
          cases third with
          | none => rfl
          | some third =>
              simp only [mergeVersionStores, unseenVersions_eq_uniteBy, uniteBy_assoc,
                Dict.update_assoc, Option.some.injEq, StateVersionStore.mk.injEq, true_and]
              refine ⟨overrideText_assoc _ _ _, ?_⟩
              by_cases hthird : third.branchId = "" <;> simp [hthird]

theorem mergeVersionStores_again (own other : Option StateVersionStore) :
    mergeVersionStores (mergeVersionStores own other) other = mergeVersionStores own other := by
  cases other with
  | none => cases own <;> rfl
  | some other =>
      cases own with
      | none =>
          simp only [mergeVersionStores, unseenVersions_eq_uniteBy, uniteBy_self, Dict.update_self,
            ite_self]
      | some own =>
          simp only [mergeVersionStores, unseenVersions_eq_uniteBy, uniteBy_again,
            Dict.update_again, Option.some.injEq, StateVersionStore.mk.injEq, true_and]
          refine ⟨overrideText_again _ _, ?_⟩
          split <;> simp

/-! ## States -/

theorem override_assoc {α : Type} (first second third : Option α) :
    MergeField.override first (MergeField.override second third) =
      MergeField.override (MergeField.override first second) third := by
  cases third <;> rfl

theorem override_again {α : Type} (own other : Option α) :
    MergeField.override (MergeField.override own other) other = MergeField.override own other := by
  cases other <;> rfl

theorem dedupeList_assoc {α : Type} [DecidableEq α] (first second third : List α) :
    dedupeList (first ++ dedupeList (second ++ third)) =
      dedupeList (dedupeList (first ++ second) ++ third) := by
  simp only [dedupeList, eraseDups_append_eraseDups, eraseDups_eraseDups_append, List.append_assoc]

theorem dedupeList_again {α : Type} [DecidableEq α] (own other : List α) :
    dedupeList (dedupeList (own ++ other) ++ other) = dedupeList (own ++ other) :=
  eraseDups_append_again own other

/-- What a deep merge makes of two states and of this execution graph. -/
def AgentState.united (left right : AgentState) (executionGraph : Option Ref) : AgentState :=
  { left with
    observations := left.observations.update right.observations
    memory := left.memory.update right.memory
    compiledPlanGraph := MergeField.override left.compiledPlanGraph right.compiledPlanGraph
    messages := dedupeList (left.messages ++ right.messages)
    executionTrace := dedupeList (left.executionTrace ++ right.executionTrace)
    graphTrace := dedupeList (left.graphTrace ++ right.graphTrace)
    replanHistory := dedupeList (left.replanHistory ++ right.replanHistory)
    shortTermMemory := dedupeList (left.shortTermMemory ++ right.shortTermMemory)
    longTermMemory := dedupeList (left.longTermMemory ++ right.longTermMemory)
    episodicMemory := dedupeList (left.episodicMemory ++ right.episodicMemory)
    planRef := (MergeField.override left.plan right.plan).elim .unset .own
    currentStep := MergeField.override left.currentStep right.currentStep
    finalResult := MergeField.override left.finalResult right.finalResult
    executionCritique := MergeField.override left.executionCritique right.executionCritique
    planState := MergeField.override left.planState right.planState
    shouldStop := left.shouldStop || right.shouldStop
    replanAttempts := max left.replanAttempts right.replanAttempts
    executionGraph := executionGraph
    versionStore := mergeVersionStores left.versionStore right.versionStore
    stateVersionId := overrideText left.stateVersionId right.stateVersionId }

theorem deepMerge_eq (left right : AgentState) : deepMerge left right =
    (left.united right ·) <$> mergeExecutionGraphs left.executionGraph right.executionGraph := rfl

/-- Merging the three logs a second time changes nothing. -/
theorem mergeLists_eq (left right : AgentState) : mergeLists left right = deepMerge left right := by
  rw [mergeLists, deepMerge_eq, bind_map_left]
  rfl

namespace AgentState

@[simp] theorem plan_united (left right : AgentState) (executionGraph : Option Ref) :
    (left.united right executionGraph).plan = MergeField.override left.plan right.plan :=
  plan_of_planRef rfl

theorem united_assoc (first second third : AgentState) (graph graph' graph'' : Option Ref) :
    first.united (second.united third graph) graph'' =
      (first.united second graph').united third graph'' := by
  have hsecond := plan_united second third graph
  have hfirst := plan_united first second graph'
  simp only [united] at hsecond hfirst ⊢
  simp only [hsecond, hfirst, dedupeList_assoc, Dict.update_assoc, override_assoc,
    overrideText_assoc, mergeVersionStores_assoc, Bool.or_assoc, max_assoc]

theorem united_again (own other : AgentState) (graph graph' : Option Ref) :
    (own.united other graph).united other graph' = own.united other graph' := by
  have hown := plan_united own other graph
  simp only [united] at hown ⊢
  simp only [hown, dedupeList_again, Dict.update_again, override_again, overrideText_again,
    mergeVersionStores_again, Bool.or_assoc, Bool.or_self, max_assoc, max_self]

end AgentState

/-! ## Conflicts -/

/-- Not both are set with different values. -/
def Agree {α : Type} (left right : Option α) : Prop :=
  ¬(left.isSome ∧ right.isSome ∧ left ≠ right)

theorem agree_assoc {α : Type} (first second third : Option α) :
    Agree second third ∧ Agree first (MergeField.override second third) ↔
      Agree first second ∧ Agree (MergeField.override first second) third := by
  cases first <;> cases second <;> cases third <;> simp [Agree, MergeField.override]
  grind

theorem agree_again {α : Type} {own other : Option α} :
    Agree (MergeField.override own other) other := by
  cases other <;> simp [Agree, MergeField.override]

theorem detectConflicts_eq_nil_iff_agree (left right : AgentState) :
    detectConflicts left right = [] ↔
    Agree left.plan right.plan ∧ Agree left.currentStep right.currentStep ∧
      Agree left.finalResult right.finalResult ∧
      Agree left.executionCritique right.executionCritique ∧
      left.shouldStop = right.shouldStop ∧ left.query = right.query := by
  have hif : ∀ {p : Prop} [Decidable p] {field : String},
      (if p then [field] else []) = [] ↔ ¬p := by
    intro p _ field
    split <;> simp_all
  simp only [detectConflicts, List.append_eq_nil_iff, hif, not_not, ne_eq, and_assoc]
  rfl

/-- Whether a chain of merges meets a conflict does not depend on the grouping. -/
theorem detectConflicts_assoc (first second third : AgentState) (graph graph' : Option Ref) :
    (detectConflicts second third = [] ∧ detectConflicts first (second.united third graph) = []) ↔
      detectConflicts first second = [] ∧
        detectConflicts (first.united second graph') third = [] := by
  have hplan := agree_assoc first.plan second.plan third.plan
  have hstep := agree_assoc first.currentStep second.currentStep third.currentStep
  have hresult := agree_assoc first.finalResult second.finalResult third.finalResult
  have hcritique :=
    agree_assoc first.executionCritique second.executionCritique third.executionCritique
  have hstop : (second.shouldStop = third.shouldStop ∧
      first.shouldStop = (second.shouldStop || third.shouldStop)) ↔
      first.shouldStop = second.shouldStop ∧
        (first.shouldStop || second.shouldStop) = third.shouldStop := by
    cases first.shouldStop <;> cases second.shouldStop <;> cases third.shouldStop <;> decide
  have hquery : (second.query = third.query ∧ first.query = second.query) ↔
      first.query = second.query ∧ first.query = third.query := by
    constructor
    · rintro ⟨hthird, hsecond⟩
      exact ⟨hsecond, hsecond.trans hthird⟩
    · rintro ⟨hsecond, hthird⟩
      exact ⟨hsecond.symm.trans hthird, hsecond⟩
  simp only [detectConflicts_eq_nil_iff_agree, AgentState.plan_united]
  constructor
  · rintro ⟨⟨hp, hs, hr, hc, hb, hq⟩, hp', hs', hr', hc', hb', hq'⟩
    obtain ⟨hp, hp'⟩ := hplan.mp ⟨hp, hp'⟩
    obtain ⟨hs, hs'⟩ := hstep.mp ⟨hs, hs'⟩
    obtain ⟨hr, hr'⟩ := hresult.mp ⟨hr, hr'⟩
    obtain ⟨hc, hc'⟩ := hcritique.mp ⟨hc, hc'⟩
    obtain ⟨hb, hb'⟩ := hstop.mp ⟨hb, hb'⟩
    obtain ⟨hq, hq'⟩ := hquery.mp ⟨hq, hq'⟩
    exact ⟨⟨hp, hs, hr, hc, hb, hq⟩, hp', hs', hr', hc', hb', hq'⟩
  · rintro ⟨⟨hp, hs, hr, hc, hb, hq⟩, hp', hs', hr', hc', hb', hq'⟩
    obtain ⟨hp, hp'⟩ := hplan.mpr ⟨hp, hp'⟩
    obtain ⟨hs, hs'⟩ := hstep.mpr ⟨hs, hs'⟩
    obtain ⟨hr, hr'⟩ := hresult.mpr ⟨hr, hr'⟩
    obtain ⟨hc, hc'⟩ := hcritique.mpr ⟨hc, hc'⟩
    obtain ⟨hb, hb'⟩ := hstop.mpr ⟨hb, hb'⟩
    obtain ⟨hq, hq'⟩ := hquery.mpr ⟨hq, hq'⟩
    exact ⟨⟨hp, hs, hr, hc, hb, hq⟩, hp', hs', hr', hc', hb', hq'⟩

theorem detectConflicts_again {own other : AgentState} {graph : Option Ref}
    (h : detectConflicts own other = []) : detectConflicts (own.united other graph) other = [] := by
  rw [detectConflicts_eq_nil_iff_agree] at h ⊢
  obtain ⟨-, -, -, -, hstop, hquery⟩ := h
  rw [AgentState.plan_united]
  refine ⟨agree_again, agree_again, agree_again, agree_again, ?_, hquery⟩
  simp [AgentState.united, hstop]

/-! ## Resolved states -/

/-- A state with the content of its execution graph in place of the reference. -/
structure ResolvedState where
  state : AgentState
  graph : Option ExecutionGraphModel

/-- `_merge_execution_graphs`, on the contents. -/
def uniteGraphs : Option ExecutionGraphModel → Option ExecutionGraphModel →
    Option ExecutionGraphModel
  | none, right => right
  | some left, none => some left
  | some left, some right => some (left.merge right)

theorem uniteGraphs_assoc (first second third : Option ExecutionGraphModel) :
    uniteGraphs first (uniteGraphs second third) =
      uniteGraphs (uniteGraphs first second) third := by
  cases first <;> cases second <;> cases third <;>
    simp [uniteGraphs, ExecutionGraphModel.merge_assoc]

theorem uniteGraphs_again (own : ExecutionGraphModel) (other : Option ExecutionGraphModel) :
    uniteGraphs (uniteGraphs (some own) other) other = uniteGraphs (some own) other := by
  cases other <;> simp [uniteGraphs, ExecutionGraphModel.merge_again]

namespace ResolvedState

def unite (left right : ResolvedState) : ResolvedState :=
  ⟨left.state.united right.state none, uniteGraphs left.graph right.graph⟩

/-- `_merge_pair`, on resolved states; `none` where it raises. -/
def merge (strategy : MergeStrategy) (left right : ResolvedState) : Option ResolvedState :=
  match strategy with
  | .lastWins => some right
  | .failOnConflict =>
      if detectConflicts left.state right.state = [] then some (left.unite right) else none
  | .mergeLists | .deepMerge => some (left.unite right)

/-- `merge_states`, on resolved states. -/
def mergeAll (strategy : MergeStrategy) : ResolvedState → List ResolvedState → Option ResolvedState
  | base, [] => some base
  | base, branch :: rest => do
      let merged ← base.merge strategy branch
      mergeAll strategy merged rest

variable {strategy : MergeStrategy}

theorem unite_assoc (first second third : ResolvedState) :
    first.unite (second.unite third) = (first.unite second).unite third := by
  simp only [unite, uniteGraphs_assoc, ResolvedState.mk.injEq, and_true]
  exact AgentState.united_assoc _ _ _ _ _ _

theorem merge_assoc (first second third : ResolvedState) :
    (second.merge strategy third >>= fun later => first.merge strategy later) =
      (first.merge strategy second >>= fun earlier => earlier.merge strategy third) := by
  cases strategy with
  | lastWins => rfl
  | mergeLists => exact congrArg some (unite_assoc _ _ _)
  | deepMerge => exact congrArg some (unite_assoc _ _ _)
  | failOnConflict =>
      have hconflicts := detectConflicts_assoc first.state second.state third.state none none
      have hunite := unite_assoc first second third
      by_cases hthird : detectConflicts second.state third.state = [] <;>
        by_cases hsecond : detectConflicts first.state second.state = [] <;>
          simp_all [merge, unite]

theorem mergeAll_cons (base first : ResolvedState) (rest : List ResolvedState) :
    mergeAll strategy base (first :: rest) =
      (mergeAll strategy first rest >>= fun united => base.merge strategy united) := by
  induction rest generalizing base first with
  | nil =>
      exact bind_pure (base.merge strategy first)
  | cons second rest ih =>
      have hright : (mergeAll strategy first (second :: rest) >>= fun united =>
          base.merge strategy united) = (mergeAll strategy second rest >>= fun later =>
            base.merge strategy first >>= fun earlier => earlier.merge strategy later) := by
        rw [ih, bind_assoc]
        simp only [merge_assoc]
      rw [hright]
      change (base.merge strategy first >>=
        fun merged => mergeAll strategy merged (second :: rest)) = _
      simp only [ih]
      cases base.merge strategy first <;> cases mergeAll strategy second rest <;> rfl

/-- Merged branches are absorbed when they come again. -/
theorem merge_again {own other merged : ResolvedState} (hgraph : own.graph.isSome)
    (h : own.merge strategy other = some merged) : merged.merge strategy other = some merged := by
  have hunite : (own.unite other).unite other = own.unite other := by
    obtain ⟨graph, hown⟩ := Option.isSome_iff_exists.mp hgraph
    simp only [unite, hown, uniteGraphs_again, ResolvedState.mk.injEq, and_true]
    exact AgentState.united_again _ _ _ _
  cases strategy with
  | lastWins => exact h
  | mergeLists =>
      obtain rfl := Option.some.inj h
      exact congrArg some hunite
  | deepMerge =>
      obtain rfl := Option.some.inj h
      exact congrArg some hunite
  | failOnConflict =>
      simp only [merge] at h ⊢
      split at h
      next hnone =>
        obtain rfl := Option.some.inj h
        rw [hunite]
        exact if_pos (detectConflicts_again hnone)
      next => cases h

theorem mergeAll_again {base merged : ResolvedState} {branches : List ResolvedState}
    (hgraph : base.graph.isSome) (h : mergeAll strategy base branches = some merged) :
    mergeAll strategy merged branches = some merged := by
  cases branches with
  | nil => rfl
  | cons first rest =>
      rw [mergeAll_cons] at h ⊢
      obtain ⟨united, hunited, hmerged⟩ := Option.bind_eq_some_iff.mp h
      exact Option.bind_eq_some_iff.mpr ⟨united, hunited, merge_again hgraph hmerged⟩

end ResolvedState

/-! ## Merges over shared objects -/

namespace AgentState

/-- The execution graph of the state is among the shared objects. -/
def Held (objects : SharedObjects) (state : AgentState) : Prop :=
  ∀ ref ∈ state.executionGraph, ref < objects.graphs.length

def resolve (objects : SharedObjects) (state : AgentState) : ResolvedState :=
  ⟨{ state with executionGraph := none }, state.executionGraph.map objects.graph⟩

end AgentState

/-- With these shared objects the branches are merged into this state, which leaves these. -/
def Merges (strategy : MergeStrategy) (objects : SharedObjects) (base : AgentState)
    (branches : List AgentState) (merged : AgentState) (next : SharedObjects) : Prop :=
  ∃ trace, Runs (mergeStates strategy base branches) trace (.ok merged) ∧
    Follows SharedObjects.Step objects trace next

/-- The shared objects hold the graphs they held, and maybe further ones. -/
def SharedObjects.Keeps (objects next : SharedObjects) : Prop :=
  objects.graphs.length ≤ next.graphs.length ∧
    ∀ ref < objects.graphs.length, next.graph ref = objects.graph ref

namespace SharedObjects.Keeps

variable {objects middle next : SharedObjects} {state : AgentState}

theorem refl (objects : SharedObjects) : objects.Keeps objects := ⟨le_rfl, fun _ _ => rfl⟩

theorem trans (h : objects.Keeps middle) (h' : middle.Keeps next) : objects.Keeps next := by
  refine ⟨h.1.trans h'.1, fun ref href => ?_⟩
  rw [h'.2 ref (href.trans_le h.1), h.2 ref href]

theorem held (h : objects.Keeps next) (hheld : state.Held objects) : state.Held next :=
  fun ref href => (hheld ref href).trans_le h.1

theorem resolve (h : objects.Keeps next) (hheld : state.Held objects) :
    state.resolve next = state.resolve objects := by
  have hmap : state.executionGraph.map next.graph = state.executionGraph.map objects.graph := by
    apply Option.map_congr
    intro ref href
    exact h.2 ref (hheld ref href)
  simp only [AgentState.resolve, hmap]

end SharedObjects.Keeps

section Merging

variable {strategy : MergeStrategy} {objects next : SharedObjects} {left right merged : AgentState}
  {trace : List Event}

/-- A merge of two graphs is a new graph; nothing else is asked. -/
theorem mergeExecutionGraphs_spec {ref : Option Ref} (hleft : left.Held objects)
    (hright : right.Held objects)
    (hrun : Runs (mergeExecutionGraphs left.executionGraph right.executionGraph) trace (.ok ref))
    (hfollows : Follows SharedObjects.Step objects trace next) :
    objects.Keeps next ∧ (∀ own ∈ ref, own < next.graphs.length) ∧ ref.map next.graph =
      uniteGraphs (left.executionGraph.map objects.graph)
        (right.executionGraph.map objects.graph) := by
  unfold AgentState.Held at hleft hright
  cases hl : left.executionGraph with
  | none =>
      rw [hl] at hrun
      obtain ⟨rfl, href⟩ := runs_pure_iff.mp hrun
      obtain rfl := Except.ok.inj href
      obtain rfl := Follows.nil_iff.mp hfollows
      exact ⟨.refl _, hright, rfl⟩
  | some own =>
      cases hr : right.executionGraph with
      | none =>
          rw [hl, hr] at hrun
          obtain ⟨rfl, href⟩ := runs_pure_iff.mp hrun
          obtain rfl := Except.ok.inj href
          obtain rfl := Follows.nil_iff.mp hfollows
          exact ⟨.refl _, hl ▸ hleft, rfl⟩
      | some other =>
          rw [hl, hr] at hrun
          obtain ⟨reply, rest, rfl, hrest⟩ := runs_asking_iff.mp hrun
          obtain ⟨rfl, href⟩ := runs_pure_iff.mp hrest
          obtain rfl := Except.ok.inj href
          obtain ⟨last, hstep, hlast⟩ := Follows.cons_iff.mp hfollows
          obtain rfl := Follows.nil_iff.mp hlast
          obtain ⟨hreply, rfl⟩ := hstep
          dsimp only at hreply
          subst hreply
          refine ⟨⟨?_, fun ref href => SharedObjects.graph_allocate _ href⟩, ?_, ?_⟩
          · simp [SharedObjects.allocate]
          · simp [SharedObjects.allocate]
          · exact congrArg some (SharedObjects.graph_allocated _)

theorem deepMerge_spec (hleft : left.Held objects) (hright : right.Held objects)
    (hrun : Runs (deepMerge left right) trace (.ok merged))
    (hfollows : Follows SharedObjects.Step objects trace next) :
    objects.Keeps next ∧ merged.Held next ∧
      (left.resolve objects).unite (right.resolve objects) = merged.resolve next := by
  rw [deepMerge_eq] at hrun
  obtain ⟨ref, first, second, hfirst, hsecond, rfl⟩ := runs_bind_ok_iff.mp hrun
  obtain ⟨rfl, hmerged⟩ := runs_pure_iff.mp hsecond
  obtain rfl := Except.ok.inj hmerged
  rw [List.append_nil] at hfollows
  obtain ⟨hkeeps, hheld, hgraph⟩ := mergeExecutionGraphs_spec hleft hright hfirst hfollows
  refine ⟨hkeeps, hheld, ?_⟩
  exact congrArg _ hgraph.symm

theorem mergePair_spec (hleft : left.Held objects) (hright : right.Held objects)
    (hrun : Runs (mergePair strategy left right) trace (.ok merged))
    (hfollows : Follows SharedObjects.Step objects trace next) :
    objects.Keeps next ∧ merged.Held next ∧
      (left.resolve objects).merge strategy (right.resolve objects) =
        some (merged.resolve next) := by
  cases strategy with
  | lastWins =>
      obtain ⟨rfl, hmerged⟩ := runs_pure_iff.mp hrun
      obtain rfl := Except.ok.inj hmerged
      obtain rfl := Follows.nil_iff.mp hfollows
      exact ⟨.refl _, hright, rfl⟩
  | mergeLists =>
      rw [mergePair, mergeLists_eq] at hrun
      obtain ⟨hkeeps, hheld, hresolve⟩ := deepMerge_spec hleft hright hrun hfollows
      exact ⟨hkeeps, hheld, congrArg some hresolve⟩
  | deepMerge =>
      obtain ⟨hkeeps, hheld, hresolve⟩ := deepMerge_spec hleft hright hrun hfollows
      exact ⟨hkeeps, hheld, congrArg some hresolve⟩
  | failOnConflict =>
      unfold mergePair at hrun
      dsimp only at hrun
      split at hrun
      next hnone =>
        obtain ⟨hkeeps, hheld, hresolve⟩ := deepMerge_spec hleft hright hrun hfollows
        refine ⟨hkeeps, hheld, ?_⟩
        rw [← hresolve]
        exact if_pos hnone
      next => cases (runs_fail_iff.mp hrun).2

theorem exists_mergeExecutionGraphs (left right : Option Ref) (objects : SharedObjects) :
    ∃ ref trace next, Runs (mergeExecutionGraphs left right) trace (.ok ref) ∧
      Follows SharedObjects.Step objects trace next := by
  cases left with
  | none => exact ⟨right, [], objects, .done _, .nil _⟩
  | some own =>
      cases right with
      | none => exact ⟨some own, [], objects, .done _, .nil _⟩
      | some other =>
          let answered := objects.allocate ((objects.graph own).merge (objects.graph other))
          exact ⟨some answered.1, [⟨.mergeGraphs own other, answered.1⟩], answered.2,
            runs_asking_iff.mpr ⟨_, [], rfl, .done _⟩, .cons ⟨rfl, rfl⟩ (.nil _)⟩

theorem exists_deepMerge (left right : AgentState) (objects : SharedObjects) :
    ∃ merged trace next, Runs (deepMerge left right) trace (.ok merged) ∧
      Follows SharedObjects.Step objects trace next := by
  obtain ⟨ref, trace, next, hrun, hfollows⟩ :=
    exists_mergeExecutionGraphs left.executionGraph right.executionGraph objects
  refine ⟨left.united right ref, trace, next, ?_, hfollows⟩
  rw [deepMerge_eq, ← List.append_nil trace]
  exact hrun.bind (.done _)

theorem exists_mergePair
    (h : ((left.resolve objects).merge strategy (right.resolve objects)).isSome) :
    ∃ merged trace next, Runs (mergePair strategy left right) trace (.ok merged) ∧
      Follows SharedObjects.Step objects trace next := by
  cases strategy with
  | lastWins => exact ⟨right, [], objects, .done _, .nil _⟩
  | mergeLists =>
      rw [mergePair, mergeLists_eq]
      exact exists_deepMerge left right objects
  | deepMerge => exact exists_deepMerge left right objects
  | failOnConflict =>
      unfold mergePair
      dsimp only
      rw [if_pos]
      · exact exists_deepMerge left right objects
      · by_contra hconflicts
        have hnone : (left.resolve objects).merge .failOnConflict (right.resolve objects) = none :=
          if_neg hconflicts
        rw [hnone] at h
        cases h

end Merging

/-- What merged states come to is what their resolved states come to. -/
theorem Merges.resolve {strategy : MergeStrategy} {objects next : SharedObjects}
    {base merged : AgentState} {branches : List AgentState} (hbase : base.Held objects)
    (hbranches : ∀ branch ∈ branches, branch.Held objects)
    (h : Merges strategy objects base branches merged next) :
    objects.Keeps next ∧ merged.Held next ∧
      (base.resolve objects).mergeAll strategy (branches.map (AgentState.resolve objects)) =
        some (merged.resolve next) := by
  obtain ⟨trace, hrun, hfollows⟩ := h
  induction branches generalizing base objects trace with
  | nil =>
      obtain ⟨rfl, hmerged⟩ := runs_pure_iff.mp hrun
      obtain rfl := Except.ok.inj hmerged
      obtain rfl := Follows.nil_iff.mp hfollows
      exact ⟨.refl _, hbase, rfl⟩
  | cons branch rest ih =>
      obtain ⟨hbranch, hrest⟩ := List.forall_mem_cons.mp hbranches
      obtain ⟨first, before, after, hfirst, hlast, rfl⟩ := runs_bind_ok_iff.mp hrun
      obtain ⟨middle, hbefore, hafter⟩ := Follows.append_iff.mp hfollows
      obtain ⟨hkeeps, hheld, hmerge⟩ := mergePair_spec hbase hbranch hfirst hbefore
      have hlater : ∀ own ∈ rest, own.Held middle := fun own hown => hkeeps.held (hrest own hown)
      obtain ⟨hkeeps', hheld', hmerge'⟩ := ih hheld hlater after hlast hafter
      have hsame : rest.map (AgentState.resolve middle) =
          rest.map (AgentState.resolve objects) := by
        apply List.map_congr_left
        intro own hown
        exact hkeeps.resolve (hrest own hown)
      rw [hsame] at hmerge'
      refine ⟨hkeeps.trans hkeeps', hheld', ?_⟩
      rw [List.map_cons, ResolvedState.mergeAll, hmerge]
      exact hmerge'

theorem exists_merges {strategy : MergeStrategy} {objects : SharedObjects} {base : AgentState}
    {branches : List AgentState} (hbase : base.Held objects)
    (hbranches : ∀ branch ∈ branches, branch.Held objects)
    (h : ((base.resolve objects).mergeAll strategy
      (branches.map (AgentState.resolve objects))).isSome) :
    ∃ merged next, Merges strategy objects base branches merged next := by
  induction branches generalizing base objects with
  | nil => exact ⟨base, objects, [], .done _, .nil _⟩
  | cons branch rest ih =>
      obtain ⟨hbranch, hrest⟩ := List.forall_mem_cons.mp hbranches
      obtain ⟨result, hresult⟩ := Option.isSome_iff_exists.mp h
      obtain ⟨resolved, hresolved, hlast⟩ := Option.bind_eq_some_iff.mp hresult
      obtain ⟨first, before, middle, hfirst, hbefore⟩ :=
        exists_mergePair (Option.isSome_iff_exists.mpr ⟨resolved, hresolved⟩)
      obtain ⟨hkeeps, hheld, hmerge⟩ := mergePair_spec hbase hbranch hfirst hbefore
      have hsame : rest.map (AgentState.resolve middle) =
          rest.map (AgentState.resolve objects) := by
        apply List.map_congr_left
        intro own hown
        exact hkeeps.resolve (hrest own hown)
      obtain rfl : resolved = first.resolve middle := Option.some.inj (hresolved.symm.trans hmerge)
      obtain ⟨merged, next, after, hrun, hafter⟩ :=
        ih hheld (fun own hown => hkeeps.held (hrest own hown)) (by rw [hsame, hlast]; rfl)
      exact ⟨merged, next, before ++ after, hfirst.bind hrun,
        Follows.append_iff.mpr ⟨_, hbefore, hafter⟩⟩

/-- Merging the branches among themselves, and what they come to into the base, raises exactly
if merging them into the base one after the other does, and comes to the same state with the
same execution graph. -/
theorem merges_grouped {strategy : MergeStrategy} {objects : SharedObjects}
    {base first : AgentState} {rest : List AgentState}
    (hheld : ∀ state ∈ base :: first :: rest, state.Held objects) :
    ((∃ merged next, Merges strategy objects base (first :: rest) merged next) ↔
      ∃ united middle merged next, Merges strategy objects first rest united middle ∧
        Merges strategy middle base [united] merged next) ∧
    ∀ merged next united middle merged' next',
      Merges strategy objects base (first :: rest) merged next →
      Merges strategy objects first rest united middle →
      Merges strategy middle base [united] merged' next' →
      merged'.resolve next' = merged.resolve next := by
  obtain ⟨hbase, hbranches⟩ := List.forall_mem_cons.mp hheld
  obtain ⟨hfirst, hrest⟩ := List.forall_mem_cons.mp hbranches
  have hcons := @ResolvedState.mergeAll_cons strategy (base.resolve objects) (first.resolve objects)
    (rest.map (AgentState.resolve objects))
  -- what a grouped merge comes to, in terms of the resolved states
  have hgroup : ∀ {united middle}, Merges strategy objects first rest united middle →
      base.Held middle ∧ (∀ own ∈ [united], own.Held middle) ∧
        (base.resolve middle).mergeAll strategy ([united].map (AgentState.resolve middle)) =
          (base.resolve objects).mergeAll strategy
            ((first :: rest).map (AgentState.resolve objects)) := by
    intro united middle hunited
    obtain ⟨hkeeps, hheld, hresolve⟩ := hunited.resolve hfirst hrest
    refine ⟨hkeeps.held hbase, by simpa using hheld, ?_⟩
    rw [List.map_cons, List.map_cons, hcons, hresolve, hkeeps.resolve hbase]
    exact bind_pure _
  constructor
  · constructor
    · rintro ⟨merged, next, hmerged⟩
      obtain ⟨-, -, hresolve⟩ := hmerged.resolve hbase hbranches
      have hsome := hresolve
      rw [List.map_cons, hcons] at hsome
      obtain ⟨resolved, hunited, -⟩ := Option.bind_eq_some_iff.mp hsome
      obtain ⟨united, middle, hunited⟩ :=
        exists_merges hfirst hrest (Option.isSome_iff_exists.mpr ⟨_, hunited⟩)
      obtain ⟨hbase', hheld', hsame⟩ := hgroup hunited
      obtain ⟨merged', next', hmerged'⟩ :=
        exists_merges hbase' hheld' (by rw [hsame, hresolve]; rfl)
      exact ⟨united, middle, merged', next', hunited, hmerged'⟩
    · rintro ⟨united, middle, merged, next, hunited, hmerged⟩
      obtain ⟨hbase', hheld', hsame⟩ := hgroup hunited
      obtain ⟨-, -, hresolve⟩ := hmerged.resolve hbase' hheld'
      exact exists_merges hbase hbranches (by rw [← hsame, hresolve]; rfl)
  · intro merged next united middle merged' next' hmerged hunited hmerged'
    obtain ⟨hbase', hheld', hsame⟩ := hgroup hunited
    obtain ⟨-, -, hresolve⟩ := hmerged.resolve hbase hbranches
    obtain ⟨-, -, hresolve'⟩ := hmerged'.resolve hbase' hheld'
    rw [hsame, hresolve] at hresolve'
    exact (Option.some.inj hresolve').symm

/-- The shared objects of a fan-out over two tools. -/
def fannedObjects : SharedObjects :=
  { graphs := [⟨"plan_2_steps", "default", none, "normal", [], []⟩] }

def fannedBase : AgentState := { query := "three days in Shanghai", executionGraph := some 0 }

def fannedBranches : List AgentState :=
  [{ fannedBase with observations := .ofList [("weather", .str "sunny")] },
    { fannedBase with observations := .ofList [("budget", .int 3200)] }]

theorem held_fannedBase : ∀ state ∈ fannedBase :: fannedBranches, state.Held fannedObjects := by
  simp [fannedBase, fannedBranches, fannedObjects, AgentState.Held]

theorem exists_merges_fannedBase :
    ∃ merged next, Merges .failOnConflict fannedObjects fannedBase fannedBranches merged next := by
  obtain ⟨hbase, hbranches⟩ := List.forall_mem_cons.mp held_fannedBase
  exact exists_merges hbase hbranches (by decide +kernel)

theorem merges_grouped_fannedBase : ∃ first rest united middle merged next,
    fannedBranches = first :: rest ∧ Merges .failOnConflict fannedObjects first rest united middle ∧
      Merges .failOnConflict middle fannedBase [united] merged next := by
  obtain ⟨united, middle, merged, next, h⟩ :=
    (merges_grouped held_fannedBase).1.mp exists_merges_fannedBase
  exact ⟨_, _, united, middle, merged, next, rfl, h⟩

/-- Merging the same branches once more raises nothing and changes nothing. -/
theorem merges_again {strategy : MergeStrategy} {objects next : SharedObjects}
    {base merged : AgentState} {branches : List AgentState} (hgraph : base.executionGraph.isSome)
    (hheld : ∀ state ∈ base :: branches, state.Held objects)
    (h : Merges strategy objects base branches merged next) :
    (∃ merged' next', Merges strategy next merged branches merged' next') ∧
      ∀ merged' next', Merges strategy next merged branches merged' next' →
        merged'.resolve next' = merged.resolve next := by
  obtain ⟨hbase, hbranches⟩ := List.forall_mem_cons.mp hheld
  obtain ⟨hkeeps, hmerged, hresolve⟩ := h.resolve hbase hbranches
  have hbranches' : ∀ branch ∈ branches, branch.Held next :=
    fun branch hmem => hkeeps.held (hbranches branch hmem)
  have hsame : branches.map (AgentState.resolve next) =
      branches.map (AgentState.resolve objects) := by
    apply List.map_congr_left
    intro branch hmem
    exact hkeeps.resolve (hbranches branch hmem)
  have hagain : (merged.resolve next).mergeAll strategy (branches.map (AgentState.resolve next)) =
      some (merged.resolve next) := by
    rw [hsame]
    exact ResolvedState.mergeAll_again (by simpa [AgentState.resolve] using hgraph) hresolve
  constructor
  · exact exists_merges hmerged hbranches' (by rw [hagain]; rfl)
  · intro merged' next' hmerged'
    obtain ⟨-, -, hresolve'⟩ := hmerged'.resolve hmerged hbranches'
    rw [hagain] at hresolve'
    exact (Option.some.inj hresolve').symm

theorem merges_again_fannedBase : ∃ merged next merged' next',
    Merges .failOnConflict fannedObjects fannedBase fannedBranches merged next ∧
      Merges .failOnConflict next merged fannedBranches merged' next' ∧
      merged'.resolve next' = merged.resolve next := by
  obtain ⟨merged, next, h⟩ := exists_merges_fannedBase
  obtain ⟨⟨merged', next', h'⟩, hsame⟩ := merges_again rfl held_fannedBase h
  exact ⟨merged, next, merged', next', h, h', hsame merged' next' h'⟩

end TripGraph
