import TripGraph.Foundation.Lineage
import TripGraph.Runtime.Merge

/-! # State versions

A version store only grows: commits put a version behind the others, rollbacks and forks move
the current version, and a fan-in unites the stores of its branches. Version ids come from a
supply that never repeats one.
-/

namespace TripGraph

open Interaction

/-! ## The operations -/

namespace StateVersionStore

/-- A version named by an id; the empty id names none. -/
def link (store : StateVersionStore) (versionId : String) : Option StateVersion :=
  if versionId = "" then none else store.getVersion versionId

/-- `lineage`, for at most so many steps of its loop. -/
def lineage (store : StateVersionStore) (fuel : Nat) (versionId : Option String) :
    Option (List StateVersion) :=
  let start := if truthy versionId then versionId else store.currentVersionId
  (climb store.link StateVersion.parentVersionId fuel start).map List.reverse

end StateVersionStore

namespace AgentState

/-- `StateVersionManager.rollback`, with the copy of the execution graph it makes. -/
def rollback (state : AgentState) (versionId : String) (graphCopy : Option Ref) :
    Except RaisedError AgentState :=
  let store := state.versionStore.getD {}
  match store.getVersion versionId with
  | none => .error (.keyError s!"Unknown state version: {versionId}")
  | some version => .ok { state.applySnapshot version.snapshot graphCopy with
      versionStore := some { store with
        currentVersionId := some version.versionId
        branchId := version.branchId }
      stateVersionId := some version.versionId }

/-- `StateVersionManager.fork_branch`. -/
def forkBranch (state : AgentState) (fromVersionId branchName : Option String)
    (graphCopy : Option Ref) : Except RaisedError (AgentState × String) := do
  let store := state.versionStore.getD {}
  let baseId := orText fromVersionId (orText store.currentVersionId "")
  if baseId = "" then .error (.valueError "No version to fork from")
  else
    let restored ← state.rollback baseId graphCopy
    let branchId := orText branchName s!"branch_{store.branches.entries.length}"
    return ({ restored with
      versionStore := restored.versionStore.map fun own => { own with
        branches := own.branches.set branchId baseId
        branchId := branchId }
      branchId := branchId }, branchId)

end AgentState

/-! ## Runs of operations -/

section Reached

variable (digest : Snapshot → String)

/-- One operation on a state, with the version ids used before and after it. Whatever does
not touch the version store is work. -/
inductive VersionStep : List String → AgentState → List String → AgentState → Prop
  | work {used : List String} {before after : AgentState}
      (kept : after.versionStore = before.versionStore) : VersionStep used before used after
  | commit {used : List String} {before : AgentState} {nodeId versionId : String}
      (fresh : versionId ∉ used) (named : versionId ≠ "") :
      VersionStep used before (versionId :: used) (before.commitVersion digest nodeId versionId)
  | rollback {used : List String} {before after : AgentState} {versionId : String}
      {graphCopy : Option Ref} (restored : before.rollback versionId graphCopy = .ok after) :
      VersionStep used before used after
  | fork {used : List String} {before after : AgentState} {fromVersionId branchName : Option String}
      {branchId : String} {graphCopy : Option Ref}
      (forked : before.forkBranch fromVersionId branchName graphCopy = .ok (after, branchId)) :
      VersionStep used before used after

/-- The branches of a fan-out: copies of one base, each going on by itself. -/
inductive BranchSteps (used : List String) (base : AgentState) :
    List String → List AgentState → Prop
  | copied {branches : List AgentState}
      (copies : ∀ branch ∈ branches, branch.versionStore = base.versionStore) :
      BranchSteps used base used branches
  | step {taken taken' : List String} {branches : List AgentState} {index : Nat}
      {before after : AgentState} (earlier : BranchSteps used base taken branches)
      (branch : branches[index]? = some before)
        (step : VersionStep digest taken before taken' after) :
      BranchSteps used base taken' (branches.set index after)

/-- The states reached from one without versions, with the version ids used so far. -/
inductive VersionReached : List String → AgentState → Prop
  | start {state : AgentState} (empty : state.versionStore.getD {} = {}) : VersionReached [] state
  | step {used used' : List String} {before after : AgentState}
      (earlier : VersionReached used before)
      (step : VersionStep digest used before used' after) : VersionReached used' after
  | fanIn {used used' : List String} {base merged : AgentState} {branches : List AgentState}
      {strategy : MergeStrategy} {trace : List Event} (earlier : VersionReached used base)
      (fanOut : BranchSteps digest used base used' branches)
      (merge : Runs (mergeStates strategy base branches) trace (.ok merged)) :
      VersionReached used' merged

end Reached

/-! ## Well-formed stores -/

/-- The ids of the stored versions. -/
def StateVersionStore.ids (store : StateVersionStore) : List String :=
  store.versions.map StateVersion.versionId

/-- Versions have distinct ids and earlier parents, and the current version is a stored one. -/
structure StateVersionStore.WellFormed (store : StateVersionStore) : Prop where
  linked : Linked StateVersion.versionId StateVersion.parentVersionId store.versions
  named : ∀ versionId ∈ store.ids, versionId ≠ ""
  current : ∀ versionId, store.currentVersionId = some versionId → versionId ∈ store.ids
  begun : store.versions ≠ [] → store.currentVersionId.isSome = true

namespace StateVersionStore.WellFormed

variable {store : StateVersionStore}

theorem empty : ({} : StateVersionStore).WellFormed where
  linked := .nil
  named _ h := by cases h
  current _ h := by cases h
  begun h := absurd rfl h

/-- Moving the current version to a stored one. -/
theorem moved (h : store.WellFormed) {versionId : String} (hmem : versionId ∈ store.ids)
    (branchId : String) (branches : Dict String String) :
    StateVersionStore.WellFormed { store with
      currentVersionId := some versionId
      branchId := branchId
      branches := branches } where
  linked := h.linked
  named := h.named
  current _ hown := Option.some.inj hown ▸ hmem
  begun _ := rfl

theorem getVersion_self (h : store.WellFormed) {version : StateVersion}
    (hmem : version ∈ store.versions) : store.getVersion version.versionId = some version := by
  obtain ⟨own, hown⟩ : ∃ own, store.getVersion version.versionId = some own :=
    Option.isSome_iff_exists.mp (List.find?_isSome.mpr ⟨version, hmem, by simp⟩)
  have hsame : own = version := List.inj_on_of_nodup_map h.linked.nodup
    (List.mem_of_find?_eq_some hown) hmem (by simpa using List.find?_some hown)
  rw [hown, hsame]

theorem link_self (h : store.WellFormed) {version : StateVersion}
    (hmem : version ∈ store.versions) :
    store.link version.versionId = some version := by
  rw [link, if_neg (h.named _ (List.mem_map_of_mem hmem)), h.getVersion_self hmem]

end StateVersionStore.WellFormed

/-! ## Every operation keeps stores well formed -/

/-- The version store of a state is well formed and its ids are among those used. -/
structure AgentState.Versioned (used : List String) (state : AgentState) : Prop where
  wellFormed : (state.versionStore.getD {}).WellFormed
  used : (state.versionStore.getD {}).ids ⊆ used

theorem mem_ids_of_getVersion {store : StateVersionStore} {versionId : String}
    {version : StateVersion} (h : store.getVersion versionId = some version) :
    version.versionId ∈ store.ids :=
  List.mem_map_of_mem (List.mem_of_find?_eq_some h)

theorem versioned_commitVersion {digest : Snapshot → String} {used : List String}
    {state : AgentState} (h : state.Versioned used) {nodeId versionId : String}
    (hfresh : versionId ∉ used) (hnamed : versionId ≠ "") :
    (state.commitVersion digest nodeId versionId).Versioned (versionId :: used) := by
  obtain ⟨⟨linked, named, current, begun⟩, hused⟩ := h
  have hids : ((state.commitVersion digest nodeId versionId).versionStore.getD {}).ids =
      (state.versionStore.getD {}).ids ++ [versionId] := by
    simp [AgentState.commitVersion, StateVersionStore.ids]
  constructor
  · refine ⟨linked.snoc (fun hmem => hfresh (hused hmem)) current, fun own hmem => ?_,
      fun own hown => ?_, fun _ => rfl⟩
    · rw [hids] at hmem
      exact (List.mem_append.mp hmem).elim (named own) fun hlast =>
        List.mem_singleton.mp hlast ▸ hnamed
    · rw [hids, ← Option.some.inj hown]
      exact List.mem_append_right _ List.mem_cons_self
  · rw [hids]
    intro own hmem
    rcases List.mem_append.mp hmem with hmem | hmem
    · exact List.mem_cons_of_mem _ (hused hmem)
    · exact List.mem_singleton.mp hmem ▸ List.mem_cons_self

theorem rollback_ok {state after : AgentState} {versionId : String} {graphCopy : Option Ref}
    (h : state.rollback versionId graphCopy = .ok after) :
    ∃ version, (state.versionStore.getD {}).getVersion versionId = some version ∧
      after = { state.applySnapshot version.snapshot graphCopy with
        versionStore := some { state.versionStore.getD {} with
          currentVersionId := some version.versionId
          branchId := version.branchId }
        stateVersionId := some version.versionId } := by
  unfold AgentState.rollback at h
  dsimp only at h
  split at h
  · cases h
  next version hversion => exact ⟨version, hversion, (Except.ok.inj h).symm⟩

theorem versioned_rollback {used : List String} {state after : AgentState}
    (h : state.Versioned used) {versionId : String} {graphCopy : Option Ref}
    (hrollback : state.rollback versionId graphCopy = .ok after) : after.Versioned used := by
  obtain ⟨version, hversion, rfl⟩ := rollback_ok hrollback
  exact ⟨h.wellFormed.moved (mem_ids_of_getVersion hversion) _ _, h.used⟩

theorem versioned_forkBranch {used : List String} {state after : AgentState}
    (h : state.Versioned used) {fromVersionId branchName : Option String} {branchId : String}
    {graphCopy : Option Ref}
    (hfork : state.forkBranch fromVersionId branchName graphCopy = .ok (after, branchId)) :
    after.Versioned used := by
  unfold AgentState.forkBranch at hfork
  dsimp only at hfork
  split at hfork
  · cases hfork
  cases hrollback : state.rollback (orText fromVersionId
      (orText (state.versionStore.getD {}).currentVersionId "")) graphCopy with
  | error error =>
      rw [hrollback] at hfork
      cases hfork
  | ok restored =>
      rw [hrollback] at hfork
      obtain ⟨version, hversion, rfl⟩ := rollback_ok hrollback
      cases hfork
      exact ⟨h.wellFormed.moved (mem_ids_of_getVersion hversion) _ _, h.used⟩

theorem versioned_step {digest : Snapshot → String} {used used' : List String}
    {before after : AgentState} (h : before.Versioned used)
    (hstep : VersionStep digest used before used' after) :
    after.Versioned used' ∧ used ⊆ used' := by
  cases hstep with
  | work kept => exact ⟨⟨kept ▸ h.wellFormed, kept ▸ h.used⟩, List.Subset.refl _⟩
  | commit fresh named => exact ⟨versioned_commitVersion h fresh named, List.subset_cons_self _ _⟩
  | rollback restored => exact ⟨versioned_rollback h restored, List.Subset.refl _⟩
  | fork forked => exact ⟨versioned_forkBranch h forked, List.Subset.refl _⟩

/-! ## Merged stores -/

theorem unseenVersions_eq {own rest : List StateVersion}
    (hrest : (rest.map StateVersion.versionId).Nodup) : unseenVersions own rest =
      own ++ rest.filter fun version =>
        decide (version.versionId ∉ own.map StateVersion.versionId) := by
  induction rest generalizing own with
  | nil => simp [unseenVersions]
  | cons version rest ih =>
      obtain ⟨hnot, hrest⟩ := List.nodup_cons.mp hrest
      have hany : (own.any fun other => decide (other.versionId = version.versionId)) = true ↔
          version.versionId ∈ own.map StateVersion.versionId := by simp
      rw [unseenVersions]
      split
      next hseen => rw [ih hrest, List.filter_cons_of_neg (by simpa using hany.mp hseen)]
      next hseen =>
        rw [ih hrest, List.filter_cons_of_pos (by simpa using fun hmem => hseen (hany.mpr hmem)),
          List.append_assoc, List.singleton_append]
        refine congrArg (own ++ version :: ·) (List.filter_congr fun other hother => ?_)
        have hne : other.versionId ≠ version.versionId := fun heq =>
          hnot (heq ▸ List.mem_map_of_mem hother)
        simp [hne]

theorem wellFormed_unite {left right store : StateVersionStore} (hleft : left.WellFormed)
    (hright : right.WellFormed)
    (hversions : store.versions = unseenVersions left.versions right.versions)
    (hcurrent : store.currentVersionId =
      if truthy right.currentVersionId then right.currentVersionId else left.currentVersionId) :
    store.WellFormed ∧ store.ids ⊆ left.ids ++ right.ids := by
  rw [unseenVersions_eq hright.linked.nodup] at hversions
  have hids : ∀ own, own ∈ store.ids ↔ own ∈ left.ids ∨ own ∈ right.ids := by
    intro own
    rw [StateVersionStore.ids, hversions, List.map_append, List.mem_append]
    refine or_congr_right' fun hnew => ?_
    simp only [StateVersionStore.ids, List.mem_map, List.mem_filter, decide_eq_true_eq]
    refine ⟨fun ⟨version, hmem, heq⟩ => ⟨version, hmem.1, heq⟩, fun ⟨version, hmem, heq⟩ =>
      ⟨version, ⟨hmem, fun hseen => hnew ?_⟩, heq⟩⟩
    rw [← heq]
    exact List.mem_map.mpr hseen
  refine ⟨⟨?_, fun own hmem => ?_, fun own hown => ?_, fun hne => ?_⟩, fun own hmem => ?_⟩
  · rw [hversions]
    exact hleft.linked.append_unseen hright.linked
  · exact ((hids own).mp hmem).elim (hleft.named own) (hright.named own)
  · rw [hcurrent] at hown
    split at hown
    · exact (hids own).mpr (Or.inr (hright.current own hown))
    · exact (hids own).mpr (Or.inl (hleft.current own hown))
  · rw [hcurrent]
    split
    next htruthy =>
      cases hright : right.currentVersionId with
      | none =>
          rw [hright] at htruthy
          cases htruthy
      | some own => rfl
    next hfalsy =>
      -- an absent or empty current version means that the right store holds no version
      have hempty : right.versions = [] := by
        by_contra hsome
        obtain ⟨own, hown⟩ := Option.isSome_iff_exists.mp (hright.begun hsome)
        refine hfalsy ?_
        rw [hown]
        exact truthy_iff.mpr ⟨own, rfl, hright.named own (hright.current own hown)⟩
      rw [hversions, hempty, List.filter_nil, List.append_nil] at hne
      exact hleft.begun hne
  · exact List.mem_append.mpr ((hids own).mp hmem)

theorem wellFormed_mergeVersionStores {left right : Option StateVersionStore}
    (hleft : (left.getD {}).WellFormed) (hright : (right.getD {}).WellFormed) :
    ((mergeVersionStores left right).getD {}).WellFormed ∧
      ((mergeVersionStores left right).getD {}).ids ⊆
        (left.getD {}).ids ++ (right.getD {}).ids := by
  cases left with
  | none => exact ⟨hright, List.subset_append_right _ _⟩
  | some left =>
      cases right with
      | none => exact ⟨hleft, List.subset_append_left _ _⟩
      | some right =>
          exact wellFormed_unite hleft hright rfl rfl

theorem versionStore_deepMerge (left right : AgentState) :
    Program.Returns (S := runtimeSig)
      (fun merged => merged.versionStore = mergeVersionStores left.versionStore right.versionStore)
      (deepMerge left right) := by
  unfold deepMerge
  refine Program.Respects.bind (Q := fun _ => True) ?_ fun _ _ => rfl
  unfold mergeExecutionGraphs
  split
  · trivial
  · trivial
  · exact respects_asking trivial fun _ => trivial

/-- Under every strategy the merged store is the one of the branch or the united one. -/
theorem versionStore_mergePair (strategy : MergeStrategy) (left right : AgentState) :
    Program.Returns (S := runtimeSig)
      (fun merged => merged.versionStore = right.versionStore ∨
        merged.versionStore = mergeVersionStores left.versionStore right.versionStore)
      (mergePair strategy left right) := by
  have hdeep : Program.Returns (S := runtimeSig)
      (fun merged => merged.versionStore = right.versionStore ∨
        merged.versionStore = mergeVersionStores left.versionStore right.versionStore)
      (deepMerge left right) :=
    (versionStore_deepMerge left right).mono (fun _ h => h) fun _ => Or.inr
  cases strategy with
  | lastWins => exact Or.inl rfl
  | deepMerge => exact hdeep
  | mergeLists => exact hdeep.bind fun _ h => h
  | failOnConflict =>
      simp only [mergePair]
      split
      · exact hdeep
      · trivial

theorem versioned_mergePair {used : List String} {strategy : MergeStrategy}
    {left right merged : AgentState} {trace : List Event} (hleft : left.Versioned used)
    (hright : right.Versioned used) (h : Runs (mergePair strategy left right) trace (.ok merged)) :
    merged.Versioned used := by
  rcases (versionStore_mergePair strategy left right).returns_of_runs h with hstore | hstore
  · exact ⟨hstore ▸ hright.wellFormed, hstore ▸ hright.used⟩
  · obtain ⟨hwell, hids⟩ := wellFormed_mergeVersionStores hleft.wellFormed hright.wellFormed
    exact ⟨hstore ▸ hwell,
      hstore ▸ List.Subset.trans hids (List.append_subset.mpr ⟨hleft.used, hright.used⟩)⟩

theorem versioned_mergeStates {used : List String} {strategy : MergeStrategy}
    {base merged : AgentState} {branches : List AgentState} {trace : List Event}
    (hbase : base.Versioned used) (hbranches : ∀ branch ∈ branches, branch.Versioned used)
    (h : Runs (mergeStates strategy base branches) trace (.ok merged)) : merged.Versioned used := by
  induction branches generalizing base trace with
  | nil =>
      obtain ⟨-, heq⟩ := runs_pure_iff.mp h
      exact Except.ok.inj heq ▸ hbase
  | cons branch rest ih =>
      obtain ⟨middle, first, second, hpair, hrest, -⟩ := runs_bind_ok_iff.mp h
      exact ih (versioned_mergePair hbase (hbranches branch List.mem_cons_self) hpair)
        (fun other hother => hbranches other (List.mem_cons_of_mem _ hother)) hrest

/-! ## Reached states -/

theorem AgentState.Versioned.mono {used used' : List String} {state : AgentState}
    (h : state.Versioned used) (hsub : used ⊆ used') : state.Versioned used' :=
  ⟨h.wellFormed, List.Subset.trans h.used hsub⟩

theorem versioned_branches {digest : Snapshot → String} {used used' : List String}
    {base : AgentState} {branches : List AgentState} (hbase : base.Versioned used)
    (h : BranchSteps digest used base used' branches) :
    (∀ branch ∈ branches, branch.Versioned used') ∧ used ⊆ used' := by
  induction h with
  | copied copies =>
      exact ⟨fun branch hbranch => ⟨copies branch hbranch ▸ hbase.wellFormed,
        copies branch hbranch ▸ hbase.used⟩, List.Subset.refl _⟩
  | step earlier branch step ih =>
      obtain ⟨hbranches, hsub⟩ := ih
      obtain ⟨hafter, htaken⟩ := versioned_step (hbranches _ (List.mem_of_getElem? branch)) step
      refine ⟨fun own hown => ?_, List.Subset.trans hsub htaken⟩
      rcases List.mem_or_eq_of_mem_set hown with hown | rfl
      · exact (hbranches own hown).mono htaken
      · exact hafter

theorem VersionReached.versioned {digest : Snapshot → String} {used : List String}
    {state : AgentState} (h : VersionReached digest used state) : state.Versioned used := by
  induction h with
  | start empty =>
      constructor
      · rw [empty]
        exact .empty
      · rw [empty]
        exact List.nil_subset _
  | step earlier step ih => exact (versioned_step ih step).1
  | fanIn earlier fanOut merge ih =>
      obtain ⟨hbranches, hsub⟩ := versioned_branches ih fanOut
      exact versioned_mergeStates (ih.mono hsub) hbranches merge

/-- The versions of a reached state have distinct ids and earlier parents, the current one is
stored, and the lineage of each stored version is the chain of parents from a root to it. -/
theorem versionStore_reached {digest : Snapshot → String} {used : List String}
    {state : AgentState} {store : StateVersionStore} (h : VersionReached digest used state)
    (hstore : state.versionStore = some store) :
    store.ids.Nodup ∧
      (store.versions ≠ [] → ∃ version ∈ store.versions,
        store.currentVersionId = some version.versionId) ∧
      (∀ before version after up, store.versions = before ++ version :: after →
        version.parentVersionId = some up → up ∈ before.map StateVersion.versionId) ∧
      ∀ version ∈ store.versions, ∀ fuel, store.versions.length < fuel →
        ∃ chain, store.lineage fuel (some version.versionId) = some chain ∧
          Ancestry StateVersion.versionId StateVersion.parentVersionId store.versions version
            chain := by
  obtain ⟨hwell, -⟩ := h.versioned
  rw [hstore, Option.getD_some] at hwell
  refine ⟨hwell.linked.nodup, fun hne => ?_, fun before version after up hsplit hup =>
    hwell.linked.parent_mem hsplit hup, fun version hmem fuel hfuel => ?_⟩
  · obtain ⟨own, hown⟩ := Option.isSome_iff_exists.mp (hwell.begun hne)
    obtain ⟨version, hmem, rfl⟩ := List.mem_map.mp (hwell.current own hown)
    exact ⟨version, hmem, hown⟩
  · obtain ⟨chain, hclimb, hchain⟩ := climb_of_linked hwell.linked
      (fun own hown => hwell.link_self hown) hmem hfuel
    have htruthy : truthy (some version.versionId) = true :=
      truthy_iff.mpr ⟨_, rfl, hwell.named _ (List.mem_map_of_mem hmem)⟩
    exact ⟨chain, by simp [StateVersionStore.lineage, htruthy, hclimb], hchain⟩

/-- A trip with one version behind its planner. -/
def plannedTrip : AgentState :=
  AgentState.commitVersion (fun _ => "digest")
    { planRef := .ofPlanState
      planState := some (.fromPlan ⟨"上海一日游", [⟨1, "查询天气", some "weather", none⟩]⟩ "default") }
    "planner" "v1"

/-- The same trip with its step completed. -/
def completedTrip : AgentState :=
  { plannedTrip with
    planState := plannedTrip.planState.map fun own => own.setStepStatus 1 .completed }

/-- A second version behind the completed step. -/
def advancedTrip : AgentState :=
  completedTrip.commitVersion (fun _ => "digest") "executor" "v2"

/-- A fork back at the first version. -/
def forkedTrip : AgentState :=
  ((advancedTrip.forkBranch (some "v1") (some "retry") none).toOption.getD (advancedTrip, "")).1

/-- Both branches of a fan-out behind the fork commit a version. -/
def forkedBranches : List AgentState :=
  [forkedTrip.commitVersion (fun _ => "digest") "step_1" "v3",
    forkedTrip.commitVersion (fun _ => "digest") "step_2" "v4"]

theorem reached_plannedTrip : VersionReached (fun _ => "digest") ["v1"] plannedTrip := by
  refine .step (.start rfl) (.commit ?_ ?_)
  · decide
  · decide

theorem reached_completedTrip : VersionReached (fun _ => "digest") ["v1"] completedTrip :=
  .step reached_plannedTrip (.work rfl)

theorem reached_advancedTrip : VersionReached (fun _ => "digest") ["v2", "v1"] advancedTrip := by
  refine .step reached_completedTrip (.commit ?_ ?_)
  · decide
  · decide

theorem reached_forkedTrip : VersionReached (fun _ => "digest") ["v2", "v1"] forkedTrip := by
  have hfork : advancedTrip.forkBranch (some "v1") (some "retry") none =
      .ok (forkedTrip, "retry") := rfl
  exact .step reached_advancedTrip (.fork hfork)

theorem forkedBranches_steps : BranchSteps (fun _ => "digest") ["v2", "v1"] forkedTrip
    ["v4", "v3", "v2", "v1"] forkedBranches := by
  have hcommit : ∀ used nodeId versionId, versionId ∉ used → versionId ≠ "" →
      VersionStep (fun _ => "digest") used forkedTrip (versionId :: used)
        (forkedTrip.commitVersion (fun _ => "digest") nodeId versionId) :=
    fun _ _ _ => .commit
  have hcopied : BranchSteps (fun _ => "digest") ["v2", "v1"] forkedTrip ["v2", "v1"]
      [forkedTrip, forkedTrip] := .copied (by simp)
  have hfirst : [forkedTrip, forkedTrip][0]? = some forkedTrip := rfl
  have hsecond : [forkedTrip.commitVersion (fun _ => "digest") "step_1" "v3", forkedTrip][1]? =
      some forkedTrip := rfl
  exact (hcopied.step hfirst (hcommit _ "step_1" "v3" (by decide) (by decide))).step hsecond
    (hcommit _ "step_2" "v4" (by decide) (by decide))

theorem versionStore_reached_forkedTrip : ∃ state store,
    VersionReached (fun _ => "digest") ["v4", "v3", "v2", "v1"] state ∧
      state.versionStore = some store ∧ store.ids = ["v1", "v2", "v3", "v4"] ∧
      store.ids.Nodup := by
  refine ⟨_, _, .fanIn reached_forkedTrip forkedBranches_steps
    (show Runs (mergeStates .deepMerge forkedTrip forkedBranches) [] (.ok _) from .done _), rfl,
    by decide +kernel, ?_⟩
  exact (versionStore_reached (.fanIn reached_forkedTrip forkedBranches_steps
    (show Runs (mergeStates .deepMerge forkedTrip forkedBranches) [] (.ok _) from .done _)) rfl).1

/-- What a rollback restores: everything serialised but the plan state, which stays. -/
theorem snapshot_rollback {digest : Snapshot → String} {used : List String}
    {state : AgentState} {store : StateVersionStore} {version : StateVersion}
    (h : VersionReached digest used state) (hstore : state.versionStore = some store)
    (hversion : version ∈ store.versions) (graphCopy : Option Ref) :
    ∃ restored, state.rollback version.versionId graphCopy = .ok restored ∧
      restored.snapshot = { version.snapshot with
        stateVersionId := some version.versionId
        planState := state.snapshot.planState } := by
  obtain ⟨hwell, -⟩ := h.versioned
  have hget : (state.versionStore.getD {}).getVersion version.versionId = some version := by
    rw [hstore, Option.getD_some] at hwell ⊢
    exact hwell.getVersion_self hversion
  simp only [AgentState.rollback, hget]
  refine ⟨_, rfl, ?_⟩
  cases hplan : version.snapshot.plan with
  | none => simp [AgentState.snapshot, AgentState.applySnapshot, AgentState.plan, hplan]
  | some plan => simp [AgentState.snapshot, AgentState.applySnapshot, AgentState.plan, hplan]

theorem snapshot_rollback_completedTrip : ∃ store version restored,
    completedTrip.versionStore = some store ∧ version ∈ store.versions ∧
      completedTrip.rollback version.versionId none = .ok restored ∧
      restored.snapshot = { version.snapshot with
        stateVersionId := some version.versionId
        planState := completedTrip.snapshot.planState } := by
  obtain ⟨restored, hrestored, hsnapshot⟩ := snapshot_rollback reached_completedTrip rfl
    (List.mem_singleton.mpr rfl) none
  exact ⟨_, _, restored, rfl, List.mem_singleton.mpr rfl, hrestored, hsnapshot⟩

/-- After a rollback to the version behind the planner the step is still completed, while the
snapshot of that version has it pending. -/
theorem completedTrip_half_rolled_back : ∃ used store version restored,
    VersionReached (fun _ => "digest") used completedTrip ∧
      completedTrip.versionStore = some store ∧ version ∈ store.versions ∧
      completedTrip.rollback version.versionId none = .ok restored ∧
      restored.snapshot.planState ≠ version.snapshot.planState :=
  ⟨_, _, _, _, reached_completedTrip, rfl, List.mem_singleton.mpr rfl, rfl, by decide +kernel⟩

end TripGraph
