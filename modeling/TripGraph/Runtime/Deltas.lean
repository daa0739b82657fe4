import TripGraph.Runtime.Versions

/-! # Versions as deltas

Next to its snapshot a version keeps how it differs from its parent. The snapshot of a root and
the differences along a lineage are enough to rebuild every later snapshot, however the store
was reached.
-/

namespace TripGraph

open Interaction

/-! ## Differences -/

/-- The snapshot with the fields that a difference lists replaced by their later values. -/
def Snapshot.patch (snapshot : Snapshot) (delta : StateDelta) : Snapshot where
  messages := if "messages" ∈ delta.keys then delta.after.messages else snapshot.messages
  plan := if "plan" ∈ delta.keys then delta.after.plan else snapshot.plan
  currentStep := if "current_step" ∈ delta.keys then delta.after.currentStep
    else snapshot.currentStep
  observations := if "observations" ∈ delta.keys then delta.after.observations
    else snapshot.observations
  executionTrace := if "execution_trace" ∈ delta.keys then delta.after.executionTrace
    else snapshot.executionTrace
  graphTrace := if "graph_trace" ∈ delta.keys then delta.after.graphTrace else snapshot.graphTrace
  shortTermMemory := if "short_term_memory" ∈ delta.keys then delta.after.shortTermMemory
    else snapshot.shortTermMemory
  longTermMemory := if "long_term_memory" ∈ delta.keys then delta.after.longTermMemory
    else snapshot.longTermMemory
  episodicMemory := if "episodic_memory" ∈ delta.keys then delta.after.episodicMemory
    else snapshot.episodicMemory
  sessionId := if "session_id" ∈ delta.keys then delta.after.sessionId else snapshot.sessionId
  query := if "query" ∈ delta.keys then delta.after.query else snapshot.query
  finalResult := if "final_result" ∈ delta.keys then delta.after.finalResult
    else snapshot.finalResult
  executionCritique := if "execution_critique" ∈ delta.keys then delta.after.executionCritique
    else snapshot.executionCritique
  replanHistory := if "replan_history" ∈ delta.keys then delta.after.replanHistory
    else snapshot.replanHistory
  shouldStop := if "should_stop" ∈ delta.keys then delta.after.shouldStop else snapshot.shouldStop
  replanAttempts := if "replan_attempts" ∈ delta.keys then delta.after.replanAttempts
    else snapshot.replanAttempts
  executionSeed := if "execution_seed" ∈ delta.keys then delta.after.executionSeed
    else snapshot.executionSeed
  stateVersionId := if "state_version_id" ∈ delta.keys then delta.after.stateVersionId
    else snapshot.stateVersionId
  branchId := if "branch_id" ∈ delta.keys then delta.after.branchId else snapshot.branchId
  memory := if "memory" ∈ delta.keys then delta.after.memory else snapshot.memory
  planState := if "plan_state" ∈ delta.keys then delta.after.planState else snapshot.planState

/-- A difference lists what it takes to get from the earlier snapshot to the later one. -/
theorem Snapshot.patch_snapshotDiff (before after : Snapshot) :
    before.patch (snapshotDiff before after) = after := by
  have hfield : ∀ {α : Type} {own other : α} {key : String},
      (own ≠ other → key ∈ (snapshotDiff before after).keys) →
        (if key ∈ (snapshotDiff before after).keys then other else own) = other := by
    intro α own other key h
    split
    · rfl
    next hkey => exact Classical.not_not.mp fun hne => hkey (h hne)
  have hsame : ∀ {own : Snapshot}, own.messages = after.messages → own.plan = after.plan →
      own.currentStep = after.currentStep → own.observations = after.observations →
      own.executionTrace = after.executionTrace → own.graphTrace = after.graphTrace →
      own.shortTermMemory = after.shortTermMemory → own.longTermMemory = after.longTermMemory →
      own.episodicMemory = after.episodicMemory → own.sessionId = after.sessionId →
      own.query = after.query → own.finalResult = after.finalResult →
      own.executionCritique = after.executionCritique → own.replanHistory = after.replanHistory →
      own.shouldStop = after.shouldStop → own.replanAttempts = after.replanAttempts →
      own.executionSeed = after.executionSeed → own.stateVersionId = after.stateVersionId →
      own.branchId = after.branchId → own.memory = after.memory →
      own.planState = after.planState → own = after := by
    intro own
    cases own
    cases after
    rintro rfl rfl rfl rfl rfl rfl rfl rfl rfl rfl rfl rfl rfl rfl rfl rfl rfl rfl rfl rfl rfl
    rfl
  have hafter : (snapshotDiff before after).after = after := rfl
  apply hsame
  all_goals
    simp only [Snapshot.patch, hafter]
    apply hfield
    intro hne
    unfold snapshotDiff
    rw [if_neg hne]
    simp only [List.mem_append, List.mem_singleton, true_or, or_true]

/-- The last snapshot of a lineage, from the snapshot of its first version and the differences of
the others. -/
def rebuild : List StateVersion → Option Snapshot
  | [] => none
  | root :: rest =>
      rest.foldlM (fun snapshot version => version.diffFromParent.map snapshot.patch) root.snapshot

/-! ## Every operation keeps the differences -/

/-- All versions ever committed: their ids are distinct, and each keeps how it differs from the
version it names as its parent. -/
structure Registered (registry : List StateVersion) : Prop where
  nodup : (registry.map StateVersion.versionId).Nodup
  delta : ∀ version ∈ registry, ∀ up, version.parentVersionId = some up →
    ∃ parent ∈ registry, parent.versionId = up ∧
      version.diffFromParent = some (snapshotDiff parent.snapshot version.snapshot)

/-- The stored versions of a state are among those of a registry. -/
def AgentState.StoredIn (registry : List StateVersion) (state : AgentState) : Prop :=
  (state.versionStore.getD {}).versions ⊆ registry

/-- A registry that covers a state, for the version ids used so far. -/
structure Covers (used : List String) (registry : List StateVersion) (state : AgentState) :
    Prop where
  registered : Registered registry
  ids : registry.map StateVersion.versionId = used
  versioned : state.Versioned used
  stored : state.StoredIn registry

theorem covers_commitVersion {digest : Snapshot → String} {used : List String}
    {registry : List StateVersion} {state : AgentState} (h : Covers used registry state)
    {nodeId versionId : String} (hfresh : versionId ∉ used) (hnamed : versionId ≠ "") :
    ∃ version, Covers (versionId :: used) (version :: registry)
      (state.commitVersion digest nodeId versionId) := by
  obtain ⟨version, hversions, hid, hparent, hdelta⟩ : ∃ version : StateVersion,
      ((state.commitVersion digest nodeId versionId).versionStore.getD {}).versions =
        (state.versionStore.getD {}).versions ++ [version] ∧
      version.versionId = versionId ∧
      version.parentVersionId = (state.versionStore.getD {}).currentVersionId ∧
      version.diffFromParent = ((if truthy (state.versionStore.getD {}).currentVersionId then
        (state.versionStore.getD {}).currentVersionId.bind
          (state.versionStore.getD {}).getVersion else none).map fun own =>
            snapshotDiff own.snapshot version.snapshot) :=
    ⟨_, rfl, rfl, rfl, rfl⟩
  refine ⟨version, ⟨?_, ?_⟩, by rw [List.map_cons, hid, h.ids],
    versioned_commitVersion h.versioned hfresh hnamed, ?_⟩
  · rw [List.map_cons, List.nodup_cons, h.ids, hid]
    exact ⟨hfresh, h.ids ▸ h.registered.nodup⟩
  · intro own hown up hup
    rcases List.mem_cons.mp hown with rfl | hown
    · -- the parent of the new version is the current one, which is stored
      rw [hparent] at hup
      obtain ⟨parent, hstored, rfl⟩ := List.mem_map.mp (h.versioned.wellFormed.current up hup)
      have hget := h.versioned.wellFormed.getVersion_self hstored
      have htruthy : truthy (some parent.versionId) = true :=
        truthy_iff.mpr ⟨_, rfl, h.versioned.wellFormed.named _ (List.mem_map_of_mem hstored)⟩
      refine ⟨parent, List.mem_cons_of_mem _ (h.stored hstored), rfl, ?_⟩
      rw [hdelta, hup, if_pos htruthy, Option.bind_some, hget, Option.map_some]
    · obtain ⟨parent, hstored, hkey, hkept⟩ := h.registered.delta own hown up hup
      exact ⟨parent, List.mem_cons_of_mem _ hstored, hkey, hkept⟩
  · rw [AgentState.StoredIn, hversions]
    refine List.append_subset.mpr ⟨List.subset_cons_of_subset _ h.stored, ?_⟩
    exact List.cons_subset.mpr ⟨List.mem_cons_self, List.nil_subset _⟩

theorem versions_rollback {state after : AgentState} {versionId : String} {graphCopy : Option Ref}
    (h : state.rollback versionId graphCopy = .ok after) :
    (after.versionStore.getD {}).versions = (state.versionStore.getD {}).versions := by
  obtain ⟨version, -, rfl⟩ := rollback_ok h
  rfl

theorem versions_forkBranch {state after : AgentState} {fromVersionId branchName : Option String}
    {branchId : String} {graphCopy : Option Ref}
    (h : state.forkBranch fromVersionId branchName graphCopy = .ok (after, branchId)) :
    (after.versionStore.getD {}).versions = (state.versionStore.getD {}).versions := by
  unfold AgentState.forkBranch at h
  dsimp only at h
  split at h
  · cases h
  cases hrollback : state.rollback (orText fromVersionId
      (orText (state.versionStore.getD {}).currentVersionId "")) graphCopy with
  | error error =>
      rw [hrollback] at h
      cases h
  | ok restored =>
      rw [hrollback] at h
      obtain ⟨version, hversion, rfl⟩ := rollback_ok hrollback
      cases h
      rfl

/-- What one operation does to the registry: a commit adds a version, nothing else does. -/
theorem covers_step {digest : Snapshot → String} {used used' : List String}
    {registry : List StateVersion} {before after : AgentState} (h : Covers used registry before)
    (hstep : VersionStep digest used before used' after) :
    ∃ added, Covers used' (added ++ registry) after := by
  have hversioned := (versioned_step h.versioned hstep).1
  have hkept : (after.versionStore.getD {}).versions = (before.versionStore.getD {}).versions →
      after.StoredIn registry := fun heq => by
    rw [AgentState.StoredIn, heq]
    exact h.stored
  cases hstep with
  | work kept => exact ⟨[], h.registered, h.ids, hversioned, hkept (by rw [kept])⟩
  | commit fresh named =>
      obtain ⟨version, hcovers⟩ := covers_commitVersion h fresh named
      exact ⟨[version], hcovers⟩
  | rollback restored =>
      exact ⟨[], h.registered, h.ids, hversioned, hkept (versions_rollback restored)⟩
  | fork forked => exact ⟨[], h.registered, h.ids, hversioned, hkept (versions_forkBranch forked)⟩

theorem covers_branches {digest : Snapshot → String} {used used' : List String}
    {registry : List StateVersion} {base : AgentState} {branches : List AgentState}
    (h : Covers used registry base) (hsteps : BranchSteps digest used base used' branches) :
    ∃ added, Registered (added ++ registry) ∧
      (added ++ registry).map StateVersion.versionId = used' ∧
      ∀ branch ∈ branches, branch.Versioned used' ∧ branch.StoredIn (added ++ registry) := by
  induction hsteps with
  | copied copies =>
      refine ⟨[], h.registered, h.ids, fun branch hbranch => ?_⟩
      have hcopy := copies branch hbranch
      refine ⟨⟨hcopy ▸ h.versioned.wellFormed, hcopy ▸ h.versioned.used⟩, ?_⟩
      rw [AgentState.StoredIn, hcopy]
      exact h.stored
  | step earlier branch step ih =>
      obtain ⟨added, hregistered, hids, hbranches⟩ := ih
      obtain ⟨hbefore, hstored⟩ := hbranches _ (List.mem_of_getElem? branch)
      obtain ⟨newer, hcovers⟩ := covers_step ⟨hregistered, hids, hbefore, hstored⟩ step
      rw [← List.append_assoc] at hcovers
      refine ⟨newer ++ added, hcovers.registered, hcovers.ids, fun own hown => ?_⟩
      have hsub := (versioned_step hbefore step).2
      rcases List.mem_or_eq_of_mem_set hown with hown | rfl
      · obtain ⟨hown, hkept⟩ := hbranches own hown
        refine ⟨hown.mono hsub, List.Subset.trans hkept ?_⟩
        rw [List.append_assoc]
        exact List.subset_append_right _ _
      · exact ⟨hcovers.versioned, hcovers.stored⟩

/-! ## Merged stores keep them too -/

theorem unseenVersions_subset (own rest : List StateVersion) :
    unseenVersions own rest ⊆ own ++ rest := by
  induction rest generalizing own with
  | nil => simp [unseenVersions]
  | cons version rest ih =>
      rw [unseenVersions]
      split
      · exact List.Subset.trans (ih own) (List.append_subset.mpr
          ⟨List.subset_append_left _ _, List.subset_append_of_subset_right _
            (List.subset_cons_self _ _)⟩)
      · have h := ih (own ++ [version])
        rwa [List.append_assoc, List.singleton_append] at h

theorem storedIn_mergePair {registry : List StateVersion} {strategy : MergeStrategy}
    {left right merged : AgentState} {trace : List Event} (hleft : left.StoredIn registry)
    (hright : right.StoredIn registry)
    (h : Runs (mergePair strategy left right) trace (.ok merged)) : merged.StoredIn registry := by
  rcases (versionStore_mergePair strategy left right).returns_of_runs h with hstore | hstore
  · rw [AgentState.StoredIn, hstore]
    exact hright
  rw [AgentState.StoredIn, hstore]
  rw [AgentState.StoredIn] at hleft hright
  cases hown : left.versionStore with
  | none => exact hright
  | some own =>
      cases hother : right.versionStore with
      | none => rwa [hown] at hleft
      | some other =>
          rw [hown] at hleft
          rw [hother] at hright
          exact List.Subset.trans (unseenVersions_subset own.versions other.versions)
            (List.append_subset.mpr ⟨hleft, hright⟩)

theorem storedIn_mergeStates {registry : List StateVersion} {strategy : MergeStrategy}
    {base merged : AgentState} {branches : List AgentState} {trace : List Event}
    (hbase : base.StoredIn registry) (hbranches : ∀ branch ∈ branches, branch.StoredIn registry)
    (h : Runs (mergeStates strategy base branches) trace (.ok merged)) :
    merged.StoredIn registry := by
  induction branches generalizing base trace with
  | nil =>
      obtain ⟨-, heq⟩ := runs_pure_iff.mp h
      exact Except.ok.inj heq ▸ hbase
  | cons branch rest ih =>
      obtain ⟨middle, first, second, hpair, hrest, -⟩ := runs_bind_ok_iff.mp h
      exact ih (storedIn_mergePair hbase (hbranches branch List.mem_cons_self) hpair)
        (fun other hother => hbranches other (List.mem_cons_of_mem _ hother)) hrest

theorem VersionReached.covered {digest : Snapshot → String} {used : List String}
    {state : AgentState} (h : VersionReached digest used state) :
    ∃ registry, Covers used registry state := by
  induction h with
  | start empty =>
      refine ⟨[], ⟨List.nodup_nil, fun _ hown => by cases hown⟩, rfl,
        (show VersionReached digest [] _ from .start empty).versioned, ?_⟩
      rw [AgentState.StoredIn, empty]
      exact List.nil_subset _
  | step earlier step ih =>
      obtain ⟨registry, hcovers⟩ := ih
      obtain ⟨added, hafter⟩ := covers_step hcovers step
      exact ⟨added ++ registry, hafter⟩
  | fanIn earlier fanOut merge ih =>
      obtain ⟨registry, hcovers⟩ := ih
      obtain ⟨added, hregistered, hids, hbranches⟩ := covers_branches hcovers fanOut
      refine ⟨added ++ registry, hregistered, hids,
        (VersionReached.fanIn earlier fanOut merge).versioned,
        storedIn_mergeStates ?_ (fun branch hbranch => (hbranches branch hbranch).2) merge⟩
      exact List.subset_append_of_subset_right _ hcovers.stored

/-! ## Rebuilding -/

theorem rebuild_of_ancestry {registry items chain : List StateVersion} {version : StateVersion}
    (h : Registered registry) (hitems : items ⊆ registry)
    (hchain : Ancestry StateVersion.versionId StateVersion.parentVersionId items version chain) :
    rebuild chain = some version.snapshot := by
  cases chain with
  | nil => cases hchain.last
  | cons root rest =>
      refine @foldlM_of_isChain _ _ StateVersion.snapshot _ root version rest ?_ hchain.last
      have hstored : ∀ own ∈ root :: rest, own ∈ registry := fun own hown =>
        hitems (hchain.stored own hown)
      refine hchain.links.imp_of_mem_imp fun up own hup hown hparent => ?_
      obtain ⟨parent, hmem, hkey, hdelta⟩ := h.delta own (hstored own hown) _ hparent
      obtain rfl : parent = up := List.inj_on_of_nodup_map h.nodup hmem (hstored up hup) hkey
      rw [hdelta, Option.map_some, Snapshot.patch_snapshotDiff]

/-- The snapshot of every stored version can be rebuilt from the root of its lineage and the
differences kept on the way, however the state was reached. -/
theorem rebuild_lineage {digest : Snapshot → String} {used : List String} {state : AgentState}
    {store : StateVersionStore} {version : StateVersion} {fuel : Nat}
    (h : VersionReached digest used state) (hstore : state.versionStore = some store)
    (hversion : version ∈ store.versions) (hfuel : store.versions.length < fuel) :
    ∃ chain, store.lineage fuel (some version.versionId) = some chain ∧
      rebuild chain = some version.snapshot := by
  obtain ⟨registry, hcovers⟩ := h.covered
  have hwell := hcovers.versioned.wellFormed
  have hstored := hcovers.stored
  rw [AgentState.StoredIn, hstore, Option.getD_some] at hstored
  rw [hstore, Option.getD_some] at hwell
  obtain ⟨chain, hclimb, hchain⟩ := climb_of_linked hwell.linked
    (fun own hown => hwell.link_self hown) hversion hfuel
  have htruthy : truthy (some version.versionId) = true :=
    truthy_iff.mpr ⟨_, rfl, hwell.named _ (List.mem_map_of_mem hversion)⟩
  refine ⟨chain, ?_, rebuild_of_ancestry hcovers.registered hstored hchain⟩
  simp [StateVersionStore.lineage, htruthy, hclimb]

theorem rebuild_lineage_forkedTrip : ∃ state store version chain,
    VersionReached (fun _ => "digest") ["v4", "v3", "v2", "v1"] state ∧
      state.versionStore = some store ∧ version ∈ store.versions ∧ version.versionId = "v4" ∧
      store.lineage 5 (some version.versionId) = some chain ∧
      rebuild chain = some version.snapshot := by
  have hmerge : Runs (mergeStates .deepMerge forkedTrip forkedBranches) [] (.ok _) := .done _
  have hreached := VersionReached.fanIn reached_forkedTrip forkedBranches_steps hmerge
  obtain ⟨chain, hlineage, hrebuild⟩ := rebuild_lineage hreached rfl
    (List.mem_of_getElem? (i := 3) rfl) (show _ < 5 by decide +kernel)
  exact ⟨_, _, _, chain, hreached, rfl, List.mem_of_getElem? (i := 3) rfl, by decide +kernel,
    hlineage, hrebuild⟩

end TripGraph
