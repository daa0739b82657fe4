import TripGraph.Foundation.Naming
import TripGraph.Runtime.Versions

/-! # Names of branches

A fork that gets no name calls its branch after the number of branches in the store. Forks with
a name may have taken that one before; then the fork moves the head of their branch.
-/

namespace TripGraph

open Interaction

/-- The heads of the branches in the store of a state. -/
def AgentState.branches (state : AgentState) : Dict String String :=
  (state.versionStore.getD {}).branches

/-- The name a fork makes up with so many branches in the store. -/
def countedBranch (count : Nat) : String := s!"branch_{count}"

theorem countedBranch_injective : Function.Injective countedBranch := by
  intro a b h
  have hlist :
      "branch_".toList ++ (Nat.repr a).toList = "branch_".toList ++ (Nat.repr b).toList := by
    simpa [countedBranch] using congrArg String.toList h
  exact repr_nat_injective (String.toList_inj.mp (List.append_cancel_left hlist))

/-- The states reached from one without versions by forks, with the names the forks were given.
Commits, rollbacks and whatever keeps the store come between them. -/
inductive ForkReached (digest : Snapshot → String) : List String → AgentState → Prop
  | start {state : AgentState} (empty : state.versionStore.getD {} = {}) :
      ForkReached digest [] state
  | work {names : List String} {before after : AgentState}
      (earlier : ForkReached digest names before)
      (kept : after.versionStore = before.versionStore) : ForkReached digest names after
  | commit {names : List String} {before : AgentState} (earlier : ForkReached digest names before)
      (nodeId versionId : String) :
      ForkReached digest names (before.commitVersion digest nodeId versionId)
  | rollback {names : List String} {before after : AgentState} {versionId : String}
      {graphCopy : Option Ref} (earlier : ForkReached digest names before)
      (restored : before.rollback versionId graphCopy = .ok after) : ForkReached digest names after
  | named {names : List String} {before after : AgentState} {fromVersionId : Option String}
      {branchName branchId : String} {graphCopy : Option Ref}
      (earlier : ForkReached digest names before) (given : branchName ≠ "")
      (forked : before.forkBranch fromVersionId (some branchName) graphCopy =
        .ok (after, branchId)) :
      ForkReached digest (branchName :: names) after
  | automatic {names : List String} {before after : AgentState}
      {fromVersionId branchName : Option String} {branchId : String} {graphCopy : Option Ref}
      (earlier : ForkReached digest names before) (unnamed : truthy branchName = false)
      (forked : before.forkBranch fromVersionId branchName graphCopy = .ok (after, branchId)) :
      ForkReached digest names after

namespace AgentState

theorem branches_rollback {state after : AgentState} {versionId : String} {graphCopy : Option Ref}
    (h : state.rollback versionId graphCopy = .ok after) : after.branches = state.branches := by
  obtain ⟨version, -, rfl⟩ := rollback_ok h
  rfl

/-- A fork writes the head of its branch and no other. -/
theorem branches_forkBranch {state after : AgentState} {fromVersionId branchName : Option String}
    {branchId : String} {graphCopy : Option Ref}
    (h : state.forkBranch fromVersionId branchName graphCopy = .ok (after, branchId)) :
    branchId = orText branchName (countedBranch state.branches.entries.length) ∧
      ∃ head, after.branches = state.branches.set branchId head := by
  unfold forkBranch at h
  dsimp only at h
  split at h
  · cases h
  cases hrollback : state.rollback (orText fromVersionId
      (orText (state.versionStore.getD {}).currentVersionId "")) graphCopy with
  | error error =>
      rw [hrollback] at h
      cases h
  | ok restored =>
      rw [hrollback] at h
      obtain ⟨version, -, rfl⟩ := rollback_ok hrollback
      cases h
      exact ⟨rfl, _, rfl⟩

end AgentState

theorem orText_of_not_truthy {text : Option String} (h : truthy text = false) (other : String) :
    orText text other = other := by
  cases text with
  | none => rfl
  | some text =>
      rw [truthy, decide_eq_false_iff_not, not_not] at h
      rw [orText, if_pos h]

/-- The branches grow by the names that were given and by counted ones. -/
theorem ForkReached.grown {digest : Snapshot → String} {names : List String} {state : AgentState}
    (h : ForkReached digest names state) :
    Dict.Grown countedBranch (StateVersionStore.branches {}) names state.branches := by
  induction h with
  | start empty =>
      rw [AgentState.branches, empty]
      exact .start
  | work earlier kept ih =>
      rw [AgentState.branches, kept]
      exact ih
  | commit earlier nodeId versionId ih => exact ih
  | rollback earlier restored ih =>
      rw [AgentState.branches_rollback restored]
      exact ih
  | named earlier given forked ih =>
      obtain ⟨rfl, head, hbranches⟩ := AgentState.branches_forkBranch forked
      rw [hbranches, orText, if_neg given]
      exact ih.given _ head
  | automatic earlier unnamed forked ih =>
      obtain ⟨rfl, head, hbranches⟩ := AgentState.branches_forkBranch forked
      rw [hbranches, orText_of_not_truthy unnamed]
      exact ih.counted head

theorem countedBranch_not_mem_start (count : Nat) :
    countedBranch count ∉ (StateVersionStore.branches {}).keys := by
  intro hmem
  have hmain : countedBranch count = "main" := List.mem_singleton.mp hmem
  have hlist : "branch_".toList ++ (Nat.repr count).toList = "main".toList := by
    rw [← hmain, countedBranch, String.toList_append]
    rfl
  cases congrArg List.head? hlist

/-- A fork without a name makes a branch of its own, and keeps the heads of the others, unless a
fork before it was given the very name that the count of branches yields. -/
theorem forkBranch_fresh_iff {digest : Snapshot → String} {names : List String}
    {before after : AgentState} {fromVersionId branchName : Option String} {branchId : String}
    {graphCopy : Option Ref} (hreached : ForkReached digest names before)
    (hunnamed : truthy branchName = false)
    (hfork : before.forkBranch fromVersionId branchName graphCopy = .ok (after, branchId)) :
    (branchId ∉ before.branches.keys ∧
        ∀ other, other ≠ branchId → after.branches.get? other = before.branches.get? other) ↔
      countedBranch before.branches.entries.length ∉ names := by
  obtain ⟨rfl, head, hbranches⟩ := AgentState.branches_forkBranch hfork
  rw [orText_of_not_truthy hunnamed] at hbranches ⊢
  have hkept : ∀ other, other ≠ countedBranch before.branches.entries.length →
      after.branches.get? other = before.branches.get? other := by
    intro other hne
    rw [hbranches, Dict.get?_set, if_neg hne]
  rw [and_iff_left hkept]
  exact not_congr (hreached.grown.next_mem_iff countedBranch_injective countedBranch_not_mem_start)

/-- A fork of the trip that was forked as `retry`, with no name. -/
def reforkedTrip : AgentState :=
  ((forkedTrip.forkBranch (some "v2") none none).toOption.getD (forkedTrip, "")).1

theorem forkReached_advancedTrip : ForkReached (fun _ => "digest") [] advancedTrip := by
  have hplanned : ForkReached (fun _ => "digest") [] plannedTrip :=
    .commit (.start rfl) "planner" "v1"
  have hcompleted : ForkReached (fun _ => "digest") [] completedTrip := .work hplanned rfl
  exact .commit hcompleted "executor" "v2"

theorem forkBranch_fresh_behind_retry : "branch_2" ∉ forkedTrip.branches.keys ∧
    ∀ other, other ≠ "branch_2" →
      reforkedTrip.branches.get? other = forkedTrip.branches.get? other := by
  have hretry : advancedTrip.forkBranch (some "v1") (some "retry") none =
      .ok (forkedTrip, "retry") := rfl
  have hreached : ForkReached (fun _ => "digest") ["retry"] forkedTrip :=
    .named forkReached_advancedTrip (by decide) hretry
  have hfork : forkedTrip.forkBranch (some "v2") none none = .ok (reforkedTrip, "branch_2") := rfl
  exact (forkBranch_fresh_iff hreached rfl hfork).mpr (by decide)

/-- A fork at the first version that takes the name of the third branch. -/
def claimedTrip : AgentState :=
  ((advancedTrip.forkBranch (some "v1") (some "branch_2") none).toOption.getD (advancedTrip, "")).1

/-- The next fork is given no name, and moves the head of that branch to the second version. -/
theorem not_forkBranch_fresh_behind_branch_2 :
    (∃ after, ForkReached (fun _ => "digest") ["branch_2"] claimedTrip ∧
      claimedTrip.forkBranch (some "v2") none none = .ok (after, "branch_2") ∧
      claimedTrip.branches.get? "branch_2" = some "v1" ∧
      after.branches.get? "branch_2" = some "v2") ∧
    ¬ ∀ (names : List String) (before after : AgentState) (fromVersionId branchName : Option String)
      (branchId : String) (graphCopy : Option Ref),
      ForkReached (fun _ => "digest") names before → truthy branchName = false →
      before.forkBranch fromVersionId branchName graphCopy = .ok (after, branchId) →
      branchId ∉ before.branches.keys ∧
        ∀ other, other ≠ branchId → after.branches.get? other = before.branches.get? other := by
  have hnamed : advancedTrip.forkBranch (some "v1") (some "branch_2") none =
      .ok (claimedTrip, "branch_2") := rfl
  have hreached : ForkReached (fun _ => "digest") ["branch_2"] claimedTrip :=
    .named forkReached_advancedTrip (by decide) hnamed
  obtain ⟨after, hfork, hhead⟩ : ∃ after,
      claimedTrip.forkBranch (some "v2") none none = .ok (after, "branch_2") ∧
        after.branches.get? "branch_2" = some "v2" := ⟨_, rfl, by decide⟩
  refine ⟨⟨after, hreached, hfork, by decide, hhead⟩, fun hfresh => ?_⟩
  exact (hfresh _ _ _ _ _ _ _ hreached rfl hfork).1 (by decide)

end TripGraph
