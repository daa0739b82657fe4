import TripGraph.Compiler.Coverage

/-! # What a fan-in keeps

Every branch of a fan-out advances a copy of the plan state of its own. The merge takes the
plan state of the last branch whole.
-/

namespace TripGraph

open Interaction PlanExecutor

namespace PlanGraphCompiler

open TripGraph.Graph

/-! ## One step node -/

/-- How a step node that raises nothing leaves the plan state it is given. -/
inductive NodeEnding (config : ExecutorConfig) (stepId : Int) (before : PlanState)
    (trace : List Event) : PlanState → Prop
  | passed (hunmet : before.dependenciesMet stepId = .ok false)
      (hnone : ∀ own, replacements own trace = []) : NodeEnding config stepId before trace before
  | ended (hmet : before.dependenciesMet stepId = .ok true) {after : PlanState}
      (h : Ending config stepId before trace after) : NodeEnding config stepId before trace after

theorem Ending.of_unadvanced {config : ExecutorConfig} {stepId : Int}
    {before routed after : PlanState} {trace : List Event} (hrouted : Unadvanced before routed)
    (h : Ending config stepId routed trace after) : Ending config stepId before trace after := by
  cases h with
  | settled hsettled hnone =>
      exact .settled (hsettled.of_agree (fun _ _ => by rw [hrouted.status])
        (fun _ _ => by rw [hrouted.results]) hrouted.ids) hnone
  | replaced hpolicy answer hreplaced hown =>
      have hfinished : routed.finishedStepIds = before.finishedStepIds := by
        simp only [PlanState.finishedStepIds, hrouted.status]
      have hremoved : ∀ own, own ∈ routed.removedIds ↔ own ∈ before.removedIds := fun own => by
        rw [PlanState.mem_removedIds_iff, PlanState.mem_removedIds_iff, hrouted.ids, hfinished]
      have hrenumbered : ∀ own, routed.Renumbered answer own ↔ before.Renumbered answer own :=
        fun own => by simp only [PlanState.Renumbered, PlanState.maxFinishedId, hfinished]
      refine .replaced hpolicy answer ⟨fun other => ?_, fun other => ?_⟩ hown
      · rw [hreplaced.status]
        simp only [hrenumbered, hremoved, hrouted.status]
      · rw [hreplaced.results]
        simp only [hremoved, hrouted.results]

variable {deps : RuntimeDependencies}

theorem not_mem_finishedStepIds_of_pending {state : PlanState} {stepId : Int}
    (h : state.stepStatus.get? stepId = some .pending) : stepId ∉ state.finishedStepIds := by
  rw [PlanState.mem_finishedStepIds_iff]
  rintro ⟨status, hstatus, hfinished⟩
  rw [h] at hstatus
  cases hstatus
  cases hfinished

/-- A step node passes by a pending step with unmet dependencies and runs any other. -/
theorem runs_stepNode_ok {stepId : Int} {state after : AgentState} {before : PlanState}
    {trace : List Event} (hplan : state.planState = some before)
    (hpending : before.stepStatus.get? stepId = some .pending)
    (h : Runs (stepNode deps stepId state) trace (.ok after)) :
    ∃ own, after.planState = some own ∧ NodeEnding deps.executor stepId before trace own := by
  simp only [stepNode, hplan] at h
  have hstatus : before.getStepStatus stepId = .ok .pending := by
    simp [PlanState.getStepStatus, hpending]
  rw [hstatus] at h
  simp only [Program.ofExcept_ok, Program.done_bind] at h
  rw [if_neg (by decide)] at h
  obtain ⟨met, _, rest, hcheck, h₁, rfl⟩ := runs_bind_ok_iff.mp h
  obtain ⟨rfl, hmet⟩ := runs_ofExcept_iff.mp hcheck
  -- with unmet dependencies the node passes the state on
  cases met with
  | false =>
      obtain ⟨rfl, hafter⟩ := runs_pure_iff.mp h₁
      cases hafter
      exact ⟨before, hplan, .passed hmet.symm fun _ => rfl⟩
  | true =>
      rw [if_pos rfl, runStep] at h₁
      obtain ⟨routed, routing, _, hrouting, h₂, rfl⟩ := runs_bind_ok_iff.mp h₁
      obtain ⟨own, hown, hunadvanced⟩ :=
        (returns_routerNode hplan).returns_of_runs hrouting
      simp only [hown] at h₂
      obtain ⟨step, _, _, hlookup, h₃, rfl⟩ := runs_bind_ok_iff.mp h₂
      obtain ⟨rfl, hfind⟩ := runs_ofExcept_iff.mp hlookup
      obtain ⟨ended, running, _, hrunning, h₄, rfl⟩ := runs_bind_ok_iff.mp h₃
      obtain ⟨rfl, hrecord⟩ := runs_ofExcept_iff.mp h₄
      obtain ⟨hid, hmem⟩ := PlanState.mem_ids_of_findStep hfind.symm
      obtain ⟨result, hruns, hresult⟩ := runs_mapError_iff.mp hrunning
      cases result with
      | error error => simp [Except.mapError] at hresult
      | ok own' =>
          cases hresult
          have hunfinished : step.id ∉ own.finishedStepIds :=
            not_mem_finishedStepIds_of_pending (by rw [hunadvanced.status, hid]; exact hpending)
          have hending := runs_runStepWithRecovery_ok (hid ▸ hmem) hunfinished hruns
          rw [hid] at hending
          have hrouter : ∀ other, replacements other routing = [] := fun other =>
            replacements_of_asks ((asks_routerNode state).mono (fun op hop => by
              cases op <;> simp [routerMayAsk, Op.replaces] at hop ⊢) fun _ h => h) hrouting
          refine ⟨ended, ?_, .ended hmet.symm ?_⟩
          · exact planState_recordOutput hrecord.symm
          · have hall := (Ending.of_unadvanced hunadvanced hending).prepend hrouter
            simpa using hall

/-! ## One branch -/

section Branch

variable {digest : Snapshot → String} {graph : Graph} {policy : ExecutionPolicy}
  {executionGraph events : Ref}

theorem replaces_of_bookkeeping {op : Op} (h : op.bookkeeping = true) (stepId : Int) :
    op.replaces stepId = false := by
  cases op <;> simp [Op.bookkeeping, Op.replaces] at h ⊢

theorem replacements_of_bookkept {trace : List Event} (h : Bookkept trace) (stepId : Int) :
    replacements stepId trace = [] :=
  List.filterMap_eq_nil_iff.mpr fun event hmem =>
    replacement_eq_none (replaces_of_bookkeeping (h event hmem) stepId)

theorem NodeEnding.surround {config : ExecutorConfig} {stepId : Int} {before after : PlanState}
    {first own last : List Event} (h : NodeEnding config stepId before own after)
    (hfirst : Bookkept first) (hlast : Bookkept last) :
    NodeEnding config stepId before (first ++ (own ++ last)) after := by
  have hnone : ∀ other, replacements other first = [] := replacements_of_bookkept hfirst
  have hnone' : ∀ other, replacements other last = [] := replacements_of_bookkept hlast
  cases h with
  | passed hunmet hown => exact .passed hunmet fun other => by simp [hnone, hnone', hown]
  | ended hmet h =>
      refine .ended hmet ?_
      cases h with
      | settled h hown => exact .settled h fun other => by simp [hnone, hnone', hown]
      | replaced hpolicy answer h hown =>
          exact .replaced hpolicy answer h fun other => by simp [hnone, hnone', hown]

/-- A branch leaves the plan state as its step node does. -/
theorem runs_stepBranch_ok {stepId : Int} (hmode : policy.mode ≠ .replay)
    (hnode : graph.nodes (stepNodeId stepId) = some (stepNode deps stepId))
    {state updated : AgentState} {before : PlanState} {sequence : Nat} {trace : List Event}
    (hplan : state.planState = some before)
    (hpending : before.stepStatus.get? stepId = some .pending)
    (h : Runs (runBranch digest graph policy executionGraph events state (stepNodeId stepId)
      sequence) trace (.ok updated)) :
    ∃ own, updated.planState = some own ∧ NodeEnding deps.executor stepId before trace own := by
  obtain ⟨ref, own, first, last, hown, hfirst, hlast, -, -, rfl⟩ := runs_runBranch h
  obtain ⟨after, record, versionId, inner, innerFirst, innerLast, hinner, rfl, hinnerFirst,
    hinnerLast, rfl⟩ := runs_executeNode_ok hnode hmode hown
  have hstarted : (startNode digest (stepNodeId stepId)
      { state with executionGraph := ref }).planState = some before := hplan
  obtain ⟨plan, hafter, hending⟩ := runs_stepNode_ok hstarted hpending hinner
  exact ⟨plan, hafter, (hending.surround hinnerFirst hinnerLast).surround hfirst hlast⟩

end Branch

/-! ## The merge -/

theorem returns_deepMerge (left right : AgentState) : Program.Returns (S := runtimeSig)
    (fun merged => merged.planState = right.planState.orElse fun _ => left.planState)
    (deepMerge left right) := by
  unfold deepMerge
  refine Program.Respects.bind (Q := fun _ => True) ?_ fun _ _ => rfl
  unfold mergeExecutionGraphs
  split
  · trivial
  · trivial
  · exact respects_asking trivial fun _ => trivial

/-- Merging takes over the plan state of the last branch. -/
theorem returns_mergeStates {strategy : MergeStrategy}
    (hstrategy : strategy = .deepMerge ∨ strategy = .mergeLists) (base : AgentState)
    (branches : List AgentState) (last : AgentState) (hlast : last.planState.isSome = true) :
    Program.Returns (S := runtimeSig) (fun merged => merged.planState = last.planState)
      (mergeStates strategy base (branches ++ [last])) := by
  have hpair : ∀ left right : AgentState, Program.Returns (S := runtimeSig)
      (fun merged => merged.planState = right.planState.orElse fun _ => left.planState)
      (mergePair strategy left right) := by
    intro left right
    rcases hstrategy with rfl | rfl
    · exact returns_deepMerge left right
    · exact (returns_deepMerge left right).bind fun _ h => h
  induction branches generalizing base with
  | nil =>
      refine (hpair base last).bind fun merged hmerged => ?_
      obtain ⟨own, hown⟩ := Option.isSome_iff_exists.mp hlast
      rw [hown] at hmerged ⊢
      exact hmerged
  | cons branch rest ih => exact (hpair base branch).bind fun merged _ => ih merged

/-! ## What is kept -/

/-- The merged plan state holds what each branch recorded for its step, and what the base
state held for every other step. -/
structure KeepsUpdates (base : PlanState) (stepIds : List Int) (branches : List AgentState)
    (merged : PlanState) : Prop where
  branch : ∀ branch stepId, (branch, stepId) ∈ branches.zip stepIds →
    ∀ own, branch.planState = some own →
      merged.stepStatus.get? stepId = own.stepStatus.get? stepId ∧
      merged.stepResults.get? stepId = own.stepResults.get? stepId
  others : ∀ stepId, stepId ∉ stepIds →
    (∀ status, base.stepStatus.get? stepId = some status →
      merged.stepStatus.get? stepId = some status) ∧
    (∀ result, base.stepResults.get? stepId = some result →
      merged.stepResults.get? stepId = some result)

/-- The status of a step after a replan with this answer, or without a replan. -/
def leftStatus (base : PlanState) (answer : Option (List PlanStep)) (stepId : Int) :
    Option StepStatus :=
  match answer with
  | none => base.stepStatus.get? stepId
  | some steps =>
      if base.Renumbered steps stepId then some .pending
      else if stepId ∈ base.removedIds then none else base.stepStatus.get? stepId

/-- The result of a step after a replan with this answer, or without a replan. -/
def leftResult (base : PlanState) (answer : Option (List PlanStep)) (stepId : Int) :
    Option StepResult :=
  match answer with
  | none => base.stepResults.get? stepId
  | some _ => if stepId ∈ base.removedIds then none else base.stepResults.get? stepId

/-- No branch but the last has anything to record: its step's dependencies are not met, or
the step is replaced; and the replacements the planner gave, if any, treat its step and the
steps outside the level alike. -/
structure NothingToLose (base : PlanState) (front : List Int) (last : Int)
    (answer : Int → Option (List PlanStep)) : Prop where
  branches : ∀ stepId ∈ front,
    (base.dependenciesMet stepId = .ok false ∨ (answer stepId).isSome = true) ∧
    leftStatus base (answer stepId) stepId = leftStatus base (answer last) stepId ∧
    leftResult base (answer stepId) stepId = leftResult base (answer last) stepId
  others : ∀ stepId, stepId ∉ front ++ [last] →
    (∀ status, base.stepStatus.get? stepId = some status →
      leftStatus base (answer last) stepId = some status) ∧
    (∀ result, base.stepResults.get? stepId = some result →
      leftResult base (answer last) stepId = some result)

/-- The replacement the planner gave for a failed step, if it was asked for one. -/
def answerFor (trace : List Event) (stepId : Int) : Option (List PlanStep) :=
  (replacements stepId trace).head?

section Endings

variable {config : ExecutorConfig} {stepId : Int} {before after : PlanState} {trace : List Event}

/-- At any other step a branch leaves what its replan leaves. -/
theorem NodeEnding.left_of_ne (h : NodeEnding config stepId before trace after) {other : Int}
    (hother : other ≠ stepId) :
    after.stepStatus.get? other = leftStatus before (answerFor trace stepId) other ∧
    after.stepResults.get? other = leftResult before (answerFor trace stepId) other := by
  cases h with
  | passed _ hnone => simp [answerFor, hnone, leftStatus, leftResult]
  | ended _ h =>
      cases h with
      | settled hsettled hnone =>
          obtain ⟨result, -, hstatus, hresults, -⟩ := hsettled
          simp [answerFor, hnone, leftStatus, leftResult, hstatus, hresults, hother]
      | replaced _ answer hreplaced hown =>
          simp [answerFor, hown, leftStatus, leftResult, hreplaced.status, hreplaced.results]

/-- At its own step a branch that passed by or was replaced leaves what its replan leaves;
otherwise the step has finished. -/
theorem NodeEnding.left_self (h : NodeEnding config stepId before trace after) :
    ((before.dependenciesMet stepId = .ok false ∨ (answerFor trace stepId).isSome = true) ∧
      after.stepStatus.get? stepId = leftStatus before (answerFor trace stepId) stepId ∧
      after.stepResults.get? stepId = leftResult before (answerFor trace stepId) stepId) ∨
    (before.dependenciesMet stepId = .ok true ∧ (answerFor trace stepId).isSome = false ∧
      ∃ status, status.finished = true ∧ after.stepStatus.get? stepId = some status) := by
  cases h with
  | passed hunmet hnone =>
      exact Or.inl ⟨Or.inl hunmet, by simp [answerFor, hnone, leftStatus, leftResult]⟩
  | ended hmet h =>
      cases h with
      | settled hsettled hnone =>
          obtain ⟨result, hfinished, hstatus, -, -⟩ := hsettled
          exact Or.inr ⟨hmet, by simp [answerFor, hnone], result.status, hfinished,
            by rw [hstatus, if_pos rfl]⟩
      | replaced _ answer hreplaced hown =>
          refine Or.inl ⟨Or.inr (by simp [answerFor, hown]), ?_⟩
          simp [answerFor, hown, leftStatus, leftResult, hreplaced.status, hreplaced.results]

/-- What a replan leaves of a pending step is never finished. -/
theorem leftStatus_of_pending {answer : Option (List PlanStep)} {status : StepStatus}
    (hpending : before.stepStatus.get? stepId = some .pending)
    (h : leftStatus before answer stepId = some status) : status = .pending := by
  cases answer with
  | none => exact (Option.some.inj (hpending.symm.trans h)).symm
  | some steps =>
      simp only [leftStatus, hpending] at h
      split at h
      · exact (Option.some.inj h).symm
      · split at h
        · cases h
        · exact (Option.some.inj h).symm

end Endings

section FanIn

variable {digest : Snapshot → String} {graph : Graph} {policy : ExecutionPolicy}
  {executionGraph events : Ref}

/-- The run of a branch, and how it leaves the plan state. -/
def BranchEnds (config : ExecutorConfig) (before : PlanState) (run : BranchRun) (stepId : Int) :
    Prop :=
  ∃ own, run.value.planState = some own ∧ NodeEnding config stepId before run.trace own

/-- Every run of the branches' tasks ends like a step node. -/
theorem branchEnds_of_tasks (hmode : policy.mode ≠ .replay) {state : AgentState}
    {before : PlanState} (hplan : state.planState = some before) {stepIds : List Int}
    (hpending : ∀ stepId ∈ stepIds, before.stepStatus.get? stepId = some .pending)
    (hnodes : ∀ stepId ∈ stepIds,
      graph.nodes (stepNodeId stepId) = some (stepNode deps stepId))
    {sequence start : Nat} {runs : List BranchRun}
    (htasks : runs.map TaskRun.task =
      ((stepIds.map stepNodeId).zipIdx start).map fun entry =>
        runBranch digest graph policy executionGraph events state entry.1 (sequence + entry.2))
    (hvalid : ∀ run ∈ runs, TaskRun.Valid Op.suspends run) :
    List.Forall₂ (BranchEnds deps.executor before) runs stepIds := by
  induction stepIds generalizing start runs with
  | nil =>
      obtain rfl := List.map_eq_nil_iff.mp htasks
      exact .nil
  | cons stepId rest ih =>
      cases runs with
      | nil => simp at htasks
      | cons run runs =>
          simp only [List.map_cons, List.zipIdx_cons, List.cons.injEq] at htasks
          obtain ⟨htask, hrest⟩ := htasks
          have hrun := (hvalid run List.mem_cons_self).runs
          rw [htask] at hrun
          exact .cons (runs_stepBranch_ok hmode (hnodes _ List.mem_cons_self) hplan
              (hpending _ List.mem_cons_self) hrun)
            (ih (fun own hmem => hpending own (List.mem_cons_of_mem _ hmem))
              (fun own hmem => hnodes own (List.mem_cons_of_mem _ hmem)) hrest
              fun own hmem => hvalid own (List.mem_cons_of_mem _ hmem))

variable {config : ExecutorConfig} {before : PlanState}

/-- A branch is asked for no replacement but of its own step. -/
theorem BranchEnds.replacements_of_ne {run : BranchRun} {stepId other : Int}
    (h : BranchEnds config before run stepId) (hother : other ≠ stepId) :
    replacements other run.trace = [] := by
  obtain ⟨own, -, hending⟩ := h
  cases hending with
  | passed _ hnone => exact hnone other
  | ended _ h =>
      cases h with
      | settled _ hnone => exact hnone other
      | replaced _ answer _ hown => rw [hown, if_neg hother]

theorem replacements_flatMap_of_not_mem {runs : List BranchRun} {stepIds : List Int}
    (h : List.Forall₂ (BranchEnds config before) runs stepIds) {stepId : Int}
    (hnot : stepId ∉ stepIds) : replacements stepId (runs.flatMap TaskRun.trace) = [] := by
  induction h with
  | nil => rfl
  | cons hfirst _ ih =>
      obtain ⟨hne, hrest⟩ := not_or.mp (List.mem_cons.not.mp hnot)
      rw [List.flatMap_cons, replacements_append, hfirst.replacements_of_ne hne, ih hrest,
        List.append_nil]

/-- Of all branches together, only the one of a step is asked for its replacement. -/
theorem replacements_flatMap {runs : List BranchRun} {stepIds : List Int}
    (h : List.Forall₂ (BranchEnds config before) runs stepIds) (hnodup : stepIds.Nodup)
    {run : BranchRun} {stepId : Int} (hmem : (run, stepId) ∈ runs.zip stepIds) :
    replacements stepId (runs.flatMap TaskRun.trace) = replacements stepId run.trace := by
  induction h with
  | nil => simp at hmem
  | @cons first firstId runs stepIds hfirst hrest ih =>
      obtain ⟨hnot, hnodup⟩ := List.nodup_cons.mp hnodup
      rw [List.flatMap_cons, replacements_append]
      rcases List.mem_cons.mp hmem with heq | hmem
      · obtain ⟨rfl, rfl⟩ := Prod.mk.inj heq
        rw [replacements_flatMap_of_not_mem hrest hnot, List.append_nil]
      · have hne : stepId ≠ firstId := fun heq => hnot (heq ▸ (List.of_mem_zip hmem).2)
        rw [hfirst.replacements_of_ne hne, ih hnodup hmem, List.nil_append]

/-- The answer for a step can be read off any interleaving of the branches. -/
theorem answerFor_interleaved {runs : List BranchRun} {stepIds : List Int}
    (h : List.Forall₂ (BranchEnds config before) runs stepIds) (hnodup : stepIds.Nodup)
    {run : BranchRun} {stepId : Int} (hmem : (run, stepId) ∈ runs.zip stepIds)
    {trace : List Event} (hperm : (runs.flatMap TaskRun.trace).Perm trace) :
    answerFor trace stepId = answerFor run.trace stepId := by
  have hall : (replacements stepId run.trace).Perm (replacements stepId trace) :=
    (List.Perm.of_eq (replacements_flatMap h hnodup hmem).symm).trans (hperm.filterMap _)
  obtain ⟨own, -, hending⟩ := List.forall₂_zip h hmem
  have hshort : replacements stepId run.trace = [] ∨
      ∃ answer, replacements stepId run.trace = [answer] := by
    cases hending with
    | passed _ hnone => exact Or.inl (hnone stepId)
    | ended _ h =>
        cases h with
        | settled _ hnone => exact Or.inl (hnone stepId)
        | replaced _ answer _ hown => exact Or.inr ⟨answer, by rw [hown, if_pos rfl]⟩
  unfold answerFor
  rcases hshort with hnone | ⟨answer, hanswer⟩
  · rw [hnone] at hall ⊢
    rw [List.nil_perm.mp hall]
  · rw [hanswer] at hall ⊢
    rw [List.perm_singleton.mp hall.symm]

theorem exists_mem_zip {α β : Type} {first : List α} {second : List β}
    (hlength : first.length = second.length) {item : β} (h : item ∈ second) :
    ∃ other, (other, item) ∈ first.zip second := by
  obtain ⟨index, hindex, rfl⟩ := List.mem_iff_getElem.mp h
  exact ⟨first[index], List.mem_iff_getElem.mpr ⟨index, by simp [hlength, hindex], by simp⟩⟩

/-- The branches of a level, the last of them apart. -/
theorem exists_lastRun {runs : List BranchRun} {front : List Int} {last : Int}
    (h : List.Forall₂ (BranchEnds config before) runs (front ++ [last])) :
    ∃ firsts lastRun, runs = firsts ++ [lastRun] ∧
      List.Forall₂ (BranchEnds config before) firsts front ∧
      BranchEnds config before lastRun last := by
  have hfirsts := List.forall₂_take_append _ _ _ h
  have hdrop := List.forall₂_drop_append _ _ _ h
  cases hrest : runs.drop front.length with
  | nil => simp [hrest] at hdrop
  | cons lastRun more =>
      rw [hrest] at hdrop
      obtain ⟨hlast, hmore⟩ := List.forall₂_cons.mp hdrop
      obtain rfl := List.forall₂_nil_right_iff.mp hmore
      exact ⟨_, lastRun, by rw [← hrest, List.take_append_drop], hfirsts, hlast⟩

/-! ### What the last branch leaves -/

section LastBranch

variable {firsts : List BranchRun} {lastRun : BranchRun} {front : List Int} {last : Int}
  {answer : Int → Option (List PlanStep)} {plan : PlanState}
  (hfirsts : List.Forall₂ (BranchEnds config before) firsts front)
  (hlast : last ∉ front)
  (hanswer : ∀ run stepId, (run, stepId) ∈ firsts.zip front →
    answer stepId = answerFor run.trace stepId)
  (hleft : ∀ stepId, stepId ≠ last →
    plan.stepStatus.get? stepId = leftStatus before (answer last) stepId ∧
    plan.stepResults.get? stepId = leftResult before (answer last) stepId)

include hfirsts hlast hanswer hleft

/-- What keeps every update keeps those of the front, so the front had none of its own. -/
theorem nothingToLose_of_keepsUpdates
    (hpending : ∀ stepId ∈ front, before.stepStatus.get? stepId = some .pending)
    (hkeeps : KeepsUpdates before (front ++ [last])
      ((firsts ++ [lastRun]).map TaskRun.value) plan) :
    NothingToLose before front last answer := by
  constructor
  · intro stepId hmem
    obtain ⟨run, hrun⟩ := exists_mem_zip hfirsts.length_eq hmem
    obtain ⟨own, hown, hending⟩ := List.forall₂_zip hfirsts hrun
    have hbranch : (run.value, stepId) ∈
        ((firsts ++ [lastRun]).map TaskRun.value).zip (front ++ [last]) := by
      rw [List.zip_map_left, List.zip_append hfirsts.length_eq]
      exact List.mem_map.mpr ⟨_, List.mem_append_left _ hrun, rfl⟩
    obtain ⟨hstatus, hresult⟩ := hkeeps.branch run.value stepId hbranch own hown
    obtain ⟨hleftStatus, hleftResult⟩ := hleft stepId (ne_of_mem_of_not_mem hmem hlast)
    rw [hanswer run stepId hrun]
    rcases hending.left_self with ⟨hpassed, hself, hselfResult⟩ |
      ⟨-, -, status, hfinished, hself⟩
    · exact ⟨hpassed, by rw [← hself, ← hstatus, hleftStatus],
        by rw [← hselfResult, ← hresult, hleftResult]⟩
    · -- a finished step of the front would still be pending in the last branch
      have hpendingStatus := leftStatus_of_pending (hpending stepId hmem)
        (hleftStatus.symm.trans (hstatus.trans hself))
      rw [hpendingStatus] at hfinished
      cases hfinished
  · intro stepId hnot
    have hne : stepId ≠ last := fun heq => hnot (by simp [heq])
    obtain ⟨hleftStatus, hleftResult⟩ := hleft stepId hne
    rw [← hleftStatus, ← hleftResult]
    exact hkeeps.others stepId hnot

/-- If the front has nothing to lose, what the last branch leaves keeps every update. -/
theorem keepsUpdates_of_nothingToLose (hplan : lastRun.value.planState = some plan)
    (hlose : NothingToLose before front last answer) :
    KeepsUpdates before (front ++ [last]) ((firsts ++ [lastRun]).map TaskRun.value) plan := by
  constructor
  · intro branch stepId hmem own hown
    rw [List.zip_map_left, List.zip_append hfirsts.length_eq, List.map_append] at hmem
    rcases List.mem_append.mp hmem with hfront | hend
    · obtain ⟨⟨run, own'⟩, hrun, heq⟩ := List.mem_map.mp hfront
      obtain ⟨rfl, rfl⟩ : branch = run.value ∧ stepId = own' :=
        ⟨(congrArg Prod.fst heq).symm, (congrArg Prod.snd heq).symm⟩
      have hstep : stepId ∈ front := (List.of_mem_zip hrun).2
      obtain ⟨plan', hplan', hending⟩ := List.forall₂_zip hfirsts hrun
      cases hown.symm.trans hplan'
      obtain ⟨hleftStatus, hleftResult⟩ := hleft stepId (ne_of_mem_of_not_mem hstep hlast)
      obtain ⟨hnothing, hstatus, hresult⟩ := hlose.branches stepId hstep
      rw [hanswer run stepId hrun] at hnothing hstatus hresult
      rcases hending.left_self with ⟨-, hself, hselfResult⟩ | ⟨hmet, hnone, -⟩
      · exact ⟨by rw [hleftStatus, ← hstatus, hself], by rw [hleftResult, ← hresult, hselfResult]⟩
      · rcases hnothing with hunmet | hsome
        · rw [hmet] at hunmet
          cases hunmet
        · rw [hnone] at hsome
          cases hsome
    · cases List.mem_singleton.mp hend
      cases hown.symm.trans hplan
      exact ⟨rfl, rfl⟩
  · intro stepId hnot
    have hne : stepId ≠ last := fun heq => hnot (by simp [heq])
    obtain ⟨hleftStatus, hleftResult⟩ := hleft stepId hne
    rw [hleftStatus, hleftResult]
    exact hlose.others stepId hnot

end LastBranch

/-- The fan-in keeps every update exactly when no branch but the last has one to lose. -/
theorem keepsUpdates_iff (hmode : policy.mode ≠ .replay) {strategy : MergeStrategy}
    (hstrategy : strategy = .deepMerge ∨ strategy = .mergeLists) {front : List Int} {last : Int}
    (hnodup : (front ++ [last]).Nodup) {base : AgentState} {before : PlanState}
    (hplan : base.planState = some before)
    (hpending : ∀ stepId ∈ front ++ [last], before.stepStatus.get? stepId = some .pending)
    (hnodes : ∀ stepId ∈ front ++ [last],
      graph.nodes (stepNodeId stepId) = some (stepNode deps stepId))
    {source joinNode : String} {sequence : Nat} {order : List Nat} {trace : List Event}
    {branches : List AgentState}
    (hbranches : Runs (Program.gather Op.suspends order (branchTasks digest graph policy
      executionGraph events ⟨source, (front ++ [last]).map stepNodeId, joinNode⟩ base sequence))
      trace (.ok branches))
    {mergeTrace : List Event} {merged : AgentState}
    (hmerge : Runs (mergeStates strategy base branches) mergeTrace (.ok merged)) :
    ∃ plan, merged.planState = some plan ∧ (KeepsUpdates before (front ++ [last]) branches plan ↔
      NothingToLose before front last (answerFor trace)) := by
  obtain ⟨runs, htasks, rfl, hvalid, rest, rfl, hresumed⟩ := runs_gather_ok hbranches
  have hperm := flatMap_trace_perm hresumed
  have hends := branchEnds_of_tasks hmode hplan hpending hnodes htasks hvalid
  obtain ⟨firsts, lastRun, rfl, hfirsts, plan, hplanLast, hlastEnding⟩ := exists_lastRun hends
  have hlast : last ∉ front := fun hmem =>
    (List.nodup_append.mp hnodup).2.2 last hmem last (List.mem_singleton_self _) rfl
  have hzip : (firsts ++ [lastRun]).zip (front ++ [last]) = firsts.zip front ++ [(lastRun, last)] :=
    List.zip_append hfirsts.length_eq
  have hanswer : ∀ run stepId,
      (run, stepId) ∈ (firsts ++ [lastRun]).zip (front ++ [last]) →
      answerFor ((firsts ++ [lastRun]).flatMap TaskRun.started ++ rest) stepId =
        answerFor run.trace stepId :=
    fun _ _ hmem => answerFor_interleaved hends hnodup hmem hperm
  -- the plan state of the last branch replaces all others
  have hmerged : merged.planState = some plan := by
    have hreturns := returns_mergeStates hstrategy base (firsts.map TaskRun.value) lastRun.value
      (by rw [hplanLast]; rfl)
    rw [List.map_append] at hmerge
    exact (hreturns.returns_of_runs hmerge).trans hplanLast
  have hanswerFront := fun run stepId hmem =>
    hanswer run stepId (hzip ▸ List.mem_append_left _ hmem)
  -- away from the last step the merged state is what the replan of the last branch leaves
  have hleft : ∀ stepId, stepId ≠ last →
      plan.stepStatus.get? stepId = leftStatus before
        (answerFor ((firsts ++ [lastRun]).flatMap TaskRun.started ++ rest) last) stepId ∧
      plan.stepResults.get? stepId = leftResult before
        (answerFor ((firsts ++ [lastRun]).flatMap TaskRun.started ++ rest) last) stepId := by
    intro stepId hne
    rw [hanswer lastRun last (hzip ▸ List.mem_append_right _ (List.mem_singleton_self _))]
    exact hlastEnding.left_of_ne hne
  refine ⟨plan, hmerged, ?_, ?_⟩
  · exact nothingToLose_of_keepsUpdates hfirsts hlast hanswerFront hleft
      fun stepId hmem => hpending stepId (List.mem_append_left _ hmem)
  · exact keepsUpdates_of_nothingToLose hfirsts hlast hanswerFront hleft hplanLast

end FanIn

/-! ## Two levels -/

/-- Steps of a compiled plan run in parallel on a fresh state, and merged. -/
def runLevel (registry : List String) (plan : Plan) (stepIds : List Int) :
    Runtime (List AgentState × AgentState) := do
  let deps := plainDependencies .skip registry {}
  let fanOut : ParallelFanOut := ⟨"level_0", stepIds.map stepNodeId, "join_0"⟩
  let branches ← Program.gather Op.suspends [] (branchTasks deps.digest
    (compile deps .deepMerge plan) {} 0 0 fanOut (freshState plan) 0)
  let merged ← mergeStates .deepMerge (freshState plan) branches
  pure (branches, merged)

def levelRun (registry : List String) (plan : Plan) (stepIds : List Int) :
    Outcome runtimeSig RaisedError (List AgentState × AgentState) (SharedObjects × Unit) :=
  Components.exec {} {} (runLevel registry plan stepIds)

/-- Such a run is a run of the branches followed by one of the merge. -/
theorem exists_runs_levelRun {registry : List String} {plan : Plan} {stepIds : List Int}
    (h : (levelRun registry plan stepIds).result.isOk = true) :
    ∃ trace branches mergeTrace merged,
      (levelRun registry plan stepIds).result = .ok (branches, merged) ∧
      Runs (Program.gather Op.suspends [] (branchTasks (fun _ => "")
        (compile (plainDependencies .skip registry {}) .deepMerge plan) {} 0 0
        ⟨"level_0", stepIds.map stepNodeId, "join_0"⟩ (freshState plan) 0)) trace (.ok branches) ∧
      Runs (mergeStates .deepMerge (freshState plan) branches) mergeTrace (.ok merged) := by
  obtain ⟨value, hresult⟩ : ∃ value, (levelRun registry plan stepIds).result = .ok value := by
    cases hresult : (levelRun registry plan stepIds).result with
    | ok value => exact ⟨value, rfl⟩
    | error error => simp [hresult, Except.isOk, Except.toBool] at h
  have hrun := (Components.runs_exec {} {} (runLevel registry plan stepIds)).1
  change Runs _ _ (levelRun registry plan stepIds).result at hrun
  rw [hresult] at hrun
  obtain ⟨branches, trace, second, hbranches, hafter, -⟩ := runs_bind_ok_iff.mp hrun
  obtain ⟨merged, mergeTrace, last, hmerge, hpure, -⟩ := runs_bind_ok_iff.mp hafter
  cases (runs_pure_iff.mp hpure).2
  exact ⟨trace, branches, mergeTrace, merged, hresult, hbranches, hmerge⟩

/-- Branches whose steps' dependencies are not met have nothing to lose. -/
def waitingPlan : Plan where
  goal := "查询上海和北京天气"
  steps :=
    [⟨1, "查询上海天气", some "weather", some [3]⟩, ⟨2, "查询北京天气", some "weather", none⟩,
      ⟨3, "规划路线", some "map", none⟩]

theorem keepsUpdates_iff_waitingPlan :
    ∃ trace branches mergeTrace merged,
      Runs (Program.gather Op.suspends [] (branchTasks (fun _ => "")
        (compile (plainDependencies .skip ["weather", "map"] {}) .deepMerge waitingPlan) {} 0 0
        ⟨"level_0", [1, 2].map stepNodeId, "join_0"⟩ (freshState waitingPlan) 0)) trace
        (.ok branches) ∧
      Runs (mergeStates .deepMerge (freshState waitingPlan) branches) mergeTrace (.ok merged) ∧
      ∃ plan, merged.planState = some plan ∧
        (KeepsUpdates (.fromPlan waitingPlan "default") [1, 2] branches plan ↔
          NothingToLose (.fromPlan waitingPlan "default") [1] 2 (answerFor trace)) := by
  obtain ⟨trace, branches, mergeTrace, merged, -, hbranches, hmerge⟩ := exists_runs_levelRun
    (show (levelRun ["weather", "map"] waitingPlan [1, 2]).result.isOk = true by decide +kernel)
  have hnodup : ([1] ++ [2] : List Int).Nodup := by decide
  have hpending : ∀ stepId ∈ ([1] ++ [2] : List Int),
      (PlanState.fromPlan waitingPlan "default").stepStatus.get? stepId = some .pending := by
    decide +kernel
  have hnodes : ∀ stepId ∈ ([1] ++ [2] : List Int),
      (compile (plainDependencies .skip ["weather", "map"] {}) .deepMerge waitingPlan).nodes
        (stepNodeId stepId) =
        some (stepNode (plainDependencies .skip ["weather", "map"] {}) stepId) := by
    intro stepId hmem
    rcases List.mem_cons.mp hmem with rfl | hmem
    · rfl
    · cases List.mem_singleton.mp hmem
      rfl
  exact ⟨trace, branches, mergeTrace, merged, hbranches, hmerge,
    keepsUpdates_iff (show ExecutionPolicy.mode {} ≠ .replay by decide) (Or.inl rfl) hnodup rfl
      hpending hnodes hbranches hmerge⟩

/-- Of the first two weather queries only the second is recorded. -/
theorem dualCityPlan_loses_update :
    ∃ trace branches mergeTrace merged plan,
      Runs (Program.gather Op.suspends [] (branchTasks (fun _ => "")
        (compile (plainDependencies .skip ["weather", "map", "budget"] {}) .deepMerge dualCityPlan)
        {} 0 0 ⟨"level_0", [1, 2].map stepNodeId, "join_0"⟩ (freshState dualCityPlan) 0)) trace
        (.ok branches) ∧
      Runs (mergeStates .deepMerge (freshState dualCityPlan) branches) mergeTrace (.ok merged) ∧
      merged.planState = some plan ∧
      ¬KeepsUpdates (.fromPlan dualCityPlan "default") [1, 2] branches plan := by
  obtain ⟨trace, branches, mergeTrace, merged, hresult, hbranches, hmerge⟩ := exists_runs_levelRun
    (show (levelRun ["weather", "map", "budget"] dualCityPlan [1, 2]).result.isOk = true by
      decide +kernel)
  -- the first branch has finished its step, in the merged state it is pending
  have hstatuses : ((levelRun ["weather", "map", "budget"] dualCityPlan [1, 2]).result.toOption.bind
      fun value => value.1.head?.bind fun branch => branch.planState.bind fun own =>
        value.2.planState.map fun plan => (own.stepStatus.get? 1, plan.stepStatus.get? 1)) =
      some (some .completed, some .pending) := by decide +kernel
  rw [hresult, Except.toOption, Option.bind_some] at hstatuses
  obtain ⟨branch, hbranch, hstatuses⟩ := Option.bind_eq_some_iff.mp hstatuses
  obtain ⟨own, hown, hstatuses⟩ := Option.bind_eq_some_iff.mp hstatuses
  obtain ⟨plan, hplan, hstatuses⟩ := Option.map_eq_some_iff.mp hstatuses
  obtain ⟨hdone, hpending⟩ := Prod.mk.inj hstatuses
  refine ⟨trace, branches, mergeTrace, merged, plan, hbranches, hmerge, hplan, fun hkeeps => ?_⟩
  have hmem : (branch, 1) ∈ branches.zip ([1, 2] : List Int) := by
    obtain ⟨rest, rfl⟩ := List.head?_eq_some_iff.mp hbranch
    exact List.mem_cons_self
  have hstatus := (hkeeps.branch branch 1 hmem own hown).1
  rw [hpending, hdone] at hstatus
  cases hstatus

end PlanGraphCompiler

end TripGraph
