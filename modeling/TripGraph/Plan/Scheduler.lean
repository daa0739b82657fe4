import TripGraph.Foundation.Monitor
import TripGraph.Plan.Attempts
import TripGraph.Plan.Renewal

/-! # The plan executor as a scheduler

The finished steps are the first ones of the plan, and the step after them can always be
run. Of a run we read, from its trace, the attempts it makes and the plan states it hands to
its execution graph: the first when it starts, one at the end of each round of its loop, and
one after each replan.
-/

namespace TripGraph

open Interaction PlanValidator

/-- A plan whose steps are numbered from one and depend on prior steps. -/
structure Plan.Sequential (plan : Plan) : Prop where
  ids : plan.ids.Perm (expectedIds plan.steps.length)
  deps : ∀ step ∈ plan.steps, ∀ dep ∈ step.deps, dep ∈ plan.ids ∧ dep < step.id

theorem Plan.WellFormed.sequential {registry : List String} {plan : Plan}
    (h : plan.WellFormed registry) : plan.Sequential := ⟨h.ids, h.deps⟩

namespace Plan.Sequential

variable {plan : Plan}

theorem ids_nodup (h : plan.Sequential) : plan.ids.Nodup :=
  h.ids.nodup_iff.mpr (expectedIds_nodup _)

theorem mem_ids_iff (h : plan.Sequential) {stepId : Int} :
    stepId ∈ plan.ids ↔ 1 ≤ stepId ∧ stepId ≤ plan.steps.length := by
  rw [h.ids.mem_iff, mem_expectedIds]

theorem exists_step (h : plan.Sequential) {finished : Nat} (hlt : finished < plan.steps.length) :
    ∃ step ∈ plan.steps, step.id = finished + 1 :=
  List.mem_map.mp (h.mem_ids_iff.mpr ⟨by omega, by omega⟩)

end Plan.Sequential

namespace PlanState

/-- The steps up to `finished` are finished, and those after it pending. -/
structure Front (finished : Nat) (state : PlanState) : Prop where
  sequential : state.plan.Sequential
  le_length : finished ≤ state.plan.steps.length
  mem_finished : ∀ stepId, stepId ∈ state.finishedStepIds ↔ 1 ≤ stepId ∧ stepId ≤ finished
  pending : ∀ stepId : Int, finished < stepId → stepId ≤ state.plan.steps.length →
    state.stepStatus.get? stepId = some .pending

theorem getStepStatus_of_get? {state : PlanState} {stepId : Int} {status : StepStatus}
    (h : state.stepStatus.get? stepId = some status) : state.getStepStatus stepId = .ok status := by
  rw [getStepStatus, h]

theorem settled_of_finished {status : StepStatus} (h : status.finished = true) :
    status.settled = true := by
  cases status <;> first | rfl | cases h

namespace Front

variable {finished : Nat} {state : PlanState}

theorem fresh {plan : Plan} (h : plan.Sequential) (sessionId : String) :
    Front 0 (fromPlan plan sessionId) := by
  have hstatus := fromPlan_status h.ids_nodup sessionId
  refine ⟨h, Nat.zero_le _, fun stepId => ?_, fun stepId hlow hhigh => ?_⟩
  · rw [mem_finishedStepIds_iff, hstatus]
    constructor
    · rintro ⟨status, hget, hfinished⟩
      split at hget
      · cases hget
        cases hfinished
      · cases hget
    · intro hbounds
      omega
  · exact (hstatus stepId).trans (if_pos (h.mem_ids_iff.mpr ⟨by omega, hhigh⟩))

/-- A step of the plan is finished or pending. -/
theorem status (h : Front finished state) {step : PlanStep} (hstep : step ∈ state.plan.steps) :
    if step.id ≤ finished then
      ∃ status, state.stepStatus.get? step.id = some status ∧ status.finished = true
    else state.stepStatus.get? step.id = some .pending := by
  have hbounds := h.sequential.mem_ids_iff.mp (List.mem_map_of_mem hstep)
  split
  next hle => exact (mem_finishedStepIds_iff _ _).mp ((h.mem_finished _).mpr ⟨hbounds.1, hle⟩)
  next hgt => exact h.pending _ (not_le.mp hgt) hbounds.2

theorem isSome_status (h : Front finished state) {step : PlanStep}
    (hstep : step ∈ state.plan.steps) : (state.stepStatus.get? step.id).isSome := by
  have hstatus := h.status hstep
  split at hstatus
  next =>
    obtain ⟨status, hget, -⟩ := hstatus
    rw [hget]
    rfl
  next => rw [hstatus]; rfl

theorem allSettled (h : Front finished state) {steps : List PlanStep}
    (hsub : ∀ step ∈ steps, step ∈ state.plan.steps) :
    state.allSettled steps = .ok (steps.all fun step => decide (step.id ≤ finished)) := by
  induction steps with
  | nil => rfl
  | cons step rest ih =>
      obtain ⟨hstep, hrest⟩ := List.forall_mem_cons.mp hsub
      have hstatus := h.status hstep
      rw [List.all_cons]
      split at hstatus
      next hle =>
        obtain ⟨status, hget, hfinished⟩ := hstatus
        rw [PlanState.allSettled, getStepStatus_of_get? hget]
        simp [bind, Except.bind, settled_of_finished hfinished, hle, ih hrest]
      next hgt =>
        rw [PlanState.allSettled, getStepStatus_of_get? hstatus]
        simp [bind, Except.bind, pure, Except.pure, StepStatus.settled, hgt]

/-- All steps are finished when the last one is. -/
theorem allStepsFinished (h : Front finished state) :
    state.allStepsFinished = .ok (decide (finished = state.plan.steps.length)) := by
  rw [PlanState.allStepsFinished, h.allSettled fun _ hstep => hstep]
  congr 1
  rw [Bool.eq_iff_iff, List.all_eq_true, decide_eq_true_iff]
  constructor
  · intro hall
    by_contra hne
    obtain ⟨step, hstep, hid⟩ := h.sequential.exists_step (lt_of_le_of_ne h.le_length hne)
    have hle := of_decide_eq_true (hall step hstep)
    omega
  · intro heq step hstep
    have hbounds := h.sequential.mem_ids_iff.mp (List.mem_map_of_mem hstep)
    exact decide_eq_true (by omega)

/-- The dependencies of the step after the finished ones are finished. -/
theorem deps_finished (h : Front finished state) {step : PlanStep} (hstep : step ∈ state.plan.steps)
    (hid : step.id = finished + 1) : ∀ dep ∈ step.deps, dep ∈ state.finishedStepIds := by
  intro dep hdep
  obtain ⟨hmem, hlt⟩ := h.sequential.deps step hstep dep hdep
  have hbounds := h.sequential.mem_ids_iff.mp hmem
  exact (h.mem_finished dep).mpr ⟨hbounds.1, by omega⟩

theorem findStep (h : Front finished state) {step : PlanStep} (hstep : step ∈ state.plan.steps) :
    state.findStep step.id = .ok step := by
  rw [PlanState.findStep, find?_id h.sequential.ids_nodup hstep]

/-- The scan passes the finished steps and stops at the step after them. -/
theorem firstExecutable (h : Front finished state) {steps : List PlanStep}
    (hsub : ∀ step ∈ steps, step ∈ state.plan.steps)
    (hsorted : steps.Pairwise fun a b => a.id < b.id)
    (hnext : ∃ step ∈ steps, step.id = finished + 1) :
    state.firstExecutable steps = .ok (some ((finished : Int) + 1)) := by
  induction steps with
  | nil =>
      obtain ⟨step, hstep, -⟩ := hnext
      cases hstep
  | cons first rest ih =>
      obtain ⟨hfirst, hrest⟩ := List.forall_mem_cons.mp hsub
      obtain ⟨hlt, hsorted⟩ := List.pairwise_cons.mp hsorted
      have hstatus := h.status hfirst
      by_cases hid : first.id = finished + 1
      · rw [if_neg (by omega)] at hstatus
        have hmet : state.dependenciesMet first.id = .ok true := by
          have hdeps := h.deps_finished hfirst hid
          rw [dependenciesMet, h.findStep hfirst]
          exact congrArg Except.ok
            (List.all_eq_true.mpr fun dep hdep => decide_eq_true (hdeps dep hdep))
        rw [PlanState.firstExecutable, getStepStatus_of_get? hstatus, hmet, hid]
        rfl
      · obtain ⟨step, hstep, hstepId⟩ := hnext
        have hstep : step ∈ rest := by
          rcases List.mem_cons.mp hstep with rfl | hmem
          · exact absurd hstepId hid
          · exact hmem
        have hle := hlt step hstep
        rw [if_pos (by omega)] at hstatus
        obtain ⟨status, hget, hfinished⟩ := hstatus
        have hne : status ≠ .pending := by
          rintro rfl
          cases hfinished
        rw [PlanState.firstExecutable, getStepStatus_of_get? hget]
        simp [bind, Except.bind, hne, ih hrest hsorted ⟨step, hstep, hstepId⟩]

theorem nextExecutableStep (h : Front finished state) (hlt : finished < state.plan.steps.length) :
    state.nextExecutableStep = .ok (some ((finished : Int) + 1)) := by
  have hperm : (sortById state.plan.steps).Perm state.plan.steps := List.perm_insertionSort _ _
  have hsorted : (sortById state.plan.steps).Pairwise fun a b => a.id ≤ b.id :=
    List.pairwise_insertionSort _ _
  have hnodup : (sortById state.plan.steps).Pairwise fun a b => a.id ≠ b.id :=
    List.pairwise_map.mp ((hperm.map PlanStep.id).nodup_iff.mpr h.sequential.ids_nodup)
  obtain ⟨step, hstep, hid⟩ := h.sequential.exists_step hlt
  refine h.firstExecutable (fun own hown => hperm.mem_iff.mp hown) ?_
    ⟨step, hperm.mem_iff.mpr hstep, hid⟩
  exact (hsorted.and hnodup).imp fun hboth => lt_of_le_of_ne hboth.1 hboth.2

end Front

end PlanState

namespace PlanExecutor

open PlanState

variable {config : ExecutorConfig} {finished : Nat} {state after : PlanState}

/-! ## Rounds of the plan loop -/

theorem exists_of_outline (h : outline after = outline state) {step : PlanStep}
    (hstep : step ∈ after.plan.steps) :
    ∃ own ∈ state.plan.steps, own.id = step.id ∧ own.dependency = step.dependency := by
  have hmem : (step.id, step.dependency) ∈ outline after := List.mem_map.mpr ⟨step, hstep, rfl⟩
  rw [h] at hmem
  obtain ⟨own, hown, heq⟩ := List.mem_map.mp hmem
  exact ⟨own, hown, Prod.mk.inj heq⟩

theorem length_of_outline (h : outline after = outline state) :
    after.plan.steps.length = state.plan.steps.length := by
  simpa [outline] using congrArg List.length h

theorem sequential_of_outline (h : state.plan.Sequential)
    (houtline : outline after = outline state) :
    after.plan.Sequential := by
  have hids := ids_of_outline houtline
  refine ⟨?_, fun step hstep dep hdep => ?_⟩
  · rw [hids, length_of_outline houtline]
    exact h.ids
  · obtain ⟨own, hown, hid, hdependency⟩ := exists_of_outline houtline hstep
    rw [PlanStep.deps, ← hdependency] at hdep
    rw [hids, ← hid]
    exact h.deps own hown dep hdep

/-- When the step after the finished ones ends, one more step is finished. -/
theorem front_settled (h : Front finished state) (hlt : finished < state.plan.steps.length)
    (hsettled : Settled (finished + 1) state after) (houtline : outline after = outline state) :
    Front (finished + 1) after := by
  obtain ⟨result, hresult, hstatus, -, -⟩ := hsettled
  have hlength := length_of_outline houtline
  refine ⟨sequential_of_outline h.sequential houtline, by omega, fun stepId => ?_,
    fun stepId hlow hhigh => ?_⟩
  · rw [mem_finishedStepIds_iff, hstatus]
    by_cases hown : stepId = finished + 1
    · rw [if_pos hown]
      exact iff_of_true ⟨_, rfl, hresult⟩ (by omega)
    · rw [if_neg hown, ← mem_finishedStepIds_iff, h.mem_finished]
      omega
  · rw [hstatus, if_neg (by omega)]
    exact h.pending stepId (by omega) (by omega)

theorem executeLoop_of_ended (h : Front state.plan.steps.length state) (fuel : Nat) :
    executeLoop config (fuel + 1) state = pure state := by
  simp only [executeLoop, h.allStepsFinished, decide_true]
  rfl

/-- A round runs the step after the finished ones. -/
theorem executeLoop_of_front (h : Front finished state) {step : PlanStep}
    (hstep : step ∈ state.plan.steps) (hid : step.id = finished + 1) (fuel : Nat) :
    executeLoop config (fuel + 1) state = (do
      let ended ← runStepWithRecovery config step state
      syncGraph ended
      executeLoop config fuel ended) := by
  have hlt : finished < state.plan.steps.length := by
    have := (h.sequential.mem_ids_iff.mp (List.mem_map_of_mem hstep)).2
    omega
  have hfind := h.findStep hstep
  rw [hid] at hfind
  simp only [executeLoop, h.allStepsFinished, h.nextExecutableStep hlt,
    decide_eq_false (Nat.ne_of_lt hlt)]
  change (do
    let found ← orRaise state (state.findStep (finished + 1))
    let ended ← runStepWithRecovery config found state
    syncGraph ended
    executeLoop config fuel ended) = _
  rw [hfind]
  rfl

/-- The state is handed to the graph without an error. -/
theorem runs_syncGraph {ids : List Int} {spent : Nat} {objects last : SharedObjects}
    {trace : List Event} {result : Except Raised Unit} (h : Front finished state)
    (hkeeping : Keeping ids spent objects)
    (hfollows : Follows SharedObjects.Step objects trace last)
    (hrun : Runs (syncGraph state) trace result) :
    trace = [⟨.syncPlanGraph state, .ok ()⟩] ∧ result = .ok () ∧
      Keeping state.plan.ids spent last := by
  obtain ⟨reply, rest, rfl, hrest⟩ := runs_asking_iff.mp hrun
  obtain ⟨middle, hstep, htail⟩ := Follows.cons_iff.mp hfollows
  obtain ⟨rfl, hmiddle⟩ := hkeeping.syncPlanGraph (fun _ hstep => h.isSome_status hstep) hstep
  obtain ⟨rfl, rfl⟩ := runs_ofExcept_iff.mp hrest
  cases Follows.nil_iff.mp htail
  exact ⟨rfl, rfl, hmiddle⟩

/-- The state a plan is executed from, with the context it is given. -/
def begun (plan : Plan) (sessionId : String) (context : GlobalContext) : PlanState :=
  { fromPlan plan sessionId with globalContext := context }

theorem front_begun {plan : Plan} (h : plan.Sequential) (sessionId : String)
    (context : GlobalContext) : Front 0 (begun plan sessionId context) := by
  obtain ⟨hsequential, hle, hmem, hpending⟩ := Front.fresh h sessionId
  exact ⟨hsequential, hle, hmem, hpending⟩

/-- An execution starts with a new graph and its first refresh. -/
theorem runs_execute {fuel : Nat} {plan : Plan} {objects last : SharedObjects} {trace : List Event}
    {result : Except Raised PlanState} (h : Front finished state)
    (hfollows : Follows SharedObjects.Step objects trace last)
    (hrun : Runs (execute config fuel plan state) trace result) :
    ∃ rest middle, trace = (⟨.newPlanGraph plan state.sessionId, ()⟩ : Event) ::
        (⟨.syncPlanGraph state, .ok ()⟩ : Event) :: rest ∧
      Keeping state.plan.ids objects.replanAttempts middle ∧
      Follows SharedObjects.Step middle rest last ∧
      Runs (do
        let ended ← executeLoop config fuel state
        syncGraph { ended with currentStep := none }
        pure { ended with currentStep := none }) rest result := by
  obtain ⟨reply, later, rfl, hlater⟩ := runs_asking_iff.mp hrun
  obtain ⟨first, hstep, htail⟩ := Follows.cons_iff.mp hfollows
  have hkeeping : Keeping plan.ids objects.replanAttempts first := by
    obtain ⟨-, rfl⟩ := hstep
    exact ⟨⟨_, rfl, fun _ hmem => PlanExecutionGraph.contains_stepsById.mpr hmem⟩, rfl⟩
  rcases runs_bind_iff.mp hlater with ⟨_, synced, rest, hsynced, hrest, rfl⟩ | ⟨error, hsynced, -⟩
  · obtain ⟨middle, hfirst, hsecond⟩ := Follows.append_iff.mp htail
    obtain ⟨rfl, -, hmiddle⟩ := runs_syncGraph h hkeeping hfirst hsynced
    exact ⟨rest, middle, rfl, hmiddle, hsecond, hrest⟩
  · obtain ⟨-, hresult, -⟩ := runs_syncGraph h hkeeping htail hsynced
    cases hresult

/-! ## Scheduling without replanning -/

/-- When an attempt starts, the plan state last handed to the graph has the dependencies of
its step finished. -/
def readiness (plan : Plan) : Monitor runtimeSig PlanState where
  next := synced
  check state event := ∀ stepId, attempted event = some stepId →
    ∃ step ∈ plan.steps, step.id = stepId ∧ ∀ dep ∈ step.deps, dep ∈ state.finishedStepIds

/-- Attempts are made in the order of the ids, each one when its step is ready. -/
structure Orderly (plan : Plan) (start : PlanState) (trace : List Event) : Prop where
  ordered : (attempts trace).Pairwise (· ≤ ·)
  ready : (readiness plan).Accepts start trace

/-- The step has been attempted, and not more often than the configuration allows. -/
def Counted (config : ExecutorConfig) (trace : List Event) (stepId : Int) : Prop :=
  1 ≤ (attempts trace).count stepId ∧ (attempts trace).count stepId ≤ maxAttempts config

/-- The first `finished` steps have been run, and nothing else has. -/
structure Progress (config : ExecutorConfig) (plan : Plan) (start : PlanState) (finished : Nat)
    (past : List Event) (state : PlanState) : Prop where
  front : Front finished state
  outline : outline state = outline start
  orderly : Orderly plan start past
  synced : (readiness plan).track start past = state
  le_finished : ∀ stepId ∈ attempts past, stepId ≤ finished
  counted : ∀ stepId : Int, 1 ≤ stepId → stepId ≤ finished → Counted config past stepId
  log : ∀ entry ∈ state.executionTrace, entry.stepId ≤ finished

/-- Every step has ended. -/
structure AllEnded (config : ExecutorConfig) (plan : Plan) (trace : List Event)
    (ended : PlanState) :
    Prop where
  ids : ended.plan.ids = plan.ids
  status : ∀ stepId ∈ plan.ids, ended.stepStatus.get? stepId = some .completed ∨
    ended.stepStatus.get? stepId = some .skipped
  counted : ∀ stepId ∈ plan.ids, Counted config trace stepId

/-- All attempts of this step have failed, and the last error is raised. The steps before it
have ended, and the steps after it have not been attempted. -/
structure GaveUp (config : ExecutorConfig) (plan : Plan) (trace : List Event) (stepId : Int)
    (raised : Raised) : Prop where
  mem : stepId ∈ plan.ids
  retries : config.failurePolicy = .retry
  count : (attempts trace).count stepId = maxAttempts config
  failures : ((raised.state.executionTrace.filter fun entry => decide (entry.stepId = stepId)).map
    fun entry => entry.status) = List.replicate (maxAttempts config) .failed
  error : ∃ failed, failed.status = .failed ∧ raised.state.stepResults.get? stepId = some failed ∧
    raised.error = .agentLoop (orText failed.error s!"Step {stepId} failed")
  before : ∀ other ∈ plan.ids, other < stepId →
    (raised.state.stepStatus.get? other = some .completed ∨
      raised.state.stepStatus.get? other = some .skipped) ∧ Counted config trace other
  after : ∀ other, stepId < other → (attempts trace).count other = 0

theorem completed_or_skipped {statuses : Dict Int StepStatus} {stepId : Int} {status : StepStatus}
    (hget : statuses.get? stepId = some status) (hfinished : status.finished = true) :
    statuses.get? stepId = some .completed ∨ statuses.get? stepId = some .skipped := by
  cases status with
  | completed => exact Or.inl hget
  | skipped => exact Or.inr hget
  | _ => cases hfinished

section Scheduling

variable {plan : Plan} {start : PlanState} {past trace : List Event} {step : PlanStep} {count : Nat}

/-- The attempts of the step after the finished ones are in order, and it is ready for them. -/
theorem Progress.orderly_append (h : Progress config plan start finished past state)
    (hplan : start.plan = plan) (hstep : step ∈ state.plan.steps) (hid : step.id = finished + 1)
    (hevents : ∀ event ∈ trace, OfStep step.id event)
    (hattempts : attempts trace = List.replicate count step.id) :
    Orderly plan start (past ++ trace) ∧ (readiness plan).track start (past ++ trace) = state := by
  have hsteady : ∀ event ∈ trace, (readiness plan).check state event ∧
      (readiness plan).next state event = state := by
    intro event hevent
    refine ⟨fun stepId hstepId => ?_, synced_of_ofStep (hevents event hevent) state⟩
    have hown : stepId = step.id := by
      have hmem : stepId ∈ attempts trace := List.mem_filterMap.mpr ⟨event, hevent, hstepId⟩
      rw [hattempts] at hmem
      exact List.eq_of_mem_replicate hmem
    obtain ⟨own, hmem, hownId, hdependency⟩ := exists_of_outline h.outline hstep
    refine ⟨own, hplan ▸ hmem, hownId.trans hown.symm, ?_⟩
    rw [PlanStep.deps, hdependency]
    exact h.front.deps_finished hstep hid
  obtain ⟨haccepts, htrack⟩ := Monitor.accepts_of_steady hsteady
  rw [← h.synced] at haccepts
  refine ⟨⟨?_, (Monitor.accepts_append_iff _).mpr ⟨h.orderly.ready, haccepts⟩⟩, ?_⟩
  · rw [attempts_append, hattempts]
    refine List.pairwise_append.mpr ⟨h.orderly.ordered, ?_, fun first hfirst second hsecond => ?_⟩
    · exact List.pairwise_replicate.mpr (Or.inr le_rfl)
    · rw [List.eq_of_mem_replicate hsecond, hid]
      have := h.le_finished first hfirst
      omega
  · rw [Monitor.track_append, h.synced, htrack]

theorem Progress.count_append (h : Progress config plan start finished past state)
    (hid : step.id = finished + 1) (hattempts : attempts trace = List.replicate count step.id)
    (stepId : Int) :
    (attempts (past ++ trace)).count stepId =
      if stepId = step.id then count else (attempts past).count stepId := by
  rw [attempts_append, List.count_append, hattempts, List.count_replicate]
  by_cases hown : stepId = step.id
  · have hnot : stepId ∉ attempts past := fun hmem => by
      have := h.le_finished stepId hmem
      omega
    rw [List.count_eq_zero_of_not_mem hnot, hown]
    simp
  · simp [hown, Ne.symm hown]

theorem attempts_sync (trace : List Event) (reply : Except RaisedError Unit) :
    attempts (trace ++ [⟨.syncPlanGraph after, reply⟩]) = attempts trace := by
  rw [attempts_append]
  exact List.append_nil _

theorem Orderly.sync (h : Orderly plan start trace) (reply : Except RaisedError Unit) :
    Orderly plan start (trace ++ [⟨.syncPlanGraph after, reply⟩]) ∧
      (readiness plan).track start (trace ++ [⟨.syncPlanGraph after, reply⟩]) = after := by
  refine ⟨⟨?_, (Monitor.accepts_append_iff _).mpr ⟨h.ready, ?_, trivial⟩⟩, ?_⟩
  · rw [attempts_sync]
    exact h.ordered
  · intro stepId hstepId
    cases hstepId
  · rw [Monitor.track_append]
    rfl

/-- A round in which the step ends. -/
theorem Progress.ended (h : Progress config plan start finished past state)
    (hplan : start.plan = plan) (hstep : step ∈ state.plan.steps) (hid : step.id = finished + 1)
    (hevents : ∀ event ∈ trace, OfStep step.id event)
    (hattempts : attempts trace = List.replicate count step.id) (hpos : 1 ≤ count)
    (hle : count ≤ maxAttempts config) (hended : Ended step.id state after)
    (reply : Except RaisedError Unit) :
    Progress config plan start (finished + 1)
      (past ++ trace ++ [⟨.syncPlanGraph after, reply⟩]) after := by
  have hbounds := h.front.sequential.mem_ids_iff.mp (List.mem_map_of_mem hstep)
  obtain ⟨horderly, -⟩ := h.orderly_append hplan hstep hid hevents hattempts
  obtain ⟨hsynced, htrack⟩ := @Orderly.sync after plan start _ horderly reply
  have hfront : Front (finished + 1) after :=
    front_settled h.front (by omega) (hid ▸ hended.settled) hended.outline
  refine ⟨hfront, hended.outline.trans h.outline, hsynced, htrack, fun stepId hmem => ?_,
    fun stepId hlow hhigh => ?_, fun entry hentry => ?_⟩
  · rw [attempts_sync, attempts_append, hattempts] at hmem
    rcases List.mem_append.mp hmem with hpast | hown
    · have := h.le_finished stepId hpast
      omega
    · rw [List.eq_of_mem_replicate hown, hid]
      omega
  · rw [Counted, attempts_sync, h.count_append hid hattempts]
    by_cases hown : stepId = step.id
    · rw [if_pos hown]
      exact ⟨hpos, hle⟩
    · rw [if_neg hown]
      exact h.counted stepId hlow (by omega)
  · obtain ⟨entries, hlog, hentries⟩ := hended.log
    rw [hlog] at hentry
    rcases List.mem_append.mp hentry with hold | hnew
    · have := h.log entry hold
      omega
    · rw [hentries entry hnew, hid]
      omega

/-- A round in which every attempt of the step fails. -/
theorem Progress.gaveUp (h : Progress config plan start finished past state)
    (hplan : start.plan = plan) (hstep : step ∈ state.plan.steps) (hid : step.id = finished + 1)
    (hattempts : attempts trace = List.replicate (maxAttempts config) step.id)
    (hretries : config.failurePolicy = .retry) {raised : Raised}
    (hexhausted : Exhausted step.id state (maxAttempts config) raised) :
    GaveUp config plan (past ++ trace) step.id raised := by
  have hcount := h.count_append hid hattempts
  have hids : state.plan.ids = plan.ids := hplan ▸ ids_of_outline h.outline
  refine ⟨?_, hretries, ?_, ?_, hexhausted.failed, fun other hmem hlt => ?_, fun other hgt => ?_⟩
  · rw [← hids]
    exact List.mem_map_of_mem hstep
  · rw [hcount, if_pos rfl]
  · obtain ⟨entries, hlog, hentries⟩ := hexhausted.log
    -- the entries of the state before the round are about other steps
    have hold :
        state.executionTrace.filter (fun entry => decide (entry.stepId = step.id)) = [] := by
      apply List.filter_eq_nil_iff.mpr
      intro entry hentry
      have := h.log entry hentry
      simp only [decide_eq_true_eq]
      omega
    have hown : ∀ entry ∈ entries, (entry.stepId, entry.status) = (step.id, .failed) :=
      fun entry hentry => List.eq_of_mem_replicate (hentries ▸ List.mem_map_of_mem hentry)
    have hnew : entries.filter (fun entry => decide (entry.stepId = step.id)) = entries :=
      List.filter_eq_self.mpr fun entry hentry => decide_eq_true (Prod.mk.inj (hown entry hentry)).1
    rw [hlog, List.filter_append, hold, hnew, List.nil_append]
    simpa [List.map_map, Function.comp_def] using congrArg (List.map Prod.snd) hentries
  · have hbounds := h.front.sequential.mem_ids_iff.mp (hids ▸ hmem)
    obtain ⟨status, hget, hfinished⟩ := (mem_finishedStepIds_iff _ _).mp
      ((h.front.mem_finished other).mpr ⟨hbounds.1, by omega⟩)
    refine ⟨?_, ?_⟩
    · rw [hexhausted.status other (by omega)]
      exact completed_or_skipped hget hfinished
    · rw [Counted, hcount, if_neg (by omega)]
      exact h.counted other hbounds.1 (by omega)
  · rw [hcount, if_neg (by omega), List.count_eq_zero]
    intro hmem
    have := h.le_finished other hmem
    omega

/-- Without replanning the loop ends every step, or gives up on one. -/
theorem runs_executeLoop {fuel spent : Nat} {objects last : SharedObjects}
    {result : Except Raised PlanState} (hpolicy : config.failurePolicy ≠ .replan)
    (hcompression : config.compressionEnabled = false) (hplan : start.plan = plan)
    (h : Progress config plan start finished past state)
    (hfuel : state.plan.steps.length < finished + fuel)
    (hkeeping : Keeping state.plan.ids spent objects)
    (hfollows : Follows SharedObjects.Step objects trace last)
    (hrun : Runs (executeLoop config fuel state) trace result) :
    (∃ ended, result = .ok ended ∧ Keeping ended.plan.ids spent last ∧
      Progress config plan start ended.plan.steps.length (past ++ trace) ended) ∨
    (∃ raised stepId, result = .error raised ∧ Orderly plan start (past ++ trace) ∧
      GaveUp config plan (past ++ trace) stepId raised) := by
  induction fuel generalizing finished past state trace objects with
  | zero =>
      have := h.front.le_length
      omega
  | succ fuel ih =>
      by_cases hall : finished = state.plan.steps.length
      · subst hall
        rw [executeLoop_of_ended h.front] at hrun
        obtain ⟨rfl, rfl⟩ := runs_pure_iff.mp hrun
        cases Follows.nil_iff.mp hfollows
        rw [List.append_nil]
        exact Or.inl ⟨state, rfl, hkeeping, h⟩
      · obtain ⟨step, hstep, hid⟩ :=
          h.front.sequential.exists_step (lt_of_le_of_ne h.front.le_length hall)
        have hmem : step.id ∈ state.plan.ids := List.mem_map_of_mem hstep
        rw [executeLoop_of_front h.front hstep hid] at hrun
        rcases runs_bind_iff.mp hrun with
          ⟨ended, first, later, hfirst, hlater, rfl⟩ | ⟨raised, hfirst, rfl⟩
        · obtain ⟨middle, hbefore, hbehind⟩ := Follows.append_iff.mp hfollows
          obtain ⟨hevents, hmiddle, count, hpos, hle, hattempts, htried⟩ :=
            runs_runStepWithRecovery hpolicy hcompression hkeeping hmem hbefore hfirst
          cases htried with
          | ended hended =>
              have hprogress := h.ended hplan hstep hid hevents hattempts hpos hle hended (.ok ())
              rcases runs_bind_iff.mp hlater with
                ⟨_, second, rest, hsecond, hrest, rfl⟩ | ⟨error, hsecond, -⟩
              · obtain ⟨next, hsync, htail⟩ := Follows.append_iff.mp hbehind
                obtain ⟨rfl, -, hnext⟩ := runs_syncGraph hprogress.front hmiddle hsync hsecond
                have hlength := length_of_outline hended.outline
                rw [← List.append_assoc, ← List.append_assoc]
                exact ih hprogress (by omega) hnext htail hrest
              · obtain ⟨-, hresult, -⟩ := runs_syncGraph hprogress.front hmiddle hbehind hsecond
                cases hresult
        · obtain ⟨hevents, -, count, -, -, hattempts, htried⟩ :=
            runs_runStepWithRecovery hpolicy hcompression hkeeping hmem hfollows hfirst
          cases htried with
          | exhausted hretries hall hexhausted =>
              subst hall
              exact Or.inr ⟨raised, step.id, rfl,
                (h.orderly_append hplan hstep hid hevents hattempts).1,
                h.gaveUp hplan hstep hid hattempts hretries hexhausted⟩

/-- Only steps of the plan are attempted. -/
theorem Orderly.mem_ids (h : Orderly plan start trace) {stepId : Int}
    (hmem : stepId ∈ attempts trace) : stepId ∈ plan.ids := by
  obtain ⟨event, hevent, hattempted⟩ := List.mem_filterMap.mp hmem
  obtain ⟨before, rest, rfl⟩ := List.append_of_mem hevent
  obtain ⟨step, hstep, rfl, -⟩ :=
    (Monitor.accepts_iff _).mp h.ready before event rest rfl stepId hattempted
  exact List.mem_map_of_mem hstep

/-- With one attempt each, the steps are attempted one after the other. -/
theorem attempts_of_single (hplan : plan.Sequential) (h : Orderly plan start trace)
    (hsingle : maxAttempts config = 1) {ended : PlanState}
    (hended : AllEnded config plan trace ended) :
    attempts trace = expectedIds plan.steps.length := by
  have hperm : (attempts trace).Perm plan.ids := List.perm_iff_count.mpr fun stepId => by
    rw [hplan.ids_nodup.count]
    split
    next hmem =>
      obtain ⟨hpos, hle⟩ := hended.counted stepId hmem
      omega
    next hmem => exact List.count_eq_zero.mpr fun hown => hmem (h.mem_ids hown)
  exact (hperm.trans hplan.ids).eq_of_sortedLE h.ordered.sortedLE (pairwise_expectedIds _).sortedLE

end Scheduling

/-- An execution without replanning ends every step, or gives up on one. -/
theorem runs_execute_schedules {plan : Plan} {sessionId : String} {context : GlobalContext}
    {fuel : Nat} {objects last : SharedObjects} {trace : List Event}
    {result : Except Raised PlanState} (hpolicy : config.failurePolicy ≠ .replan)
    (hcompression : config.compressionEnabled = false) (hsequential : plan.Sequential)
    (hfuel : plan.steps.length < fuel) (hfollows : Follows SharedObjects.Step objects trace last)
    (hrun : Runs (execute config fuel plan (begun plan sessionId context)) trace result) :
    Orderly plan (begun plan sessionId context) trace ∧
    ((∃ ended, result = .ok ended ∧ AllEnded config plan trace ended) ∨
      ∃ raised stepId, result = .error raised ∧ GaveUp config plan trace stepId raised) := by
  have hfront := front_begun hsequential sessionId context
  have hplan : (begun plan sessionId context).plan = plan := rfl
  obtain ⟨rest, middle, rfl, hkeeping, hrest, hruns⟩ := runs_execute hfront hfollows hrun
  -- the trace up to the loop
  have hstart : Progress config plan (begun plan sessionId context) 0
      [⟨.newPlanGraph plan sessionId, ()⟩, ⟨.syncPlanGraph (begun plan sessionId context), .ok ()⟩]
      (begun plan sessionId context) := by
    refine ⟨hfront, rfl, ⟨.nil, ⟨fun stepId h => ?_, fun stepId h => ?_, trivial⟩⟩, rfl,
      fun stepId h => ?_, fun stepId hlow hhigh => ?_, fun entry h => ?_⟩
    · cases h
    · cases h
    · cases h
    · omega
    · cases h
  have hlength : (begun plan sessionId context).plan.steps.length < 0 + fuel := by
    rw [Nat.zero_add]
    exact hfuel
  rcases runs_bind_iff.mp hruns with
    ⟨ended, first, later, hfirst, hlater, rfl⟩ | ⟨raised, hfirst, rfl⟩
  · obtain ⟨next, hbefore, hbehind⟩ := Follows.append_iff.mp hrest
    rcases runs_executeLoop hpolicy hcompression hplan hstart hlength hkeeping hbefore hfirst with
      ⟨own, heq, hnext, hprogress⟩ | ⟨raised, stepId, heq, -⟩
    · cases heq
      have hcleared : Front ended.plan.steps.length { ended with currentStep := none } :=
        ⟨hprogress.front.sequential, le_rfl, hprogress.front.mem_finished, hprogress.front.pending⟩
      rcases runs_bind_iff.mp hlater with
        ⟨_, second, tail, hsecond, htail, rfl⟩ | ⟨error, hsecond, -⟩
      · obtain ⟨stop, hsync, hdone⟩ := Follows.append_iff.mp hbehind
        obtain ⟨rfl, -, -⟩ := runs_syncGraph hcleared hnext hsync hsecond
        obtain ⟨rfl, rfl⟩ := runs_pure_iff.mp htail
        have horderly := (@Orderly.sync { ended with currentStep := none } plan _ _
          hprogress.orderly (.ok ())).1
        have hids : ended.plan.ids = plan.ids := ids_of_outline hprogress.outline
        rw [List.append_nil, ← List.cons_append, ← List.cons_append]
        refine ⟨horderly, Or.inl ⟨_, rfl, hids, fun stepId hmem => ?_, fun stepId hmem => ?_⟩⟩
        · have hbounds := hprogress.front.sequential.mem_ids_iff.mp (hids ▸ hmem)
          obtain ⟨status, hget, hfinished⟩ := (mem_finishedStepIds_iff _ _).mp
            ((hprogress.front.mem_finished stepId).mpr hbounds)
          exact completed_or_skipped hget hfinished
        · have hbounds := hprogress.front.sequential.mem_ids_iff.mp (hids ▸ hmem)
          rw [Counted, attempts_sync]
          exact hprogress.counted stepId hbounds.1 hbounds.2
      · obtain ⟨-, hresult, -⟩ := runs_syncGraph hcleared hnext hbehind hsecond
        cases hresult
    · cases heq
  · rcases runs_executeLoop hpolicy hcompression hplan hstart hlength hkeeping hrest hfirst with
      ⟨own, heq, -⟩ | ⟨own, stepId, heq, horderly, hgaveUp⟩
    · cases heq
    · cases heq
      exact ⟨horderly, Or.inr ⟨raised, stepId, rfl, hgaveUp⟩⟩

/-- A plan the validator accepts is scheduled correctly. Attempts are made in the order of
the ids and when all dependencies of the step are finished. Under `SKIP` each step is
attempted once and ends; under `RETRY` each step ends, or the first one whose attempts all
fail raises its error. -/
theorem execute_schedules {config : ExecutorConfig} {registry : List String} {plan : Plan}
    {sessionId : String} {context : GlobalContext} {fuel : Nat} {objects last : SharedObjects}
    {trace : List Event} {result : Except Raised PlanState}
    (hpolicy : config.failurePolicy ≠ .replan) (hcompression : config.compressionEnabled = false)
    (hvalid : (validate registry plan).success = true) (hfuel : plan.steps.length < fuel)
    (hfollows : Follows SharedObjects.Step objects trace last)
    (hrun : Runs (execute config fuel plan (begun plan sessionId context)) trace result) :
    (attempts trace).Pairwise (· ≤ ·) ∧
    (∀ before event rest stepId, trace = before ++ event :: rest → attempted event = some stepId →
      ∃ step ∈ plan.steps, step.id = stepId ∧ ∀ dep ∈ step.deps,
        dep ∈ (before.foldl synced (begun plan sessionId context)).finishedStepIds) ∧
    (config.failurePolicy = .skip → attempts trace = expectedIds plan.steps.length ∧
      ∃ ended, result = .ok ended ∧ AllEnded config plan trace ended) ∧
    ((∃ ended, result = .ok ended ∧ AllEnded config plan trace ended) ∨
      ∃ raised stepId, result = .error raised ∧ GaveUp config plan trace stepId raised) := by
  have hsequential := (wellFormed_of_validate hvalid).sequential
  obtain ⟨horderly, hends⟩ :=
    runs_execute_schedules hpolicy hcompression hsequential hfuel hfollows hrun
  refine ⟨horderly.ordered, fun before event rest stepId heq hattempted => ?_, fun hskip => ?_,
    hends⟩
  · exact (Monitor.accepts_iff _).mp horderly.ready before event rest heq stepId hattempted
  · rcases hends with ⟨ended, hresult, hended⟩ | ⟨raised, stepId, -, hgaveUp⟩
    · have hsingle : maxAttempts config = 1 := by rw [maxAttempts, hskip]
      exact ⟨attempts_of_single hsequential horderly hsingle hended, ended, hresult, hended⟩
    · cases hskip.symm.trans hgaveUp.retries

/-- A plan whose second step depends on its first. -/
def dayTrip : Plan :=
  ⟨"上海一日游", [⟨1, "查询天气", some "weather", none⟩, ⟨2, "整理行程", none, some [1]⟩]⟩

/-- One retry. -/
def retryingOnce : ExecutorConfig := { plainExecutor .retry ["weather"] with stepMaxRetries := 1 }

/-- A run of the plan in which only the second call succeeds. -/
def secondCallSucceeds : Outcome runtimeSig Raised PlanState (SharedObjects × Unit) :=
  Components.exec
    { executeLlmCall := fun tool args callId =>
        { success := decide (callId = "plan-step-1-a2"), tool := tool, args := args } }
    {} (execute retryingOnce 3 dayTrip (begun dayTrip "default" {}))

theorem execute_schedules_dayTrip :
    ∃ trace ended,
      Runs (execute retryingOnce 3 dayTrip (begun dayTrip "default" {})) trace (.ok ended) ∧
      attempts trace = [1, 1, 2] ∧ AllEnded retryingOnce dayTrip trace ended := by
  obtain ⟨ended, hrun, hfollows⟩ := Components.exists_runs_exec
    (show secondCallSucceeds.result.isOk = true by decide +kernel)
  have hvalid : (validate ["weather"] dayTrip).success = true := by decide +kernel
  refine ⟨_, ended, hrun, (show attempts secondCallSucceeds.trace = _ by decide +kernel), ?_⟩
  obtain ⟨-, -, -, hends⟩ :=
    execute_schedules (by decide) rfl hvalid (by decide) hfollows hrun
  rcases hends with ⟨own, heq, hended⟩ | ⟨raised, stepId, heq, -⟩
  · cases heq
    exact hended
  · cases heq

end PlanExecutor

end TripGraph
