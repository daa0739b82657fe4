import TripGraph.Plan.Scheduler

/-! # Runs that replan

The replacement steps are numbered on from the largest finished id. That makes a plan of
them as long as the finished steps are the first ones, which every round maintains.
-/

namespace TripGraph

open Interaction PlanValidator

/-- The operation asks the planner for replacement steps. -/
def Op.replansUnfinished : Op → Bool
  | .replanUnfinishedSteps .. => true
  | _ => false

/-- How often the planner has been asked. -/
def replans (trace : List Event) : Nat := trace.countP fun event => event.op.replansUnfinished

@[simp] theorem replans_append (first second : List Event) :
    replans (first ++ second) = replans first + replans second := List.countP_append

@[simp] theorem replans_sync (state : PlanState) (reply : Except RaisedError Unit) :
    replans [⟨.syncPlanGraph state, reply⟩] = 0 := rfl

namespace PlanExecutor

open PlanState

/-- The plan is numbered from one, and its finished steps are the first ones. -/
def Segment (state : PlanState) : Prop :=
  state.plan.ids.Perm (expectedIds state.plan.steps.length) ∧
    ∃ finished : Nat, finished ≤ state.plan.steps.length ∧
      ∀ stepId, stepId ∈ state.finishedStepIds ↔ stepId ∈ expectedIds finished

/-- What is finished keeps its status and its result. -/
def Preserves (before after : PlanState) : Prop :=
  ∀ stepId ∈ before.finishedStepIds,
    after.stepStatus.get? stepId = before.stepStatus.get? stepId ∧
      after.stepResults.get? stepId = before.stepResults.get? stepId

/-- The plan is numbered from one; the finished steps come first, as they were, and the
others are numbered on from them. -/
def Continues (state : PlanState) (plan : Plan) : Prop :=
  plan.ids.Perm (expectedIds plan.steps.length) ∧
    ∃ rest, plan.steps = state.keptSteps ++ rest ∧ rest.map PlanStep.id =
      (expectedIds rest.length).map fun stepId : Int => (state.keptSteps.length : Int) + stepId

/-- What is demanded of the plan states handed to the graph and of the plans it is rebuilt
from. -/
def continuity : Monitor runtimeSig PlanState where
  next := synced
  check state event :=
    match event.op with
    | .syncPlanGraph own => Segment own ∧ Preserves state own
    | .rebuildPlanGraph plan => Continues state plan
    | _ => True

variable {config : ExecutorConfig} {finished spent : Nat} {state after : PlanState} {ids : List Int}

theorem segment_of_front (h : Front finished state) : Segment state :=
  ⟨h.sequential.ids, finished, h.le_length, fun stepId => by
    rw [h.mem_finished, mem_expectedIds]⟩

/-- The monitor takes no notice of the exchange. -/
def Neutral (event : Event) : Prop :=
  ∀ state, continuity.check state event ∧ continuity.next state event = state

theorem neutral_of_ofStep {stepId : Int} {event : Event} (h : OfStep stepId event) :
    Neutral event := by
  intro own
  refine ⟨?_, synced_of_ofStep h own⟩
  obtain ⟨op, reply⟩ := event
  rcases h with hwithin | ⟨status, rfl⟩
  · cases op <;> trivial
  · trivial

/-! ## A replan -/

section Replan

variable {marked : PlanState} {failed : StepResult} {answer : List PlanStep}

theorem ids_keptSteps (h : Front finished state) :
    (state.keptSteps.map PlanStep.id).Perm (expectedIds finished) := by
  have hsub : (state.keptSteps.map PlanStep.id).Sublist state.plan.ids :=
    List.filter_sublist.map PlanStep.id
  refine (List.perm_ext_iff_of_nodup (hsub.nodup h.sequential.ids_nodup)
    (expectedIds_nodup _)).mpr fun stepId => ?_
  rw [mem_expectedIds, ← h.mem_finished]
  constructor
  · intro hmem
    obtain ⟨step, hstep, rfl⟩ := List.mem_map.mp hmem
    exact of_decide_eq_true (List.mem_filter.mp hstep).2
  · intro hmem
    have hbounds := (h.mem_finished stepId).mp hmem
    have hle := h.le_length
    obtain ⟨step, hstep, rfl⟩ := List.mem_map.mp
      (h.sequential.mem_ids_iff.mpr ⟨hbounds.1, by omega⟩)
    exact List.mem_map_of_mem (List.mem_filter.mpr ⟨hstep, decide_eq_true hmem⟩)

theorem length_keptSteps (h : Front finished state) : state.keptSteps.length = finished := by
  have hlength := (ids_keptSteps h).length_eq
  simpa [expectedIds] using hlength

theorem ids_renumberFrom (maxId : Int) (index : Nat) (steps : List PlanStep) :
    (renumberFrom maxId index steps).map PlanStep.id =
      (List.range' index steps.length).map fun position : Nat => maxId + position := by
  induction steps generalizing index with
  | nil => rfl
  | cons step rest ih =>
      rw [renumberFrom, List.map_cons, ih, List.length_cons, List.range'_succ, List.map_cons]

/-- A replan the validator accepts leaves the finished steps the first ones. -/
theorem front_replanned (h : Front finished state) (hfailed : failed.status = .failed)
    (hlt : finished < state.plan.steps.length) (hplan : marked.plan = state.plan)
    (hstatus : ∀ other, marked.stepStatus.get? other =
      if other = (finished : Int) + 1 then some failed.status else state.stepStatus.get? other)
    (hresults : ∀ other, marked.stepResults.get? other =
      if other = (finished : Int) + 1 then some failed else state.stepResults.get? other)
    (hvalid : (marked.applyReplannedSteps answer).plan.Sequential) :
    Front finished (marked.applyReplannedSteps answer) ∧
      Continues state (marked.applyReplannedSteps answer).plan ∧
      Preserves state (marked.applyReplannedSteps answer) := by
  have hunfinished : (finished : Int) + 1 ∉ state.finishedStepIds := fun hmem => by
    have := (h.mem_finished _).mp hmem
    omega
  have hmem : (finished : Int) + 1 ∈ state.plan.ids := h.sequential.mem_ids_iff.mpr (by omega)
  have hsame := mem_finishedStepIds_of_failed hfailed hunfinished hstatus
  have hreplaced : Replaced answer state _ := Replaced.of_applyReplannedSteps hfailed hmem
    hunfinished (congrArg Plan.ids hplan) hstatus hresults
  have hmax : state.maxFinishedId = finished := maxFinishedId_of_finished h.mem_finished
  have hmarked : marked.maxFinishedId = finished := (maxFinishedId_congr hsame).trans hmax
  have hkept : marked.keptSteps = state.keptSteps := by
    rw [keptSteps, keptSteps, hplan]
    exact List.filter_congr fun step _ => decide_eq_decide.mpr (hsame step.id)
  have hsteps : (marked.applyReplannedSteps answer).plan.steps =
      state.keptSteps ++ renumberFrom finished 1 answer := by
    rw [← hkept, ← hmarked]
    rfl
  have hlength :
      (marked.applyReplannedSteps answer).plan.steps.length = finished + answer.length := by
    rw [hsteps, List.length_append, length_keptSteps h, length_renumberFrom]
  have hremoved : ∀ stepId ∈ state.finishedStepIds, stepId ∉ state.removedIds :=
    fun stepId hmem hremoved => ((mem_removedIds_iff state).mp hremoved).2 hmem
  -- finished steps are neither renumbered nor removed
  have hpreserved : ∀ stepId : Int, stepId ≤ finished → stepId ∈ state.finishedStepIds →
      (marked.applyReplannedSteps answer).stepStatus.get? stepId =
        state.stepStatus.get? stepId := by
    intro stepId hle hmem
    rw [hreplaced.status, if_neg fun hrenumbered => ?_, if_neg (hremoved stepId hmem)]
    rw [Renumbered, hmax] at hrenumbered
    omega
  refine ⟨⟨hvalid, by omega, fun stepId => ?_, fun stepId hlow hhigh => ?_⟩,
    ⟨hvalid.ids, _, hsteps, ?_⟩, fun stepId hmem => ?_⟩
  · rw [mem_finishedStepIds_iff]
    by_cases hle : stepId ∈ state.finishedStepIds
    · rw [hpreserved stepId ((h.mem_finished stepId).mp hle).2 hle, ← mem_finishedStepIds_iff]
      exact h.mem_finished stepId
    · refine iff_of_false (fun hafter => ?_) fun hbounds =>
        hle ((h.mem_finished stepId).mpr hbounds)
      obtain ⟨status, hget, hfinished⟩ := hafter
      rw [hreplaced.status] at hget
      split at hget
      · cases hget
        cases hfinished
      split at hget
      · cases hget
      · exact hle ((mem_finishedStepIds_iff _ _).mpr ⟨status, hget, hfinished⟩)
  · rw [hreplaced.status, if_pos]
    rw [Renumbered, hmax]
    omega
  · rw [ids_renumberFrom, length_keptSteps h, length_renumberFrom, expectedIds_eq_range',
      List.map_map]
    rfl
  · refine ⟨hpreserved stepId ((h.mem_finished stepId).mp hmem).2 hmem, ?_⟩
    rw [hreplaced.results, if_neg (hremoved stepId hmem)]

/-- The planner is asked once; if nothing is raised, the plan it is asked for is handed to the
graph. -/
theorem runs_handleReplan {step : PlanStep} {recorded : PlanState} {error : String}
    {trace : List Event} {result : Except Raised PlanState} {objects last : SharedObjects}
    (hvalidator : config.validatorConfigured = true) (hkeeping : Keeping ids spent objects)
    (hfront : ∀ answer, ((traceReplan step recorded).applyReplannedSteps answer).plan.Sequential →
      Front finished ((traceReplan step recorded).applyReplannedSteps answer) ∧
      Continues state ((traceReplan step recorded).applyReplannedSteps answer).plan ∧
      Preserves state ((traceReplan step recorded).applyReplannedSteps answer))
    (hfollows : Follows SharedObjects.Step objects trace last)
    (hrun : Runs (handleReplan config step recorded error) trace result) :
    continuity.Accepts state trace ∧ replans trace ≤ 1 ∧ ∀ after, result = .ok after →
      Front finished after ∧ continuity.track state trace = after ∧
        Keeping after.plan.ids spent last ∧ replans trace = 1 := by
  unfold handleReplan at hrun
  split at hrun
  next =>
    obtain ⟨answered, rest, rfl, h₁⟩ := runs_asking_iff.mp hrun
    obtain ⟨first, hstep, hrest⟩ := Follows.cons_iff.mp hfollows
    cases hstep
    cases answered with
    | error error =>
        obtain ⟨rfl, rfl⟩ := runs_fail_iff.mp h₁
        exact ⟨⟨trivial, trivial⟩, le_rfl, fun after hafter => by cases hafter⟩
    | ok answer =>
        have hown := hfront answer
        change Runs (do
          orRaise ((traceReplan step recorded).applyReplannedSteps answer)
            (PlanValidator.assertValid
            config.registry ((traceReplan step recorded).applyReplannedSteps answer).plan)
          ask (.rebuildPlanGraph ((traceReplan step recorded).applyReplannedSteps answer).plan)
          syncGraph ((traceReplan step recorded).applyReplannedSteps answer)
          pure ((traceReplan step recorded).applyReplannedSteps answer)) rest result at h₁
        generalize (traceReplan step recorded).applyReplannedSteps answer = replanned at h₁ hown
        rw [PlanValidator.assertValid] at h₁
        -- the graph is rebuilt for the new plan, and refreshed, only if it is valid
        by_cases hvalid : (validate config.registry replanned.plan).success = true
        · obtain ⟨hreplanned, hcontinues, hpreserves⟩ :=
          hown (wellFormed_of_validate hvalid).sequential
          rw [if_pos hvalid] at h₁
          obtain ⟨_, later, rfl, h₂⟩ :=
            runs_asking_iff.mp (show Runs (ask _ >>= _) rest result from h₁)
          obtain ⟨second, hrebuild, hbehind⟩ := Follows.cons_iff.mp hrest
          obtain ⟨graph, hgraph, -⟩ := hkeeping.graph
          have hrebuilt : Keeping [] spent second := by
            obtain ⟨-, rfl⟩ := hrebuild
            exact ⟨⟨graph.rebuildFromPlan replanned.plan,
              by rw [hgraph]; rfl, fun _ h => by cases h⟩, hkeeping.spent⟩
          rcases runs_bind_iff.mp h₂ with ⟨_, third, tail, hthird, htail, rfl⟩ | ⟨raised, hthird, -⟩
          · obtain ⟨next, hsync, hdone⟩ := Follows.append_iff.mp hbehind
            obtain ⟨rfl, -, hnext⟩ := runs_syncGraph hreplanned hrebuilt hsync hthird
            obtain ⟨rfl, rfl⟩ := runs_pure_iff.mp htail
            cases Follows.nil_iff.mp hdone
            refine ⟨⟨trivial, hcontinues, ⟨segment_of_front hreplanned, hpreserves⟩, trivial⟩,
              le_rfl, fun after hafter => ?_⟩
            cases hafter
            exact ⟨hreplanned, rfl, hnext, rfl⟩
          · obtain ⟨-, hresult, -⟩ := runs_syncGraph hreplanned hrebuilt hbehind hthird
            cases hresult
        · rw [if_neg hvalid] at h₁
          obtain ⟨rfl, rfl⟩ := runs_fail_iff.mp h₁
          exact ⟨⟨trivial, trivial⟩, le_rfl, fun after hafter => by cases hafter⟩
  next =>
    obtain ⟨rfl, rfl⟩ := runs_fail_iff.mp hrun
    exact ⟨trivial, Nat.zero_le _, fun after hafter => by cases hafter⟩

end Replan

/-! ## Rounds -/

section Rounds

variable {trace : List Event} {result : Except Raised PlanState} {objects last : SharedObjects}
  {step : PlanStep}

theorem accepts_of_ofStep {stepId : Int} (h : ∀ event ∈ trace, OfStep stepId event)
    (state : PlanState) :
    continuity.Accepts state trace ∧ continuity.track state trace = state :=
  Monitor.accepts_of_steady fun event hevent => neutral_of_ofStep (h event hevent) state

theorem replans_of_ofStep {stepId : Int} (h : ∀ event ∈ trace, OfStep stepId event) :
    replans trace = 0 := by
  refine List.countP_eq_zero.mpr fun event hevent => ?_
  have hown := h event hevent
  obtain ⟨op, reply⟩ := event
  rcases hown with hwithin | ⟨status, rfl⟩
  · cases op <;> simp [Op.withinStep, Op.replansUnfinished] at hwithin ⊢
  · simp [Op.replansUnfinished]

theorem preserves_of_settled {stepId : Int} (h : Settled stepId state after)
    (hunfinished : stepId ∉ state.finishedStepIds) : Preserves state after := by
  obtain ⟨_, -, hstatus, hresults, -⟩ := h
  intro other hmem
  have hne : other ≠ stepId := fun heq => hunfinished (heq ▸ hmem)
  rw [hstatus, hresults, if_neg hne, if_neg hne]
  exact ⟨rfl, rfl⟩

/-- What follows a failed attempt, as far as the budget goes. -/
theorem runs_recover_replan {executed : StepResult × PlanStep × PlanState}
    (hpolicy : config.failurePolicy = .replan) (hvalidator : config.validatorConfigured = true)
    (h : Front finished state) (hlt : finished < state.plan.steps.length)
    (hid : step.id = finished + 1) (hattempted : Attempted step (startAttempt step state) executed)
    (hfailed : executed.1.status = .failed) (hspent : spent ≤ config.maxReplanAttempts)
    (hkeeping : Keeping ids spent objects)
    (hfollows : Follows SharedObjects.Step objects trace last)
    (hrun : Runs (recover config executed.2.1 executed.1
      (recordAttempt executed.2.1 executed.1 executed.2.2)) trace result) :
    continuity.Accepts state trace ∧ spent + replans trace ≤ config.maxReplanAttempts ∧
      ∀ after, result = .ok after → Front finished after ∧
        Preserves (continuity.track state trace) after ∧
        Keeping after.plan.ids (spent + replans trace) last := by
  rw [recover, hpolicy] at hrun
  obtain ⟨budget, rest, rfl, h₁⟩ := runs_asking_iff.mp hrun
  obtain ⟨first, hbudget, hrest⟩ := Follows.cons_iff.mp hfollows
  obtain ⟨hreply, hfirst⟩ := hbudget
  have hbudget : budget = decide (config.maxReplanAttempts ≤ spent) := hkeeping.spent ▸ hreply
  subst hfirst hbudget
  -- the budget is checked first, and the attempt counted before the planner is asked
  by_cases hle : config.maxReplanAttempts ≤ spent
  · rw [if_pos (decide_eq_true hle)] at h₁
    obtain ⟨rfl, rfl⟩ := runs_fail_iff.mp h₁
    exact ⟨⟨trivial, trivial⟩, hspent, fun after hafter => by cases hafter⟩
  · rw [if_neg (by simpa using hle)] at h₁
    obtain ⟨_, later, rfl, h₂⟩ := runs_asking_iff.mp h₁
    obtain ⟨second, hcount, hlater⟩ := Follows.cons_iff.mp hrest
    have hsecond : Keeping ids (spent + 1) second := by
      obtain ⟨-, rfl⟩ := hcount
      exact ⟨hkeeping.graph, congrArg (· + 1) hkeeping.spent⟩
    obtain ⟨hstatus, hresults, -⟩ :=
      get?_recordAttempt executed.2.1 hattempted.stepId hattempted.unmoved.unadvanced
    have htraced := unadvanced_traceReplan executed.2.1
      (recordAttempt executed.2.1 executed.1 executed.2.2)
    have hplan : (traceReplan executed.2.1
        (recordAttempt executed.2.1 executed.1 executed.2.2)).plan = state.plan := by
      have hsame := hattempted.plan hfailed
      unfold traceReplan
      split <;> exact hsame
    have hfront := fun answer =>
      @front_replanned finished state _ executed.1 answer h hfailed hlt hplan
      (fun other => by rw [htraced.status, hstatus, hid]) fun other => by
        rw [htraced.results, hresults, hid]
    have hcounted : ∀ own : List Event, replans ((⟨.replanBudgetSpent config.maxReplanAttempts,
        decide (config.maxReplanAttempts ≤ spent)⟩ : Event) ::
          (⟨.countReplan, ()⟩ : Event) :: own) =
        replans own := fun own => by simp [replans, Op.replansUnfinished]
    rcases runs_bind_iff.mp h₂ with ⟨replanned, own, tail, hown, htail, rfl⟩ | ⟨raised, hown, rfl⟩
    · obtain ⟨next, hbefore, hbehind⟩ := Follows.append_iff.mp hlater
      obtain ⟨haccepts, hle', hok⟩ := runs_handleReplan hvalidator hsecond hfront hbefore hown
      obtain ⟨hreplanned, htrack, hnext, hone⟩ := hok replanned rfl
      obtain ⟨rfl, rfl⟩ := runs_pure_iff.mp htail
      cases Follows.nil_iff.mp hbehind
      rw [List.append_nil, hcounted, hone]
      refine ⟨⟨trivial, trivial, haccepts⟩, by omega, fun after hafter => ?_⟩
      cases hafter
      refine ⟨⟨hreplanned.sequential, hreplanned.le_length, hreplanned.mem_finished,
        hreplanned.pending⟩, ?_, hnext⟩
      change Preserves (continuity.track state own) _
      rw [htrack]
      exact fun stepId _ => ⟨rfl, rfl⟩
    · obtain ⟨haccepts, hone, -⟩ := runs_handleReplan hvalidator hsecond hfront hlater hown
      rw [hcounted]
      exact ⟨⟨trivial, trivial, haccepts⟩, by omega, fun after hafter => by cases hafter⟩

/-- A round under `REPLAN`. -/
theorem runs_replanRound (hpolicy : config.failurePolicy = .replan)
    (hvalidator : config.validatorConfigured = true) (h : Front finished state)
    (hstep : step ∈ state.plan.steps) (hid : step.id = finished + 1)
    (hspent : spent ≤ config.maxReplanAttempts) (hkeeping : Keeping state.plan.ids spent objects)
    (hfollows : Follows SharedObjects.Step objects trace last)
    (hrun : Runs (runStepWithRecovery config step state) trace result) :
    continuity.Accepts state trace ∧ spent + replans trace ≤ config.maxReplanAttempts ∧
      ∀ after, result = .ok after → ∃ front, Front front after ∧
        Preserves (continuity.track state trace) after ∧
        Keeping after.plan.ids (spent + replans trace) last := by
  have hbounds := h.sequential.mem_ids_iff.mp (List.mem_map_of_mem hstep)
  have hmax : maxAttempts config = 0 + 1 := by rw [maxAttempts, hpolicy]
  rw [runStepWithRecovery, hmax] at hrun
  obtain ⟨called, rest, executed, middle, rfl, hcalled, hattempted, hafter, hmiddle, htail⟩ :=
    runs_attempt hkeeping (List.mem_map_of_mem hstep) hfollows hrun
  have hstart : ∀ event ∈ (⟨.updatePlanNode step.id .running, .ok ()⟩ : Event) :: called,
      OfStep step.id event :=
    List.forall_mem_cons.mpr ⟨Or.inr ⟨_, rfl⟩, fun event hevent => Or.inl (hcalled event hevent)⟩
  obtain ⟨haccepts, htrack⟩ := accepts_of_ofStep hstart state
  rw [← List.cons_append, Monitor.accepts_append_iff, Monitor.track_append, htrack, replans_append,
    replans_of_ofStep hstart, Nat.zero_add]
  by_cases hfailed : executed.1.status = .failed
  · have hretry : ¬ (config.failurePolicy = .retry ∧ (0 : Nat) ≠ 0) := fun hretry => hretry.2 rfl
    rw [afterAttempt, if_neg (not_not.mpr hfailed), if_neg hretry] at hafter
    obtain ⟨hrest, hle, hok⟩ := runs_recover_replan hpolicy hvalidator h (by omega) hid hattempted
      hfailed hspent hmiddle htail hafter
    exact ⟨⟨haccepts, hrest⟩, hle, fun after hresult => ⟨finished, hok after hresult⟩⟩
  · obtain ⟨hwithin, -, hended⟩ := runs_afterAttempt_finished hattempted hfailed hafter
    have hown : ∀ event ∈ rest, OfStep step.id event := fun event hevent =>
      Or.inl (hwithin event hevent)
    obtain ⟨hrest, hsame⟩ := accepts_of_ofStep hown state
    rw [hsame, replans_of_ofStep hown, Nat.add_zero]
    refine ⟨⟨haccepts, hrest⟩, hspent, fun after hresult => ?_⟩
    have hended := hended after hresult
    have hunfinished : step.id ∉ state.finishedStepIds := fun hmem => by
      have := (h.mem_finished _).mp hmem
      omega
    refine ⟨finished + 1, front_settled h (by omega) (hid ▸ hended.settled) hended.outline,
      preserves_of_settled hended.settled hunfinished, ?_⟩
    rw [ids_of_outline hended.outline]
    exact hmiddle.of_withinStep hwithin htail

/-- The loop under `REPLAN`, for any number of rounds. -/
theorem runs_executeLoop_replan {fuel : Nat} (hpolicy : config.failurePolicy = .replan)
    (hvalidator : config.validatorConfigured = true) (h : Front finished state)
    (hspent : spent ≤ config.maxReplanAttempts) (hkeeping : Keeping state.plan.ids spent objects)
    (hfollows : Follows SharedObjects.Step objects trace last)
    (hrun : Runs (executeLoop config fuel state) trace result) :
    continuity.Accepts state trace ∧ spent + replans trace ≤ config.maxReplanAttempts ∧
      ∀ after, result = .ok after → continuity.track state trace = after ∧
        ∃ front, Front front after ∧ Keeping after.plan.ids (spent + replans trace) last := by
  induction fuel generalizing finished spent state trace objects with
  | zero =>
      obtain ⟨rfl, rfl⟩ := runs_fail_iff.mp hrun
      exact ⟨trivial, hspent, fun after hafter => by cases hafter⟩
  | succ fuel ih =>
      by_cases hall : finished = state.plan.steps.length
      · subst hall
        rw [executeLoop_of_ended h] at hrun
        obtain ⟨rfl, rfl⟩ := runs_pure_iff.mp hrun
        cases Follows.nil_iff.mp hfollows
        refine ⟨trivial, hspent, fun after hafter => ?_⟩
        cases hafter
        exact ⟨rfl, _, h, hkeeping⟩
      · obtain ⟨step, hstep, hid⟩ := h.sequential.exists_step (lt_of_le_of_ne h.le_length hall)
        rw [executeLoop_of_front h hstep hid] at hrun
        rcases runs_bind_iff.mp hrun with
          ⟨ended, first, later, hfirst, hlater, rfl⟩ | ⟨raised, hfirst, rfl⟩
        · obtain ⟨middle, hbefore, hbehind⟩ := Follows.append_iff.mp hfollows
          obtain ⟨haccepts, hle, hok⟩ :=
            runs_replanRound hpolicy hvalidator h hstep hid hspent hkeeping hbefore hfirst
          obtain ⟨front, hfront, hpreserves, hmiddle⟩ := hok ended rfl
          rcases runs_bind_iff.mp hlater with
            ⟨_, second, rest, hsecond, hrest, rfl⟩ | ⟨error, hsecond, -⟩
          · obtain ⟨next, hsync, htail⟩ := Follows.append_iff.mp hbehind
            obtain ⟨rfl, -, hnext⟩ := runs_syncGraph hfront hmiddle hsync hsecond
            obtain ⟨hrestAccepts, hrestLe, hrestOk⟩ := ih hfront hle hnext htail hrest
            have hreplans : replans (first ++ ([⟨.syncPlanGraph ended, .ok ()⟩] ++ rest)) =
                replans first + replans rest := by
              rw [replans_append, replans_append, replans_sync, Nat.zero_add]
            rw [hreplans, ← Nat.add_assoc, Monitor.accepts_append_iff, Monitor.track_append]
            exact ⟨⟨haccepts, ⟨segment_of_front hfront, hpreserves⟩, hrestAccepts⟩, hrestLe,
              hrestOk⟩
          · obtain ⟨-, hresult, -⟩ := runs_syncGraph hfront hmiddle hbehind hsecond
            cases hresult
        · obtain ⟨haccepts, hle, -⟩ :=
            runs_replanRound hpolicy hvalidator h hstep hid hspent hkeeping hfollows hfirst
          exact ⟨haccepts, hle, fun after hafter => by cases hafter⟩

theorem runs_execute_replan {plan : Plan} {sessionId : String} {context : GlobalContext}
    {fuel : Nat} (hpolicy : config.failurePolicy = .replan)
    (hvalidator : config.validatorConfigured = true) (hsequential : plan.Sequential)
    (hfresh : objects.replanAttempts = 0) (hfollows : Follows SharedObjects.Step objects trace last)
    (hrun : Runs (execute config fuel plan (begun plan sessionId context)) trace result) :
    continuity.Accepts (begun plan sessionId context) trace ∧
      replans trace ≤ config.maxReplanAttempts := by
  have hfront := front_begun hsequential sessionId context
  obtain ⟨rest, middle, rfl, hkeeping, hrest, hruns⟩ := runs_execute hfront hfollows hrun
  rw [hfresh] at hkeeping
  have hsame : Preserves (begun plan sessionId context) (begun plan sessionId context) :=
    fun _ _ => ⟨rfl, rfl⟩
  have hreplans : ∀ own : List Event, replans (
      (⟨.newPlanGraph plan (begun plan sessionId context).sessionId, ()⟩ : Event) ::
      (⟨.syncPlanGraph (begun plan sessionId context), .ok ()⟩ : Event) :: own) = replans own :=
    fun own => by simp [replans, Op.replansUnfinished]
  rcases runs_bind_iff.mp hruns with
    ⟨ended, first, later, hfirst, hlater, rfl⟩ | ⟨raised, hfirst, rfl⟩
  · obtain ⟨next, hbefore, hbehind⟩ := Follows.append_iff.mp hrest
    obtain ⟨haccepts, hle, hok⟩ := runs_executeLoop_replan hpolicy hvalidator hfront (Nat.zero_le _)
      hkeeping hbefore hfirst
    obtain ⟨htrack, front, hended, hnext⟩ := hok ended rfl
    have hcleared : Front front { ended with currentStep := none } :=
      ⟨hended.sequential, hended.le_length, hended.mem_finished, hended.pending⟩
    rcases runs_bind_iff.mp hlater with ⟨_, second, tail, hsecond, htail, rfl⟩ | ⟨error, hsecond, -⟩
    · obtain ⟨stop, hsync, hdone⟩ := Follows.append_iff.mp hbehind
      obtain ⟨rfl, -, -⟩ := runs_syncGraph hcleared hnext hsync hsecond
      obtain ⟨rfl, rfl⟩ := runs_pure_iff.mp htail
      have hlast : Preserves (continuity.track (begun plan sessionId context) first)
          { ended with currentStep := none } := by
        rw [htrack]
        exact fun _ _ => ⟨rfl, rfl⟩
      rw [hreplans, List.append_nil, replans_append, replans_sync]
      refine ⟨⟨trivial, ⟨segment_of_front hfront, hsame⟩, ?_⟩, by omega⟩
      exact (Monitor.accepts_append_iff _).mpr
        ⟨haccepts, ⟨segment_of_front hcleared, hlast⟩, trivial⟩
    · obtain ⟨-, hresult, -⟩ := runs_syncGraph hcleared hnext hbehind hsecond
      cases hresult
  · obtain ⟨haccepts, hle, -⟩ := runs_executeLoop_replan hpolicy hvalidator hfront (Nat.zero_le _)
      hkeeping hrest hfirst
    rw [hreplans]
    exact ⟨⟨trivial, ⟨segment_of_front hfront, hsame⟩, haccepts⟩, by omega⟩

end Rounds

/-- Under `REPLAN` with a validator, the finished steps are the first ones of the plan in
every round and stay as they are; a replan that is accepted leaves a plan numbered from one,
with the finished steps first; and a fresh executor replans at most as often as it may. -/
theorem execute_keepsSegment {config : ExecutorConfig} {registry : List String} {plan : Plan}
    {sessionId : String} {context : GlobalContext} {fuel : Nat} {objects last : SharedObjects}
    {trace : List Event} {result : Except Raised PlanState}
    (hpolicy : config.failurePolicy = .replan) (hvalidator : config.validatorConfigured = true)
    (hvalid : (validate registry plan).success = true) (hfresh : objects.replanAttempts = 0)
    (hfollows : Follows SharedObjects.Step objects trace last)
    (hrun : Runs (execute config fuel plan (begun plan sessionId context)) trace result) :
    (∀ before state reply rest, trace = before ++ ⟨.syncPlanGraph state, reply⟩ :: rest →
      Segment state ∧ Preserves (before.foldl synced (begun plan sessionId context)) state) ∧
    (∀ before rebuilt reply rest, trace = before ++ ⟨.rebuildPlanGraph rebuilt, reply⟩ :: rest →
      Continues (before.foldl synced (begun plan sessionId context)) rebuilt) ∧
    replans trace ≤ config.maxReplanAttempts := by
  have hsequential := (wellFormed_of_validate hvalid).sequential
  obtain ⟨haccepts, hle⟩ :=
    runs_execute_replan hpolicy hvalidator hsequential hfresh hfollows hrun
  have hchecks := (Monitor.accepts_iff _).mp haccepts
  exact ⟨fun before state reply rest heq => hchecks before _ rest heq,
    fun before rebuilt reply rest heq => hchecks before _ rest heq, hle⟩

/-- A plan whose second step fails. -/
def indoorTrip : Plan :=
  ⟨"上海一日游", [⟨1, "整理行程", none, none⟩, ⟨2, "查询天气", some "weather", some [1]⟩]⟩

/-- A run of the plan in which the planner replaces the step whose tool fails. -/
def replannedTrip : Outcome runtimeSig Raised PlanState (SharedObjects × Unit) :=
  Components.exec
    { executeLlmCall := fun tool args _ => { success := false, tool := tool, args := args }
      replanUnfinishedSteps := fun _ _ _ => .ok [⟨7, "改为室内行程", none, some [1]⟩] }
    {} (execute (plainExecutor .replan ["weather"]) 4 indoorTrip (begun indoorTrip "default" {}))

theorem execute_keepsSegment_indoorTrip :
    ∃ trace ended, Runs (execute (plainExecutor .replan ["weather"]) 4 indoorTrip
        (begun indoorTrip "default" {})) trace (.ok ended) ∧
      replans trace = 1 ∧ (∃ before rebuilt reply rest,
        trace = before ++ ⟨.rebuildPlanGraph rebuilt, reply⟩ :: rest ∧
        Continues (before.foldl synced (begun indoorTrip "default" {})) rebuilt) ∧
      replans trace ≤ (plainExecutor .replan ["weather"]).maxReplanAttempts := by
  obtain ⟨ended, hrun, hfollows⟩ := Components.exists_runs_exec
    (show replannedTrip.result.isOk = true by decide +kernel)
  have hvalid : (validate ["weather"] indoorTrip).success = true := by decide +kernel
  have hone : replans replannedTrip.trace = 1 := by decide +kernel
  have hrebuilds : (replannedTrip.trace.any fun event => match event.op with
      | .rebuildPlanGraph _ => true
      | _ => false) = true := by decide +kernel
  obtain ⟨-, hcontinues, hle⟩ := execute_keepsSegment rfl rfl hvalid rfl hfollows hrun
  refine ⟨_, ended, hrun, hone, ?_, hle⟩
  obtain ⟨⟨op, reply⟩, hmem, hop⟩ := List.any_eq_true.mp hrebuilds
  obtain ⟨before, rest, heq⟩ := List.append_of_mem hmem
  cases op with
  | rebuildPlanGraph rebuilt =>
      exact ⟨before, rebuilt, reply, rest, heq, hcontinues before rebuilt reply rest heq⟩
  | _ => cases hop

end PlanExecutor

end TripGraph
