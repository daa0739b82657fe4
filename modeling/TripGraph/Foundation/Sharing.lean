import Mathlib.Logic.Function.Basic
import TripGraph.Foundation.Program

/-! # Tasks that share an object

The shared object answers some operations, and they change it; the others go to a world of
the task's own. A schedule says whose turn it is, one operation at a time, so that it can
switch wherever a real scheduler may. As long as every reply of the shared object is the one
a task would get from an object of its own, the task goes on as if it were alone.
-/

namespace Interaction

variable {S : Signature} {ε α θ σ ι : Type}

/-- An object with a fresh state; it answers some of the operations. -/
structure SharedObject (S : Signature) (θ : Type) where
  fresh : θ
  answer : θ → (op : S.Op) → Option (S.Reply op × θ)

/-- A task under way: what is left of it, the state of its own world, and what it has
exchanged so far. -/
structure Task (S : Signature) (ε α σ : Type) where
  left : Program S ε α
  world : σ
  trace : List (Exchange S)

/-- What a task has come to, once it has ended. -/
def Task.result? (task : Task S ε α σ) : Option (Except ε α) :=
  match task.left with
  | .done value => some (.ok value)
  | .fail error => some (.error error)
  | .ask _ _ => none

/-- All tasks and the object they share. -/
structure Crowd (S : Signature) (ε α σ θ ι : Type) where
  tasks : ι → Task S ε α σ
  current : θ

namespace SharedObject

variable (object : SharedObject S θ)

/-- Answer from the object where it answers, and from the world otherwise. -/
def handler (world : Handler S σ) : Handler S (θ × σ) where
  answer op state :=
    match object.answer state.1 op with
    | some answered => (answered.1, (answered.2, state.2))
    | none =>
        let answered := world.answer op state.2
        (answered.1, (state.1, answered.2))

/-- The object after this exchange. -/
def advance (current : θ) (exchange : Exchange S) : θ :=
  (object.answer current exchange.op).elim current Prod.snd

/-- A fresh object after the exchanges of one task alone. -/
def own (trace : List (Exchange S)) : θ := trace.foldl object.advance object.fresh

/-- A task takes one operation; a task that has ended takes none. -/
def turn (world : Handler S σ) (task : Task S ε α σ) (current : θ) : Task S ε α σ × θ :=
  match task.left with
  | .done _ => (task, current)
  | .fail _ => (task, current)
  | .ask op next =>
      let answered := (object.handler world).answer op (current, task.world)
      (⟨next answered.1, answered.2.2, task.trace ++ [⟨op, answered.1⟩]⟩, answered.2.1)

variable [DecidableEq ι] (worlds : ι → Handler S σ)

/-- The turn of one task in the crowd. -/
def step (crowd : Crowd S ε α σ θ ι) (who : ι) : Crowd S ε α σ θ ι :=
  let turned := object.turn (worlds who) (crowd.tasks who) crowd.current
  ⟨Function.update crowd.tasks who turned.1, turned.2⟩

/-- The tasks take turns as the schedule says. -/
def run (schedule : List ι) (crowd : Crowd S ε α σ θ ι) : Crowd S ε α σ θ ι :=
  schedule.foldl (object.step worlds) crowd

/-- All tasks at their beginning, with a fresh object. -/
def start (programs : ι → Program S ε α) (states : ι → σ) : Crowd S ε α σ θ ι where
  tasks who := ⟨programs who, states who, []⟩
  current := object.fresh

/-- At each turn of a task, `P` relates the shared object to the task's own and the operation
it is about to ask. -/
def Throughout (P : θ → θ → S.Op → Prop) : List ι → Crowd S ε α σ θ ι → Prop
  | [], _ => True
  | who :: rest, crowd =>
      (match (crowd.tasks who).left with
        | .ask op _ => P crowd.current (object.own (crowd.tasks who).trace) op
        | _ => True) ∧
      Throughout P rest (object.step worlds crowd who)

instance throughoutDecidable (P : θ → θ → S.Op → Prop)
    [∀ current own op, Decidable (P current own op)] :
    (schedule : List ι) → (crowd : Crowd S ε α σ θ ι) →
      Decidable (object.Throughout worlds P schedule crowd)
  | [], _ => isTrue trivial
  | who :: rest, crowd =>
      have : Decidable (match (crowd.tasks who).left with
          | .ask op _ => P crowd.current (object.own (crowd.tasks who).trace) op
          | _ => True) :=
        match (crowd.tasks who).left with
        | .ask op _ => inferInstanceAs (Decidable (P _ _ op))
        | .done _ => isTrue trivial
        | .fail _ => isTrue trivial
      have := throughoutDecidable P rest (object.step worlds crowd who)
      inferInstanceAs (Decidable (_ ∧ _))

/-- The object replies alike in both states, or leaves the operation to the world in both. -/
def SameReply (current own : θ) (op : S.Op) : Prop :=
  (object.answer current op).map Prod.fst = (object.answer own op).map Prod.fst

/-! ## A task alone -/

variable {object} {world : Handler S σ}

/-- What a task has done so far, and goes on to do with an object of its own, is what the
program does alone. -/
def Alone (object : SharedObject S θ) (world : Handler S σ) (program : Program S ε α) (state : σ)
    (task : Task S ε α σ) : Prop :=
  let rest := task.left.exec (object.handler world) (object.own task.trace, task.world)
  program.exec (object.handler world) (object.fresh, state) =
    ⟨task.trace ++ rest.trace, rest.result, rest.state⟩

theorem alone_start (program : Program S ε α) (state : σ) :
    Alone object world program state ⟨program, state, []⟩ := rfl

/-- The reply of the object decides what the handler says. -/
theorem handler_of_sameReply (world : Handler S σ) {current own : θ} {op : S.Op}
    (h : object.SameReply current own op) (state : σ) :
    ((object.handler world).answer op (current, state)).1 =
        ((object.handler world).answer op (own, state)).1 ∧
      ((object.handler world).answer op (current, state)).2.2 =
        ((object.handler world).answer op (own, state)).2.2 := by
  simp only [SameReply] at h
  cases hcurrent : object.answer current op with
  | none =>
      rw [hcurrent, Option.map_none, eq_comm, Option.map_eq_none_iff] at h
      simp [handler, hcurrent, h]
  | some answered =>
      rw [hcurrent, Option.map_some, eq_comm, Option.map_eq_some_iff] at h
      obtain ⟨answered', hown, hreply⟩ := h
      simp [handler, hcurrent, hown, hreply]

/-- The handler keeps the object as the exchanges so far leave it. -/
theorem handler_advance (world : Handler S σ) {current : θ} {op : S.Op} {reply : S.Reply op}
    (state : σ) :
    ((object.handler world).answer op (current, state)).2.1 =
      object.advance current ⟨op, reply⟩ := by
  simp only [handler, advance]
  cases object.answer current op <;> rfl

theorem own_concat (trace : List (Exchange S)) (exchange : Exchange S) :
    object.own (trace ++ [exchange]) = object.advance (object.own trace) exchange := by
  simp [own]

/-- A reply that is the task's own leaves it alone. -/
theorem Alone.turn {program : Program S ε α} {state : σ} {task : Task S ε α σ} {current : θ}
    (h : Alone object world program state task)
    (hsame : ∀ op next, task.left = .ask op next →
      object.SameReply current (object.own task.trace) op) :
    Alone object world program state (object.turn world task current).1 := by
  obtain ⟨left, own, trace⟩ := task
  cases left with
  | done value => exact h
  | fail error => exact h
  | ask op next =>
      obtain ⟨hreply, hworld⟩ := handler_of_sameReply world (hsame op next rfl) own
      simp only [Alone, SharedObject.turn, own_concat, hreply, hworld] at h ⊢
      rw [h, ← handler_advance world own]
      simp [Program.exec]

/-- A task that has ended has done what the program does alone. -/
theorem Alone.ended {program : Program S ε α} {state : σ} {task : Task S ε α σ}
    (h : Alone object world program state task) {result : Except ε α}
    (hended : task.result? = some result) :
    (program.exec (object.handler world) (object.fresh, state)).trace = task.trace ∧
      (program.exec (object.handler world) (object.fresh, state)).result = result := by
  obtain ⟨left, own, trace⟩ := task
  rw [h]
  cases left with
  | done value =>
      cases hended
      simp
  | fail error =>
      cases hended
      simp
  | ask op next => cases hended

/-! ## The crowd -/

variable {worlds}

/-- In a crowd in which every reply is the asking task's own, all tasks stay alone. -/
theorem alone_run {P : θ → θ → S.Op → Prop}
    (hP : ∀ current own op, P current own op → object.SameReply current own op)
    {programs : ι → Program S ε α} {states : ι → σ} {schedule : List ι}
    {crowd : Crowd S ε α σ θ ι} (hthroughout : object.Throughout worlds P schedule crowd)
    (halone : ∀ who, Alone object (worlds who) (programs who) (states who) (crowd.tasks who)) :
    ∀ who, Alone object (worlds who) (programs who) (states who)
      ((object.run worlds schedule crowd).tasks who) := by
  induction schedule generalizing crowd with
  | nil => exact halone
  | cons first rest ih =>
      refine ih hthroughout.2 fun who => ?_
      -- only the task whose turn it is changes
      by_cases hwho : who = first
      · subst hwho
        simp only [step, Function.update_self]
        apply (halone who).turn
        intro op next hleft
        have hturn := hthroughout.1
        rw [hleft] at hturn
        exact hP _ _ op hturn
      · simp only [step, Function.update_of_ne hwho]
        exact halone who

end SharedObject

end Interaction
