import Mathlib.Data.List.Basic

/-! # Serving in order

A server takes items into a queue and serves the first one, one at a time. What it has begun is
then what came first, and what it has ended is that without the item it is at.
-/

namespace Interaction

variable {ι : Type}

/-- What happens to an item. -/
inductive FifoEvent (ι : Type)
  | put (item : ι)
  | begun (item : ι)
  | ended (item : ι)

namespace FifoEvent

def put? : FifoEvent ι → Option ι
  | .put item => some item
  | _ => none

def begun? : FifoEvent ι → Option ι
  | .begun item => some item
  | _ => none

def ended? : FifoEvent ι → Option ι
  | .ended item => some item
  | _ => none

variable (item : ι)

@[simp] theorem put?_put : (put item).put? = some item := rfl
@[simp] theorem put?_begun : (begun item).put? = none := rfl
@[simp] theorem put?_ended : (ended item).put? = none := rfl
@[simp] theorem begun?_put : (put item).begun? = none := rfl
@[simp] theorem begun?_begun : (begun item).begun? = some item := rfl
@[simp] theorem begun?_ended : (ended item).begun? = none := rfl
@[simp] theorem ended?_put : (put item).ended? = none := rfl
@[simp] theorem ended?_begun : (begun item).ended? = none := rfl
@[simp] theorem ended?_ended : (ended item).ended? = some item := rfl

end FifoEvent

/-- The queue and the item that is served, after events in this order. -/
inductive Fifo : List (FifoEvent ι) → List ι → Option ι → Prop
  | nil : Fifo [] [] none
  | put {events : List (FifoEvent ι)} {queue : List ι} {serving : Option ι}
      (earlier : Fifo events queue serving) (item : ι) :
      Fifo (events ++ [.put item]) (queue ++ [item]) serving
  | begun {events : List (FifoEvent ι)} {queue : List ι} {item : ι}
      (earlier : Fifo events (item :: queue) none) :
      Fifo (events ++ [.begun item]) queue (some item)
  | ended {events : List (FifoEvent ι)} {queue : List ι} {item : ι}
      (earlier : Fifo events queue (some item)) : Fifo (events ++ [.ended item]) queue none

namespace Fifo

variable {events : List (FifoEvent ι)} {queue : List ι} {serving : Option ι}

/-- What came is what was begun and what still waits. -/
theorem put_eq (h : Fifo events queue serving) :
    events.filterMap FifoEvent.put? = events.filterMap FifoEvent.begun? ++ queue := by
  induction h with
  | nil => rfl
  | put earlier item ih => simp [ih, List.filterMap_cons]
  | begun earlier ih => simp [ih, List.filterMap_cons]
  | ended earlier ih => simp [ih, List.filterMap_cons]

/-- What was begun is what was ended and what is served. -/
theorem begun_eq (h : Fifo events queue serving) :
    events.filterMap FifoEvent.begun? = events.filterMap FifoEvent.ended? ++ serving.toList := by
  induction h with
  | nil => rfl
  | put earlier item ih => simp [ih, List.filterMap_cons]
  | begun earlier ih => simp [ih, List.filterMap_cons]
  | ended earlier ih => simp [ih, List.filterMap_cons]

/-- Each item is begun at most once and in the order they came. -/
theorem begun_prefix (h : Fifo events queue serving) :
    events.filterMap FifoEvent.begun? <+: events.filterMap FifoEvent.put? :=
  ⟨queue, h.put_eq.symm⟩

/-- When nothing waits and nothing is served, all that came was ended. -/
theorem ended_eq_put (h : Fifo events [] none) :
    events.filterMap FifoEvent.ended? = events.filterMap FifoEvent.put? := by
  rw [h.put_eq, h.begun_eq, List.append_nil, Option.toList_none, List.append_nil]

end Fifo

end Interaction
