import TripGraph.Foundation.Program

/-! # Monitors

A monitor follows a trace with a state of its own and checks every exchange against it.
-/

namespace Interaction

/-- What a monitor remembers after an exchange, and what it demands of one. -/
structure Monitor (S : Signature) (σ : Type) where
  next : σ → Exchange S → σ
  check : σ → Exchange S → Prop

namespace Monitor

variable {S : Signature} {σ : Type} (monitor : Monitor S σ)

/-- What the monitor remembers after a trace. -/
def track (state : σ) (trace : List (Exchange S)) : σ := trace.foldl monitor.next state

/-- Every exchange passes the check. -/
def Accepts : σ → List (Exchange S) → Prop
  | _, [] => True
  | state, exchange :: rest =>
      monitor.check state exchange ∧ Accepts (monitor.next state exchange) rest

@[simp] theorem track_nil (state : σ) : monitor.track state [] = state := rfl

@[simp] theorem track_cons (state : σ) (exchange : Exchange S) (rest : List (Exchange S)) :
    monitor.track state (exchange :: rest) = monitor.track (monitor.next state exchange) rest := rfl

@[simp] theorem track_append (state : σ) (first second : List (Exchange S)) :
    monitor.track state (first ++ second) = monitor.track (monitor.track state first) second :=
  List.foldl_append

@[simp] theorem accepts_nil (state : σ) : monitor.Accepts state [] := trivial

@[simp] theorem accepts_cons_iff {state : σ} {exchange : Exchange S} {rest : List (Exchange S)} :
    monitor.Accepts state (exchange :: rest) ↔
      monitor.check state exchange ∧ monitor.Accepts (monitor.next state exchange) rest := Iff.rfl

@[simp] theorem accepts_append_iff {state : σ} {first second : List (Exchange S)} :
    monitor.Accepts state (first ++ second) ↔
      monitor.Accepts state first ∧ monitor.Accepts (monitor.track state first) second := by
  induction first generalizing state with
  | nil => simp
  | cons exchange rest ih =>
      simp only [List.cons_append, accepts_cons_iff, ih, track_cons, and_assoc]

/-- A trace is accepted if each exchange passes the check after what comes before it. -/
theorem accepts_iff {state : σ} {trace : List (Exchange S)} :
    monitor.Accepts state trace ↔ ∀ before exchange after, trace = before ++ exchange :: after →
      monitor.check (monitor.track state before) exchange := by
  induction trace generalizing state with
  | nil => simp
  | cons own rest ih =>
      rw [accepts_cons_iff, ih]
      constructor
      · rintro ⟨hown, hrest⟩ before exchange after heq
        cases before with
        | nil =>
            cases heq
            exact hown
        | cons first before =>
            cases heq
            exact hrest before exchange after rfl
      · intro h
        refine ⟨h [] own rest rfl, fun before exchange after heq => ?_⟩
        rw [← track_cons]
        exact h (own :: before) exchange after (by rw [heq, List.cons_append])

variable {monitor} in
/-- A monitor accepts what never moves it from a state in which it demands nothing more. -/
theorem accepts_of_steady {state : σ} {trace : List (Exchange S)}
    (h : ∀ exchange ∈ trace, monitor.check state exchange ∧ monitor.next state exchange = state) :
    monitor.Accepts state trace ∧ monitor.track state trace = state := by
  induction trace with
  | nil => exact ⟨trivial, rfl⟩
  | cons exchange rest ih =>
      obtain ⟨⟨hcheck, hnext⟩, hrest⟩ := List.forall_mem_cons.mp h
      rw [accepts_cons_iff, track_cons, hnext]
      exact ⟨⟨hcheck, (ih hrest).1⟩, (ih hrest).2⟩

end Monitor

end Interaction
