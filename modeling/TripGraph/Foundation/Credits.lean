import Mathlib.Algebra.Ring.Nat
import Mathlib.Data.List.Forall2
import TripGraph.Foundation.Gather

/-! # Credits

A program is given credits, and every operation takes its weight from them. What a program
can afford bounds the weight of all its traces, those of failing runs included. Gathered
tasks can afford together what they can afford one by one.
-/

namespace Interaction

variable {S : Signature} {ε α β : Type}

/-- The weight of a trace. -/
def cost (weight : S.Op → Nat) (trace : List (Exchange S)) : Nat :=
  (trace.map fun exchange => weight exchange.op).sum

namespace Program

/-- The credits pay for every operation the program can ask, and what is left allows the
value it returns. -/
def Affords (weight : S.Op → Nat) (Q : Nat → α → Prop) : Program S ε α → Nat → Prop
  | .done value, credits => Q credits value
  | .fail _, _ => True
  | .ask op next, credits =>
      weight op ≤ credits ∧ ∀ reply, (next reply).Affords weight Q (credits - weight op)

variable {weight : S.Op → Nat} {Q Q' : Nat → α → Prop} {R : Nat → β → Prop} {credits : Nat}

@[simp] theorem affords_pure_iff {value : α} :
    (pure value : Program S ε α).Affords weight Q credits ↔ Q credits value := Iff.rfl

@[simp] theorem affords_fail (error : ε) :
    (fail error : Program S ε α).Affords weight Q credits := trivial

/-- More credits pay for as much. -/
theorem Affords.mono {p : Program S ε α} (h : p.Affords weight Q credits) {more : Nat}
    (hmore : credits ≤ more)
    (hQ : ∀ left left' value, Q left value → left ≤ left' → Q' left' value) :
    p.Affords weight Q' more := by
  induction p generalizing credits more with
  | done value => exact hQ credits more value h hmore
  | fail error => trivial
  | ask op next ih =>
      obtain ⟨hweight, hnext⟩ := h
      refine ⟨Nat.le_trans hweight hmore, ?_⟩
      intro reply
      exact ih reply (hnext reply) (Nat.sub_le_sub_right hmore _)

/-- Credits that are set aside are still there afterwards. -/
theorem Affords.frame {p : Program S ε α} (h : p.Affords weight Q credits) (aside : Nat) :
    p.Affords weight (fun left value => ∃ own, Q own value ∧ left = own + aside)
      (credits + aside) := by
  induction p generalizing credits with
  | done value => exact ⟨credits, h, rfl⟩
  | fail error => trivial
  | ask op next ih =>
      obtain ⟨hweight, hnext⟩ := h
      refine ⟨Nat.le_trans hweight (Nat.le_add_right credits aside), ?_⟩
      intro reply
      rw [Nat.sub_add_comm hweight]
      exact ih reply (hnext reply)

theorem Affords.bind {p : Program S ε α} {f : α → Program S ε β}
    (hp : p.Affords weight Q credits)
    (hf : ∀ left value, Q left value → (f value).Affords weight R left) :
    (p >>= f).Affords weight R credits := by
  induction p generalizing credits with
  | done value => exact hf credits value hp
  | fail error => trivial
  | ask op next ih => exact ⟨hp.1, fun reply => ih reply (hp.2 reply)⟩

/-- Credits for one part of a program and credits for the rest. -/
theorem Affords.bind_add {p : Program S ε α} {f : α → Program S ε β} {rest : Nat}
    (hp : p.Affords weight (fun _ _ => True) credits)
    (hf : ∀ left value, rest ≤ left → (f value).Affords weight R left) :
    (p >>= f).Affords weight R (credits + rest) := by
  refine (hp.frame rest).bind ?_
  rintro left value ⟨own, -, rfl⟩
  exact hf (own + rest) value (Nat.le_add_left rest own)

/-- A program that asks nothing of weight needs no credits. -/
theorem affords_of_respects {p : Program S ε α} {T : α → Prop}
    (h : p.Respects (fun op => weight op = 0) T) (credits : Nat) :
    p.Affords weight (fun left value => left = credits ∧ T value) credits := by
  induction p with
  | done value => exact ⟨rfl, h⟩
  | fail error => trivial
  | ask op next ih =>
      obtain ⟨hweight, hnext⟩ := h
      refine ⟨hweight ▸ Nat.zero_le credits, ?_⟩
      intro reply
      rw [hweight, Nat.sub_zero]
      exact ih reply (hnext reply)

/-- What a program can afford bounds the weight of its traces. -/
theorem Affords.cost_le {p : Program S ε α} (h : p.Affords weight Q credits)
    {trace : List (Exchange S)} {result : Except ε α} (hrun : Runs p trace result) :
    cost weight trace ≤ credits := by
  induction hrun generalizing credits with
  | done value => exact Nat.zero_le credits
  | fail error => exact Nat.zero_le credits
  | ask op next reply trace result rest ih =>
      obtain ⟨hweight, hnext⟩ := h
      have hrest := ih (hnext reply)
      simp only [cost, List.map_cons, List.sum_cons] at hrest ⊢
      omega

/-! ## Gathered tasks -/

variable {suspends : S.Op → Bool}

theorem Affords.advance {task : Program S ε α} (h : task.Affords weight Q credits) :
    (task.advance suspends).Affords weight (fun left rest => rest.Affords weight Q left)
      credits := by
  induction task generalizing credits with
  | done value => exact h
  | fail error => trivial
  | ask op next ih =>
      rw [Program.advance]
      split
      · exact h
      · exact ⟨h.1, fun reply => ih reply (h.2 reply)⟩

theorem Affords.resume {task : Program S ε α} (h : task.Affords weight Q credits) :
    (task.resume suspends).Affords weight (fun left rest => rest.Affords weight Q left)
      credits := by
  cases task with
  | done value => exact h
  | fail error => trivial
  | ask op next => exact ⟨h.1, fun reply => (h.2 reply).advance⟩

/-- Items that are allowed one by one, with credits that add up to at most these. -/
def Shares {ι : Type} (T : Nat → ι → Prop) (credits : Nat) (items : List ι) : Prop :=
  ∃ shares, List.Forall₂ T shares items ∧ shares.sum ≤ credits

theorem Shares.cons {ι : Type} {T : Nat → ι → Prop} {item : ι} {items : List ι} {own : Nat}
    (hitem : T own item) (hitems : Shares T credits items) :
    Shares T (own + credits) (item :: items) := by
  obtain ⟨shares, hall, hsum⟩ := hitems
  exact ⟨own :: shares, .cons hitem hall, by simpa using hsum⟩

/-- One item may be taken out, and another one put in its place. -/
theorem Shares.take {ι : Type} {T : Nat → ι → Prop} {items : List ι}
    (h : Shares T credits items) {index : Nat} {item : ι} (hitem : items[index]? = some item) :
    ∃ own rest, T own item ∧ own + rest ≤ credits ∧
      ∀ own' item', T own' item' → Shares T (own' + rest) (items.set index item') := by
  obtain ⟨shares, hall, hsum⟩ := h
  induction hall generalizing index credits with
  | nil => simp at hitem
  | @cons own other shares items hother hall ih =>
      simp only [List.sum_cons] at hsum
      cases index with
      | zero =>
          obtain rfl := Option.some.inj hitem
          refine ⟨own, shares.sum, hother, hsum, ?_⟩
          intro own' item' hitem'
          exact Shares.cons hitem' ⟨shares, hall, Nat.le_refl _⟩
      | succ index =>
          obtain ⟨taken, rest, htaken, hle, hset⟩ := ih hitem (Nat.le_refl _)
          refine ⟨taken, own + rest, htaken, by omega, ?_⟩
          intro own' item' hitem'
          have hcons := Shares.cons hother (hset own' item' hitem')
          rwa [Nat.add_left_comm] at hcons

theorem Shares.mono {ι : Type} {T : Nat → ι → Prop} {items : List ι} (h : Shares T credits items)
    {more : Nat} (hmore : credits ≤ more) : Shares T more items := by
  obtain ⟨shares, hall, hsum⟩ := h
  exact ⟨shares, hall, Nat.le_trans hsum hmore⟩

theorem affords_sequence {tasks : List (Program S ε α)}
    (h : Shares (fun own task => Affords weight Q task own) credits tasks) :
    (sequence tasks).Affords weight (Shares Q) credits := by
  obtain ⟨shares, hall, hsum⟩ := h
  have hexact : (sequence tasks).Affords weight (Shares Q) shares.sum := by
    clear hsum
    induction hall with
    | nil => exact ⟨[], .nil, Nat.le_refl _⟩
    | @cons own task shares tasks htask hall ih =>
        rw [List.sum_cons]
        refine (htask.frame shares.sum).bind ?_
        rintro _ value ⟨left, hvalue, rfl⟩
        rw [Nat.add_comm]
        refine (ih.frame left).bind ?_
        rintro _ values ⟨rest, hvalues, rfl⟩
        rw [Nat.add_comm]
        exact Shares.cons hvalue hvalues
  exact hexact.mono hsum fun _ _ _ hshares hle => hshares.mono hle

theorem affords_interleave {schedule : List Nat} {tasks : List (Program S ε α)}
    (h : Shares (fun own task => Affords weight Q task own) credits tasks) :
    (interleave suspends schedule tasks).Affords weight
      (Shares fun own task => Affords weight Q task own) credits := by
  induction schedule generalizing tasks credits with
  | nil =>
      rw [interleave]
      split
      · trivial
      · exact h
  | cons index rest ih =>
      rw [interleave]
      split
      · trivial
      split
      next task htask =>
        obtain ⟨own, others, hown, hle, hset⟩ := h.take htask
        have hresumed : (task.resume suspends >>= fun task' =>
            interleave suspends rest (tasks.set index task')).Affords weight
            (Shares fun own task => Affords weight Q task own) (own + others) := by
          refine (hown.resume.frame others).bind ?_
          rintro _ parked ⟨left, hleft, rfl⟩
          exact ih (hset left parked hleft)
        exact hresumed.mono hle fun _ _ _ hshares hmore => hshares.mono hmore
      next => exact ih h

/-- Gathered tasks can afford together what they can afford one by one. -/
theorem affords_gather {schedule : List Nat} {tasks : List (Program S ε α)}
    (h : Shares (fun own task => Affords weight Q task own) credits tasks) :
    (gather suspends schedule tasks).Affords weight (Shares Q) credits := by
  have hstarted : Shares (fun own task => Affords weight
      (fun left rest => Affords weight Q rest left) task own) credits
      (tasks.map (Program.advance suspends)) := by
    obtain ⟨shares, hall, hsum⟩ := h
    refine ⟨shares, ?_, hsum⟩
    rw [List.forall₂_map_right_iff]
    exact hall.imp fun _ _ htask => htask.advance
  refine (affords_sequence hstarted).bind fun left started hleft => ?_
  exact (affords_interleave hleft).bind fun rest parked hrest => affords_sequence hrest

end Program

end Interaction
