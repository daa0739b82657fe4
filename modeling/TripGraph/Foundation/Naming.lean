import Mathlib.Logic.Function.Basic
import TripGraph.Foundation.Dict

/-! # Keys that are counted

A dictionary grows under keys that are given and under keys made from its size. A made key is
new unless that very key was given before.
-/

namespace Interaction

namespace Dict

variable {κ ν : Type} [DecidableEq κ]

/-- What the dictionary becomes from `start`, with the keys that were given so far. -/
inductive Grown (made : Nat → κ) (start : Dict κ ν) : List κ → Dict κ ν → Prop
  | start : Grown made start [] start
  | given {keys : List κ} {d : Dict κ ν} (earlier : Grown made start keys d) (key : κ) (value : ν) :
      Grown made start (key :: keys) (d.set key value)
  | counted {keys : List κ} {d : Dict κ ν} (earlier : Grown made start keys d) (value : ν) :
      Grown made start keys (d.set (made d.entries.length) value)

theorem length_set (d : Dict κ ν) (key : κ) (value : ν) :
    (d.set key value).entries.length =
      if key ∈ d.keys then d.entries.length else d.entries.length + 1 := by
  have hlength (d : Dict κ ν) : d.keys.length = d.entries.length := List.length_map _
  by_cases hmem : key ∈ d.keys
  · have hkeys : (d.set key value).keys.Perm d.keys :=
      (List.perm_ext_iff_of_nodup (d.set key value).nodup d.nodup).mpr fun other =>
        mem_keys_set.trans (or_iff_right_of_imp fun heq => heq ▸ hmem)
    rw [if_pos hmem, ← hlength, ← hlength, hkeys.length_eq]
  · have hkeys : (d.set key value).keys.Perm (key :: d.keys) :=
      (List.perm_ext_iff_of_nodup (d.set key value).nodup (List.nodup_cons.mpr ⟨hmem, d.nodup⟩)).mpr
        fun other => mem_keys_set.trans List.mem_cons.symm
    rw [if_neg hmem, ← hlength, ← hlength, hkeys.length_eq, List.length_cons]

theorem length_le_set (d : Dict κ ν) (key : κ) (value : ν) :
    d.entries.length ≤ (d.set key value).entries.length := by
  rw [length_set]
  split <;> omega

namespace Grown

variable {made : Nat → κ} {start d : Dict κ ν} {keys : List κ}

theorem given_mem (h : Grown made start keys d) : ∀ key ∈ keys, key ∈ d.keys := by
  induction h with
  | start => exact fun _ hmem => absurd hmem List.not_mem_nil
  | given earlier key value ih =>
      intro other hmem
      rw [mem_keys_set]
      exact (List.mem_cons.mp hmem).imp_right (ih other)
  | counted earlier value ih => exact fun other hmem => mem_keys_set.mpr (.inr (ih other hmem))

/-- A made key in the dictionary comes from a smaller size, or was given. -/
theorem made_mem (hmade : Function.Injective made) (hstart : ∀ count, made count ∉ start.keys)
    (h : Grown made start keys d) {count : Nat} (hmem : made count ∈ d.keys) :
    count < d.entries.length ∨ made count ∈ keys := by
  induction h with
  | start => exact absurd hmem (hstart count)
  | @given keys d earlier key value ih =>
      rcases mem_keys_set.mp hmem with heq | hmem
      · exact .inr (heq ▸ List.mem_cons_self)
      · exact (ih hmem).imp (fun hlt => Nat.lt_of_lt_of_le hlt (length_le_set d key value))
          (List.mem_cons_of_mem _)
  | @counted keys d earlier value ih =>
      have hold : made count ∈ d.keys →
        count < (d.set (made d.entries.length) value).entries.length ∨
          made count ∈ keys := fun hmem =>
        (ih hmem).imp_left fun hlt => Nat.lt_of_lt_of_le hlt (length_le_set d _ value)
      rcases mem_keys_set.mp hmem with heq | hmem
      · obtain rfl := hmade heq
        by_cases hknown : made d.entries.length ∈ d.keys
        · exact hold hknown
        · refine .inl ?_
          rw [length_set, if_neg hknown]
          exact Nat.lt_succ_self _
      · exact hold hmem

/-- The key made next is in the dictionary only if it was given. -/
theorem next_mem_iff (hmade : Function.Injective made) (hstart : ∀ count, made count ∉ start.keys)
    (h : Grown made start keys d) : made d.entries.length ∈ d.keys ↔ made d.entries.length ∈ keys :=
  ⟨fun hmem => (h.made_mem hmade hstart hmem).resolve_left (Nat.lt_irrefl _), h.given_mem _⟩

end Grown

end Dict

end Interaction
