import Mathlib.Data.List.Chain
import Mathlib.Data.List.Nodup

/-! # Lists whose items name earlier items

Each item has a key and may name the key of a parent. When keys are distinct and parents come
earlier, the walk from an item to its parents ends at a root.
-/

namespace Interaction

variable {ν κ : Type} {key : ν → κ} {parent : ν → Option κ}

/-- The keys are distinct and the parent of an item, if it has one, is the key of an item
before it. -/
inductive Linked (key : ν → κ) (parent : ν → Option κ) : List ν → Prop
  | nil : Linked key parent []
  | snoc {items : List ν} {item : ν} (before : Linked key parent items)
      (fresh : key item ∉ items.map key)
      (earlier : ∀ up, parent item = some up → up ∈ items.map key) :
      Linked key parent (items ++ [item])

namespace Linked

theorem nodup {items : List ν} (h : Linked key parent items) : (items.map key).Nodup := by
  induction h with
  | nil => exact List.nodup_nil
  | snoc before fresh earlier ih =>
      rw [List.map_append, List.map_singleton, List.nodup_append]
      refine ⟨ih, List.nodup_singleton _, fun own hown other hother heq => fresh ?_⟩
      rwa [← List.mem_singleton.mp hother, ← heq]

theorem parent_mem {items : List ν} (h : Linked key parent items) {before after : List ν}
    {item : ν} (hitems : items = before ++ item :: after) {up : κ} (hup : parent item = some up) :
    up ∈ before.map key := by
  induction h generalizing after with
  | nil => simp at hitems
  | @snoc items last _ fresh earlier ih =>
      rcases List.eq_nil_or_concat after with rfl | ⟨front, own, rfl⟩
      · obtain ⟨rfl, hlast⟩ := List.append_inj' hitems rfl
        exact earlier up (List.singleton_inj.mp hlast ▸ hup)
      · rw [List.concat_eq_append, ← List.cons_append, ← List.append_assoc] at hitems
        exact ih (List.append_inj' hitems rfl).1

variable [DecidableEq κ]

/-- Items of another list whose keys are new may be put behind. -/
theorem append_unseen {left right : List ν} (hleft : Linked key parent left)
    (hright : Linked key parent right) :
    Linked key parent (left ++ right.filter fun item => decide (key item ∉ left.map key)) := by
  induction hright with
  | nil => simpa using hleft
  | @snoc items item before fresh earlier ih =>
      rw [List.filter_append, ← List.append_assoc]
      by_cases hseen : key item ∈ left.map key
      · simpa only [List.filter_singleton, hseen, not_true_eq_false, decide_false, cond_false,
          List.append_nil] using ih
      · simp only [List.filter_singleton, hseen, not_false_eq_true, decide_true, cond_true]
        have hkeys : ∀ own ∈ items.map key, own ∈ (left ++ items.filter fun item =>
            decide (key item ∉ left.map key)).map key := by
          intro own hown
          obtain ⟨other, hother, rfl⟩ := List.mem_map.mp hown
          rw [List.map_append, List.mem_append]
          by_cases hkey : key other ∈ left.map key
          · exact Or.inl hkey
          · exact Or.inr (List.mem_map_of_mem (List.mem_filter.mpr ⟨hother, decide_eq_true hkey⟩))
        refine ih.snoc (fun hmem => ?_) fun up hup => hkeys up (earlier up hup)
        rw [List.map_append, List.mem_append] at hmem
        refine hmem.elim hseen fun hmem => fresh ?_
        obtain ⟨own, hown, heq⟩ := List.mem_map.mp hmem
        exact heq ▸ List.mem_map_of_mem (List.mem_filter.mp hown).1

end Linked

/-! ## Walking to the root -/

/-- The walk from a key along the parents, for at most so many steps; `none` when they do
not suffice. -/
def climb (link : κ → Option ν) (parent : ν → Option κ) : Nat → Option κ → Option (List ν)
  | 0, _ => none
  | _ + 1, none => some []
  | fuel + 1, some own =>
      match link own with
      | none => some []
      | some item => (climb link parent fuel (parent item)).map (item :: ·)

/-- The items from a root to this one, each the parent of the next. -/
structure Ancestry (key : ν → κ) (parent : ν → Option κ) (items : List ν) (item : ν)
    (chain : List ν) : Prop where
  last : chain.getLast? = some item
  root : ∀ first, chain.head? = some first → parent first = none
  links : chain.IsChain fun up own => parent own = some (key up)
  stored : ∀ own ∈ chain, own ∈ items

/-- Where each step takes the value of an item to the value of the next, the steps along a chain
take the first value to the last. -/
theorem foldlM_of_isChain {σ : Type} {value : ν → σ} {step : σ → ν → Option σ} {first last : ν}
    {rest : List ν}
    (h : (first :: rest).IsChain fun before after => step (value before) after = some (value after))
    (hlast : (first :: rest).getLast? = some last) :
    rest.foldlM step (value first) = some (value last) := by
  induction rest generalizing first with
  | nil =>
      obtain rfl := Option.some.inj hlast
      rfl
  | cons next rest ih =>
      obtain ⟨hstep, hrest⟩ := List.isChain_cons_cons.mp h
      rw [List.foldlM_cons, hstep, Option.bind_eq_bind, Option.bind_some]
      refine ih hrest ?_
      rwa [List.getLast?_cons_cons] at hlast

/-- From each item of a linked list the walk ends, and it has followed the parents to a
root. -/
theorem climb_of_linked {link : κ → Option ν} {items : List ν} (h : Linked key parent items)
    (hlink : ∀ item ∈ items, link (key item) = some item) {item : ν} (hitem : item ∈ items)
    {fuel : Nat} (hfuel : items.length < fuel) :
    ∃ chain, climb link parent fuel (some (key item)) = some chain.reverse ∧
      Ancestry key parent items item chain := by
  induction h generalizing item fuel with
  | nil => cases hitem
  -- the parents of the last item are all earlier, so the walk goes on among them
  | @snoc items last _ fresh earlier ih =>
      rw [List.length_append, List.length_singleton] at hfuel
      have ih := fun {own : ν} (hown : own ∈ items) {fuel : Nat} (hfuel : items.length < fuel) =>
        ih (fun own hown => hlink own (List.mem_append_left _ hown)) hown hfuel
      rcases List.mem_append.mp hitem with hbefore | hlast
      · obtain ⟨chain, hclimb, hchain⟩ := ih hbefore (Nat.lt_of_succ_lt hfuel)
        exact ⟨chain, hclimb, { hchain with
          stored := fun own hown => List.mem_append_left _ (hchain.stored own hown) }⟩
      · obtain rfl := List.mem_singleton.mp hlast
        obtain ⟨fuel, rfl⟩ := Nat.exists_eq_succ_of_ne_zero (Nat.ne_zero_of_lt hfuel)
        simp only [climb, hlink item hitem]
        cases hparent : parent item with
        | none =>
            obtain ⟨fuel, rfl⟩ := Nat.exists_eq_succ_of_ne_zero
              (Nat.ne_zero_of_lt (Nat.lt_of_succ_lt_succ hfuel))
            refine ⟨[item], rfl, ⟨rfl, fun first hfirst => ?_, List.IsChain.singleton _, ?_⟩⟩
            · cases hfirst
              exact hparent
            · simp
        | some up =>
            obtain ⟨own, hown, rfl⟩ := List.mem_map.mp (earlier up hparent)
            obtain ⟨chain, hclimb, hchain⟩ := ih hown (Nat.lt_of_succ_lt_succ hfuel)
            refine ⟨chain ++ [item], by rw [hclimb]; simp, ?_⟩
            have hne : chain ≠ [] := by
              rintro rfl
              cases hchain.last
            exact
              { last := by simp
                root := fun first hfirst => hchain.root first (by
                  rwa [List.head?_append_of_ne_nil _ hne] at hfirst)
                links := by
                  refine List.isChain_append.mpr ⟨hchain.links, List.IsChain.singleton _, ?_⟩
                  intro before hbefore after hafter
                  rw [hchain.last] at hbefore
                  cases hbefore
                  cases hafter
                  exact hparent
                stored := fun other hother => by
                  rcases List.mem_append.mp hother with hother | hother
                  · exact List.mem_append_left _ (hchain.stored other hother)
                  · exact List.mem_append_right _ hother }

end Interaction
