import Mathlib.Data.Set.Finite.Basic
import Mathlib.Order.WellFounded
import TripGraph.Foundation.Dict

/-! # Renaming the keys of a dictionary in place

The entries are moved to their new keys one after the other. A later move finds what an
earlier one has left, so the moves together are a simultaneous renaming only if none of
them carries an entry onto a key that is still to be moved.
-/

namespace Interaction

namespace Dict

variable {κ ν : Type} [DecidableEq κ]

/-- Move the entry of `old` to `new`, if there is one. -/
def move (change : κ → ν → ν) (d : Dict κ ν) (old new : κ) : Dict κ ν :=
  match d.get? old with
  | some value => (d.erase old).set new (change new value)
  | none => d

/-- Move entries in the order of the list. -/
def moveAll (change : κ → ν → ν) (moves : List (κ × κ)) (d : Dict κ ν) : Dict κ ν :=
  moves.foldl (fun acc entry => acc.move change entry.1 entry.2) d

section Moves

variable {change : κ → ν → ν} {d : Dict κ ν} {moves : List (κ × κ)}

theorem move_of_none {old new : κ} (h : d.get? old = none) : d.move change old new = d := by
  simp [move, h]

theorem get?_move_of_some {old new : κ} {value : ν} (h : d.get? old = some value) (key : κ) :
    (d.move change old new).get? key =
      if key = new then some (change new value) else if key = old then none else d.get? key := by
  simp only [move, h, get?_set, get?_erase]

@[simp] theorem moveAll_nil : d.moveAll change [] = d := rfl

@[simp] theorem moveAll_cons (entry : κ × κ) (rest : List (κ × κ)) :
    d.moveAll change (entry :: rest) = (d.move change entry.1 entry.2).moveAll change rest := rfl

theorem moveAll_append (first second : List (κ × κ)) :
    d.moveAll change (first ++ second) = (d.moveAll change first).moveAll change second :=
  List.foldl_append

/-- A move changes the entries of its two keys only. -/
theorem get?_move_of_ne {old new key : κ} (hold : key ≠ old) (hnew : key ≠ new) :
    (d.move change old new).get? key = d.get? key := by
  cases h : d.get? old with
  | none => rw [move_of_none h]
  | some value => rw [get?_move_of_some h, if_neg hnew, if_neg hold]

theorem get?_moveAll_of_not_mem {key : κ} (hold : key ∉ moves.map Prod.fst)
    (hnew : key ∉ moves.map Prod.snd) : (d.moveAll change moves).get? key = d.get? key := by
  induction moves generalizing d with
  | nil => rfl
  | cons entry rest ih =>
      simp only [List.map_cons, List.mem_cons, not_or] at hold hnew
      rw [moveAll_cons, ih hold.2 hnew.2, get?_move_of_ne hold.1 hnew.1]

/-- A key that no move vacates keeps an entry. -/
theorem isSome_moveAll {key : κ} (hold : key ∉ moves.map Prod.fst)
    (h : (d.get? key).isSome) : ((d.moveAll change moves).get? key).isSome := by
  induction moves generalizing d with
  | nil => exact h
  | cons entry rest ih =>
      simp only [List.map_cons, List.mem_cons, not_or] at hold
      rw [moveAll_cons]
      apply ih hold.2
      cases hentry : d.get? entry.1 with
      | none => rwa [move_of_none hentry]
      | some value =>
          rw [get?_move_of_some hentry, if_neg hold.1]
          split
          · rfl
          · exact h

/-- A key that is vacated and not written is empty in the end. -/
theorem get?_moveAll_of_vacated {key : κ} (hold : key ∈ moves.map Prod.fst)
    (hnew : key ∉ moves.map Prod.snd) : (d.moveAll change moves).get? key = none := by
  induction moves generalizing d with
  | nil => cases hold
  | cons entry rest ih =>
      simp only [List.map_cons, List.mem_cons, not_or] at hold hnew
      rw [moveAll_cons]
      by_cases hrest : key ∈ rest.map Prod.fst
      · exact ih hrest hnew.2
      · have hkey := hold.resolve_right hrest
        subst hkey
        rw [get?_moveAll_of_not_mem hrest hnew.2]
        cases hentry : d.get? entry.1 with
        | none => rw [move_of_none hentry, hentry]
        | some value => rw [get?_move_of_some hentry, if_neg hnew.1, if_pos rfl]

/-- What is moved onto a key that is still to be moved does not stay there. -/
theorem get?_moveAll_of_overtaken (hnews : (moves.map Prod.snd).Nodup) {first second : κ × κ}
    (horder : [first, second].Sublist moves) (hmeet : second.1 = first.2) :
    (d.moveAll change moves).get? first.2 = none := by
  obtain ⟨before, after, rfl, hfirst, hsecond⟩ := List.cons_sublist_iff.mp horder
  rw [List.map_append, List.nodup_append'] at hnews
  rw [moveAll_append]
  apply get?_moveAll_of_vacated
  · exact hmeet ▸ List.mem_map_of_mem (List.singleton_sublist.mp hsecond)
  · exact fun hmem => hnews.2.2 (List.mem_map_of_mem hfirst) hmem

/-- An entry to be moved is carried on until nothing takes it further. -/
theorem exists_moved {entry : κ × κ} (hold : (moves.map Prod.fst).Nodup) (hentry : entry ∈ moves)
    (h : (d.get? entry.1).isSome) :
    ∃ last, (last = entry ∨ [entry, last].Sublist moves) ∧
      ((d.moveAll change moves).get? last.2).isSome := by
  induction moves generalizing d entry with
  | nil => cases hentry
  | cons own rest ih =>
      obtain ⟨hnot, hrestOld⟩ := List.nodup_cons.mp hold
      simp only [moveAll_cons]
      rcases List.mem_cons.mp hentry with heq | hrest
      · subst heq
        obtain ⟨value, hvalue⟩ := Option.isSome_iff_exists.mp h
        have hmoved : ((d.move change entry.1 entry.2).get? entry.2).isSome := by
          rw [get?_move_of_some hvalue, if_pos rfl]
          rfl
        by_cases hnext : entry.2 ∈ rest.map Prod.fst
        · obtain ⟨other, hother, heq⟩ := List.mem_map.mp hnext
          have hnextMoved : ((d.move change entry.1 entry.2).get? other.1).isSome := by
            rw [heq]
            exact hmoved
          obtain ⟨last, hlast, hsome⟩ := ih hrestOld hother hnextMoved
          refine ⟨last, Or.inr (List.Sublist.cons_cons entry (List.singleton_sublist.mpr ?_)),
            hsome⟩
          rcases hlast with rfl | hlast
          · exact hother
          · exact hlast.subset (by simp)
        · exact ⟨entry, Or.inl rfl, isSome_moveAll hnext hmoved⟩
      · have hkept : ((d.move change own.1 own.2).get? entry.1).isSome := by
          cases hvalue : d.get? own.1 with
          | none => rwa [move_of_none hvalue]
          | some value =>
              have hne : entry.1 ≠ own.1 := fun heq => hnot (heq ▸ List.mem_map_of_mem hrest)
              rw [get?_move_of_some hvalue, if_neg hne]
              split
              · rfl
              · exact h
        obtain ⟨last, hlast, hsome⟩ := ih hrestOld hrest hkept
        exact ⟨last, hlast.imp id fun horder => horder.cons own, hsome⟩

end Moves

/-! ## Partial dictionaries -/

section Partial

variable {change : κ → ν → ν} {d : Dict κ ν} {moves : List (κ × κ)}

/-- Each entry is found under its new key, and a missing one is still missing. -/
def Renamed (change : κ → ν → ν) (d : Dict κ ν) (moves : List (κ × κ)) (renamed : Dict κ ν) :
    Prop :=
  ∀ entry ∈ moves, renamed.get? entry.2 = (d.get? entry.1).map (change entry.2)

/-- An entry that is there overtakes no other. -/
def Orderly (d : Dict κ ν) (moves : List (κ × κ)) : Prop :=
  moves.Pairwise fun first second => second.1 = first.2 → d.get? first.1 = none

theorem Orderly.get?_move {entry : κ × κ} {rest : List (κ × κ)}
    (horderly : d.Orderly (entry :: rest)) (hold : ((entry :: rest).map Prod.fst).Nodup)
    {other : κ × κ} (hother : other ∈ rest) :
    (d.move change entry.1 entry.2).get? other.1 = d.get? other.1 := by
  have hne : other.1 ≠ entry.1 := fun heq =>
    (List.nodup_cons.mp hold).1 (heq ▸ List.mem_map_of_mem hother)
  cases hentry : d.get? entry.1 with
  | none => rw [move_of_none hentry]
  | some value =>
      refine get?_move_of_ne hne fun heq => ?_
      have := (List.pairwise_cons.mp horderly).1 other hother heq
      rw [hentry] at this
      cases this

theorem Orderly.rest {entry : κ × κ} {rest : List (κ × κ)}
    (horderly : d.Orderly (entry :: rest)) (hold : ((entry :: rest).map Prod.fst).Nodup) :
    (d.move change entry.1 entry.2).Orderly rest := by
  refine (List.pairwise_cons.mp horderly).2.imp_of_mem fun hfirst _ himp hmeet => ?_
  rw [horderly.get?_move hold hfirst]
  exact himp hmeet

/-- An entry that is there is moved. -/
theorem Orderly.get?_moved (horderly : d.Orderly moves) (hold : (moves.map Prod.fst).Nodup)
    (hnews : (moves.map Prod.snd).Nodup) {entry : κ × κ} (hentry : entry ∈ moves) {value : ν}
    (hvalue : d.get? entry.1 = some value) :
    (d.moveAll change moves).get? entry.2 = some (change entry.2 value) := by
  induction moves generalizing d with
  | nil => cases hentry
  | cons own rest ih =>
      obtain ⟨hnew, hnews⟩ := List.nodup_cons.mp hnews
      rw [moveAll_cons]
      rcases List.mem_cons.mp hentry with rfl | hrest
      · have hfree : entry.2 ∉ rest.map Prod.fst := by
          intro hmem
          obtain ⟨other, hother, heq⟩ := List.mem_map.mp hmem
          have := (List.pairwise_cons.mp horderly).1 other hother heq
          rw [hvalue] at this
          cases this
        rw [get?_moveAll_of_not_mem hfree hnew, get?_move_of_some hvalue, if_pos rfl]
      · apply ih (horderly.rest hold) (List.nodup_cons.mp hold).2 hnews hrest
        rw [horderly.get?_move hold hrest, hvalue]

/-- A key nothing is moved to keeps what it has, unless it is vacated. -/
theorem Orderly.get?_left (horderly : d.Orderly moves) (hold : (moves.map Prod.fst).Nodup)
    {key : κ} (hkey : ∀ entry ∈ moves, entry.2 = key → d.get? entry.1 = none) :
    (d.moveAll change moves).get? key =
      if key ∈ moves.map Prod.fst then none else d.get? key := by
  induction moves generalizing d with
  | nil => simp
  | cons own rest ih =>
      obtain ⟨hown, hrest⟩ := List.forall_mem_cons.mp hkey
      have hsame : (d.move change own.1 own.2).get? key =
          if key = own.1 then none else d.get? key := by
        cases hvalue : d.get? own.1 with
        | none =>
            rw [move_of_none hvalue]
            split
            next heq => rw [heq, hvalue]
            next => rfl
        | some value =>
            have hne : key ≠ own.2 := by
              intro heq
              rw [hown heq.symm] at hvalue
              cases hvalue
            rw [get?_move_of_some hvalue, if_neg hne]
      rw [moveAll_cons, ih (horderly.rest hold) (List.nodup_cons.mp hold).2, hsame, List.map_cons]
      · by_cases hmem : key ∈ rest.map Prod.fst <;> by_cases heq : key = own.1 <;>
          simp [hmem, heq]
      · intro other hother heq
        rw [horderly.get?_move hold hother]
        exact hrest other hother heq

/-- If the moves leave entries missing under exactly the new keys of missing ones, no entry
overtakes another, and none is taken for the missing entry of a key that moves there. -/
theorem orderly_of_missing_iff (hnews : (moves.map Prod.snd).Nodup)
    (h : ∀ entry ∈ moves, (d.moveAll change moves).get? entry.2 = none ↔ d.get? entry.1 = none) :
    d.Orderly moves ∧ ∀ entry ∈ moves, d.get? entry.1 = none →
      entry.2 ∉ moves.map Prod.fst → d.get? entry.2 = none := by
  constructor
  · apply List.pairwise_iff_forall_sublist.mpr
    intro first second horder hmeet
    apply (h first (horder.subset List.mem_cons_self)).mp
    exact get?_moveAll_of_overtaken hnews horder hmeet
  · intro entry hentry hmissing hfree
    by_contra hne
    have hsome : ((d.moveAll change moves).get? entry.2).isSome :=
      isSome_moveAll hfree (Option.isSome_iff_ne_none.mpr hne)
    rw [(h entry hentry).mpr hmissing] at hsome
    cases hsome

/-- The moves rename a partial dictionary if and only if no entry overtakes another, and
none is taken for the missing entry of a key that moves there. -/
theorem renamed_moveAll_iff (hold : (moves.map Prod.fst).Nodup)
    (hnews : (moves.map Prod.snd).Nodup) :
    Renamed change d moves (d.moveAll change moves) ↔
      d.Orderly moves ∧ ∀ entry ∈ moves, d.get? entry.1 = none →
        entry.2 ∉ moves.map Prod.fst → d.get? entry.2 = none := by
  constructor
  · intro h
    apply orderly_of_missing_iff hnews
    intro entry hentry
    rw [h entry hentry, Option.map_eq_none_iff]
  · rintro ⟨horderly, hmissing⟩ entry hentry
    cases hvalue : d.get? entry.1 with
    | some value => exact horderly.get?_moved hold hnews hentry hvalue
    | none =>
        rw [horderly.get?_left hold]
        · split
          · rfl
          next hfree => exact hmissing entry hentry hvalue hfree
        · intro other hother heq
          rw [List.inj_on_of_nodup_map hnews hother hentry heq, hvalue]

end Partial

/-! ## Total dictionaries

Every key to be moved has an entry, and an entry that is missing in the end is read as the
default value. -/

section Total

/-- The moves that leave the entries as they are. -/
abbrev moveEach (moves : List (κ × κ)) (d : Dict κ ν) : Dict κ ν :=
  d.moveAll (fun _ value => value) moves

variable {d : Dict κ ν} {moves : List (κ × κ)} {fill : ν}

/-- Every key to be moved has an entry. -/
def Total (d : Dict κ ν) (moves : List (κ × κ)) : Prop :=
  ∀ entry ∈ moves, ∃ value, d.get? entry.1 = some value

/-- An entry that overtakes another is the default. -/
def Yielding (fill : ν) (d : Dict κ ν) (moves : List (κ × κ)) : Prop :=
  moves.Pairwise fun first second => second.1 = first.2 → d.get? first.1 = some fill

/-- What the rest of the moves find after the first. -/
theorem get?_move_rest {entry : κ × κ} {rest : List (κ × κ)} {value : ν}
    (hvalue : d.get? entry.1 = some value) (hold : ((entry :: rest).map Prod.fst).Nodup)
    {other : κ × κ} (hother : other ∈ rest) :
    (d.move (fun _ value => value) entry.1 entry.2).get? other.1 =
      if other.1 = entry.2 then some value else d.get? other.1 := by
  have hne : other.1 ≠ entry.1 := fun heq =>
    (List.nodup_cons.mp hold).1 (heq ▸ List.mem_map_of_mem hother)
  rw [get?_move_of_some hvalue, if_neg hne]

theorem Total.rest {entry : κ × κ} {rest : List (κ × κ)} {value : ν}
    (htotal : d.Total (entry :: rest)) (hvalue : d.get? entry.1 = some value)
    (hold : ((entry :: rest).map Prod.fst).Nodup) :
    (d.move (fun _ value => value) entry.1 entry.2).Total rest := by
  intro other hother
  rw [get?_move_rest hvalue hold hother]
  split
  · exact ⟨value, rfl⟩
  · exact htotal other (List.mem_cons_of_mem _ hother)

theorem Yielding.rest {entry : κ × κ} {rest : List (κ × κ)} {value : ν}
    (hyield : Yielding fill d (entry :: rest)) (hvalue : d.get? entry.1 = some value)
    (hold : ((entry :: rest).map Prod.fst).Nodup) :
    Yielding fill (d.move (fun _ value => value) entry.1 entry.2) rest := by
  obtain ⟨hhead, hrest⟩ := List.pairwise_cons.mp hyield
  refine hrest.imp_of_mem fun {first second} hfirst _ himp hmeet => ?_
  rw [get?_move_rest hvalue hold hfirst]
  split
  next heq => rw [← hvalue, hhead first hfirst heq]
  next => exact himp hmeet

/-- The first entry moved is found where it was moved to; if it has been overtaken it was
the default. -/
theorem Yielding.get?_first {entry : κ × κ} {rest : List (κ × κ)} {value : ν}
    (hyield : Yielding fill d (entry :: rest)) (hvalue : d.get? entry.1 = some value)
    (hnews : ((entry :: rest).map Prod.snd).Nodup) :
    ((d.moveEach (entry :: rest)).get? entry.2).getD fill = value := by
  have hnew := (List.nodup_cons.mp hnews).1
  by_cases hmem : entry.2 ∈ rest.map Prod.fst
  · obtain ⟨other, hother, heq⟩ := List.mem_map.mp hmem
    have hfill := (List.pairwise_cons.mp hyield).1 other hother heq
    rw [hvalue, Option.some.injEq] at hfill
    rw [moveEach, moveAll_cons, get?_moveAll_of_vacated hmem hnew, hfill, Option.getD_none]
  · rw [moveEach, moveAll_cons, get?_moveAll_of_not_mem hmem hnew, get?_move_of_some hvalue,
      if_pos rfl, Option.getD_some]

theorem Yielding.get?_fill (hyield : Yielding fill d moves) (htotal : d.Total moves)
    (hold : (moves.map Prod.fst).Nodup) (hnews : (moves.map Prod.snd).Nodup) {entry : κ × κ}
    (hentry : entry ∈ moves) (hfill : d.get? entry.1 = some fill) :
    ((d.moveEach moves).get? entry.2).getD fill = fill := by
  induction moves generalizing d with
  | nil => cases hentry
  | cons own rest ih =>
      obtain ⟨value, hvalue⟩ := htotal own List.mem_cons_self
      rcases List.mem_cons.mp hentry with rfl | hrest
      · exact hyield.get?_first hfill hnews
      · apply ih (hyield.rest hvalue hold) (htotal.rest hvalue hold) (List.nodup_cons.mp hold).2
          (List.nodup_cons.mp hnews).2 hrest
        rw [get?_move_rest hvalue hold hrest]
        split
        next heq => rw [← hvalue, (List.pairwise_cons.mp hyield).1 entry hrest heq]
        next => exact hfill

theorem Yielding.get?_overtaken (hyield : Yielding fill d moves) (htotal : d.Total moves)
    (hold : (moves.map Prod.fst).Nodup) (hnews : (moves.map Prod.snd).Nodup)
    {first second : κ × κ} (horder : [first, second].Sublist moves) (hmeet : second.1 = first.2) :
    ((d.moveEach moves).get? second.2).getD fill = fill := by
  induction moves generalizing d with
  | nil => cases horder
  | cons own rest ih =>
      obtain ⟨value, hvalue⟩ := htotal own List.mem_cons_self
      have hyield' := hyield.rest hvalue hold
      have htotal' := htotal.rest hvalue hold
      have hold' := (List.nodup_cons.mp hold).2
      have hnews' := (List.nodup_cons.mp hnews).2
      cases horder with
      | cons _ horder => exact ih hyield' htotal' hold' hnews' horder
      | cons_cons _ horder =>
          have hsecond := List.singleton_sublist.mp horder
          apply hyield'.get?_fill htotal' hold' hnews' hsecond
          rw [get?_move_rest hvalue hold hsecond, if_pos hmeet, ← hvalue]
          exact (List.pairwise_cons.mp hyield).1 second hsecond hmeet

theorem Yielding.get?_moved (hyield : Yielding fill d moves) (htotal : d.Total moves)
    (hold : (moves.map Prod.fst).Nodup) (hnews : (moves.map Prod.snd).Nodup) {entry : κ × κ}
    (hentry : entry ∈ moves)
    (hfree : ∀ first, [first, entry].Sublist moves → entry.1 ≠ first.2) {value : ν}
    (hvalue : d.get? entry.1 = some value) :
    ((d.moveEach moves).get? entry.2).getD fill = value := by
  induction moves generalizing d with
  | nil => cases hentry
  | cons own rest ih =>
      obtain ⟨other, hother⟩ := htotal own List.mem_cons_self
      rcases List.mem_cons.mp hentry with rfl | hrest
      · exact hyield.get?_first hvalue hnews
      · apply ih (hyield.rest hother hold) (htotal.rest hother hold) (List.nodup_cons.mp hold).2
          (List.nodup_cons.mp hnews).2 hrest
        · exact fun first horder => hfree first (horder.cons own)
        · have hne := hfree own ((List.singleton_sublist.mpr hrest).cons_cons own)
          rw [get?_move_rest hother hold hrest, if_neg hne, hvalue]

/-- The moves rename a total dictionary if and only if every entry that overtakes another,
and every entry that is overtaken, is the default. -/
theorem getD_moveEach_iff (htotal : d.Total moves) (hold : (moves.map Prod.fst).Nodup)
    (hnews : (moves.map Prod.snd).Nodup) :
    (∀ entry ∈ moves, some (((d.moveEach moves).get? entry.2).getD fill) = d.get? entry.1) ↔
      moves.Pairwise fun first second => second.1 = first.2 →
        d.get? first.1 = some fill ∧ d.get? second.1 = some fill := by
  constructor
  · intro h
    have hyield : Yielding fill d moves :=
      List.pairwise_iff_forall_sublist.mpr fun {first second} horder hmeet => by
        rw [← h first (horder.subset List.mem_cons_self),
          get?_moveAll_of_overtaken hnews horder hmeet, Option.getD_none]
    apply List.pairwise_iff_forall_sublist.mpr
    intro first second horder hmeet
    refine ⟨List.pairwise_iff_forall_sublist.mp hyield horder hmeet, ?_⟩
    rw [← h second (horder.subset (by simp)),
      hyield.get?_overtaken htotal hold hnews horder hmeet]
  · intro h entry hentry
    have hyield : Yielding fill d moves := h.imp fun himp hmeet => (himp hmeet).1
    by_cases hfree : ∃ first, [first, entry].Sublist moves ∧ entry.1 = first.2
    · obtain ⟨first, horder, hmeet⟩ := hfree
      rw [hyield.get?_overtaken htotal hold hnews horder hmeet,
        (List.pairwise_iff_forall_sublist.mp h horder hmeet).2]
    · obtain ⟨value, hvalue⟩ := htotal entry hentry
      rw [hyield.get?_moved htotal hold hnews hentry
        (fun first horder hmeet => hfree ⟨first, horder, hmeet⟩) hvalue, hvalue]

end Total

end Dict

/-- An order-preserving renaming of finitely many keys among themselves moves none. -/
theorem eq_self_of_strictMonoOn {α : Type} [LinearOrder α] {keys : Set α} {rename : α → α}
    (hfinite : keys.Finite) (hmono : StrictMonoOn rename keys) (hmaps : Set.MapsTo rename keys keys)
    {key : α} (hkey : key ∈ keys) : rename key = key := by
  have : Finite keys := hfinite
  have hrestrict : StrictMono (hmaps.restrict rename keys keys) := fun first second hlt =>
    hmono first.2 second.2 hlt
  apply le_antisymm
  · exact hrestrict.apply_le (x := ⟨key, hkey⟩)
  · exact hrestrict.le_apply (x := ⟨key, hkey⟩)

end Interaction
