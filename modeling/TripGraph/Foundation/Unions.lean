import Mathlib.Data.List.Sort
import TripGraph.Foundation.Dict
import TripGraph.Foundation.ThreeWay

/-! # Unions

The items of a second list are added to a first one unless their key is there already. Unions
are associative, and what was added once is not added again. Sorting by a rank that the key
determines keeps both laws, since the sorting is stable.
-/

namespace Interaction

/-! ## Lists without repeated keys -/

section UniteBy

variable {α κ : Type} [DecidableEq κ] {key : α → κ}

/-- The list with this item at its end, unless its key is there. -/
def addBy (key : α → κ) (own : List α) (item : α) : List α :=
  if key item ∈ own.map key then own else own ++ [item]

/-- The items are added one after the other. -/
def uniteBy (key : α → κ) (own items : List α) : List α := items.foldl (addBy key) own

@[simp] theorem uniteBy_nil (own : List α) : uniteBy key own [] = own := rfl

@[simp] theorem uniteBy_cons (own : List α) (item : α) (rest : List α) :
    uniteBy key own (item :: rest) = uniteBy key (addBy key own item) rest := rfl

theorem uniteBy_append (own first second : List α) :
    uniteBy key own (first ++ second) = uniteBy key (uniteBy key own first) second :=
  List.foldl_append

theorem addBy_of_mem {own : List α} {item : α} (h : key item ∈ own.map key) :
    addBy key own item = own := if_pos h

theorem mem_keys_addBy {own : List α} {item : α} {k : κ} :
    k ∈ (addBy key own item).map key ↔ k ∈ own.map key ∨ k = key item := by
  unfold addBy
  split
  next hmem =>
    constructor
    · exact .inl
    · rintro (hown | rfl)
      · exact hown
      · exact hmem
  next => simp

theorem mem_keys_uniteBy {own items : List α} {k : κ} :
    k ∈ (uniteBy key own items).map key ↔ k ∈ own.map key ∨ k ∈ items.map key := by
  induction items generalizing own with
  | nil => simp
  | cons item rest ih =>
      rw [uniteBy_cons, ih, mem_keys_addBy, List.map_cons, List.mem_cons, or_assoc]

/-- Items whose keys are all there are not added. -/
theorem uniteBy_of_subset {own items : List α} (h : ∀ item ∈ items, key item ∈ own.map key) :
    uniteBy key own items = own := by
  induction items with
  | nil => rfl
  | cons item rest ih =>
      obtain ⟨hitem, hrest⟩ := List.forall_mem_cons.mp h
      rw [uniteBy_cons, addBy_of_mem hitem]
      exact ih hrest

/-- What was added once is not added again. -/
theorem uniteBy_again (own items : List α) :
    uniteBy key (uniteBy key own items) items = uniteBy key own items := by
  apply uniteBy_of_subset
  intro item hitem
  exact mem_keys_uniteBy.mpr (.inr (List.mem_map_of_mem hitem))

theorem uniteBy_self (items : List α) : uniteBy key items items = items :=
  uniteBy_of_subset fun _ hitem => List.mem_map_of_mem hitem

theorem uniteBy_assoc (first second third : List α) :
    uniteBy key first (uniteBy key second third) =
      uniteBy key (uniteBy key first second) third := by
  rw [← uniteBy_append]
  induction third generalizing second with
  | nil => rw [uniteBy_nil, List.append_nil]
  | cons item rest ih =>
      rw [uniteBy_cons, ih]
      simp only [uniteBy_append, uniteBy_cons]
      congr 1
      by_cases hmem : key item ∈ second.map key
      · rw [addBy_of_mem hmem, addBy_of_mem (mem_keys_uniteBy.mpr (.inr hmem))]
      · rw [addBy, if_neg hmem, uniteBy_append]
        rfl

/-- The items whose key is not in the first list are added, repeated keys among them too. -/
def extendBy (key : α → κ) (own items : List α) : List α :=
  own ++ items.filter fun item => key item ∉ own.map key

theorem mem_keys_extendBy {own items : List α} {k : κ} :
    k ∈ (extendBy key own items).map key ↔ k ∈ own.map key ∨ k ∈ items.map key := by
  rw [extendBy, List.map_append, List.mem_append]
  constructor
  · rintro (hown | hitems)
    · exact .inl hown
    · exact .inr (List.map_subset key (List.filter_subset_self items) hitems)
  · intro h
    by_cases hown : k ∈ own.map key
    · exact .inl hown
    · obtain ⟨item, hitem, rfl⟩ := List.mem_map.mp (h.resolve_left hown)
      exact .inr (List.mem_map_of_mem (List.mem_filter.mpr ⟨hitem, by simpa using hown⟩))

theorem extendBy_assoc (first second third : List α) :
    extendBy key first (extendBy key second third) =
      extendBy key (extendBy key first second) third := by
  have hthird : third.filter (fun item => key item ∉ (extendBy key first second).map key) =
      (third.filter fun item => key item ∉ second.map key).filter
        fun item => key item ∉ first.map key := by
    rw [List.filter_filter]
    apply List.filter_congr
    intro item _
    rw [← Bool.decide_and]
    apply decide_eq_decide.mpr
    rw [mem_keys_extendBy, not_or]
  conv_rhs => rw [extendBy, hthird]
  simp only [extendBy, List.filter_append, List.append_assoc]

theorem extendBy_again (own items : List α) :
    extendBy key (extendBy key own items) items = extendBy key own items := by
  conv_lhs => rw [extendBy]
  rw [List.append_right_eq_self, List.filter_eq_nil_iff]
  intro item hitem
  simpa using mem_keys_extendBy.mpr (.inr (List.mem_map_of_mem hitem))

end UniteBy

/-! ## Lists without repeated items -/

section EraseDups

variable {α : Type} [DecidableEq α]

theorem eraseDups_eq_uniteBy (items : List α) : items.eraseDups = uniteBy id [] items := by
  have hrev : ∀ (items own : List α), own.Nodup →
      uniteBy id own items = own ++ (items.removeAll own).eraseDups := by
    intro items
    induction items with
    | nil => intro own _; simp [List.removeAll]
    | cons item rest ih =>
        intro own hown
        by_cases hmem : item ∈ own
        · rw [uniteBy_cons, addBy_of_mem (by simpa using hmem), ih own hown]
          simp [List.removeAll, hmem]
        · have hnodup : (own ++ [item]).Nodup := by
            simpa [List.nodup_append] using ⟨hown, fun other hother heq => hmem (heq ▸ hother)⟩
          rw [uniteBy_cons, addBy, if_neg (by simpa using hmem), ih _ hnodup]
          have hfilter : rest.removeAll (own ++ [item]) =
              (rest.removeAll own).filter fun other => !other == item := by
            simp only [List.removeAll, List.filter_filter]
            apply List.filter_congr
            intro other _
            by_cases heq : other = item <;> simp [heq]
          rw [hfilter]
          simp [List.removeAll, hmem, List.eraseDups_cons]
  rw [hrev items [] List.nodup_nil]
  simp [List.removeAll]

theorem eraseDups_append_eraseDups (first second : List α) :
    (first ++ second.eraseDups).eraseDups = (first ++ second).eraseDups := by
  simp only [eraseDups_eq_uniteBy, uniteBy_append]
  rw [uniteBy_assoc]
  rfl

theorem eraseDups_append_again (first second : List α) :
    ((first ++ second).eraseDups ++ second).eraseDups = (first ++ second).eraseDups := by
  have hknown : ∀ item ∈ second, item ∈ first ++ second := fun _ h => List.mem_append_right first h
  rw [eraseDups_eraseDups_append]
  simpa using @eraseDups_append_known α _ _ _ _ [] hknown

end EraseDups

/-! ## Stable sorting -/

section Ranks

variable {α : Type} {rank : α → Nat}

/-- The list in the order of the ranks; items of one rank stay in their order. -/
def sortBy (rank : α → Nat) (items : List α) : List α :=
  items.insertionSort fun a b => rank a ≤ rank b

theorem filter_orderedInsert (item : α) (items : List α) (own : Nat) :
    (items.orderedInsert (fun a b => rank a ≤ rank b) item).filter (fun other => rank other = own) =
      (item :: items).filter fun other => rank other = own := by
  induction items with
  | nil => rfl
  | cons first rest ih =>
      rw [List.orderedInsert_cons]
      split
      · rfl
      next hlt =>
        rw [List.filter_cons, ih]
        by_cases hitem : rank item = own
        · have hfirst : ¬ rank first = own := by omega
          simp [hitem, hfirst]
        · simp [List.filter_cons, hitem]

/-- The items of one rank stay in their order. -/
@[simp] theorem filter_sortBy (items : List α) (own : Nat) :
    (sortBy rank items).filter (fun item => rank item = own) =
      items.filter fun item => rank item = own := by
  induction items with
  | nil => rfl
  | cons item rest ih =>
      rw [sortBy, List.insertionSort_cons, filter_orderedInsert, List.filter_cons, List.filter_cons]
      rw [← ih]
      rfl

theorem sorted_sortBy (items : List α) :
    (sortBy rank items).Pairwise fun a b => rank a ≤ rank b := by
  have htotal : Std.Total fun a b : α => rank a ≤ rank b := ⟨fun a b => Nat.le_total _ _⟩
  have htrans : IsTrans α fun a b => rank a ≤ rank b := ⟨fun _ _ _ => Nat.le_trans⟩
  exact List.pairwise_insertionSort _ _

theorem mem_of_filter_eq {first second : List α} {item : α}
    (h : first.filter (fun other => rank other = rank item) =
      second.filter fun other => rank other = rank item) (hmem : item ∈ first) : item ∈ second := by
  have hfiltered : item ∈ first.filter fun other => rank other = rank item :=
    List.mem_filter.mpr ⟨hmem, by simp⟩
  rw [h] at hfiltered
  exact (List.mem_filter.mp hfiltered).1

/-- Two lists in order are equal if they have the same items of each rank in the same order. -/
theorem eq_of_filter_eq {first second : List α} (hfirst : first.Pairwise fun a b => rank a ≤ rank b)
    (hsecond : second.Pairwise fun a b => rank a ≤ rank b)
    (h : ∀ own, first.filter (fun item => rank item = own) =
      second.filter fun item => rank item = own) : first = second := by
  induction first generalizing second with
  | nil =>
      cases second with
      | nil => rfl
      | cons b bs => simpa using h (rank b)
  | cons a as ih =>
      cases second with
      | nil => simpa using h (rank a)
      | cons b bs =>
          obtain ⟨hleast, has⟩ := List.pairwise_cons.mp hfirst
          obtain ⟨hleast', hbs⟩ := List.pairwise_cons.mp hsecond
          have hab : rank a ≤ rank b := by
            rcases List.mem_cons.mp (mem_of_filter_eq (h (rank b)).symm List.mem_cons_self) with
              rfl | hmem
            · exact le_rfl
            · exact hleast b hmem
          have hba : rank b ≤ rank a := by
            rcases List.mem_cons.mp (mem_of_filter_eq (h (rank a)) List.mem_cons_self) with
              rfl | hmem
            · exact le_rfl
            · exact hleast' a hmem
          have hrank : rank a = rank b := Nat.le_antisymm hab hba
          have hhead := h (rank a)
          simp only [List.filter_cons, hrank, decide_true, if_true, List.cons.injEq] at hhead
          obtain ⟨rfl, -⟩ := hhead
          congr 1
          apply ih has hbs
          intro own
          have hown := h own
          simp only [List.filter_cons] at hown
          split at hown
          · exact (List.cons.inj hown).2
          · exact hown

theorem sortBy_eq_of_filter {first second : List α}
    (h : ∀ own, first.filter (fun item => rank item = own) =
      second.filter fun item => rank item = own) : sortBy rank first = sortBy rank second := by
  apply eq_of_filter_eq (sorted_sortBy first) (sorted_sortBy second)
  intro own
  rw [filter_sortBy, filter_sortBy]
  exact h own

@[simp] theorem sortBy_sortBy (items : List α) :
    sortBy rank (sortBy rank items) = sortBy rank items :=
  sortBy_eq_of_filter fun own => filter_sortBy items own

variable {κ : Type} [DecidableEq κ] {key : α → κ}

theorem filter_addBy (hkey : ∀ a b, key a = key b → rank a = rank b) (own : List α) (item : α)
    (r : Nat) : (addBy key own item).filter (fun other => rank other = r) =
      uniteBy key (own.filter fun other => rank other = r)
        ([item].filter fun other => rank other = r) := by
  have hmem : rank item = r → (key item ∈ own.map key ↔
      key item ∈ (own.filter fun other => rank other = r).map key) := by
    intro hrank
    simp only [List.mem_map, List.mem_filter, decide_eq_true_eq]
    constructor
    · rintro ⟨other, hother, hsame⟩
      exact ⟨other, ⟨hother, (hkey _ _ hsame).trans hrank⟩, hsame⟩
    · rintro ⟨other, ⟨hother, -⟩, hsame⟩
      exact ⟨other, hother, hsame⟩
  by_cases hrank : rank item = r
  · have hitem : [item].filter (fun other => decide (rank other = r)) = [item] := by simp [hrank]
    rw [hitem, uniteBy_cons, uniteBy_nil]
    unfold addBy
    simp only [← hmem hrank]
    split
    · rfl
    · rw [List.filter_append, hitem]
  · have hitem : [item].filter (fun other => decide (rank other = r)) = [] := by simp [hrank]
    rw [hitem, uniteBy_nil]
    unfold addBy
    split
    · rfl
    · rw [List.filter_append, hitem, List.append_nil]

/-- The items of one rank in a union are the union of the items of that rank. -/
theorem filter_uniteBy (hkey : ∀ a b, key a = key b → rank a = rank b) (own items : List α)
    (r : Nat) : (uniteBy key own items).filter (fun item => rank item = r) =
      uniteBy key (own.filter fun item => rank item = r)
        (items.filter fun item => rank item = r) := by
  induction items generalizing own with
  | nil => rfl
  | cons item rest ih =>
      rw [uniteBy_cons, ih, filter_addBy hkey, ← uniteBy_append, ← List.filter_append]
      rfl

/-- An operation on lists that works rank by rank. -/
def RankWise (rank : α → Nat) (op : List α → List α → List α) : Prop :=
  ∀ own items r, (op own items).filter (fun item => rank item = r) =
    op (own.filter fun item => rank item = r) (items.filter fun item => rank item = r)

theorem rankWise_uniteBy (hkey : ∀ a b, key a = key b → rank a = rank b) :
    RankWise rank (uniteBy key) := filter_uniteBy hkey

theorem rankWise_extendBy (hkey : ∀ a b, key a = key b → rank a = rank b) :
    RankWise rank (extendBy key) := by
  intro own items r
  simp only [extendBy, List.filter_append, List.filter_filter]
  congr 1
  apply List.filter_congr
  intro item _
  by_cases hrank : rank item = r
  · have hmem : (∃ other ∈ own, key other = key item) ↔
        ∃ other ∈ own, rank other = r ∧ key other = key item := by
      constructor
      · rintro ⟨other, hother, hsame⟩
        exact ⟨other, hother, (hkey _ _ hsame).trans hrank, hsame⟩
      · rintro ⟨other, hother, -, hsame⟩
        exact ⟨other, hother, hsame⟩
    simp [hrank, List.mem_filter, and_assoc, hmem]
  · simp [hrank]

variable {op : List α → List α → List α}

theorem RankWise.sorted_assoc (h : RankWise rank op)
    (hassoc : ∀ first second third, op first (op second third) = op (op first second) third)
    (first second third : List α) :
    sortBy rank (op first (sortBy rank (op second third))) =
      sortBy rank (op (sortBy rank (op first second)) third) := by
  apply sortBy_eq_of_filter
  intro own
  rw [h, filter_sortBy, h, h, filter_sortBy, h]
  exact hassoc _ _ _

theorem RankWise.sorted_again (h : RankWise rank op)
    (hagain : ∀ own items, op (op own items) items = op own items) (own items : List α) :
    sortBy rank (op (sortBy rank (op own items)) items) = sortBy rank (op own items) := by
  apply sortBy_eq_of_filter
  intro r
  rw [h, filter_sortBy, h]
  exact hagain _ _

end Ranks

/-! ## Dictionaries -/

namespace Dict

variable {κ ν : Type} [DecidableEq κ]

/-- A dictionary is known by its keys in their order and its lookups. -/
theorem ext_get? {left right : Dict κ ν} (hkeys : left.keys = right.keys)
    (hget : ∀ key, left.get? key = right.get? key) : left = right := by
  apply ext
  cases hentries : left.entries with
  | nil =>
      have hnone : right.keys = [] := by
        rw [← hkeys, keys, hentries]
        rfl
      exact (List.map_eq_nil_iff.mp hnone).symm
  | cons entry rest =>
      rw [← hentries, entries_eq_map_keys left entry.2, entries_eq_map_keys right entry.2, hkeys]
      apply List.map_congr_left
      intro key _
      rw [hget]

theorem keys_update (d other : Dict κ ν) :
    (d.update other).keys = uniteBy id d.keys other.keys := by
  have hfold : ∀ (entries : List (κ × ν)) (d : Dict κ ν),
      (entries.foldl (fun acc entry => acc.set entry.1 entry.2) d).keys =
        uniteBy id d.keys (entries.map Prod.fst) := by
    intro entries
    induction entries with
    | nil => intro d; rfl
    | cons entry rest ih =>
        intro d
        rw [List.foldl_cons, ih, keys_set, List.map_cons, uniteBy_cons]
        simp [addBy]
  exact hfold other.entries d

theorem update_assoc (first second third : Dict κ ν) :
    first.update (second.update third) = (first.update second).update third := by
  apply ext_get?
  · simp only [keys_update]
    exact uniteBy_assoc _ _ _
  · intro key
    simp only [get?_update]
    cases third.get? key <;> rfl

theorem update_self (d : Dict κ ν) : d.update d = d := by
  apply ext_get?
  · rw [keys_update]
    exact uniteBy_self _
  · intro key
    rw [get?_update]
    cases d.get? key <;> rfl

theorem update_again (d other : Dict κ ν) : (d.update other).update other = d.update other := by
  apply ext_get?
  · simp only [keys_update]
    exact uniteBy_again _ _
  · intro key
    simp only [get?_update]
    cases other.get? key <;> rfl

end Dict

end Interaction
