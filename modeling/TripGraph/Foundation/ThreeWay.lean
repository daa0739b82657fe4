import Mathlib.Data.List.Basic

/-! # Three-way merges by folding

Several copies of a base value are changed independently and then folded into the base one
after the other. A three-way merge keeps a change that one copy alone has made; a fold does
so exactly if the change survives the copies of the base folded in after it.
-/

namespace Interaction

variable {α : Type}

/-- One value alone differs from the base; `after` are the values behind it. -/
structure SoleChange (base : α) (values : List α) (value : α) (after : List α) : Prop where
  split : ∃ before, values = before ++ value :: after ∧ ∀ own ∈ before, own = base
  changed : value ≠ base
  unchanged : ∀ own ∈ after, own = base

/-- What a three-way merge of the values does. -/
structure ThreeWay (base : α) (values : List α) (merged : α) : Prop where
  unchanged : (∀ own ∈ values, own = base) → merged = base
  changed : ∀ value after, SoleChange base values value after → merged = value

section Fold

variable {step : α → α → α} {base : α}

theorem foldl_of_unchanged (hsame : step base base = base) {values : List α}
    (h : ∀ own ∈ values, own = base) : values.foldl step base = base := by
  induction values with
  | nil => rfl
  | cons value rest ih =>
      obtain ⟨rfl, hrest⟩ := List.forall_mem_cons.mp h
      rw [List.foldl_cons, hsame]
      exact ih hrest

/-- Folding in further copies of the base is folding in one of them. -/
theorem foldl_of_absorbed {own : α} (habsorb : step (step own base) base = step own base)
    {values : List α} (h : ∀ other ∈ values, other = base) :
    values.foldl step own = if values = [] then own else step own base := by
  induction values generalizing own with
  | nil => rfl
  | cons value rest ih =>
      obtain ⟨rfl, hrest⟩ := List.forall_mem_cons.mp h
      rw [List.foldl_cons, ih (by rw [habsorb, habsorb]) hrest, habsorb, ite_self,
        if_neg (List.cons_ne_nil _ _)]

theorem foldl_of_soleChange (hsame : step base base = base)
    (habsorb : ∀ own, step (step own base) base = step own base) {values after : List α} {value : α}
    (h : SoleChange base values value after) :
    values.foldl step base =
      if after = [] then step base value else step (step base value) base := by
  obtain ⟨before, rfl, hbefore⟩ := h.split
  rw [List.foldl_append, foldl_of_unchanged hsame hbefore, List.foldl_cons]
  exact foldl_of_absorbed (habsorb _) h.unchanged

/-- A fold is a three-way merge exactly if sole changes survive it. -/
theorem threeWay_foldl_iff (hsame : step base base = base)
    (habsorb : ∀ own, step (step own base) base = step own base) {values : List α} :
    ThreeWay base values (values.foldl step base) ↔ ∀ value after,
      SoleChange base values value after →
        (if after = [] then step base value else step (step base value) base) = value := by
  constructor
  · intro h value after hchange
    rw [← foldl_of_soleChange hsame habsorb hchange]
    exact h.changed value after hchange
  · intro h
    refine ⟨foldl_of_unchanged hsame, ?_⟩
    intro value after hchange
    rw [foldl_of_soleChange hsame habsorb hchange]
    exact h value after hchange

end Fold

/-! ## Logs -/

section Logs

variable [BEq α] [LawfulBEq α]

theorem eraseDups_of_nodup {items : List α} (h : items.Nodup) : items.eraseDups = items := by
  induction items with
  | nil => rfl
  | cons item rest ih =>
      obtain ⟨hitem, hrest⟩ := List.nodup_cons.mp h
      have hfilter : (rest.filter fun own => !own == item) = rest := by
        rw [List.filter_eq_self]
        intro own hown
        simpa using fun heq : own = item => hitem (heq ▸ hown)
      rw [List.eraseDups_cons, hfilter, ih hrest]

theorem nodup_eraseDups : (items : List α) → items.eraseDups.Nodup
  | [] => List.nodup_nil
  | item :: rest => by
      rw [List.eraseDups_cons, List.nodup_cons]
      exact ⟨by simp [List.mem_eraseDups], nodup_eraseDups (rest.filter fun own => !own == item)⟩
termination_by items => items.length
decreasing_by exact Nat.lt_succ_of_le (List.length_filter_le _ _)

/-- What is already there is not appended again. -/
theorem eraseDups_append_known {own base suffix : List α} (h : ∀ item ∈ base, item ∈ own) :
    (own ++ (base ++ suffix)).eraseDups = (own ++ suffix).eraseDups := by
  have hremoved : (base ++ suffix).removeAll own = suffix.removeAll own := by
    simp only [List.removeAll, List.filter_append, List.elem_eq_mem]
    rw [List.filter_eq_nil_iff.mpr, List.nil_append]
    intro item hitem
    simpa using h item hitem
  rw [List.eraseDups_append, List.eraseDups_append, hremoved]

theorem eraseDups_eraseDups_append (own items : List α) :
    (own.eraseDups ++ items).eraseDups = (own ++ items).eraseDups := by
  have hremoved : items.removeAll own.eraseDups = items.removeAll own := by
    simp only [List.removeAll, List.elem_eq_mem, List.mem_eraseDups]
  rw [List.eraseDups_append, List.eraseDups_append, hremoved,
    eraseDups_of_nodup (nodup_eraseDups own)]

/-- Copies of a base with appended suffixes, folded in with all repetitions erased. -/
theorem foldl_eraseDups {base own : List α} (suffixes : List (List α))
    (h : ∀ item ∈ base, item ∈ own) :
    (suffixes.map (base ++ ·)).foldl (fun acc log => (acc ++ log).eraseDups) own.eraseDups =
      (own ++ suffixes.flatten).eraseDups := by
  induction suffixes generalizing own with
  | nil => simp
  | cons suffix rest ih =>
      rw [List.map_cons, List.foldl_cons, eraseDups_eraseDups_append, eraseDups_append_known h, ih,
        List.flatten_cons, List.append_assoc]
      intro item hitem
      exact List.mem_append_left _ (h item hitem)

/-- The fold keeps every entry exactly if no entry occurs twice, unless there is nothing to
fold in. -/
theorem foldl_eraseDups_eq_iff {base : List α} {suffixes : List (List α)} :
    (suffixes.map (base ++ ·)).foldl (fun acc log => (acc ++ log).eraseDups) base =
      base ++ suffixes.flatten ↔ suffixes = [] ∨ (base ++ suffixes.flatten).Nodup := by
  cases suffixes with
  | nil => simp
  | cons suffix rest =>
      have hfold : ((suffix :: rest).map (base ++ ·)).foldl
          (fun acc log => (acc ++ log).eraseDups) base =
          (base ++ (suffix :: rest).flatten).eraseDups := by
        rw [List.map_cons, List.foldl_cons, eraseDups_append_known fun _ h => h,
          foldl_eraseDups rest, List.flatten_cons, List.append_assoc]
        exact fun item hitem => List.mem_append_left _ hitem
      rw [hfold]
      constructor
      · intro h
        rw [← h]
        exact Or.inr (nodup_eraseDups _)
      · rintro (h | h)
        · cases h
        · exact eraseDups_of_nodup h

end Logs

end Interaction
