import Mathlib.Data.List.Basic

/-! # Keeping the first item of each key

Items are kept as long as their key was not seen before. The key of an item may fail, and then
nothing is kept.
-/

namespace Interaction

variable {ε α β κ : Type}

theorem bind_eq_ok_iff {first : Except ε α} {next : α → Except ε β} {result : β} :
    (first >>= next) = .ok result ↔ ∃ value, first = .ok value ∧ next value = .ok result := by
  cases first with
  | error error =>
      constructor
      · intro h
        cases h
      · rintro ⟨value, h, -⟩
        cases h
  | ok value =>
      constructor
      · intro h
        exact ⟨value, rfl, h⟩
      · rintro ⟨own, h, hnext⟩
        obtain rfl := Except.ok.inj h
        exact hnext

theorem pure_eq_ok_iff {value result : α} :
    (pure value : Except ε α) = .ok result ↔ value = result :=
  ⟨Except.ok.inj, congrArg Except.ok⟩

/-- The item stands in the list behind items of other keys only. -/
def Leads (key : α → κ) (items : List α) (item : α) : Prop :=
  ∃ before after, items = before ++ item :: after ∧ ∀ earlier ∈ before, key earlier ≠ key item

section Leads

variable {key : α → κ} {items : List α} {first item : α}

@[simp] theorem not_leads_nil : ¬ Leads key [] item := by
  rintro ⟨before, after, heq, -⟩
  cases before <;> cases heq

theorem leads_cons_iff :
    Leads key (first :: items) item ↔
      item = first ∨ key first ≠ key item ∧ Leads key items item := by
  constructor
  · rintro ⟨before, after, heq, hkeys⟩
    cases before with
    | nil =>
        obtain ⟨rfl, -⟩ := List.cons.inj heq
        exact .inl rfl
    | cons own rest =>
        obtain ⟨rfl, rfl⟩ := List.cons.inj heq
        obtain ⟨hfirst, hrest⟩ := List.forall_mem_cons.mp hkeys
        exact .inr ⟨hfirst, rest, after, rfl, hrest⟩
  · rintro (rfl | ⟨hfirst, before, after, rfl, hkeys⟩)
    · exact ⟨[], items, rfl, by simp⟩
    · exact ⟨first :: before, after, rfl, List.forall_mem_cons.mpr ⟨hfirst, hkeys⟩⟩

theorem Leads.mem (h : Leads key items item) : item ∈ items := by
  obtain ⟨before, after, rfl, -⟩ := h
  exact List.mem_append_right before List.mem_cons_self

end Leads

variable [DecidableEq κ]

/-- The first item of each key, behind the keys seen. -/
def firstsBy (key : α → Except ε κ) : List κ → List α → Except ε (List α)
  | _, [] => .ok []
  | seen, item :: rest => do
      let own ← key item
      if own ∈ seen then firstsBy key seen rest
      else
        let later ← firstsBy key (own :: seen) rest
        return item :: later

section FirstsBy

variable {key : α → Except ε κ} {seen : List κ} {items kept : List α} {item : α}

theorem firstsBy_cons_of_mem {own : κ} {rest : List α} (hkey : key item = .ok own)
    (hseen : own ∈ seen) : firstsBy key seen (item :: rest) = firstsBy key seen rest := by
  rw [firstsBy, hkey]
  exact if_pos hseen

theorem firstsBy_cons_of_not_mem {own : κ} {rest : List α} (hkey : key item = .ok own)
    (hseen : own ∉ seen) : firstsBy key seen (item :: rest) =
      (firstsBy key (own :: seen) rest).map (item :: ·) := by
  rw [firstsBy, hkey]
  change (if own ∈ seen then _ else _) = _
  rw [if_neg hseen]
  cases firstsBy key (own :: seen) rest <;> rfl

theorem firstsBy_cons_of_error {error : ε} {rest : List α} (hkey : key item = .error error) :
    firstsBy key seen (item :: rest) = .error error := by
  rw [firstsBy, hkey]
  rfl

/-- Items are kept if every item has a key. -/
theorem exists_firstsBy_iff :
    (∃ kept, firstsBy key seen items = .ok kept) ↔ ∀ item ∈ items, ∃ own, key item = .ok own := by
  induction items generalizing seen with
  | nil => simp [firstsBy]
  | cons item rest ih =>
      rw [List.forall_mem_cons]
      cases hkey : key item with
      | error error =>
          rw [firstsBy_cons_of_error hkey]
          simp
      | ok own =>
          by_cases hseen : own ∈ seen
          · rw [firstsBy_cons_of_mem hkey hseen, ih]
            simp
          · rw [firstsBy_cons_of_not_mem hkey hseen, ← @ih (own :: seen)]
            cases firstsBy key (own :: seen) rest <;> simp [Except.map]

theorem mem_firstsBy_seen_iff (h : firstsBy key seen items = .ok kept) :
    item ∈ kept ↔ (∀ own ∈ seen, key item ≠ .ok own) ∧ Leads key items item := by
  induction items generalizing seen kept with
  | nil =>
      obtain rfl := Except.ok.inj h
      simp
  | cons first rest ih =>
      rw [leads_cons_iff]
      obtain ⟨own, hkey⟩ := exists_firstsBy_iff.mp ⟨kept, h⟩ first List.mem_cons_self
      by_cases hseen : own ∈ seen
      · rw [firstsBy_cons_of_mem hkey hseen] at h
        rw [ih h]
        refine and_congr_right fun hother => ?_
        constructor
        · intro hleads
          exact .inr ⟨fun hsame => hother own hseen (hsame.symm.trans hkey), hleads⟩
        · rintro (rfl | ⟨-, hleads⟩)
          · exact absurd hkey (hother own hseen)
          · exact hleads
      · rw [firstsBy_cons_of_not_mem hkey hseen] at h
        cases hlater : firstsBy key (own :: seen) rest with
        | error error =>
            rw [hlater] at h
            cases h
        | ok later =>
            rw [hlater] at h
            obtain rfl := Except.ok.inj h
            rw [List.mem_cons, ih hlater, List.forall_mem_cons, hkey]
            constructor
            · rintro (rfl | ⟨⟨hne, hother⟩, hleads⟩)
              · refine ⟨fun other hmem hsame => ?_, .inl rfl⟩
                obtain rfl := Except.ok.inj (hkey.symm.trans hsame)
                exact hseen hmem
              · exact ⟨hother, .inr ⟨fun hsame => hne hsame.symm, hleads⟩⟩
            · rintro ⟨hother, rfl | ⟨hne, hleads⟩⟩
              · exact .inl rfl
              · exact .inr ⟨⟨fun hsame => hne hsame.symm, hother⟩, hleads⟩

/-- The items kept are those that lead. -/
theorem mem_firstsBy_iff (h : firstsBy key [] items = .ok kept) :
    item ∈ kept ↔ Leads key items item := by
  rw [mem_firstsBy_seen_iff h]
  simp

end FirstsBy

end Interaction
