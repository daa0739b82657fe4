import Mathlib.Data.List.Nodup

/-! # Insertion-ordered dictionaries

The dictionary keeps its entries in insertion order with pairwise distinct keys, so a key
that cannot occur twice need not be excluded by later proofs. Writing an existing key keeps
its place; a new key goes to the end.
-/

namespace Interaction

/-- Entries in insertion order; no key occurs twice. -/
structure Dict (κ ν : Type) where
  entries : List (κ × ν)
  nodup : (entries.map Prod.fst).Nodup

namespace Dict

variable {κ ν μ : Type}

theorem ext {left right : Dict κ ν} (h : left.entries = right.entries) : left = right := by
  cases left
  cases right
  cases h
  rfl

instance [DecidableEq κ] [DecidableEq ν] : DecidableEq (Dict κ ν) := fun left right =>
  decidable_of_iff (left.entries = right.entries) ⟨ext, fun h => h ▸ rfl⟩

/-- The empty dictionary. -/
def empty : Dict κ ν := ⟨[], List.nodup_nil⟩

instance : Inhabited (Dict κ ν) := ⟨empty⟩

/-- The keys in insertion order. -/
def keys (d : Dict κ ν) : List κ := d.entries.map Prod.fst

/-- The values in insertion order. -/
def values (d : Dict κ ν) : List ν := d.entries.map Prod.snd

/-- Map the values; keys and order stay. -/
def map (f : ν → μ) (d : Dict κ ν) : Dict κ μ where
  entries := d.entries.map fun entry => (entry.1, f entry.2)
  nodup := by
    rw [List.map_map]
    exact d.nodup

variable [DecidableEq κ]

/-- The value of the first entry with this key. -/
def lookup : List (κ × ν) → κ → Option ν
  | [], _ => none
  | (key, value) :: rest, wanted => if key = wanted then some value else lookup rest wanted

/-- `d.get(key)`. -/
def get? (d : Dict κ ν) (key : κ) : Option ν := lookup d.entries key

/-- `key in d`. -/
def contains (d : Dict κ ν) (key : κ) : Bool := (d.get? key).isSome

/-- Overwrite the entry of the key, or append one. -/
def write : List (κ × ν) → κ → ν → List (κ × ν)
  | [], key, value => [(key, value)]
  | (own, old) :: rest, key, value =>
      if own = key then (key, value) :: rest else (own, old) :: write rest key value

theorem mem_keys_write {entries : List (κ × ν)} {key other : κ} {value : ν} :
    other ∈ (write entries key value).map Prod.fst ↔
      other = key ∨ other ∈ entries.map Prod.fst := by
  induction entries with
  | nil => simp [write]
  | cons entry rest ih =>
      obtain ⟨own, old⟩ := entry
      rw [write]
      split
      next heq =>
        subst heq
        simp only [List.map_cons, List.mem_cons]
        tauto
      next =>
        simp only [List.map_cons, List.mem_cons, ih]
        tauto

theorem nodup_write {entries : List (κ × ν)} (h : (entries.map Prod.fst).Nodup) (key : κ)
    (value : ν) : ((write entries key value).map Prod.fst).Nodup := by
  induction entries with
  | nil => simp [write]
  | cons entry rest ih =>
      obtain ⟨own, old⟩ := entry
      simp only [List.map_cons, List.nodup_cons] at h
      rw [write]
      split
      next heq =>
        subst heq
        simpa using h
      next hne =>
        simp only [List.map_cons, List.nodup_cons, mem_keys_write, not_or]
        exact ⟨⟨hne, h.1⟩, ih h.2⟩

/-- `d[key] = value`. -/
def set (d : Dict κ ν) (key : κ) (value : ν) : Dict κ ν :=
  ⟨write d.entries key value, nodup_write d.nodup key value⟩

/-- `d.pop(key, None)`. -/
def erase (d : Dict κ ν) (key : κ) : Dict κ ν :=
  ⟨d.entries.filter fun entry => decide (entry.1 ≠ key),
    d.nodup.sublist (List.filter_sublist.map Prod.fst)⟩

/-- Keep the entries whose key satisfies the test. -/
def filterKeys (d : Dict κ ν) (keep : κ → Bool) : Dict κ ν :=
  ⟨d.entries.filter fun entry => keep entry.1, d.nodup.sublist (List.filter_sublist.map Prod.fst)⟩

/-- `d.update(other)`, also `{**d, **other}`. -/
def update (d other : Dict κ ν) : Dict κ ν :=
  other.entries.foldl (fun acc entry => acc.set entry.1 entry.2) d

/-- A dictionary written entry by entry. -/
def ofList (entries : List (κ × ν)) : Dict κ ν :=
  entries.foldl (fun acc entry => acc.set entry.1 entry.2) empty

/-! ## Lookups -/

@[simp] theorem get?_empty (key : κ) : (empty : Dict κ ν).get? key = none := rfl

theorem lookup_write (entries : List (κ × ν)) (key other : κ) (value : ν) :
    lookup (write entries key value) other =
      if other = key then some value else lookup entries other := by
  induction entries with
  | nil => simp [write, lookup, eq_comm]
  | cons entry rest ih =>
      obtain ⟨own, old⟩ := entry
      rw [write]
      split
      next heq =>
        subst heq
        simp only [lookup, eq_comm (a := other)]
        split <;> rfl
      next hne =>
        simp only [lookup, ih]
        split
        next heq =>
          subst heq
          rw [if_neg hne]
        next => rfl

theorem get?_set (d : Dict κ ν) (key other : κ) (value : ν) :
    (d.set key value).get? other = if other = key then some value else d.get? other :=
  lookup_write d.entries key other value

@[simp] theorem get?_set_self (d : Dict κ ν) (key : κ) (value : ν) :
    (d.set key value).get? key = some value := by
  rw [get?_set, if_pos rfl]

theorem get?_set_ne (d : Dict κ ν) {key other : κ} (h : other ≠ key) (value : ν) :
    (d.set key value).get? other = d.get? other := by
  rw [get?_set, if_neg h]

theorem lookup_filter (entries : List (κ × ν)) (keep : κ → Bool) (key : κ) :
    lookup (entries.filter fun entry => keep entry.1) key =
      if keep key then lookup entries key else none := by
  induction entries with
  | nil => simp [lookup]
  | cons entry rest ih =>
      obtain ⟨own, old⟩ := entry
      simp only [List.filter_cons]
      by_cases hkey : own = key
      · subst hkey
        cases hkeep : keep own <;> simp [lookup, ih, hkeep]
      · cases hkeep : keep own <;> simp [lookup, ih, hkey]

theorem get?_filterKeys (d : Dict κ ν) (keep : κ → Bool) (key : κ) :
    (d.filterKeys keep).get? key = if keep key then d.get? key else none :=
  lookup_filter d.entries keep key

theorem get?_erase (d : Dict κ ν) (key other : κ) :
    (d.erase key).get? other = if other = key then none else d.get? other := by
  refine (lookup_filter d.entries (fun own => decide (own ≠ key)) other).trans ?_
  by_cases h : other = key
  · simp [h]
  · simp [h, get?]

/-! ## Keys -/

theorem lookup_isSome {entries : List (κ × ν)} {key : κ} :
    (lookup entries key).isSome ↔ key ∈ entries.map Prod.fst := by
  induction entries with
  | nil => simp [lookup]
  | cons entry rest ih =>
      obtain ⟨own, old⟩ := entry
      simp only [lookup, List.map_cons, List.mem_cons]
      split
      next heq => simp [heq]
      next hne =>
        rw [ih]
        exact ⟨Or.inr, fun h => h.resolve_left fun heq => hne heq.symm⟩

theorem mem_keys_iff (d : Dict κ ν) (key : κ) : key ∈ d.keys ↔ (d.get? key).isSome :=
  lookup_isSome.symm

theorem mem_of_lookup {entries : List (κ × ν)} {key : κ} {value : ν}
    (h : lookup entries key = some value) : (key, value) ∈ entries := by
  induction entries with
  | nil => simp [lookup] at h
  | cons entry rest ih =>
      obtain ⟨own, old⟩ := entry
      rw [lookup] at h
      split at h
      next heq =>
        cases h
        exact heq ▸ List.mem_cons_self
      next => exact List.mem_cons_of_mem _ (ih h)

theorem mem_entries_of_get? {d : Dict κ ν} {key : κ} {value : ν} (h : d.get? key = some value) :
    (key, value) ∈ d.entries := mem_of_lookup h

theorem get?_of_mem_entries {d : Dict κ ν} {key : κ} {value : ν} (h : (key, value) ∈ d.entries) :
    d.get? key = some value := by
  obtain ⟨entries, nodup⟩ := d
  simp only [get?] at h ⊢
  induction entries with
  | nil => simp at h
  | cons entry rest ih =>
      obtain ⟨own, old⟩ := entry
      simp only [List.map_cons, List.nodup_cons] at nodup
      rcases List.mem_cons.mp h with heq | hmem
      · cases heq
        simp [lookup]
      · have hne : own ≠ key := by
          rintro rfl
          exact nodup.1 (List.mem_map.mpr ⟨(own, value), hmem, rfl⟩)
        rw [lookup, if_neg hne]
        exact ih nodup.2 hmem

theorem mem_entries_iff {d : Dict κ ν} {key : κ} {value : ν} :
    (key, value) ∈ d.entries ↔ d.get? key = some value :=
  ⟨get?_of_mem_entries, mem_entries_of_get?⟩

@[simp] theorem mem_keys_set {d : Dict κ ν} {key other : κ} {value : ν} :
    other ∈ (d.set key value).keys ↔ other = key ∨ other ∈ d.keys := mem_keys_write

theorem get?_ofList_fold (entries : List (κ × ν)) (d : Dict κ ν) (key : κ)
    (h : ∀ value, (key, value) ∉ entries) :
    (entries.foldl (fun acc entry => acc.set entry.1 entry.2) d).get? key = d.get? key := by
  induction entries generalizing d with
  | nil => rfl
  | cons entry rest ih =>
      rw [List.foldl_cons, ih _ fun value hmem => h value (List.mem_cons_of_mem _ hmem)]
      refine get?_set_ne d ?_ _
      rintro rfl
      exact h entry.2 List.mem_cons_self

/-- Among entries with distinct keys, each is found under its key. -/
theorem get?_ofList {entries : List (κ × ν)} (hnodup : (entries.map Prod.fst).Nodup)
    {key : κ} {value : ν} (h : (key, value) ∈ entries) :
    (ofList entries).get? key = some value := by
  unfold ofList
  generalize (empty : Dict κ ν) = d
  induction entries generalizing d with
  | nil => simp at h
  | cons entry rest ih =>
      simp only [List.map_cons, List.nodup_cons] at hnodup
      rw [List.foldl_cons]
      rcases List.mem_cons.mp h with rfl | hmem
      · rw [get?_ofList_fold, get?_set_self]
        exact fun value hmem => hnodup.1 (List.mem_map.mpr ⟨_, hmem, rfl⟩)
      · exact ih hnodup.2 hmem _

theorem get?_ofList_none {entries : List (κ × ν)} {key : κ} (h : key ∉ entries.map Prod.fst) :
    (ofList entries).get? key = none := by
  rw [ofList, get?_ofList_fold]
  · rfl
  · exact fun value hmem => h (List.mem_map.mpr ⟨_, hmem, rfl⟩)

theorem mem_of_get?_fold {entries : List (κ × ν)} {d : Dict κ ν} {key : κ} {value : ν}
    (h : (entries.foldl (fun acc entry => acc.set entry.1 entry.2) d).get? key = some value) :
    (key, value) ∈ entries ∨ d.get? key = some value := by
  induction entries generalizing d with
  | nil => exact Or.inr h
  | cons entry rest ih =>
      rcases ih h with hrest | hset
      · exact Or.inl (List.mem_cons_of_mem _ hrest)
      · rw [get?_set] at hset
        split at hset
        next heq =>
          cases hset
          exact Or.inl (heq ▸ List.mem_cons_self)
        next => exact Or.inr hset

/-- What is found was written. -/
theorem mem_of_get?_ofList {entries : List (κ × ν)} {key : κ} {value : ν}
    (h : (ofList entries).get? key = some value) : (key, value) ∈ entries :=
  (mem_of_get?_fold h).resolve_right fun hempty => by cases hempty

theorem get?_foldl_set {entries : List (κ × ν)} (hnodup : (entries.map Prod.fst).Nodup)
    (d : Dict κ ν) (key : κ) :
    (entries.foldl (fun acc entry => acc.set entry.1 entry.2) d).get? key =
      (lookup entries key).orElse fun _ => d.get? key := by
  induction entries generalizing d with
  | nil => rfl
  | cons entry rest ih =>
      obtain ⟨own, value⟩ := entry
      simp only [List.map_cons, List.nodup_cons] at hnodup
      rw [List.foldl_cons, ih hnodup.2, lookup]
      split
      next hown =>
        subst hown
        have hrest : lookup rest own = none := by
          rw [← Option.not_isSome_iff_eq_none, lookup_isSome]
          exact hnodup.1
        rw [hrest, get?_set_self]
        rfl
      next hown => rw [get?_set_ne _ (Ne.symm hown)]

/-- An update overrides what it has and keeps the rest. -/
theorem get?_update (d other : Dict κ ν) (key : κ) :
    (d.update other).get? key = (other.get? key).orElse fun _ => d.get? key :=
  get?_foldl_set other.nodup d key

theorem mem_keys_fold (entries : List (κ × ν)) (d : Dict κ ν) (key : κ) :
    key ∈ (entries.foldl (fun acc entry => acc.set entry.1 entry.2) d).keys ↔
      key ∈ entries.map Prod.fst ∨ key ∈ d.keys := by
  induction entries generalizing d with
  | nil => simp
  | cons entry rest ih =>
      rw [List.foldl_cons, ih, mem_keys_set, List.map_cons, List.mem_cons]
      tauto

theorem contains_iff {d : Dict κ ν} {key : κ} : d.contains key = true ↔ key ∈ d.keys :=
  (mem_keys_iff d key).symm

@[simp] theorem contains_ofList {entries : List (κ × ν)} {key : κ} :
    (ofList entries).contains key = true ↔ key ∈ entries.map Prod.fst := by
  rw [contains_iff, ofList, mem_keys_fold]
  simp [keys, empty]

theorem write_of_not_mem {entries : List (κ × ν)} {key : κ} (h : key ∉ entries.map Prod.fst)
    (value : ν) : write entries key value = entries ++ [(key, value)] := by
  induction entries with
  | nil => rfl
  | cons entry rest ih =>
      obtain ⟨own, old⟩ := entry
      simp only [List.map_cons, List.mem_cons, not_or] at h
      rw [write, if_neg (Ne.symm h.1), ih h.2]
      rfl

/-- Entries with distinct keys are kept as they are. -/
theorem entries_ofList {entries : List (κ × ν)} (h : (entries.map Prod.fst).Nodup) :
    (ofList entries).entries = entries := by
  have hfold : ∀ (rest : List (κ × ν)) (d : Dict κ ν),
      ((d.entries ++ rest).map Prod.fst).Nodup →
      (rest.foldl (fun acc entry => acc.set entry.1 entry.2) d).entries = d.entries ++ rest := by
    intro rest
    induction rest with
    | nil => simp
    | cons entry rest ih =>
        intro d hnodup
        have hfresh : entry.1 ∉ d.entries.map Prod.fst := by
          simp only [List.map_append, List.map_cons] at hnodup
          exact fun hmem => (List.nodup_append.mp hnodup).2.2 _ hmem _ List.mem_cons_self rfl
        have hset : (d.set entry.1 entry.2).entries = d.entries ++ [entry] :=
          write_of_not_mem hfresh entry.2
        rw [List.foldl_cons, ih, hset, List.append_assoc, List.singleton_append]
        rwa [hset, List.append_assoc, List.singleton_append]
  exact hfold entries empty h

/-! ## Properties of all entries -/

/-- Every entry has the property. -/
def Each (p : κ → ν → Prop) (d : Dict κ ν) : Prop := ∀ entry ∈ d.entries, p entry.1 entry.2

section Each

variable {p : κ → ν → Prop}

omit [DecidableEq κ] in
@[simp] theorem each_empty : Each p (empty : Dict κ ν) := fun _ h => by cases h

theorem mem_write {entries : List (κ × ν)} {key : κ} {value : ν} {entry : κ × ν}
    (h : entry ∈ write entries key value) : entry = (key, value) ∨ entry ∈ entries := by
  induction entries with
  | nil => exact Or.inl (List.mem_singleton.mp h)
  | cons first rest ih =>
      obtain ⟨own, old⟩ := first
      rw [write] at h
      split at h
      · exact (List.mem_cons.mp h).imp_right (List.mem_cons_of_mem _)
      · rcases List.mem_cons.mp h with rfl | hrest
        · exact Or.inr List.mem_cons_self
        · exact (ih hrest).imp_right (List.mem_cons_of_mem _)

theorem Each.set {d : Dict κ ν} (h : d.Each p) {key : κ} {value : ν} (hvalue : p key value) :
    (d.set key value).Each p := by
  intro entry hmem
  rcases mem_write hmem with rfl | hmem
  · exact hvalue
  · exact h entry hmem

theorem each_fold {entries : List (κ × ν)} {d : Dict κ ν} (h : d.Each p)
    (hentries : ∀ entry ∈ entries, p entry.1 entry.2) :
    (entries.foldl (fun acc entry => acc.set entry.1 entry.2) d).Each p := by
  induction entries generalizing d with
  | nil => exact h
  | cons entry rest ih =>
      obtain ⟨hentry, hrest⟩ := List.forall_mem_cons.mp hentries
      exact ih (h.set hentry) hrest

theorem Each.update {d other : Dict κ ν} (h : d.Each p) (hother : other.Each p) :
    (d.update other).Each p := each_fold h hother

theorem each_ofList {entries : List (κ × ν)} (h : ∀ entry ∈ entries, p entry.1 entry.2) :
    (ofList entries).Each p := each_fold each_empty h

theorem Each.erase {d : Dict κ ν} (h : d.Each p) (key : κ) : (d.erase key).Each p :=
  fun entry hmem => h entry (List.mem_of_mem_filter hmem)

omit [DecidableEq κ] in
theorem Each.filterKeys {d : Dict κ ν} (h : d.Each p) (keep : κ → Bool) :
    (d.filterKeys keep).Each p :=
  fun entry hmem => h entry (List.mem_of_mem_filter hmem)

theorem Each.of_get? {d : Dict κ ν} (h : d.Each p) {key : κ} {value : ν}
    (hget : d.get? key = some value) : p key value :=
  h (key, value) (mem_entries_of_get? hget)

end Each

/-! ## Adjusting values -/

section Adjust

variable {d : Dict κ ν} {key other : κ}

/-- Write what `f` makes of the present value, if it makes anything of it. -/
def adjust (d : Dict κ ν) (key : κ) (f : Option ν → Option ν) : Dict κ ν :=
  match f (d.get? key) with
  | some value => d.set key value
  | none => d

/-- Adjust the values of several keys, one after the other. -/
def adjustAll (d : Dict κ ν) (f : κ → Option ν → Option ν) (keys : List κ) : Dict κ ν :=
  keys.foldl (fun acc key => acc.adjust key (f key)) d

theorem get?_adjust (f : Option ν → Option ν) : (d.adjust key f).get? other =
    if other = key then (f (d.get? key)).or (d.get? key) else d.get? other := by
  unfold adjust
  cases f (d.get? key) with
  | none =>
      dsimp only
      by_cases heq : other = key
      · rw [if_pos heq, Option.none_or, heq]
      · rw [if_neg heq]
  | some value => rw [get?_set, Option.some_or]

theorem keys_set (value : ν) :
    (d.set key value).keys = if key ∈ d.keys then d.keys else d.keys ++ [key] := by
  have hkeys : ∀ entries : List (κ × ν), (write entries key value).map Prod.fst =
      if key ∈ entries.map Prod.fst then entries.map Prod.fst
      else entries.map Prod.fst ++ [key] := by
    intro entries
    induction entries with
    | nil => rfl
    | cons entry rest ih =>
        obtain ⟨own, old⟩ := entry
        rw [write]
        by_cases heq : own = key
        · simp [heq]
        · rw [if_neg heq, List.map_cons, ih]
          by_cases hmem : key ∈ rest.map Prod.fst
          · simp [hmem]
          · simp [hmem, Ne.symm heq]
  exact hkeys d.entries

theorem keys_adjust (f : Option ν → Option ν) : (d.adjust key f).keys =
    if key ∈ d.keys ∨ f (d.get? key) = none then d.keys else d.keys ++ [key] := by
  unfold adjust
  cases f (d.get? key) with
  | none => simp
  | some value =>
      rw [keys_set]
      simp

theorem get?_adjustAll (f : κ → Option ν → Option ν) {keys : List κ} (hnodup : keys.Nodup) :
    (d.adjustAll f keys).get? other =
      if other ∈ keys then (f other (d.get? other)).or (d.get? other) else d.get? other := by
  unfold adjustAll
  induction keys generalizing d with
  | nil => simp
  | cons key rest ih =>
      obtain ⟨hkey, hrest⟩ := List.nodup_cons.mp hnodup
      rw [List.foldl_cons, ih hrest, get?_adjust]
      by_cases heq : other = key
      · simp [heq, hkey]
      · simp [heq]

/-- New keys go to the end, in the order in which they are adjusted. -/
theorem keys_adjustAll (f : κ → Option ν → Option ν) {keys : List κ} (hnodup : keys.Nodup) :
    (d.adjustAll f keys).keys =
      d.keys ++ keys.filter fun key => decide (key ∉ d.keys) && (f key none).isSome := by
  unfold adjustAll
  induction keys generalizing d with
  | nil => simp
  | cons key rest ih =>
      obtain ⟨hkey, hrest⟩ := List.nodup_cons.mp hnodup
      rw [List.foldl_cons, ih hrest, keys_adjust]
      have hsame : rest.filter (fun own => decide (own ∉ (d.adjust key (f key)).keys) &&
          (f own none).isSome) =
          rest.filter fun own => decide (own ∉ d.keys) && (f own none).isSome := by
        apply List.filter_congr
        intro own hown
        have hne : own ≠ key := fun heq => hkey (heq ▸ hown)
        have hmem : own ∈ (d.adjust key (f key)).keys ↔ own ∈ d.keys := by
          rw [mem_keys_iff, mem_keys_iff, get?_adjust, if_neg hne]
        simp only [hmem]
      rw [keys_adjust] at hsame
      rw [hsame]
      by_cases hmem : key ∈ d.keys
      · simp [hmem]
      · have hnone : d.get? key = none := by
          rw [mem_keys_iff] at hmem
          simpa using hmem
        rw [hnone]
        cases hvalue : f key none with
        | none => simp [hvalue]
        | some value => simp [hmem, hvalue]

/-- The entries, from the keys and their values. -/
theorem entries_eq_map_keys (d : Dict κ ν) (default : ν) :
    d.entries = d.keys.map fun key => (key, (d.get? key).getD default) := by
  rw [keys, List.map_map]
  conv_lhs => rw [← List.map_id d.entries]
  apply List.map_congr_left
  intro entry hentry
  have hvalue : d.get? entry.1 = some entry.2 := get?_of_mem_entries hentry
  simp [hvalue]

end Adjust

end Dict

end Interaction
