import CapabilityAtlas.Keyed
import Mathlib.Data.List.Perm.Subperm

set_option autoImplicit false
set_option relaxedAutoImplicit false

/-!
What reading a table gives after a change, and what the keys of a table are.
-/

namespace CapabilityAtlas.Keyed

variable {β : Type}

theorem get?_put (table : Keyed β) (key other : String) (value : β) :
    (table.put key value).get? other = if other = key then some value else table.get? other := by
  by_cases h : other = key
  · subst h
    rw [get?_put_self, if_pos rfl]
  · rw [get?_put_of_ne table value h, if_neg h]

theorem get?_erase (table : Keyed β) (key other : String) :
    (table.erase key).get? other = if other = key then none else table.get? other := by
  induction table with
  | nil => simp [erase, get?]
  | cons entry rest ih =>
    obtain ⟨k, v⟩ := entry
    have ih' : get? (List.filter (fun entry => decide (entry.1 ≠ key)) rest) other =
        if other = key then none else get? rest other := ih
    by_cases hk : k = key
    · subst hk
      by_cases ho : other = k
      · subst ho
        simpa [erase] using ih'
      · have hne : ¬ k = other := fun he => ho he.symm
        simpa [erase, get?, ho, hne] using ih'
    · by_cases ho : k = other
      · subst ho
        simp [erase, get?, hk]
      · simpa [erase, get?, hk, ho] using ih'

theorem get?_erase_self (table : Keyed β) (key : String) : (table.erase key).get? key = none := by
  rw [get?_erase, if_pos rfl]

theorem get?_erase_of_ne (table : Keyed β) {key other : String} (h : other ≠ key) :
    (table.erase key).get? other = table.get? other := by
  rw [get?_erase, if_neg h]

theorem mem_of_get? {table : Keyed β} {key : String} {value : β}
    (h : table.get? key = some value) : (key, value) ∈ table := by
  induction table with
  | nil => simp [get?] at h
  | cons entry rest ih =>
    obtain ⟨k, v⟩ := entry
    by_cases hk : k = key
    · subst hk
      have hv : v = value := by simpa [get?] using h
      simp [hv]
    · exact List.mem_cons_of_mem _ (ih (by simpa [get?, hk] using h))

theorem get?_of_mem {table : Keyed β} (nodup : table.keys.Nodup) {key : String} {value : β}
    (h : (key, value) ∈ table) : table.get? key = some value := by
  induction table with
  | nil => simp at h
  | cons entry rest ih =>
    obtain ⟨k, v⟩ := entry
    have fresh : k ∉ keys rest ∧ (keys rest).Nodup := by simpa [keys] using nodup
    rcases List.mem_cons.mp h with same | later
    · obtain ⟨rfl, rfl⟩ := Prod.mk.inj same
      simp [get?]
    · have hne : k ≠ key := by
        rintro rfl
        exact fresh.1 (List.mem_map.mpr ⟨_, later, rfl⟩)
      simpa [get?, hne] using ih fresh.2 later

theorem mem_keys_iff {table : Keyed β} {key : String} :
    key ∈ table.keys ↔ ∃ value, table.get? key = some value := by
  induction table with
  | nil => simp [keys, get?]
  | cons entry rest ih =>
    obtain ⟨k, v⟩ := entry
    by_cases hk : k = key
    · simp [keys, get?, hk]
    · have hne : ¬ key = k := fun he => hk he.symm
      simpa [keys, get?, hk, hne] using ih

theorem nodup_keys_put {table : Keyed β} (nodup : table.keys.Nodup) (key : String) (value : β) :
    (table.put key value).keys.Nodup := by
  rw [keys_put]
  split
  · exact nodup
  · rename_i fresh
    refine List.nodup_append.mpr ⟨nodup, by simp, ?_⟩
    intro a ha b hb same
    have hb' : b = key := List.mem_singleton.mp hb
    exact fresh (hb' ▸ same ▸ ha)

theorem put_of_not_mem {table : Keyed β} {key : String} (fresh : key ∉ table.keys) (value : β) :
    table.put key value = table ++ [(key, value)] := by
  induction table with
  | nil => rfl
  | cons entry rest ih =>
    obtain ⟨k, v⟩ := entry
    simp only [keys, List.map_cons, List.mem_cons, not_or] at fresh
    rw [put, if_neg (fun same => fresh.1 same.symm), ih fresh.2]
    rfl

theorem put_eq_map {table : Keyed β} (nodup : table.keys.Nodup) {key : String}
    (known : key ∈ table.keys) (value : β) :
    table.put key value =
      table.map (fun entry => if entry.1 = key then (entry.1, value) else entry) := by
  induction table with
  | nil => simp [keys] at known
  | cons entry rest ih =>
    obtain ⟨k, v⟩ := entry
    have fresh : k ∉ keys rest ∧ (keys rest).Nodup := by simpa [keys] using nodup
    by_cases same : k = key
    · subst same
      have unchanged : ∀ entry ∈ rest,
          (if entry.1 = k then (entry.1, value) else entry) = entry := by
        intro entry member
        refine if_neg fun again => fresh.1 ?_
        rw [← again]
        exact List.mem_map_of_mem member
      rw [put, if_pos rfl, List.map_cons, if_pos rfl, List.map_congr_left unchanged, List.map_id']
    · have later : key ∈ keys rest := by
        rcases List.mem_cons.mp known with first | later
        · exact (same first.symm).elim
        · exact later
      rw [put, if_neg same, List.map_cons, if_neg same, ih fresh.2 later]

theorem get?_append (table other : Keyed β) (key : String) :
    get? (table ++ other) key = (table.get? key).or (other.get? key) := by
  induction table with
  | nil => rfl
  | cons entry rest ih =>
    obtain ⟨k, v⟩ := entry
    by_cases same : k = key
    · simp [get?, same]
    · simpa [get?, same] using ih

theorem get?_append_of_get? {table new : Keyed β} {key : String} {value : β}
    (found : table.get? key = some value) : get? (table ++ new) key = some value := by
  rw [get?_append, found, Option.some_or]

theorem keys_concat (table : Keyed β) (key : String) (value : β) :
    keys (table ++ [(key, value)]) = table.keys ++ [key] :=
  List.map_append

theorem get?_concat_cases {table : Keyed β} {last key : String} {lastValue value : β}
    (found : get? (table ++ [(last, lastValue)]) key = some value) :
    table.get? key = some value ∨ key = last ∧ value = lastValue := by
  rw [get?_append] at found
  cases earlier : table.get? key with
  | some before =>
    rw [earlier, Option.some_or] at found
    exact Or.inl found
  | none =>
    rw [earlier, Option.none_or, get?] at found
    split at found
    · rename_i same
      exact Or.inr ⟨same.symm, (Option.some.inj found).symm⟩
    · simp [get?] at found

theorem ofPairs_of_nodup {pairs : List (String × β)} (nodup : (pairs.map Prod.fst).Nodup) :
    ofPairs pairs = pairs := by
  have run : ∀ (rest done : List (String × β)), ((done ++ rest).map Prod.fst).Nodup →
      rest.foldl (fun table pair => put table pair.1 pair.2) done = done ++ rest := by
    intro rest
    induction rest with
    | nil => exact fun done _ => (List.append_nil done).symm
    | cons pair rest ih =>
      intro done nodup
      have fresh : pair.1 ∉ keys done := by
        rw [List.map_append, List.nodup_append] at nodup
        exact fun member => nodup.2.2 _ member _ (by simp) rfl
      rw [List.foldl_cons, put_of_not_mem fresh, ih _ (by simpa using nodup), List.append_assoc]
      rfl
  exact run pairs [] nodup

end CapabilityAtlas.Keyed

namespace CapabilityAtlas

private theorem firstOccurrences_fold (names seen : List String) (nodup : seen.Nodup) :
    (names.foldl
      (fun seen name => if seen.contains name then seen else seen ++ [name]) seen).Nodup ∧
      ∀ x, x ∈ names.foldl
        (fun seen name => if seen.contains name then seen else seen ++ [name]) seen ↔
          x ∈ seen ∨ x ∈ names := by
  induction names generalizing seen with
  | nil => exact ⟨nodup, by simp⟩
  | cons name rest ih =>
    rw [List.foldl_cons]
    by_cases known : name ∈ seen
    · rw [if_pos (List.contains_iff_mem.mpr known)]
      refine ⟨(ih seen nodup).1, fun x => ?_⟩
      rw [(ih seen nodup).2, List.mem_cons]
      constructor
      · rintro (h | h)
        · exact Or.inl h
        · exact Or.inr (Or.inr h)
      · rintro (h | rfl | h)
        · exact Or.inl h
        · exact Or.inl known
        · exact Or.inr h
    · rw [if_neg (fun h => known (List.contains_iff_mem.mp h))]
      have nodup' : (seen ++ [name]).Nodup :=
        (List.perm_append_singleton name seen).nodup_iff.mpr (List.nodup_cons.mpr ⟨known, nodup⟩)
      refine ⟨(ih _ nodup').1, fun x => ?_⟩
      rw [(ih _ nodup').2, List.mem_append, List.mem_singleton, List.mem_cons, or_assoc]

theorem nodup_firstOccurrences (names : List String) : (firstOccurrences names).Nodup :=
  (firstOccurrences_fold names [] List.nodup_nil).1

theorem mem_firstOccurrences {names : List String} {x : String} :
    x ∈ firstOccurrences names ↔ x ∈ names := by
  rw [firstOccurrences, (firstOccurrences_fold names [] List.nodup_nil).2]
  simp

theorem length_firstOccurrences_eq_iff {names : List String} :
    (firstOccurrences names).length = names.length ↔ names.Nodup := by
  have kept := nodup_firstOccurrences names
  constructor
  · intro same
    have inside : (firstOccurrences names).Subperm names :=
      List.subperm_of_subset kept fun _ member => mem_firstOccurrences.mp member
    exact (inside.perm_of_length_le (Nat.le_of_eq same.symm)).nodup_iff.mp kept
  · intro nodup
    exact ((List.perm_ext_iff_of_nodup kept nodup).mpr fun _ => mem_firstOccurrences).length_eq

theorem Keyed.keys_ofPairs {β : Type} (pairs : List (String × β)) :
    (ofPairs pairs).keys = firstOccurrences (pairs.map Prod.fst) := by
  have run : ∀ table : Keyed β,
      (pairs.foldl (fun table pair => put table pair.1 pair.2) table).keys =
        (pairs.map Prod.fst).foldl
          (fun seen name => if seen.contains name then seen else seen ++ [name]) table.keys := by
    induction pairs with
    | nil => exact fun _ => rfl
    | cons pair rest ih =>
      intro table
      rw [List.foldl_cons, ih, keys_put, List.map_cons, List.foldl_cons]
      simp only [List.contains_iff_mem]
  exact run []

theorem firstOccurrences_of_nodup {names : List String} (nodup : names.Nodup) :
    firstOccurrences names = names := by
  have pairs : (names.map (fun name => (name, ()))).map Prod.fst = names :=
    List.map_map.trans (List.map_id _)
  have keys := Keyed.keys_ofPairs (names.map (fun name => (name, ())))
  rw [Keyed.ofPairs_of_nodup (by rwa [pairs]), pairs] at keys
  exact keys.symm.trans pairs

theorem firstOccurrences_concat (names : List String) (name : String) :
    firstOccurrences (names ++ [name]) =
      if name ∈ firstOccurrences names then firstOccurrences names
      else firstOccurrences names ++ [name] := by
  unfold firstOccurrences
  rw [List.foldl_append, List.foldl_cons, List.foldl_nil]
  simp only [List.contains_iff_mem]

theorem exists_firstOccurrences_append (names later : List String) :
    ∃ more, firstOccurrences (names ++ later) = firstOccurrences names ++ more := by
  induction later generalizing names with
  | nil => exact ⟨[], by rw [List.append_nil, List.append_nil]⟩
  | cons name rest ih =>
    obtain ⟨more, split⟩ := ih (names ++ [name])
    rw [List.append_cons, split, firstOccurrences_concat]
    split_ifs
    · exact ⟨more, rfl⟩
    · exact ⟨name :: more, List.append_assoc _ _ _⟩

/-- Names that have been seen are left out from the rest. -/
theorem firstOccurrences_eq_eraseDups (names : List String) :
    firstOccurrences names = names.eraseDups := by
  have run : ∀ names seen : List String,
      names.foldl (fun seen name => if seen.contains name then seen else seen ++ [name]) seen =
        seen ++ (names.filter (fun name => !seen.contains name)).eraseDups := by
    intro names
    induction names with
    | nil => exact fun seen => (List.append_nil seen).symm
    | cons name rest ih =>
      intro seen
      rw [List.foldl_cons, ih]
      by_cases known : seen.contains name
      · rw [if_pos known, List.filter_cons_of_neg (by simpa using known)]
      · have later : rest.filter (fun other => !(seen ++ [name]).contains other) =
            (rest.filter (fun other => !seen.contains other)).filter
              (fun other => !other == name) := by
          rw [List.filter_filter]
          refine List.filter_congr fun other _ => ?_
          rw [Bool.eq_iff_iff]
          simp [and_comm]
        rw [if_neg known, later, List.filter_cons_of_pos (by simpa using known),
          List.eraseDups_cons, List.append_assoc]
        rfl
  rw [firstOccurrences, run]
  simp

end CapabilityAtlas
