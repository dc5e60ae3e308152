set_option autoImplicit false
set_option relaxedAutoImplicit false

/-!
Tables that remember the order in which their keys first appeared. A table is a list of
pairs whose keys are distinct as long as it is filled by `put`, and `get?` reads the entry
that `put` wrote last.
-/

namespace CapabilityAtlas

/-- A table from names to values, in the order of first insertion. -/
abbrev Keyed (β : Type) := List (String × β)

namespace Keyed

variable {β γ : Type}

def get? : Keyed β → String → Option β
  | [], _ => none
  | (k, v) :: rest, key => if k = key then some v else get? rest key

def has (table : Keyed β) (key : String) : Bool := (table.get? key).isSome

/-- Overwrites the entry of a key in place, or appends a new one. -/
def put : Keyed β → String → β → Keyed β
  | [], key, value => [(key, value)]
  | (k, v) :: rest, key, value =>
    if k = key then (k, value) :: rest else (k, v) :: put rest key value

def erase (table : Keyed β) (key : String) : Keyed β := table.filter (fun entry => entry.1 ≠ key)

def keys (table : Keyed β) : List String := table.map Prod.fst

/-- Fills a table from pairs, a later pair overwriting an earlier one of the same key. -/
def ofPairs (pairs : List (String × β)) : Keyed β :=
  pairs.foldl (fun table pair => table.put pair.1 pair.2) []

theorem get?_put_self (table : Keyed β) (key : String) (value : β) :
    (table.put key value).get? key = some value := by
  induction table with
  | nil => simp [put, get?]
  | cons entry rest ih =>
    obtain ⟨k, v⟩ := entry
    by_cases h : k = key <;> simp [put, get?, h, ih]

theorem get?_put_of_ne (table : Keyed β) {key other : String} (value : β) (h : other ≠ key) :
    (table.put key value).get? other = table.get? other := by
  induction table with
  | nil => simp [put, get?, Ne.symm h]
  | cons entry rest ih =>
    obtain ⟨k, v⟩ := entry
    by_cases hk : k = key
    · subst hk
      simp [put, get?, Ne.symm h]
    · by_cases ho : k = other
      · subst ho
        simp [put, get?, hk]
      · simp [put, get?, hk, ho, ih]

theorem keys_put (table : Keyed β) (key : String) (value : β) :
    (table.put key value).keys =
      if key ∈ table.keys then table.keys else table.keys ++ [key] := by
  induction table with
  | nil => simp [put, keys]
  | cons entry rest ih =>
    obtain ⟨k, v⟩ := entry
    by_cases hk : k = key
    · simp [put, keys, hk]
    · have hne : ¬ key = k := fun e => hk e.symm
      have ih' : List.map Prod.fst (put rest key value) =
          if key ∈ List.map Prod.fst rest then List.map Prod.fst rest
          else List.map Prod.fst rest ++ [key] := ih
      by_cases hr : key ∈ List.map Prod.fst rest
      · simp only [put, hk, if_false, keys, List.map_cons, ih', hr, if_true, List.mem_cons, hne,
          false_or]
      · simp only [put, hk, if_false, keys, List.map_cons, ih', hr, List.mem_cons, hne,
          false_or, List.cons_append]

theorem length_erase_lt (table : Keyed β) {key : String} {value : β}
    (h : table.get? key = some value) : (table.erase key).length < table.length := by
  induction table with
  | nil => simp [get?] at h
  | cons entry rest ih =>
    obtain ⟨k, v⟩ := entry
    by_cases hk : k = key
    · have hle := List.length_filter_le (fun entry : String × β => entry.1 ≠ key) rest
      simp only [erase, List.filter_cons, hk, ne_eq, not_true_eq_false, decide_false,
        Bool.false_eq_true, if_false, List.length_cons]
      simp only [ne_eq] at hle
      omega
    · have hr := ih (by simpa [get?, hk] using h)
      simp only [erase, List.filter_cons, ne_eq, hk, not_false_eq_true, decide_true, if_true,
        List.length_cons]
      simp only [erase, ne_eq] at hr
      omega

end Keyed

/-- The members of a list without repetition, each at the place of its first occurrence. -/
def firstOccurrences (names : List String) : List String :=
  names.foldl (fun seen name => if seen.contains name then seen else seen ++ [name]) []

end CapabilityAtlas

/-!
Orders for lists that are shown. Texts compare by their characters, and sorting keeps the order of
entries that compare equal.
-/

namespace CapabilityAtlas.Order

def textLe (a b : String) : Bool := a ≤ b

/-- Whether a pair of texts does not come after another one, the first parts deciding first. -/
def pairLe (a b : String × String) : Bool := a.1 < b.1 || (a.1 = b.1 && textLe a.2 b.2)

def sortTexts (texts : List String) : List String := texts.mergeSort textLe

def sortByTexts {α : Type} (key : α → String × String) (entries : List α) : List α :=
  entries.mergeSort (fun a b => pairLe (key a) (key b))

end CapabilityAtlas.Order
