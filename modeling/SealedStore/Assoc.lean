/-
  Association lists that keep the order in which their keys came.

  `put` replaces in place, `erase` leaves the order of the rest alone.  All three operations
  look at the first entry of a key; in a list that `put` built there is no second.
-/

namespace SealedStore.Assoc

variable {κ ν : Type} [DecidableEq κ]

/-- The value of the first entry of a key. -/
def find (key : κ) : List (κ × ν) → Option ν
  | [] => none
  | (k, v) :: entries => if k = key then some v else find key entries

/-- Puts a value into the first entry of a key, or into a new last entry. -/
def put (key : κ) (value : ν) : List (κ × ν) → List (κ × ν)
  | [] => [(key, value)]
  | (k, v) :: entries =>
    if k = key then (k, value) :: entries else (k, v) :: put key value entries

/-- Leaves out the first entry of a key. -/
def erase (key : κ) : List (κ × ν) → List (κ × ν)
  | [] => []
  | (k, v) :: entries => if k = key then entries else (k, v) :: erase key entries

theorem isSome_find_iff {key : κ} {entries : List (κ × ν)} :
    (find key entries).isSome = true ↔ key ∈ entries.map (·.1) := by
  induction entries with
  | nil => simp [find]
  | cons entry entries ih =>
    by_cases h : entry.1 = key
    · simp [find, h]
    · simp only [find, h, if_false, ih, List.map_cons, List.mem_cons, Ne.symm h, false_or]

theorem find_put_self (key : κ) (value : ν) (entries : List (κ × ν)) :
    find key (put key value entries) = some value := by
  induction entries with
  | nil => simp [put, find]
  | cons entry entries ih => by_cases h : entry.1 = key <;> simp [put, find, h, ih]

theorem find_put_of_ne {key other : κ} (h : other ≠ key) (value : ν) (entries : List (κ × ν)) :
    find other (put key value entries) = find other entries := by
  induction entries with
  | nil => simp [put, find, Ne.symm h]
  | cons entry entries ih =>
    by_cases hk : entry.1 = key
    · simp [put, find, hk, Ne.symm h]
    · simp [put, find, hk, ih]

theorem find_erase_of_ne {key other : κ} (h : other ≠ key) (entries : List (κ × ν)) :
    find other (erase key entries) = find other entries := by
  induction entries with
  | nil => rfl
  | cons entry entries ih =>
    by_cases hk : entry.1 = key
    · simp [erase, find, hk, Ne.symm h]
    · simp [erase, find, hk, ih]

/-- Taking away what was put under a new key gives the entries back. -/
theorem erase_put_of_find_eq_none {key : κ} (value : ν) {entries : List (κ × ν)}
    (h : find key entries = none) : erase key (put key value entries) = entries := by
  induction entries with
  | nil => simp [put, erase]
  | cons entry entries ih =>
    by_cases hk : entry.1 = key
    · simp [find, hk] at h
    · simp [find, hk] at h
      simp [put, erase, hk, ih h]

/-! ## Keys -/

/-- A key that is there keeps its place, and a new one goes last. -/
theorem keys_put (key : κ) (value : ν) (entries : List (κ × ν)) :
    (put key value entries).map (·.1) =
      if key ∈ entries.map (·.1) then entries.map (·.1) else entries.map (·.1) ++ [key] := by
  induction entries with
  | nil => rfl
  | cons entry entries ih =>
    by_cases h : entry.1 = key
    · simp [put, h]
    · have hmem : key ∈ (entry :: entries).map (·.1) ↔ key ∈ entries.map (·.1) := by
        simp [Ne.symm h]
      rw [put, if_neg h, List.map_cons, ih]
      simp only [hmem]
      split <;> rfl

/-- The other keys stay in their order. -/
theorem keys_erase (key : κ) (entries : List (κ × ν)) :
    (erase key entries).map (·.1) = (entries.map (·.1)).erase key := by
  induction entries with
  | nil => rfl
  | cons entry entries ih =>
    by_cases h : entry.1 = key
    · simp [erase, h]
    · simp [erase, h, ih]

/-- What is taken away is there no more, as no key stands twice. -/
theorem find_erase_self {key : κ} {entries : List (κ × ν)}
    (h : (entries.map (·.1)).Nodup) : find key (erase key entries) = none := by
  have hgone : key ∉ (erase key entries).map (·.1) := by
    rw [keys_erase]
    exact fun hmem => (List.Nodup.mem_erase_iff h).mp hmem |>.1 rfl
  rw [← isSome_find_iff] at hgone
  exact Option.not_isSome_iff_eq_none.mp hgone

/-- Where no key comes twice, an entry is what is found under its key. -/
theorem mem_iff_find {key : κ} {value : ν} {entries : List (κ × ν)}
    (h : (entries.map (·.1)).Nodup) : (key, value) ∈ entries ↔ find key entries = some value := by
  induction entries with
  | nil => simp [find]
  | cons entry entries ih =>
    obtain ⟨hfresh, hrest⟩ := List.nodup_cons.mp h
    obtain ⟨k, v⟩ := entry
    by_cases hk : k = key
    · subst hk
      have hother : (k, value) ∉ entries := by
        intro hmem
        exact hfresh (List.mem_map.mpr ⟨_, hmem, rfl⟩)
      simp [find, hother, eq_comm]
    · simp [find, hk, Ne.symm hk, ih hrest]

end SealedStore.Assoc
