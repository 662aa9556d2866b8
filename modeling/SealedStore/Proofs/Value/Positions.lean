/-
  Where the values inside a value stand.

  `nodes` says which values lie in a value; a writer that goes through them also knows how many
  containers it has entered and whether it is at a key.  `positions` are the nodes with these two
  facts, in the same order (`map_value_positions`), so what such a writer does first can be told by
  a search through one list.

  The two counts of containers differ by an empty one: `depth` counts it and `level` does not,
  hence the bounds `level_le_depth` and `depth_le_level_succ`.
-/
import SealedStore.Proofs.Value.Members

namespace SealedStore.Value

/-- A value, the number of containers around it, and whether it is the key of an entry. -/
structure Position where
  value : Value
  depth : Nat
  isKey : Bool

mutual

/-- The positions inside a value that lies itself in `around` containers, in reading order. -/
def inside (around : Nat) : Value → List Position
  | tuple items => insideItems (around + 1) items
  | list items => insideItems (around + 1) items
  | dict entries => insideEntries (around + 1) entries
  | record _ fields => insideFields (around + 1) fields
  | _ => []

/-- The positions of values in order. -/
def insideItems (around : Nat) : List Value → List Position
  | [] => []
  | v :: vs => ⟨v, around, false⟩ :: inside around v ++ insideItems around vs

/-- The positions of keys and values in order. -/
def insideEntries (around : Nat) : List (Value × Value) → List Position
  | [] => []
  | (k, v) :: es =>
    ⟨k, around, true⟩ :: inside around k ++
      (⟨v, around, false⟩ :: inside around v ++ insideEntries around es)

/-- The positions of field values in order. -/
def insideFields (around : Nat) : List (String × Value) → List Position
  | [] => []
  | (_, v) :: fs => ⟨v, around, false⟩ :: inside around v ++ insideFields around fs

end

/-- The positions of a value and of all that lies in it, in reading order. -/
def positions (v : Value) : List Position := ⟨v, 0, false⟩ :: inside 0 v

/-! ## Positions and nodes -/

section
variable {around : Nat}

/-- The values at the positions in items are their nodes, if this holds of each. -/
theorem map_value_insideItems {items : List Value}
    (h : ∀ w ∈ items, w :: (inside around w).map Position.value = w.nodes) :
    (insideItems around items).map Position.value = items.flatMap nodes := by
  induction items with
  | nil => rfl
  | cons v vs ih =>
    have hv := h v List.mem_cons_self
    have hvs := ih fun w hw => h w (List.mem_cons_of_mem _ hw)
    rw [insideItems, List.map_append, List.map_cons, hvs, hv, List.flatMap_cons]

/-- The values at the positions in a dictionary are the nodes of its keys and values by turns. -/
theorem map_value_insideEntries {entries : List (Value × Value)}
    (h : ∀ w ∈ members (dict entries), w :: (inside around w).map Position.value = w.nodes) :
    (insideEntries around entries).map Position.value = (members (dict entries)).flatMap nodes := by
  induction entries with
  | nil => rfl
  | cons e es ih =>
    rw [members_dict_cons] at h ⊢
    have hkey := h e.1 List.mem_cons_self
    have hvalue := h e.2 (List.mem_cons_of_mem _ List.mem_cons_self)
    have hes := ih fun w hw => h w (List.mem_cons_of_mem _ (List.mem_cons_of_mem _ hw))
    rw [insideEntries, List.map_append, List.map_append, List.map_cons, List.map_cons, hes, hkey,
      hvalue, List.flatMap_cons, List.flatMap_cons]

/-- The values at the positions in fields are the nodes of their values. -/
theorem map_value_insideFields {fields : List (String × Value)}
    (h : ∀ w ∈ fields.map (·.2), w :: (inside around w).map Position.value = w.nodes) :
    (insideFields around fields).map Position.value = (fields.map (·.2)).flatMap nodes := by
  induction fields with
  | nil => rfl
  | cons f fs ih =>
    rw [List.map_cons] at h ⊢
    have hvalue := h f.2 List.mem_cons_self
    have hfs := ih fun w hw => h w (List.mem_cons_of_mem _ hw)
    rw [insideFields, List.map_append, List.map_cons, hfs, hvalue, List.flatMap_cons]

/-- The values at the positions in a value are its nodes behind itself, however deep it lies. -/
theorem map_value_inside (around : Nat) (v : Value) :
    v :: (inside around v).map Position.value = v.nodes := by
  induction v using byMembers generalizing around with
  | step v ih =>
    rw [nodes_eq]
    congr 1
    cases v with
    | tuple items => exact map_value_insideItems fun w hw => ih w hw _
    | list items => exact map_value_insideItems fun w hw => ih w hw _
    | dict entries => exact map_value_insideEntries fun w hw => ih w hw _
    | record cls fields => exact map_value_insideFields fun w hw => ih w hw _
    | _ => rfl

end

/-- **The values at the positions are the nodes**, in the same order. -/
theorem map_value_positions (v : Value) : v.positions.map Position.value = v.nodes :=
  map_value_inside 0 v

/-! ## Depth and level -/

theorem depthItems_le_iff {items : List Value} {n : Nat} :
    depthItems items ≤ n ↔ ∀ w ∈ items, w.depth ≤ n := by
  induction items with
  | nil => simp [depthItems]
  | cons v vs ih => rw [depthItems, Nat.max_le, ih, List.forall_mem_cons]

theorem depthEntries_eq (entries : List (Value × Value)) :
    depthEntries entries = depthItems (members (dict entries)) := by
  induction entries with
  | nil => rfl
  | cons e es ih =>
    rw [depthEntries, ih, members_dict_cons, depthItems, depthItems, Nat.max_assoc]

theorem depthFields_eq (fields : List (String × Value)) :
    depthFields fields = depthItems (fields.map (·.2)) := by
  induction fields with
  | nil => rfl
  | cons f fs ih => rw [depthFields, ih, List.map_cons, depthItems]

/-- A scalar has depth 0, and a container is one above its deepest member. -/
theorem depth_eq (v : Value) :
    v.depth = 1 + depthItems v.members ∨ v.depth = 0 ∧ v.members = [] := by
  cases v with
  | tuple items => exact .inl rfl
  | list items => exact .inl rfl
  | dict entries =>
    left
    rw [depth, depthEntries_eq]
  | record cls fields =>
    left
    rw [depth, depthFields_eq, members]
  | _ => exact .inr ⟨rfl, rfl⟩

/-- A member is less deep than what it lies in. -/
theorem depth_lt_of_mem_members {v w : Value} (h : w ∈ v.members) : w.depth < v.depth := by
  rcases depth_eq v with hdepth | ⟨-, hempty⟩
  · have hw : w.depth ≤ depthItems v.members := depthItems_le_iff.mp (Nat.le_refl _) w h
    omega
  · rw [hempty] at h
    nomatch h

theorem depth_le_succ {v : Value} {n : Nat} (h : ∀ w ∈ v.members, w.depth ≤ n) :
    v.depth ≤ n + 1 := by
  have hmembers : depthItems v.members ≤ n := depthItems_le_iff.mpr h
  rcases depth_eq v with hdepth | ⟨hdepth, -⟩ <;> omega

/-- An empty container counts in the depth and not in the level, so no level is greater than the
    depth, -/
theorem level_le_depth (v : Value) : v.level ≤ v.depth := by
  induction v using byMembers with
  | step v ih =>
    rw [level_le_iff]
    intro w hw
    exact Nat.lt_of_le_of_lt (ih w hw) (depth_lt_of_mem_members hw)

/-- and it is less by one at most. -/
theorem depth_le_level_succ (v : Value) : v.depth ≤ v.level + 1 := by
  induction v using byMembers with
  | step v ih =>
    refine depth_le_succ fun w hw => ?_
    have hlevel : w.level < v.level := level_le_iff.mp (Nat.le_refl _) w hw
    exact Nat.le_trans (ih w hw) hlevel

end SealedStore.Value
