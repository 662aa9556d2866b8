/-
  The inside of a value: its members, all its nodes, and how deep they lie.

  `members` are the values directly inside a container, in reading order, whatever its kind; so
  what holds of all kinds of container is said and proved once.  `nodes` are a value and all
  that lies in it, `level` is how many containers lie around its innermost member, and
  `Everywhere P` says that `P` holds of every node.  Each of the three has one equation in terms
  of `members`, and `byMembers` is the induction that goes with them.
-/
import Mathlib.Algebra.Order.Ring.Int
import SealedStore.Value.Build

namespace SealedStore.Value

/-- The values directly inside a container: keys and values of a dictionary come by turns. -/
def members : Value → List Value
  | tuple items => items
  | list items => items
  | dict entries => entries.flatMap fun e => [e.1, e.2]
  | record _ fields => fields.map (·.2)
  | _ => []

theorem mem_members_dict {entries : List (Value × Value)} {w : Value} :
    w ∈ members (dict entries) ↔ ∃ e ∈ entries, w = e.1 ∨ w = e.2 := by
  simp [members, List.mem_flatMap]

theorem mem_members_record {cls : String} {fields : List (String × Value)} {w : Value} :
    w ∈ members (record cls fields) ↔ ∃ f ∈ fields, f.2 = w := by
  rw [members, List.mem_map]

theorem members_dict_cons (e : Value × Value) (es : List (Value × Value)) :
    members (dict (e :: es)) = e.1 :: e.2 :: members (dict es) := rfl

theorem length_members_dict (entries : List (Value × Value)) :
    (members (dict entries)).length = 2 * entries.length := by
  induction entries with
  | nil => rfl
  | cons e entries ih =>
    rw [members_dict_cons, List.length_cons, List.length_cons, ih, List.length_cons, Nat.mul_succ]

theorem members_dict_append (es fs : List (Value × Value)) :
    members (dict (es ++ fs)) = members (dict es) ++ members (dict fs) :=
  List.flatMap_append

/-! ## Induction on members -/

/-- A member is smaller than the value that it lies in, on which inductions over members rest. -/
theorem sizeOf_lt_of_mem_members {v w : Value} (h : w ∈ v.members) : sizeOf w < sizeOf v := by
  cases v with
  | tuple items =>
    have := List.sizeOf_lt_of_mem (show w ∈ items from h)
    simp only [tuple.sizeOf_spec]
    omega
  | list items =>
    have := List.sizeOf_lt_of_mem (show w ∈ items from h)
    simp only [list.sizeOf_spec]
    omega
  | dict entries =>
    obtain ⟨⟨k, x⟩, he, hw⟩ := mem_members_dict.mp h
    have hlt := List.sizeOf_lt_of_mem he
    simp only [dict.sizeOf_spec, Prod.mk.sizeOf_spec] at hlt ⊢
    rcases hw with rfl | rfl <;> omega
  | record cls fields =>
    obtain ⟨⟨name, x⟩, hf, rfl⟩ := mem_members_record.mp h
    have hlt := List.sizeOf_lt_of_mem hf
    simp only [record.sizeOf_spec, Prod.mk.sizeOf_spec] at hlt ⊢
    omega
  | _ => nomatch h

/-- **Induction on members.**  What holds of a value when it holds of its members holds of every
    value. -/
theorem byMembers {P : Value → Prop} (step : ∀ v, (∀ w ∈ v.members, P w) → P v) (v : Value) :
    P v :=
  step v fun w _ => byMembers step w
termination_by sizeOf v
decreasing_by exact sizeOf_lt_of_mem_members ‹_›

/-! ## Nodes -/

mutual

/-- A value and all that lies in it, in reading order. -/
def nodes : Value → List Value
  | tuple items => tuple items :: nodesItems items
  | list items => list items :: nodesItems items
  | dict entries => dict entries :: nodesEntries entries
  | record cls fields => record cls fields :: nodesFields fields
  | v => [v]

/-- The nodes of values in order. -/
def nodesItems : List Value → List Value
  | [] => []
  | v :: vs => nodes v ++ nodesItems vs

/-- The nodes of keys and values in order. -/
def nodesEntries : List (Value × Value) → List Value
  | [] => []
  | (k, v) :: es => nodes k ++ (nodes v ++ nodesEntries es)

/-- The nodes of field values in order. -/
def nodesFields : List (String × Value) → List Value
  | [] => []
  | (_, v) :: fs => nodes v ++ nodesFields fs

end

theorem nodesItems_eq (items : List Value) : nodesItems items = items.flatMap nodes := by
  induction items with
  | nil => rfl
  | cons v vs ih => rw [nodesItems, ih, List.flatMap_cons]

theorem nodesEntries_eq (entries : List (Value × Value)) :
    nodesEntries entries = (members (dict entries)).flatMap nodes := by
  induction entries with
  | nil => rfl
  | cons e es ih =>
    rw [nodesEntries, ih, members_dict_cons, List.flatMap_cons, List.flatMap_cons]

theorem nodesFields_eq (fields : List (String × Value)) :
    nodesFields fields = (fields.map (·.2)).flatMap nodes := by
  induction fields with
  | nil => rfl
  | cons f fs ih => rw [nodesFields, ih, List.map_cons, List.flatMap_cons]

/-- A value comes first among its nodes, then come those of its members. -/
theorem nodes_eq (v : Value) : v.nodes = v :: v.members.flatMap nodes := by
  cases v with
  | tuple items => rw [nodes, nodesItems_eq, members]
  | list items => rw [nodes, nodesItems_eq, members]
  | dict entries => rw [nodes, nodesEntries_eq]
  | record cls fields => rw [nodes, nodesFields_eq, members]
  | _ => rfl

theorem mem_nodes_self (v : Value) : v ∈ v.nodes := by
  rw [nodes_eq]
  exact List.mem_cons_self

/-- How many values lie in a list of values, themselves included. -/
def weight (vs : List Value) : Nat := (vs.map fun v => v.nodes.length).sum

theorem length_nodes (v : Value) : v.nodes.length = 1 + weight v.members := by
  rw [nodes_eq, List.length_cons, List.length_flatMap, weight, Nat.add_comm]

theorem weight_append (vs ws : List Value) : weight (vs ++ ws) = weight vs + weight ws := by
  rw [weight, List.map_append, List.sum_append, weight, weight]

theorem weight_flatMap {α : Type} (f : α → List Value) (xs : List α) :
    weight (xs.flatMap f) = (xs.map fun x => weight (f x)).sum := by
  induction xs with
  | nil => rfl
  | cons x xs ih => rw [List.flatMap_cons, weight_append, ih, List.map_cons, List.sum_cons]

theorem length_nodes_pos (v : Value) : 0 < v.nodes.length := by
  rw [length_nodes]
  omega

/-- There are no more members than values in them. -/
theorem length_le_weight (vs : List Value) : vs.length ≤ weight vs := by
  induction vs with
  | nil => exact Nat.le_refl 0
  | cons v vs ih =>
    have := v.length_nodes_pos
    rw [List.length_cons, weight, List.map_cons, List.sum_cons, ← weight]
    omega

theorem length_nodes_le_weight {w : Value} {vs : List Value} (h : w ∈ vs) :
    w.nodes.length ≤ weight vs := by
  obtain ⟨before, behind, rfl⟩ := List.append_of_mem h
  rw [weight_append, weight, weight, List.map_cons, List.sum_cons]
  omega

/-! ## Levels -/

mutual

/-- How deep a value is nested: a scalar and an empty container have level 0, and any other
    container is one above its deepest member. -/
def level : Value → Nat
  | tuple items => levelItems items
  | list items => levelItems items
  | dict entries => levelEntries entries
  | record _ fields => levelFields fields
  | _ => 0

/-- The level of a container of values. -/
def levelItems : List Value → Nat
  | [] => 0
  | v :: vs => max (level v + 1) (levelItems vs)

/-- The level of a dictionary. -/
def levelEntries : List (Value × Value) → Nat
  | [] => 0
  | (k, v) :: es => max (max (level k + 1) (level v + 1)) (levelEntries es)

/-- The level of a record. -/
def levelFields : List (String × Value) → Nat
  | [] => 0
  | (_, v) :: fs => max (level v + 1) (levelFields fs)

end

/-- A container around the items has at most level `n` when each of them is lower. -/
theorem levelItems_le_iff {items : List Value} {n : Nat} :
    levelItems items ≤ n ↔ ∀ w ∈ items, level w < n := by
  induction items with
  | nil => simp [levelItems]
  | cons v vs ih => rw [levelItems, Nat.max_le, ih, List.forall_mem_cons, Nat.succ_le_iff]

theorem levelItems_append (vs ws : List Value) :
    levelItems (vs ++ ws) = max (levelItems vs) (levelItems ws) := by
  induction vs with
  | nil => exact (Nat.zero_max _).symm
  | cons v vs ih => rw [List.cons_append, levelItems, levelItems, ih, Nat.max_assoc]

theorem levelEntries_eq (entries : List (Value × Value)) :
    levelEntries entries = levelItems (members (dict entries)) := by
  induction entries with
  | nil => rfl
  | cons e es ih =>
    rw [levelEntries, ih, members_dict_cons, levelItems, levelItems, Nat.max_assoc]

theorem levelFields_eq (fields : List (String × Value)) :
    levelFields fields = levelItems (fields.map (·.2)) := by
  induction fields with
  | nil => rfl
  | cons f fs ih => rw [levelFields, ih, List.map_cons, levelItems]

/-- The level of a value is that of a container around its members. -/
theorem level_eq (v : Value) : v.level = levelItems v.members := by
  cases v with
  | tuple items => rfl
  | list items => rfl
  | dict entries => exact levelEntries_eq entries
  | record cls fields => exact levelFields_eq fields
  | _ => rfl

/-- A value is above all its members, and no higher than it must be for that. -/
theorem level_le_iff {v : Value} {n : Nat} : v.level ≤ n ↔ ∀ w ∈ v.members, w.level < n := by
  rw [level_eq, levelItems_le_iff]

theorem level_mono {v w : Value} (h : ∀ x ∈ v.members, x ∈ w.members) : v.level ≤ w.level :=
  level_le_iff.mpr fun x hx => level_le_iff.mp (Nat.le_refl _) x (h x hx)

/-! ## What holds of every node -/

/-- `P` holds of a value and of all that lies in it. -/
def Everywhere (P : Value → Prop) (v : Value) : Prop := ∀ w ∈ v.nodes, P w

instance {P : Value → Prop} [DecidablePred P] (v : Value) : Decidable (v.Everywhere P) :=
  inferInstanceAs (Decidable (∀ w ∈ v.nodes, P w))

/-- What holds everywhere in a value holds of it and everywhere in its members. -/
theorem everywhere_iff {P : Value → Prop} {v : Value} :
    v.Everywhere P ↔ P v ∧ ∀ w ∈ v.members, w.Everywhere P := by
  unfold Everywhere
  rw [nodes_eq, List.forall_mem_cons]
  refine and_congr_right fun _ => ⟨fun h w hw x hx => ?_, fun h x hx => ?_⟩
  · exact h x (List.mem_flatMap.mpr ⟨w, hw, hx⟩)
  · obtain ⟨w, hw, hx⟩ := List.mem_flatMap.mp hx
    exact h w hw x hx

theorem Everywhere.self {P : Value → Prop} {v : Value} (h : v.Everywhere P) : P v :=
  h v (mem_nodes_self v)

theorem Everywhere.member {P : Value → Prop} {v w : Value} (h : v.Everywhere P)
    (hw : w ∈ v.members) : w.Everywhere P :=
  (everywhere_iff.mp h).2 w hw

theorem Everywhere.imp {P Q : Value → Prop} (h : ∀ w, P w → Q w) {v : Value}
    (hv : v.Everywhere P) : v.Everywhere Q := fun w hw => h w (hv w hw)

/-! ## Identity -/

/-- Items are the same, one by one, just when they are equal, if this holds of each. -/
theorem sameItems_iff {xs : List Value} (h : ∀ x ∈ xs, ∀ y, sameAs x y = true ↔ x = y)
    (ys : List Value) : sameItems xs ys = true ↔ xs = ys := by
  induction xs generalizing ys with
  | nil => cases ys <;> simp [sameItems]
  | cons x xs ih =>
    cases ys with
    | nil => simp [sameItems]
    | cons y ys =>
      rw [sameItems, Bool.and_eq_true, h x List.mem_cons_self,
        ih (fun z hz => h z (List.mem_cons_of_mem _ hz)), List.cons.injEq]

/-- Entries are the same, one by one, just when they are equal, if this holds of their members. -/
theorem sameEntries_iff {xs : List (Value × Value)}
    (h : ∀ x ∈ members (dict xs), ∀ y, sameAs x y = true ↔ x = y) (ys : List (Value × Value)) :
    sameEntries xs ys = true ↔ xs = ys := by
  induction xs generalizing ys with
  | nil => cases ys <;> simp [sameEntries]
  | cons x xs ih =>
    cases ys with
    | nil => simp [sameEntries]
    | cons y ys =>
      have hkey := h x.1 (mem_members_dict.mpr ⟨x, List.mem_cons_self, .inl rfl⟩) y.1
      have hvalue := h x.2 (mem_members_dict.mpr ⟨x, List.mem_cons_self, .inr rfl⟩) y.2
      have htail : ∀ z ∈ members (dict xs), ∀ y, sameAs z y = true ↔ z = y := by
        intro z hz
        obtain ⟨e, he, hz⟩ := mem_members_dict.mp hz
        exact h z (mem_members_dict.mpr ⟨e, List.mem_cons_of_mem _ he, hz⟩)
      rw [sameEntries, Bool.and_eq_true, Bool.and_eq_true, hkey, hvalue, ih htail, List.cons.injEq,
        Prod.ext_iff]

/-- Fields are the same, one by one, just when they are equal, if this holds of their values. -/
theorem sameFields_iff {xs : List (String × Value)}
    (h : ∀ x ∈ xs.map (·.2), ∀ y, sameAs x y = true ↔ x = y) (ys : List (String × Value)) :
    sameFields xs ys = true ↔ xs = ys := by
  induction xs generalizing ys with
  | nil => cases ys <;> simp [sameFields]
  | cons x xs ih =>
    cases ys with
    | nil => simp [sameFields]
    | cons y ys =>
      rw [List.map_cons] at h
      have hvalue := h x.2 List.mem_cons_self y.2
      rw [sameFields, Bool.and_eq_true, Bool.and_eq_true, beq_iff_eq, hvalue,
        ih (fun z hz => h z (List.mem_cons_of_mem _ hz)), List.cons.injEq, Prod.ext_iff]

/-- **`sameAs` is equality of values**, floats being their bits. -/
theorem sameAs_iff_eq (x y : Value) : sameAs x y = true ↔ x = y := by
  induction x using byMembers generalizing y with
  | step x ih =>
    cases x with
    | tuple xs =>
      cases y with
      | tuple ys => rw [sameAs, sameItems_iff (show ∀ x ∈ xs, _ from ih), tuple.injEq]
      | _ => simp [sameAs]
    | list xs =>
      cases y with
      | list ys => rw [sameAs, sameItems_iff (show ∀ x ∈ xs, _ from ih), list.injEq]
      | _ => simp [sameAs]
    | dict xs =>
      cases y with
      | dict ys => rw [sameAs, sameEntries_iff ih, dict.injEq]
      | _ => simp [sameAs]
    | record c xs =>
      cases y with
      | record d ys =>
        rw [sameAs, Bool.and_eq_true, beq_iff_eq, sameFields_iff ih, record.injEq]
      | _ => simp [sameAs]
    | _ => cases y <;> simp [sameAs]

end SealedStore.Value
