/-
  Nodes that know the depth and the size of their value.

  The bounds of a node may be too large once an entry of a dictionary was replaced.  Where nothing
  is replaced they are exact: the operations make exact nodes of exact nodes.
-/
import SealedStore.Proofs.Pickle.Node
import SealedStore.Proofs.Value.WellFormed

namespace SealedStore.Pickle.Node

/-- The node of a value whose bounds are the depth and the size of the value. -/
def exact (v : Value) : Node := ⟨.ofValue v, v.level, v.nodes.length⟩

theorem value_exact (v : Value) : (exact v).value = v := Content.value_ofValue v

theorem leaf_eq_exact {v : Value} (h : v.members = []) : leaf v = exact v := by
  rw [leaf, exact, Value.level_eq, Value.length_nodes, h]
  rfl

/-! ## Exact nodes together -/

theorem values_exact (vs : List Value) : values (vs.map exact) = vs := by
  rw [values, List.map_map]
  exact (List.map_congr_left fun v _ => value_exact v).trans (List.map_id' vs)

theorem depthOver_exact (vs : List Value) : depthOver (vs.map exact) = Value.levelItems vs := by
  have h : ∀ k, depthOver (vs.map exact) ≤ k ↔ Value.levelItems vs ≤ k := by
    intro k
    rw [depthOver_le_iff, Value.levelItems_le_iff, List.forall_mem_map]
    exact Iff.rfl
  exact Nat.le_antisymm ((h _).mpr (Nat.le_refl _)) ((h _).mp (Nat.le_refl _))

theorem sizeOver_exact (vs : List Value) : sizeOver (vs.map exact) = Value.weight vs := by
  rw [sizeOver_eq, List.map_map]
  rfl

/-! ## Exact containers -/

/-- A tuple or a list of exact nodes is exact. -/
theorem sequence_exact {make : List Value → Value} {vs : List Value}
    (hmembers : (make vs).members = vs) (hlevel : (make vs).level ≤ maxDepth) :
    sequence make (vs.map exact) = .ok (exact (make vs)) := by
  rw [Value.level_eq, hmembers] at hlevel
  refine sequence_eq_ok_iff.mpr ⟨?_, by rwa [depthOver_exact]⟩
  rw [values_exact, depthOver_exact, sizeOver_exact, exact, Value.level_eq, Value.length_nodes,
    hmembers]

/-- What a container grows to is exact when its members are those of both. -/
theorem grown_exact {v w : Value} {vs : List Value} (h : w.members = v.members ++ vs) :
    (exact v).grown (.ofValue w) (vs.map exact) = exact w := by
  rw [grown, depthOver_exact, sizeOver_exact, exact, exact, Value.level_eq v, Value.level_eq w,
    Value.length_nodes, Value.length_nodes, h, Value.levelItems_append, Value.weight_append,
    Nat.add_assoc]

/-- A list that exact nodes are added to stays exact. -/
theorem append_exact {us vs : List Value} (hlevel : (Value.list (us ++ vs)).level ≤ maxDepth) :
    (exact (.list us)).append (vs.map exact) = .ok (exact (.list (us ++ vs))) := by
  refine append_eq_ok_iff.mpr ⟨us.reverse, rfl, ?_, hlevel⟩
  rw [values_exact, ← List.reverse_append]
  exact (grown_exact rfl).symm

/-- Entries under new keys make an exact dictionary, as nothing is replaced. -/
theorem setItems_exact {es fs : List (Value × Value)}
    (hkeys : (Value.dict fs).KeysHashable) (hapart : (Value.dict (es ++ fs)).KeysApart)
    (hlevel : (Value.dict (es ++ fs)).level ≤ maxDepth) :
    (exact (.dict es)).setItems ((Value.dict fs).members.map exact) =
      .ok (exact (.dict (es ++ fs))) := by
  refine setItems_eq_ok_iff.mpr ⟨es.reverse, (es ++ fs).reverse, rfl, ?_, ?_, ?_, hlevel⟩
  · rwa [values_exact, pairUp_members]
  · rw [List.reverse_reverse, List.reverse_reverse, values_exact, pairUp_members,
      Value.insertEach_of_keysApart hapart]
  · exact (grown_exact (Value.members_dict_append es fs)).symm

end SealedStore.Pickle.Node
