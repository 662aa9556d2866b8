/-
  What the operations on nodes make.

  Each operation is described once: what it asks of a node, and the content and the bounds of what
  it makes.  The entries that `setItems` makes are those of one insertion after another
  (`enterAll_eq_ok_iff`), though they are kept last first and most are just put in front.
-/
import SealedStore.Pickle.Node
import SealedStore.Proofs.Codec.Reader
import SealedStore.Proofs.Value.Insert

namespace SealedStore.Pickle.Node

/-! ## Bounds over several nodes -/

/-- A container is at most so deep when all that it is made of is less deep. -/
theorem depthOver_le_iff {nodes : List Node} {k : Nat} :
    depthOver nodes ≤ k ↔ ∀ n ∈ nodes, n.depth < k := by
  suffices h : ∀ d, nodes.foldl (fun d n => max d (n.depth + 1)) d ≤ k ↔
      d ≤ k ∧ ∀ n ∈ nodes, n.depth < k by
    rw [depthOver, h, and_iff_right (Nat.zero_le k)]
  intro d
  induction nodes generalizing d with
  | nil => simp
  | cons n nodes ih =>
    rw [List.foldl_cons, ih, Nat.max_le, List.forall_mem_cons, Nat.succ_le_iff, and_assoc]

theorem depth_lt_depthOver {nodes : List Node} {n : Node} (h : n ∈ nodes) :
    n.depth < depthOver nodes :=
  depthOver_le_iff.mp (Nat.le_refl _) n h

theorem sizeOver_eq (nodes : List Node) : sizeOver nodes = (nodes.map (·.size)).sum := by
  suffices h : ∀ s, nodes.foldl (fun s n => s + n.size) s = s + (nodes.map (·.size)).sum by
    rw [sizeOver, h, Nat.zero_add]
  intro s
  induction nodes generalizing s with
  | nil => rfl
  | cons n nodes ih => rw [List.foldl_cons, ih, List.map_cons, List.sum_cons, Nat.add_assoc]

theorem sizeOver_nil : sizeOver [] = 0 := rfl

theorem sizeOver_cons (n : Node) (nodes : List Node) :
    sizeOver (n :: nodes) = n.size + sizeOver nodes := by
  rw [sizeOver_eq, sizeOver_eq, List.map_cons, List.sum_cons]

/-- A node is given when it is not too deep. -/
theorem checked_eq_ok_iff {n n' : Node} :
    checked n = .ok n' ↔ n' = n ∧ n.depth ≤ maxDepth := by
  unfold checked
  constructor
  · intro h
    split at h
    · nomatch h
    · next hle => exact ⟨(Except.ok.inj h).symm, Nat.not_lt.mp hle⟩
  · rintro ⟨rfl, hle⟩
    exact if_neg (Nat.not_lt.mpr hle)

/-! ## Containers -/

/-- A tuple or a list has its items as members, is one deeper than the deepest and one greater than
    all. -/
theorem sequence_eq_ok_iff {make : List Value → Value} {items : List Node} {n : Node} :
    sequence make items = .ok n ↔
      n = ⟨.ofValue (make (values items)), depthOver items, 1 + sizeOver items⟩ ∧
        depthOver items ≤ maxDepth :=
  checked_eq_ok_iff

/-- Items are added to a list, behind its own, while it is not too deep. -/
theorem append_eq_ok_iff {n n' : Node} {items : List Node} :
    n.append items = .ok n' ↔ ∃ reversed, n.content = .list reversed ∧
      n' = n.grown (.list ((values items).reverse ++ reversed)) items ∧
        n'.depth ≤ maxDepth := by
  unfold append
  constructor
  · intro h
    split at h
    · next reversed hlist =>
      obtain ⟨rfl, hdepth⟩ := checked_eq_ok_iff.mp h
      exact ⟨reversed, hlist, rfl, hdepth⟩
    · nomatch h
  · rintro ⟨reversed, hlist, rfl, hdepth⟩
    simp only [hlist]
    exact checked_eq_ok_iff.mpr ⟨rfl, hdepth⟩

/-- Values that come by turns, as keys and values. -/
def pairUp : List Value → List (Value × Value)
  | k :: v :: rest => (k, v) :: pairUp rest
  | _ => []

/-- Values that are paired up come from among those there were. -/
theorem mem_members_pairUp {vs : List Value} {w : Value}
    (h : w ∈ (Value.dict (pairUp vs)).members) : w ∈ vs := by
  fun_induction pairUp vs with
  | case1 k v rest ih =>
    obtain ⟨e, he, hw⟩ := Value.mem_members_dict.mp h
    rcases List.mem_cons.mp he with rfl | he
    · rcases hw with rfl | rfl
      · exact List.mem_cons_self
      · exact List.mem_cons_of_mem _ List.mem_cons_self
    · exact List.mem_cons_of_mem _ (List.mem_cons_of_mem _
        (ih (Value.mem_members_dict.mpr ⟨e, he, hw⟩)))
  | case2 => nomatch h

/-- Pairing up brings in no values; a key without a value is left out. -/
theorem weight_pairUp_le (vs : List Value) :
    Value.weight (Value.dict (pairUp vs)).members ≤ Value.weight vs := by
  fun_induction pairUp vs with
  | case1 k v rest ih =>
    rw [Value.weight_members_cons]
    show _ ≤ Value.weight ([k, v] ++ rest)
    rw [Value.weight_append]
    show _ ≤ (k.nodes.length + (v.nodes.length + 0)) + _
    omega
  | case2 => exact Nat.zero_le _

/-- Keys and values of a dictionary by turns are its entries. -/
theorem pairUp_members (entries : List (Value × Value)) :
    pairUp (Value.dict entries).members = entries := by
  induction entries with
  | nil => rfl
  | cons e entries ih =>
    show pairUp (e.1 :: e.2 :: (Value.dict entries).members) = _
    rw [pairUp, ih]

/-- Values that are not a key too many are all paired up. -/
theorem members_pairUp {vs : List Value} (h : vs.length % 2 ≠ 1) :
    (Value.dict (pairUp vs)).members = vs := by
  induction vs using pairUp.induct with
  | case1 k v rest ih =>
    have hrest : rest.length % 2 ≠ 1 := by
      rw [List.length_cons, List.length_cons] at h
      omega
    rw [pairUp, Value.members_dict_cons, ih hrest]
  | case2 vs hshort =>
    match vs, hshort, h with
    | [], _, _ => rfl
    | [v], _, h => exact absurd rfl h
    | k :: v :: rest, hshort, _ => exact (hshort k v rest rfl).elim

/-- Entries and what comes behind them are paired up apart. -/
theorem pairUp_members_append (entries : List (Value × Value)) (ws : List Value) :
    pairUp ((Value.dict entries).members ++ ws) = entries ++ pairUp ws := by
  induction entries with
  | nil => rfl
  | cons e entries ih =>
    show pairUp (e.1 :: e.2 :: ((Value.dict entries).members ++ ws)) = _
    rw [pairUp, ih, List.cons_append]

/-- **Entering keys and values** is inserting them one after the other, if all keys may be keys. -/
theorem enterAll_eq_ok_iff {items : List Node} {reversed reversed' : List (Value × Value)} :
    enterAll reversed items = .ok reversed' ↔
      (Value.dict (pairUp (values items))).KeysHashable ∧
        reversed'.reverse = Value.insertEach reversed.reverse (pairUp (values items)) := by
  fun_induction enterAll reversed items with
  | case1 reversed key value rest hkey ih =>
    rw [ih, reverse_enter]
    show _ ∧ _ ↔ (Value.dict ((key.value, value.value) :: pairUp (values rest))).KeysHashable ∧ _
    rw [Value.KeysHashable, Value.KeysHashable, List.forall_mem_cons, and_iff_right hkey]
    exact Iff.rfl
  | case2 reversed key value rest hkey =>
    constructor
    · intro h; nomatch h
    · rintro ⟨hkeys, -⟩
      exact absurd (hkeys (key.value, value.value) List.mem_cons_self) hkey
  | case3 items reversed hshort =>
    have hnil : pairUp (values items) = [] := by
      match items, hshort with
      | [], _ => rfl
      | [n], _ => rfl
      | key :: value :: rest, hshort => exact (hshort key value rest rfl).elim
    rw [hnil]
    constructor
    · intro h
      obtain rfl := Except.ok.inj h
      exact ⟨fun e he => (nomatch he), rfl⟩
    · rintro ⟨-, h⟩
      rw [List.reverse_inj.mp h]

/-- Keys and values are inserted into a dictionary one after the other, when all keys may be keys
    and it is not too deep then. -/
theorem setItems_eq_ok_iff {n n' : Node} {items : List Node} :
    n.setItems items = .ok n' ↔ ∃ reversed reversed', n.content = .dict reversed ∧
      (Value.dict (pairUp (values items))).KeysHashable ∧
        reversed'.reverse = Value.insertEach reversed.reverse (pairUp (values items)) ∧
          n' = n.grown (.dict reversed') items ∧ n'.depth ≤ maxDepth := by
  unfold setItems
  constructor
  · intro h
    split at h
    · next reversed hdict =>
      obtain ⟨reversed', henter, h⟩ := except_bind_eq_ok.mp h
      obtain ⟨hkeys, heq⟩ := enterAll_eq_ok_iff.mp henter
      obtain ⟨rfl, hdepth⟩ := checked_eq_ok_iff.mp h
      exact ⟨reversed, reversed', hdict, hkeys, heq, rfl, hdepth⟩
    · nomatch h
  · rintro ⟨reversed, reversed', hdict, hkeys, heq, rfl, hdepth⟩
    simp only [hdict]
    exact except_bind_eq_ok.mpr
      ⟨reversed', enterAll_eq_ok_iff.mpr ⟨hkeys, heq⟩, checked_eq_ok_iff.mpr ⟨rfl, hdepth⟩⟩

/-- Keys and values make pairs unless their number is odd. -/
theorem requirePairs_eq_ok_iff {items : List Node} {u : Unit} :
    requirePairs items = .ok u ↔ items.length % 2 ≠ 1 := by
  unfold requirePairs
  split
  · next hodd => exact ⟨fun h => (nomatch h), fun h => absurd hodd h⟩
  · next heven => exact ⟨fun _ => heven, fun _ => rfl⟩

theorem dictOf_eq_ok_iff {items : List Node} {n : Node} :
    dictOf items = .ok n ↔ items.length % 2 ≠ 1 ∧ (leaf (.dict [])).setItems items = .ok n := by
  unfold dictOf
  rw [except_bind_eq_ok]
  constructor
  · rintro ⟨u, hpairs, h⟩
    exact ⟨requirePairs_eq_ok_iff.mp hpairs, h⟩
  · rintro ⟨heven, h⟩
    exact ⟨(), requirePairs_eq_ok_iff.mpr heven, h⟩

end SealedStore.Pickle.Node
