/-
  Which values have a payload, and why the others have none.

  The writer goes through the positions of a value in reading order and stops at the first one where
  the value is not allowed (`errorOf_encodeAt`).  A value is refused for the containers around it
  and not for those that lie in it: a scalar inside 129 containers is too deep, an empty container
  inside 128 is not.
-/
import SealedStore.Proofs.Value.Positions
import SealedStore.Proofs.Codec.Writing

namespace SealedStore

namespace Value.Position

/-- The value at a position lies no deeper than allowed, and may be a key where it is one. -/
def Allowed (p : Position) : Prop :=
  p.depth ≤ maxDepth ∧ (p.isKey = true → p.value.isHashable = true)

instance (p : Position) : Decidable p.Allowed :=
  inferInstanceAs (Decidable (_ ∧ _))

/-- Why a value is refused at a position: that it may not be a key is seen before how deep it
    lies. -/
def refusal (p : Position) : Unwritable :=
  if p.isKey = true ∧ p.value.isHashable = false then .unhashableKey else .tooDeep

/-- What the writer fails with at a position. -/
def fault? (p : Position) : Option CodecError :=
  if p.Allowed then .none else .some (.unsupported p.value.kind p.refusal)

theorem fault?_eq_none_iff {p : Position} : p.fault? = .none ↔ p.Allowed := by
  unfold fault?
  split
  · next hp => exact ⟨fun _ => hp, fun _ => rfl⟩
  · next hp => exact ⟨nofun, fun h => absurd h hp⟩

theorem fault?_eq_some_iff {p : Position} {e : CodecError} :
    p.fault? = .some e ↔ ¬ p.Allowed ∧ e = .unsupported p.value.kind p.refusal := by
  rw [fault?, Option.ite_none_left_eq_some, Option.some.injEq, eq_comm]

end Value.Position

namespace Payload

open Value (Position)

/-! ## Errors in order -/

/-- The error of an outcome. -/
def errorOf {α : Type} : Except CodecError α → Option CodecError
  | .ok _ => none
  | .error e => some e

theorem errorOf_eq_some_iff {α : Type} {x : Except CodecError α} {e : CodecError} :
    errorOf x = some e ↔ x = .error e := by
  cases x <;> simp [errorOf]

theorem errorOf_after (front : Bytes) (x : Except CodecError Bytes) :
    errorOf (after front x) = errorOf x := by
  cases x <;> rfl

/-- Of two parts the first error is that of the first part, if it has one. -/
theorem errorOf_andThen (x y : Except CodecError Bytes) :
    errorOf (andThen x y) = (errorOf x).or (errorOf y) := by
  cases x with
  | error e => rfl
  | ok front => exact errorOf_after front y

/-! ## Members -/

/-- The first error at the positions of a value, which may itself be a key. -/
def firstFault (around : Nat) (isKey : Bool) (v : Value) : Option CodecError :=
  (⟨v, around, isKey⟩ :: v.inside around : List Position).findSome? Position.fault?

theorem firstFault_of_fault {around : Nat} {isKey : Bool} {v : Value} {e : CodecError}
    (h : Position.fault? ⟨v, around, isKey⟩ = some e) : firstFault around isKey v = some e := by
  rw [firstFault, List.findSome?_cons, h]

theorem firstFault_of_allowed {around : Nat} {isKey : Bool} {v : Value}
    (h : Position.Allowed ⟨v, around, isKey⟩) :
    firstFault around isKey v = (v.inside around).findSome? Position.fault? := by
  rw [firstFault, List.findSome?_cons, Position.fault?_eq_none_iff.mpr h]

/-- A value that may be a key is refused as a key for what it is refused for anywhere. -/
theorem firstFault_key_of_isHashable {around : Nat} {k : Value} (h : k.isHashable = true) :
    firstFault around true k = firstFault around false k := by
  have hposition : Position.fault? ⟨k, around, true⟩ = Position.fault? ⟨k, around, false⟩ := by
    simp [Position.fault?, Position.Allowed, Position.refusal, h]
  rw [firstFault, firstFault, List.findSome?_cons, List.findSome?_cons, hposition]

theorem firstFault_key_of_not_isHashable {around : Nat} {k : Value} (h : ¬ k.isHashable = true) :
    firstFault around true k = some (.unsupported k.kind .unhashableKey) := by
  refine firstFault_of_fault (Position.fault?_eq_some_iff.mpr ⟨fun hp => h (hp.2 rfl), ?_⟩)
  rw [Position.refusal, if_pos ⟨rfl, by simpa using h⟩]

section
variable {around : Nat}

/-- Items fail at the first position that is refused. -/
theorem errorOf_encodeItems {items : List Value}
    (h : ∀ w ∈ items, errorOf (encodeAt around w) = firstFault around false w) :
    errorOf (encodeItems around items) =
      (Value.insideItems around items).findSome? Position.fault? := by
  induction items with
  | nil => rfl
  | cons v vs ih =>
    have hv := h v List.mem_cons_self
    have hvs := ih fun w hw => h w (List.mem_cons_of_mem _ hw)
    rw [encodeItems, errorOf_andThen, hv, hvs, Value.insideItems, List.findSome?_append, firstFault]

/-- Entries fail at the first position that is refused.  The writer asks whether a key may be one
    before it writes it, which is the order of the faults of one position. -/
theorem errorOf_encodeEntries {entries : List (Value × Value)}
    (h : ∀ w ∈ Value.members (.dict entries),
      errorOf (encodeAt around w) = firstFault around false w) :
    errorOf (encodeEntries around entries) =
      (Value.insideEntries around entries).findSome? Position.fault? := by
  induction entries with
  | nil => rfl
  | cons e es ih =>
    rw [Value.members_dict_cons] at h
    have hkey := h e.1 List.mem_cons_self
    have hvalue := h e.2 (List.mem_cons_of_mem _ List.mem_cons_self)
    have hes := ih fun w hw => h w (List.mem_cons_of_mem _ (List.mem_cons_of_mem _ hw))
    rw [encodeEntries, Value.insideEntries, List.findSome?_append, List.findSome?_append,
      ← firstFault, ← firstFault]
    split
    · next hhashable =>
      rw [errorOf_andThen, errorOf_andThen, hkey, hvalue, hes,
        firstFault_key_of_isHashable hhashable]
    · next hhashable =>
      rw [firstFault_key_of_not_isHashable hhashable]
      rfl

/-- Fields fail at the first position that is refused; their names are written in any case. -/
theorem errorOf_encodeFields {fields : List (String × Value)}
    (h : ∀ w ∈ fields.map (·.2), errorOf (encodeAt around w) = firstFault around false w) :
    errorOf (encodeFields around fields) =
      (Value.insideFields around fields).findSome? Position.fault? := by
  induction fields with
  | nil => rfl
  | cons f fs ih =>
    rw [List.map_cons] at h
    have hvalue := h f.2 List.mem_cons_self
    have hfs := ih fun w hw => h w (List.mem_cons_of_mem _ hw)
    rw [encodeFields, errorOf_after, errorOf_andThen, hvalue, hfs, Value.insideFields,
      List.findSome?_append, firstFault]

end

/-! ## Values -/

/-- **The writer fails at the first position that it refuses**, and not elsewhere. -/
theorem errorOf_encodeAt (around : Nat) (v : Value) :
    errorOf (encodeAt around v) = firstFault around false v := by
  induction v using Value.byMembers generalizing around with
  | step v ih =>
    unfold encodeAt
    split
    · next hdeep =>
      have hrefused : ¬ Position.Allowed ⟨v, around, false⟩ := fun hp => Nat.not_le_of_lt hdeep hp.1
      rw [firstFault_of_fault (Position.fault?_eq_some_iff.mpr ⟨hrefused, rfl⟩)]
      rfl
    · next hroom =>
      have hallowed : Position.Allowed ⟨v, around, false⟩ :=
        ⟨Nat.le_of_not_lt hroom, fun h => absurd h Bool.false_ne_true⟩
      rw [firstFault_of_allowed hallowed]
      cases v with
      | bool b => cases b <;> rfl
      | tuple items =>
        rw [errorOf_after]
        exact errorOf_encodeItems fun w hw => ih w hw _
      | list items =>
        rw [errorOf_after]
        exact errorOf_encodeItems fun w hw => ih w hw _
      | dict entries =>
        rw [errorOf_after]
        exact errorOf_encodeEntries fun w hw => ih w hw _
      | record cls fields =>
        rw [errorOf_after]
        exact errorOf_encodeFields fun w hw => ih w hw _
      | _ => rfl

/-- A value is refused for the first of its positions where it is not allowed. -/
theorem encode_eq_error_iff {v : Value} {e : CodecError} :
    encode v = .error e ↔ ∃ before p behind, v.positions = before ++ p :: behind ∧
      (∀ q ∈ before, q.Allowed) ∧ ¬ p.Allowed ∧ e = .unsupported p.value.kind p.refusal := by
  have hfirst : errorOf (encode v) = v.positions.findSome? Position.fault? := errorOf_encodeAt 0 v
  rw [← errorOf_eq_some_iff, hfirst, List.findSome?_eq_some_iff]
  simp only [Position.fault?_eq_some_iff, Position.fault?_eq_none_iff]
  constructor
  · rintro ⟨before, p, behind, hpositions, ⟨hp, rfl⟩, hbefore⟩
    exact ⟨before, p, behind, hpositions, hbefore, hp, rfl⟩
  · rintro ⟨before, p, behind, hpositions, hbefore, hp, rfl⟩
    exact ⟨before, p, behind, hpositions, ⟨hp, rfl⟩, hbefore⟩

/-- **Which values have a payload.**  A value has one just when its level is at most the limit and
    all its dictionaries have keys that may be keys; so a value that is at most that deep has one,
    and none that is more than one deeper.  Any other value is refused with the kind of the first
    value in it, in reading order, that lies too deep or may not be the key that it is.  The
    positions that are gone through are those of all values in it, each once. -/
theorem encode_limits (v : Value) :
    v.positions.map Position.value = v.nodes ∧
    ((∃ b, encode v = .ok b) ↔ v.level ≤ maxDepth ∧ v.Everywhere Value.KeysHashable) ∧
    (v.Everywhere Value.KeysHashable →
      (v.depth ≤ maxDepth → ∃ b, encode v = .ok b) ∧
      ((∃ b, encode v = .ok b) → v.depth ≤ maxDepth + 1)) ∧
    ∀ e, encode v = .error e ↔ ∃ before p behind, v.positions = before ++ p :: behind ∧
      (∀ q ∈ before, q.Allowed) ∧ ¬ p.Allowed ∧ e = .unsupported p.value.kind p.refusal := by
  have hok : (∃ b, encode v = .ok b) ↔
      v.level ≤ maxDepth ∧ v.Everywhere Value.KeysHashable := by
    have h : (∃ b, encodeAt 0 v = .ok b) ↔
        0 + v.level ≤ maxDepth ∧ v.Everywhere Value.KeysHashable := exists_encodeAt_iff
    rwa [Nat.zero_add] at h
  refine ⟨v.map_value_positions, hok, fun hkeys => ⟨fun hdepth => ?_, fun hwritten => ?_⟩,
    fun e => encode_eq_error_iff⟩
  · have hlevel : v.level ≤ maxDepth := Nat.le_trans v.level_le_depth hdepth
    exact hok.mpr ⟨hlevel, hkeys⟩
  · have hlevel : v.level ≤ maxDepth := (hok.mp hwritten).1
    exact Nat.le_trans v.depth_le_level_succ (Nat.succ_le_succ hlevel)

/-- A value inside a number of lists. -/
def enclosed (v : Value) : Nat → Value
  | 0 => v
  | n + 1 => .list [enclosed v n]

theorem level_enclosed (v : Value) (n : Nat) : (enclosed v n).level = v.level + n := by
  induction n with
  | zero => rfl
  | succ n ih =>
    rw [enclosed, Value.level, Value.levelItems, Value.levelItems, ih, Nat.max_zero, Nat.add_assoc]

theorem depth_enclosed (v : Value) (n : Nat) : (enclosed v n).depth = v.depth + n := by
  induction n with
  | zero => rfl
  | succ n ih =>
    rw [enclosed, Value.depth, Value.depthItems, Value.depthItems, ih, Nat.max_zero, Nat.add_comm,
      Nat.add_assoc]

theorem keysHashable_enclosed {v : Value} (h : v.Everywhere Value.KeysHashable) (n : Nat) :
    (enclosed v n).Everywhere Value.KeysHashable := by
  induction n with
  | zero => exact h
  | succ n ih => exact Value.everywhere_iff.mpr ⟨trivial, List.forall_mem_singleton.mpr ih⟩

/-- An empty list is written inside 128 lists, where it lies 129 deep, and a scalar is not inside
    129; a list that is a key is refused, though a scalar comes before it. -/
theorem encode_at_limit :
    (∃ b, encode (enclosed (.list []) 128) = .ok b) ∧ (enclosed (.list []) 128).depth = 129 ∧
    (¬ ∃ b, encode (enclosed .none 129) = .ok b) ∧ (enclosed .none 129).depth = 129 ∧
    encode (.tuple [.int 1, .dict [(.list [], .none)]]) =
      .error (.unsupported .list .unhashableKey) := by
  refine ⟨(encode_limits _).2.1.mpr ⟨?_, keysHashable_enclosed (by decide) _⟩, depth_enclosed _ _,
    fun h => ?_, depth_enclosed _ _, ((encode_limits _).2.2.2 _).mpr ?_⟩
  · rw [level_enclosed]
    decide
  · have hlevel := ((encode_limits _).2.1.mp h).1
    rw [level_enclosed] at hlevel
    exact absurd hlevel (by decide)
  · exact ⟨[⟨_, 0, false⟩, ⟨_, 1, false⟩, ⟨_, 1, false⟩], ⟨_, 2, true⟩, _, rfl, by decide,
      by decide, rfl⟩

end Payload
end SealedStore
