/-
  What the reader of payloads does not read is corrupt.

  Every reader leaves the end of its input where it is, and its faults lie before that end
  (`KeepsEnd`).  So `decode` either gives a value or finds corruption at an offset within its
  bytes: it has no other way to fail.
-/
import SealedStore.Proofs.Codec.Reader

namespace SealedStore.Payload

open Reader

/-- A varint is taken off the front, or the fault lies where it should begin. -/
theorem keepsEnd_varint : KeepsEnd varint := by
  rintro ⟨pos, rest⟩
  unfold varint
  cases hdecode : Varint.decode rest with
  | error e =>
    exact ends_corrupt (pos_le_endPos _) _
  | ok found =>
    obtain ⟨n, k⟩ := found
    obtain ⟨front, back, rfl, rfl, -⟩ := Varint.decode_eq_ok_iff.mp hdecode
    show pos + front.length + ((front ++ back).drop front.length).length =
      pos + (front ++ back).length
    rw [List.drop_left, List.length_append, Nat.add_assoc]

/-- A count that the remaining bytes cannot satisfy is a fault where it begins. -/
theorem keepsEnd_count (least : Nat) : KeepsEnd (count least) := by
  intro i
  refine (keepsEnd_varint i).bind fun n j hj => ?_
  dsimp only
  split
  · exact hj
  · exact ends_corrupt (pos_le_endPos i) _

theorem keepsEnd_sizedBytes : KeepsEnd sizedBytes := fun i =>
  (keepsEnd_varint i).bind fun n _ hj => (keepsEnd_take n).ends hj

theorem keepsEnd_text : KeepsEnd text := by
  intro i
  refine (keepsEnd_sizedBytes i).bind fun raw j hj => ?_
  dsimp only [utf8]
  cases Utf8.decode raw with
  | error e => exact ends_corrupt (pos_le_endPos i) _
  | ok s => exact hj

theorem keepsEnd_times {α : Type} {read : Reader α} (h : KeepsEnd read) (n : Nat) :
    KeepsEnd (times read n) := by
  induction n with
  | zero => intro i; rfl
  | succ n ih =>
    intro i
    exact (h i).bind fun x j hj => (ih.ends hj).bind fun xs k hk => hk

section
variable {member : Reader Value} (h : KeepsEnd member)
include h

theorem keepsEnd_entry : KeepsEnd (entry member) := by
  intro i
  refine (h i).bind fun k j hj => ?_
  dsimp only
  split
  · exact (h.ends hj).bind fun v k hk => hk
  · exact ends_corrupt (pos_le_endPos i) _

/-- Fields are read within the input, and a name that is not allowed or was there before is a fault
    where it begins. -/
theorem keepsEnd_fields (n : Nat) (before : List (String × Value)) :
    KeepsEnd (fields member n before) := by
  induction n generalizing before with
  | zero => intro i; rfl
  | succ n ih =>
    intro i
    refine (keepsEnd_text i).bind fun name j hj => ?_
    dsimp only
    split
    · exact ends_corrupt (pos_le_endPos i) _
    · refine (h.ends hj).bind fun v k hk => ?_
      dsimp only
      split
      · exact (ih _).ends hk
      · exact ends_corrupt (pos_le_endPos i) _

/-- An unknown tag is a fault where the tag lies. -/
theorem ends_content {pos n : Nat} (hpos : pos ≤ n) (t : UInt8) {i : Input} (hi : i.endPos = n) :
    Ends n (content member pos t i) := by
  unfold content
  split
  · exact hi
  · exact hi
  · exact hi
  · exact (keepsEnd_varint.ends hi).bind fun z j hj => hj
  · exact ((keepsEnd_take 8).ends hi).bind fun raw j hj => hj
  · exact (keepsEnd_text.ends hi).bind fun s j hj => hj
  · exact (keepsEnd_sizedBytes.ends hi).bind fun b j hj => hj
  · exact ((keepsEnd_count 1).ends hi).bind fun n j hj =>
      ((keepsEnd_times h n).ends hj).bind fun items k hk => hk
  · exact ((keepsEnd_count 1).ends hi).bind fun n j hj =>
      ((keepsEnd_times h n).ends hj).bind fun items k hk => hk
  · exact ((keepsEnd_count 2).ends hi).bind fun n j hj =>
      ((keepsEnd_times (keepsEnd_entry h) n).ends hj).bind fun entries k hk => hk
  · exact (keepsEnd_text.ends hi).bind fun cls j hj =>
      ((keepsEnd_count 2).ends hj).bind fun n k hk =>
        ((keepsEnd_fields h n []).ends hk).bind fun fs l hl => hl
  · exact ends_corrupt hpos _

end

/-- Values keep to the input however deep they are nested. -/
theorem keepsEnd_value (room : Nat) : KeepsEnd (value room) := by
  induction room with
  | zero => intro i; exact ends_corrupt (pos_le_endPos i) _
  | succ room ih =>
    intro i
    exact (keepsEnd_byte _ i).bind fun t j hj => ends_content ih (pos_le_endPos i) t hj

/-- **A failure of `decode` is corruption**, at an offset within the bytes. -/
theorem corrupt_of_decode {b : Bytes} {e : CodecError} (h : decode b = .error e) :
    ∃ offset cause, e = .corrupt offset cause ∧ offset ≤ b.length := by
  have hvalue := keepsEnd_value (maxDepth + 1) ⟨0, b⟩
  have hend : Input.endPos ⟨0, b⟩ = b.length := Nat.zero_add _
  rw [hend] at hvalue
  unfold decode at h
  cases hread : value (maxDepth + 1) ⟨0, b⟩ with
  | error e' =>
    rw [hread] at h hvalue
    obtain rfl := Except.error.inj h
    exact hvalue
  | ok found =>
    obtain ⟨v, i⟩ := found
    rw [hread] at h hvalue
    have hpos : i.pos ≤ b.length := hvalue ▸ pos_le_endPos i
    -- a value was read, so it is the bytes behind it that are at fault
    rw [except_ok_bind] at h
    dsimp only at h
    split at h
    · nomatch h
    · exact ⟨_, _, (Except.error.inj h).symm, hpos⟩

end SealedStore.Payload
