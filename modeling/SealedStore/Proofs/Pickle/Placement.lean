/-
  Reading the same bytes elsewhere.

  An input may stand behind `k` more bytes and in front of `extra` ones.  A reader that comes to a
  result there comes to the same result, `k` bytes further on, and what it refuses is refused
  again.  What is corrupt is so again, `k` bytes further on, unless there are bytes behind: then
  it may have been a matter of missing bytes (`Placed`).

  This holds of all readers of pickle streams up to whole streams (`stream_placed`), since an
  offset is only ever taken from where the reader stands, and the bytes behind are only ever
  counted to see whether they are enough.  With no bytes behind, a stream is read as if it stood
  alone (`streams_shift`); with none in front, a stream that is cut is read up to the cut.
-/
import SealedStore.Pickle.Load
import SealedStore.Proofs.Codec.Reader

namespace SealedStore

/-- The input behind `k` more bytes and in front of others. -/
def Input.placed (k : Nat) (extra : Bytes) (i : Input) : Input := ⟨i.pos + k, i.rest ++ extra⟩

/-- The input behind `k` more bytes. -/
def Input.shift (k : Nat) (i : Input) : Input := ⟨i.pos + k, i.rest⟩

theorem Input.placed_nil (k : Nat) (i : Input) : i.placed k [] = i.shift k := by
  rw [placed, shift, List.append_nil]

/-- The error behind `k` more bytes. -/
def CodecError.shift (k : Nat) : CodecError → CodecError
  | .corrupt offset cause => .corrupt (offset + k) cause
  | e => e

theorem Bytes.hasAtLeast_append {n : Nat} {b : Bytes} (h : hasAtLeast n b = true) (extra : Bytes) :
    hasAtLeast n (b ++ extra) = true := by
  rw [hasAtLeast_iff] at h ⊢
  rw [List.length_append]
  exact Nat.le_add_right_of_le h

namespace Reader

variable {α β : Type} {n k : Nat} {extra : Bytes}

/-- What a reader comes to on an input that ends at `n`, and what it comes to on that input behind
    `k` more bytes and in front of `extra` ones. -/
inductive Placed (n k : Nat) (extra : Bytes) :
    Except CodecError (α × Input) → Except CodecError (α × Input) → Prop where
  | ok (x : α) {j : Input} :
    j.endPos = n → Placed n k extra (.ok (x, j)) (.ok (x, j.placed k extra))
  | refused (kind : Kind) (reason : Unwritable) :
    Placed n k extra (.error (.unsupported kind reason)) (.error (.unsupported kind reason))
  | corrupt {offset : Nat} (cause : Cause) :
    offset ≤ n →
      Placed n k extra (.error (.corrupt offset cause)) (.error (.corrupt (offset + k) cause))
  | missing {offset : Nat} (cause : Cause) (r : Except CodecError (α × Input)) :
    offset ≤ n → extra ≠ [] → Placed n k extra (.error (.corrupt offset cause)) r

/-- **One reader after another** is placed if both are. -/
theorem Placed.bind {r r' : Except CodecError (α × Input)}
    {next next' : α × Input → Except CodecError (β × Input)} (h : Placed n k extra r r')
    (hnext : ∀ x j, j.endPos = n → Placed n k extra (next (x, j)) (next' (x, j.placed k extra))) :
    Placed n k extra (r >>= next) (r' >>= next') := by
  cases h with
  | ok x hj => exact hnext x _ hj
  | refused kind reason => exact .refused kind reason
  | corrupt cause hoffset => exact .corrupt cause hoffset
  | missing cause _ hoffset hextra => exact .missing cause _ hoffset hextra

/-- A result does not depend on the place. -/
theorem Placed.eq_ok {r : Except CodecError (α × Input)} {x : α} {j : Input}
    (h : Placed n k extra (.ok (x, j)) r) : r = .ok (x, j.placed k extra) := by
  cases h
  rfl

/-- What comes to a result elsewhere comes to it where it is, or its bytes are corrupt. -/
theorem Placed.of_ok {r : Except CodecError (α × Input)} {x : α} {j : Input}
    (h : Placed n k extra r (.ok (x, j))) :
    (∃ i, r = .ok (x, i) ∧ j = i.placed k extra) ∨
      ∃ offset cause, r = .error (.corrupt offset cause) ∧ offset ≤ n := by
  cases h with
  | ok _ hi => exact .inl ⟨_, rfl, rfl⟩
  | missing cause _ hoffset _ => exact .inr ⟨_, cause, rfl, hoffset⟩

/-- Corruption is found before the end. -/
theorem Placed.offset_le {r : Except CodecError (α × Input)} {offset : Nat} {cause : Cause}
    (h : Placed n k extra (.error (.corrupt offset cause)) r) : offset ≤ n := by
  cases h with
  | corrupt _ hoffset => exact hoffset
  | missing _ _ hoffset _ => exact hoffset

/-- With no bytes behind, an error is the same error further on. -/
theorem Placed.eq_error {r : Except CodecError (α × Input)} {e : CodecError}
    (h : Placed n k [] (.error e) r) : r = .error (e.shift k) := by
  cases h with
  | refused kind reason => rfl
  | corrupt cause hoffset => rfl
  | missing cause _ hoffset hextra => exact absurd rfl hextra

/-- Corruption that is the same further on, if there are no bytes behind. -/
theorem placed_short {offset : Nat} {cause : Cause} {r : Except CodecError (α × Input)}
    (hoffset : offset ≤ n) (h : extra = [] → r = .error (.corrupt (offset + k) cause)) :
    Placed n k extra (.error (.corrupt offset cause)) r := by
  by_cases hextra : extra = []
  · rw [h hextra]
    exact .corrupt cause hoffset
  · exact .missing cause r hoffset hextra

/-! ## Bytes and texts -/

/-- A byte is read elsewhere as where it stood.  With none left the offset is where it should be,
    unless bytes were put behind. -/
theorem byte_placed (atEnd : Cause) {i : Input} (hi : i.endPos = n) :
    Placed n k extra (byte atEnd i) (byte atEnd (i.placed k extra)) := by
  have hpos : i.pos ≤ n := hi ▸ pos_le_endPos i
  obtain ⟨pos, rest⟩ := i
  cases rest with
  | nil =>
    refine placed_short hpos fun hextra => ?_
    rw [hextra]
    rfl
  | cons b rest =>
    have hleft : Input.endPos ⟨pos + 1, rest⟩ = n := by
      rw [← hi]
      show pos + 1 + rest.length = pos + (rest.length + 1)
      omega
    have hbyte : byte atEnd (Input.placed k extra ⟨pos, b :: rest⟩) =
        .ok (b, Input.placed k extra ⟨pos + 1, rest⟩) := by
      rw [Input.placed, Input.placed, Nat.add_right_comm pos 1 k]
      rfl
    rw [hbyte]
    exact .ok b hleft

/-- Bytes are taken off elsewhere as where they stood, and are missing where they should begin. -/
theorem take_placed (size : Nat) {i : Input} (hi : i.endPos = n) :
    Placed n k extra (take size i) (take size (i.placed k extra)) := by
  have hpos : i.pos ≤ n := hi ▸ pos_le_endPos i
  unfold take
  cases hsplit : Bytes.splitExact size i.rest with
  | none =>
    refine placed_short hpos fun hextra => ?_
    rw [hextra, Input.placed_nil, Input.shift, hsplit]
  | some parts =>
    obtain ⟨front, back⟩ := parts
    obtain ⟨hrest, hlen⟩ := Bytes.append_of_splitExact hsplit
    have hleft : Input.endPos ⟨i.pos + size, back⟩ = n := by
      rw [← hi, Input.endPos, Input.endPos, hrest, List.length_append, hlen, Nat.add_assoc]
    have hsplit' : Bytes.splitExact size (i.placed k extra).rest = some (front, back ++ extra) := by
      rw [Input.placed, hrest, ← hlen, List.append_assoc, Bytes.splitExact_append]
    rw [hsplit', show (i.placed k extra).pos + size = i.pos + size + k from
      Nat.add_right_comm i.pos k size]
    exact .ok front hleft

/-- Bytes that were read are a text or not, wherever they stand. -/
theorem utf8_placed {pos : Nat} (hpos : pos ≤ n) (raw : Bytes)
    {next next' : String → Except CodecError (α × Input)}
    (h : ∀ s, Placed n k extra (next s) (next' s)) :
    Placed n k extra (utf8 pos raw >>= next) (utf8 (pos + k) raw >>= next') := by
  unfold utf8
  split
  · next s _ => exact h s
  · exact .corrupt _ hpos

end Reader

namespace Pickle

open Reader

variable {n k : Nat} {extra : Bytes} {i : Input}

/-! ## Opcodes -/

section
variable (hi : i.endPos = n)
include hi

theorem operandNat_placed (width : Nat) :
    Placed n k extra (operandNat width i) (operandNat width (i.placed k extra)) :=
  (take_placed width hi).bind fun _ _ hj => .ok _ hj

/-- A version is read elsewhere as where it stood, and an unknown one is refused where its code
    stands. -/
theorem protocol_placed {pos : Nat} (hpos : pos ≤ n) :
    Placed n k extra (protocol pos i) (protocol (pos + k) (i.placed k extra)) := by
  refine (byte_placed .endWithoutStop hi).bind fun version j hj => ?_
  dsimp only
  split
  · exact .corrupt _ hpos
  · exact .ok _ hj

/-- A frame that is long enough stays so, and one that is too long may not. -/
theorem frame_placed {pos : Nat} (hpos : pos ≤ n) :
    Placed n k extra (frame pos i) (frame (pos + k) (i.placed k extra)) := by
  refine (operandNat_placed hi 8).bind fun size j hj => ?_
  dsimp only
  split
  · next henough =>
    have hmore : Bytes.hasAtLeast size (j.placed k extra).rest = true :=
      Bytes.hasAtLeast_append henough extra
    rw [if_pos hmore]
    exact .ok _ hj
  · next hshort =>
    refine placed_short hpos fun hextra => ?_
    rw [hextra, Input.placed_nil]
    exact if_neg hshort

/-- A signed number is read elsewhere as where it stood, and one that is too wide is refused
    alike. -/
theorem pushSigned_placed (width : Nat) :
    Placed n k extra (pushSigned width i) (pushSigned width (i.placed k extra)) := by
  refine (take_placed width hi).bind fun raw j hj => ?_
  dsimp only
  split
  · exact .ok _ hj
  · exact .refused _ _

theorem pushNat_placed (width : Nat) :
    Placed n k extra (pushNat width i) (pushNat width (i.placed k extra)) :=
  (operandNat_placed hi width).bind fun _ _ hj => .ok _ hj

/-- A text whose length was read; where it begins is where one that is no text is reported. -/
theorem text_placed (size : Nat) :
    Placed n k extra
      (do let (raw, l) ← take size i
          let s ← utf8 i.pos raw
          .ok (Opcode.push (.str s), l))
      (do let (raw, l) ← take size (i.placed k extra)
          let s ← utf8 (i.placed k extra).pos raw
          .ok (Opcode.push (.str s), l)) := by
  have hpos : i.pos ≤ n := hi ▸ pos_le_endPos i
  exact (take_placed size hi).bind fun raw _ hl => utf8_placed hpos raw fun _ => .ok _ hl

theorem block_placed (size : Nat) :
    Placed n k extra
      (do let (raw, l) ← take size i
          .ok (Opcode.push (.bytes raw), l))
      (do let (raw, l) ← take size (i.placed k extra)
          .ok (Opcode.push (.bytes raw), l)) :=
  (take_placed size hi).bind fun _ _ hl => .ok _ hl

theorem pushStr_placed (width : Nat) :
    Placed n k extra (pushStr width i) (pushStr width (i.placed k extra)) :=
  (operandNat_placed hi width).bind fun size _ hj => text_placed hj size

theorem pushBytes_placed (width : Nat) :
    Placed n k extra (pushBytes width i) (pushBytes width (i.placed k extra)) :=
  (operandNat_placed hi width).bind fun size _ hj => block_placed hj size

theorem withId_placed (width : Nat) (make : Nat → Opcode) :
    Placed n k extra (withId width make i) (withId width make (i.placed k extra)) :=
  (operandNat_placed hi width).bind fun _ _ hj => .ok _ hj

/-- The operands of every code are read elsewhere as where they stood: each is bytes and texts one
    after the other, and the offset of a wrong code moves with it. -/
theorem operands_placed {pos : Nat} (hpos : pos ≤ n) (code : UInt8) :
    Placed n k extra (operands pos code i) (operands (pos + k) code (i.placed k extra)) := by
  have hbyte : Placed n k extra (operandByte i) (operandByte (i.placed k extra)) :=
    byte_placed .endWithoutStop hi
  unfold operands
  split
  · exact protocol_placed hi hpos
  · exact frame_placed hi hpos
  · exact .ok _ hi
  · exact .ok _ hi
  · exact .ok _ hi
  · exact .ok _ hi
  · exact .ok _ hi
  · exact .ok _ hi
  · exact .ok _ hi
  · exact .ok _ hi
  · exact pushSigned_placed hi 4
  · exact hbyte.bind fun _ _ hj => .ok _ hj
  · exact pushNat_placed hi 2
  · exact hbyte.bind fun size _ hj => pushSigned_placed hj size.toNat
  · exact (take_placed 8 hi).bind fun _ _ hj => .ok _ hj
  · exact hbyte.bind fun size _ hj => text_placed hj size.toNat
  · exact pushStr_placed hi 4
  · exact pushStr_placed hi 8
  · exact hbyte.bind fun size _ hj => block_placed hj size.toNat
  · exact pushBytes_placed hi 4
  · exact pushBytes_placed hi 8
  · exact .ok _ hi
  · exact .ok _ hi
  · exact .ok _ hi
  · exact .ok _ hi
  · exact .ok _ hi
  · exact .ok _ hi
  · exact .ok _ hi
  · exact .ok _ hi
  · exact .ok _ hi
  · exact .ok _ hi
  · exact .ok _ hi
  · exact .ok _ hi
  · exact .ok _ hi
  · exact .ok _ hi
  · exact hbyte.bind fun _ _ hj => .ok _ hj
  · exact withId_placed hi 4 .put
  · exact hbyte.bind fun _ _ hj => .ok _ hj
  · exact withId_placed hi 4 .get
  · exact .corrupt _ hpos

theorem read_placed : Placed n k extra (Opcode.read i) (Opcode.read (i.placed k extra)) := by
  have hpos : i.pos ≤ n := hi ▸ pos_le_endPos i
  exact (byte_placed .endWithoutStop hi).bind fun code _ hj => operands_placed hj hpos code

end

/-! ## Runs -/

/-- The machine does not know where its opcodes stand. -/
theorem located_placed {α β : Type} {pos : Nat} (hpos : pos ≤ n) (r : Except Cause α)
    {next next' : α → Except CodecError (β × Input)}
    (h : ∀ x, Placed n k extra (next x) (next' x)) :
    Placed n k extra (located pos r >>= next) (located (pos + k) r >>= next') := by
  cases r with
  | error cause => exact .corrupt cause hpos
  | ok x => exact h x

theorem step_placed (m : Machine) (hi : i.endPos = n) :
    Placed n k extra (step m i) (step m (i.placed k extra)) := by
  have hpos : i.pos ≤ n := hi ▸ pos_le_endPos i
  exact (read_placed hi).bind fun _ _ hj => located_placed hpos _ fun status => .ok status hj

/-- **A run elsewhere** is the same run. -/
theorem run_placed (steps : Nat) (m : Machine) (hi : i.endPos = n) :
    Placed n k extra (run steps m i) (run steps m (i.placed k extra)) := by
  induction steps generalizing m i with
  | zero => exact .corrupt .endWithoutStop (hi ▸ pos_le_endPos i)
  | succ steps ih =>
    refine (step_placed m hi).bind fun status j hj => ?_
    cases status with
    | stopped v => exact .ok v hj
    | running m' => exact ih m' hj

/-- A header is read elsewhere as where it stood. -/
theorem header_placed (hi : i.endPos = n) :
    Placed n k extra (header i) (header (i.placed k extra)) := by
  have hpos : i.pos ≤ n := hi ▸ pos_le_endPos i
  refine (byte_placed .endWithoutStop hi).bind fun code j hj => ?_
  dsimp only
  split
  · exact .corrupt _ hpos
  · exact protocol_placed hj hpos

/-- **A stream elsewhere** is the same stream. -/
theorem stream_placed (steps : Nat) (hi : i.endPos = n) :
    Placed n k extra (stream steps i) (stream steps (i.placed k extra)) :=
  (header_placed hi).bind fun _ _ hj => run_placed steps .start hj

/-- **Streams behind more bytes** are the same streams, with errors that much further on. -/
theorem streams_shift (steps most : Nat) (i : Input) :
    streams steps most (i.shift k) = (streams steps most i).mapError (·.shift k) := by
  induction most generalizing i with
  | zero => rfl
  | succ most ih =>
    have hstream : Placed i.endPos k [] (stream steps i) (stream steps (i.placed k [])) :=
      stream_placed steps rfl
    rw [Input.placed_nil] at hstream
    rw [streams, streams]
    show (if i.rest.isEmpty then _ else _) = _
    split
    · rfl
    · generalize stream steps i = r at hstream ⊢
      cases r with
      | error e =>
        rw [hstream.eq_error]
        rfl
      | ok found =>
        obtain ⟨v, j⟩ := found
        rw [hstream.eq_ok, Input.placed_nil]
        show (streams steps most (j.shift k) >>= _) = (streams steps most j >>= _).mapError _
        rw [ih]
        cases streams steps most j <;> rfl

end Pickle

end SealedStore
