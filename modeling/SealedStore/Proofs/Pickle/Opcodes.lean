/-
  How opcodes are spelled.

  `Opcode.Spells` says which bytes are a code with its operands, and for which opcode they stand:
  numbers are least significant byte first, signed ones in two's complement, and texts and byte
  strings come after their length.  `read_eq_ok_iff` says that `Opcode.read` takes just these off
  its input.
-/
import SealedStore.Pickle.Opcode
import SealedStore.Proofs.Codec.Grammar

namespace SealedStore.Pickle

open Reader
open Payload (Sized SizedText)

/-! ## Operands -/

/-- The bytes are the digits of a number, least significant first. -/
def LittleEndian (width : Nat) (raw : Bytes) (n : Nat) : Prop :=
  raw.length = width ∧ Bytes.ofLittleEndian raw = n

/-- The bytes are the two's complement of a number, least significant first: the number is the one
    nearest to zero that differs from the digits by a multiple of their range. -/
def TwosComplement (raw : Bytes) (n : Int64) : Prop :=
  n.toInt = Int.bmod (Bytes.ofLittleEndian raw) (2 ^ (8 * raw.length))

theorem ofLittleEndian_lt (raw : Bytes) : Bytes.ofLittleEndian raw < 2 ^ (8 * raw.length) := by
  induction raw with
  | nil => decide
  | cons b raw ih =>
    have hb := b.toNat_lt
    rw [Bytes.ofLittleEndian, List.length_cons, Nat.mul_succ, Nat.pow_add]
    omega

theorem littleEndian_singleton (b : UInt8) : LittleEndian 1 [b] b.toNat :=
  ⟨rfl, by rw [Bytes.ofLittleEndian, Bytes.ofLittleEndian, Nat.mul_zero, Nat.add_zero]⟩

theorem littleEndian_one_iff {raw : Bytes} {n : Nat} :
    LittleEndian 1 raw n ↔ ∃ b : UInt8, raw = [b] ∧ b.toNat = n := by
  constructor
  · rintro ⟨hlen, rfl⟩
    obtain ⟨b, rfl⟩ := List.length_eq_one_iff.mp hlen
    exact ⟨b, rfl, (littleEndian_singleton b).2.symm⟩
  · rintro ⟨b, rfl, rfl⟩
    exact littleEndian_singleton b

/-- Up to eight bytes are read as two's complement. -/
theorem toInt_signed {raw : Bytes} (h : raw.length ≤ 8) :
    (signed raw).toInt = Int.bmod (Bytes.ofLittleEndian raw) (2 ^ (8 * raw.length)) := by
  have hlt := ofLittleEndian_lt raw
  cases raw with
  | nil => rfl
  | cons b rest =>
    -- the range of the digits is even, and its half fits into the positive numbers
    obtain ⟨half, hhalf⟩ : ∃ half, 8 * (b :: rest).length = half + 1 :=
      ⟨8 * rest.length + 7, by rw [List.length_cons]; omega⟩
    have hsmall : 2 ^ half ≤ 2 ^ 63 := Nat.pow_le_pow_right (by decide) (by omega)
    unfold signed
    dsimp only
    rw [Nat.pow_eq]
    rw [hhalf, Nat.pow_succ] at hlt ⊢
    generalize Bytes.ofLittleEndian (b :: rest) = n at hlt ⊢
    generalize 2 ^ half = m at hsmall hlt ⊢
    rw [Int.bmod_def, Int.emod_eq_of_lt (by omega) (by omega)]
    split
    · rw [if_pos (by omega)]
      exact Int64.toInt_ofNat_of_lt (by omega)
    · rw [if_neg (show ¬ (b :: rest).isEmpty = true from Bool.false_ne_true), if_neg (by omega)]
      exact Int64.toInt_ofInt_of_le (by omega) (by omega)

/-- **`signed` reads two's complement**, of up to eight bytes. -/
theorem twosComplement_iff {raw : Bytes} {n : Int64} (h : raw.length ≤ 8) :
    TwosComplement raw n ↔ n = signed raw := by
  rw [TwosComplement, ← toInt_signed h, Int64.toInt_inj]

/-! ## Codes -/

/-- The bytes, in front of others, are the code and the operands of an opcode.  Only a frame
    speaks of the bytes behind it: there are as many as it says, or more. -/
inductive Opcode.Spells (behind : Bytes) : Bytes → Opcode → Prop
  | frame {size : Bytes} {n : Nat} :
      LittleEndian 8 size n → n ≤ behind.length → Spells behind (0x95 :: size) .frame
  | protocol {version : UInt8} : version ≤ highestProtocol → Spells behind [0x80, version] .protocol
  | stop : Spells behind [0x2E] .stop
  | mark : Spells behind [0x28] .mark
  | pop : Spells behind [0x30] .pop
  | popMark : Spells behind [0x31] .popMark
  | dup : Spells behind [0x32] .dup
  | none : Spells behind [0x4E] (.push .none)
  | true : Spells behind [0x88] (.push (.bool true))
  | false : Spells behind [0x89] (.push (.bool false))
  | fourBytes {raw : Bytes} {n : Int64} :
      raw.length = 4 → TwosComplement raw n → Spells behind (0x4A :: raw) (.push (.int n))
  | natural {code : UInt8} {width : Nat} {raw : Bytes} {k : Nat} {n : Int64} :
      (code, width) ∈ [(0x4B, 1), (0x4D, 2)] → LittleEndian width raw k → n.toInt = k →
      Spells behind (code :: raw) (.push (.int n))
  | sized {raw b : Bytes} {n : Int64} :
      Sized (LittleEndian 1) raw b → b.length ≤ 8 → TwosComplement b n →
      Spells behind (0x8A :: raw) (.push (.int n))
  | float {bits : UInt64} :
      Spells behind (0x47 :: Bytes.bigEndian 8 bits.toNat) (.push (.float bits))
  | str {code : UInt8} {width : Nat} {raw : Bytes} {s : String} :
      (code, width) ∈ [(0x8C, 1), (0x58, 4), (0x8D, 8)] → SizedText (LittleEndian width) raw s →
      Spells behind (code :: raw) (.push (.str s))
  | bytes {code : UInt8} {width : Nat} {raw b : Bytes} :
      (code, width) ∈ [(0x43, 1), (0x42, 4), (0x8E, 8)] → Sized (LittleEndian width) raw b →
      Spells behind (code :: raw) (.push (.bytes b))
  | emptyTuple : Spells behind [0x29] (.push (.tuple []))
  | tuple : Spells behind [0x74] .tuple
  | tupleOfOne : Spells behind [0x85] (.tupleOf 1)
  | tupleOfTwo : Spells behind [0x86] (.tupleOf 2)
  | tupleOfThree : Spells behind [0x87] (.tupleOf 3)
  | emptyList : Spells behind [0x5D] (.push (.list []))
  | append : Spells behind [0x61] .append
  | appends : Spells behind [0x65] .appends
  | list : Spells behind [0x6C] .list
  | emptyDict : Spells behind [0x7D] (.push (.dict []))
  | dict : Spells behind [0x64] .dict
  | setItem : Spells behind [0x73] .setItem
  | setItems : Spells behind [0x75] .setItems
  | memoize : Spells behind [0x94] .memoize
  | put {code : UInt8} {width : Nat} {raw : Bytes} {id : Nat} :
      (code, width) ∈ [(0x71, 1), (0x72, 4)] → LittleEndian width raw id →
      Spells behind (code :: raw) (.put id)
  | get {code : UInt8} {width : Nat} {raw : Bytes} {id : Nat} :
      (code, width) ∈ [(0x68, 1), (0x6A, 4)] → LittleEndian width raw id →
      Spells behind (code :: raw) (.get id)

/-! ## Readers of operands -/

theorem recognises_operandByte :
    Recognises (fun i => do let (b, j) ← operandByte i; .ok (b.toNat, j)) (LittleEndian 1) := by
  refine ((recognises_byte .endWithoutStop).map UInt8.toNat).congr fun raw n => ?_
  rw [littleEndian_one_iff]
  exact exists_congr fun b => and_congr_right fun _ => eq_comm

/-- A number is its bytes, the least significant first. -/
theorem recognises_operandNat (width : Nat) :
    Recognises (operandNat width) (LittleEndian width) := by
  refine ((recognises_take width).map Bytes.ofLittleEndian).congr fun raw n => ?_
  constructor
  · rintro ⟨_, ⟨rfl, hlen⟩, rfl⟩
    exact ⟨hlen, rfl⟩
  · rintro ⟨hlen, rfl⟩
    exact ⟨raw, ⟨rfl, hlen⟩, rfl⟩

theorem recognises_operandNat' (width : Nat) :
    Recognises (fun i => do let (n, j) ← operandNat width i; .ok (n, j)) (LittleEndian width) := by
  refine ((recognises_operandNat width).map fun n => n).congr fun raw n => ?_
  simp

/-! Operands that begin with a number are the same whether the number is a single byte or not. -/

section
variable {α : Type} (read : Reader α) (toNat : α → Nat) {width : Nat}
  (h : Recognises (fun i => do let (x, j) ← read i; .ok (toNat x, j)) (LittleEndian width))
include h

/-- An opcode that is made of a number is spelled by the number. -/
theorem recognises_number (make : Nat → Opcode) :
    Recognises (fun i => do let (x, j) ← read i; .ok (make (toNat x), j))
      (fun raw op => ∃ n, LittleEndian width raw n ∧ op = make n) := by
  refine (h.bindMap fun _ n => recognises_pure (make n)).congr fun raw op => ?_
  constructor
  · rintro ⟨n, front, _, rfl, hn, rfl, rfl⟩
    exact ⟨n, by rwa [List.append_nil], rfl⟩
  · rintro ⟨n, hn, rfl⟩
    exact ⟨n, raw, [], (List.append_nil raw).symm, hn, rfl, rfl⟩

/-- A length and that many bytes, of which something is made. -/
theorem recognises_block {β : Type} {S : Bytes → Bytes → β → Prop}
    {next : Input → Bytes → Reader β} (hnext : ∀ i b, Recognises (next i b) (S b)) :
    Recognises (fun i => do
        let (x, j) ← read i
        let (b, k) ← take (toNat x) j
        next j b k)
      (fun raw y => ∃ b front back, raw = front ++ back ∧ Sized (LittleEndian width) front b ∧
        S b back y) := by
  refine (h.bindMap fun _ n => (recognises_take n).bind hnext).congr fun raw y => ?_
  constructor
  · rintro ⟨n, len, _, rfl, hlen, b, _, back, rfl, ⟨rfl, rfl⟩, hS⟩
    exact ⟨_, _ ++ _, back, (List.append_assoc _ _ _).symm, ⟨len, rfl, hlen⟩, hS⟩
  · rintro ⟨b, _, back, rfl, ⟨len, rfl, hlen⟩, hS⟩
    exact ⟨b.length, len, b ++ back, List.append_assoc _ _ _, hlen, b, b, back, rfl, ⟨rfl, rfl⟩, hS⟩

/-- Bytes behind their length, with the length in any of its forms. -/
theorem recognises_bytes :
    Recognises (fun i => do
        let (x, j) ← read i
        let (b, k) ← take (toNat x) j
        .ok (Opcode.push (.bytes b), k))
      (fun raw op => ∃ b, Sized (LittleEndian width) raw b ∧ op = .push (.bytes b)) := by
  refine (recognises_block read toNat h fun _ b => recognises_pure (Opcode.push (.bytes b))).congr
    fun raw op => ?_
  constructor
  · rintro ⟨b, front, _, rfl, hb, rfl, rfl⟩
    exact ⟨b, by rwa [List.append_nil], rfl⟩
  · rintro ⟨b, hb, rfl⟩
    exact ⟨b, raw, [], (List.append_nil raw).symm, hb, rfl, rfl⟩

/-- A text behind its length, with the length in any of its forms. -/
theorem recognises_str :
    Recognises (fun i => do
        let (x, j) ← read i
        let (b, k) ← take (toNat x) j
        let s ← utf8 j.pos b
        .ok (Opcode.push (.str s), k))
      (fun raw op => ∃ s, SizedText (LittleEndian width) raw s ∧ op = .push (.str s)) := by
  refine (recognises_block read toNat h fun i b =>
    recognises_utf8 i.pos b fun s => Opcode.push (.str s)).congr fun raw op => ?_
  constructor
  · rintro ⟨b, front, _, rfl, hb, rfl, s, rfl, rfl⟩
    exact ⟨s, by rwa [List.append_nil], rfl⟩
  · rintro ⟨s, hs, rfl⟩
    exact ⟨_, raw, [], (List.append_nil raw).symm, hs, rfl, s, rfl, rfl⟩

end

theorem recognises_pushNat (width : Nat) :
    Recognises (pushNat width) (fun raw op => ∃ n, LittleEndian width raw n ∧
      op = .push (.int (Int64.ofNat n))) :=
  recognises_number (operandNat width) (fun n => n) (recognises_operandNat' width)
    fun n => .push (.int (Int64.ofNat n))

theorem recognises_withId (width : Nat) (make : Nat → Opcode) :
    Recognises (withId width make) (fun raw op => ∃ id, LittleEndian width raw id ∧ op = make id) :=
  recognises_number (operandNat width) (fun n => n) (recognises_operandNat' width) make

theorem recognises_pushStr (width : Nat) :
    Recognises (pushStr width) (fun raw op => ∃ s, SizedText (LittleEndian width) raw s ∧
      op = .push (.str s)) :=
  recognises_str (operandNat width) (fun n => n) (recognises_operandNat' width)

theorem recognises_pushBytes (width : Nat) :
    Recognises (pushBytes width) (fun raw op => ∃ b, Sized (LittleEndian width) raw b ∧
      op = .push (.bytes b)) :=
  recognises_bytes (operandNat width) (fun n => n) (recognises_operandNat' width)

/-- A signed number of a given width is taken off when it is no wider than eight bytes. -/
theorem recognises_pushSigned (width : Nat) :
    Recognises (pushSigned width) (fun raw op => raw.length = width ∧ raw.length ≤ 8 ∧
      op = .push (.int (signed raw))) := by
  have hnarrow : ∀ (_ : Input) (raw : Bytes), Recognises (fun j =>
        if raw.length ≤ 8 then .ok (Opcode.push (.int (signed raw)), j)
        else .error (.unsupported .int (.wideInteger raw.length)))
      (fun front op => raw.length ≤ 8 ∧ front = [] ∧ op = .push (.int (signed raw))) :=
    fun _ raw => recognises_guard (fun _ => recognises_pure _) _
  refine ((recognises_take width).bind hnarrow).congr fun raw op => ?_
  constructor
  · rintro ⟨b, _, _, rfl, ⟨rfl, hlen⟩, hshort, rfl, rfl⟩
    rw [List.append_nil]
    exact ⟨hlen, hshort, rfl⟩
  · rintro ⟨hlen, hshort, rfl⟩
    exact ⟨raw, raw, [], (List.append_nil raw).symm, ⟨rfl, hlen⟩, hshort, rfl, rfl⟩

/-- The version of a stream is one byte, no higher than the highest. -/
theorem recognises_protocol (pos : Nat) :
    Recognises (protocol pos) (fun raw op => ∃ version, raw = [version] ∧
      version ≤ highestProtocol ∧ op = .protocol) := by
  have hknown : ∀ (_ : Input) (version : UInt8), Recognises (fun j =>
        if highestProtocol < version then .error (.corrupt pos (.unsupportedProtocol version))
        else .ok (Opcode.protocol, j))
      (fun front op => ¬ highestProtocol < version ∧ front = [] ∧ op = .protocol) :=
    fun _ version => recognises_unless (fun _ => recognises_pure _) _
  refine ((recognises_byte .endWithoutStop).bind hknown).congr fun raw op => ?_
  constructor
  · rintro ⟨version, _, _, rfl, rfl, hknown, rfl, rfl⟩
    exact ⟨version, rfl, UInt8.not_lt.mp hknown, rfl⟩
  · rintro ⟨version, rfl, hknown, rfl⟩
    exact ⟨version, [version], [], rfl, rfl, UInt8.not_lt.mpr hknown, rfl, rfl⟩

/-- A frame is a length of eight bytes that the input behind it has.  The bytes themselves are not
    taken off, which is why this is no matter of recognising them. -/
theorem frame_eq_ok_iff {pos : Nat} {i : Input} {op : Opcode} {j : Input} :
    frame pos i = .ok (op, j) ↔ ∃ size, (op = .frame ∧ ∃ n, LittleEndian 8 size n ∧
      n ≤ j.rest.length) ∧ i.rest = size ++ j.rest ∧ j.pos = i.pos + size.length := by
  unfold frame
  rw [except_bind_eq_ok]
  constructor
  · rintro ⟨⟨n, k⟩, hsize, h⟩
    obtain ⟨size, hn, hinput⟩ := (recognises_operandNat 8 i n k).mp hsize
    dsimp only at h
    split at h
    · next hfits =>
      obtain ⟨rfl, rfl⟩ := Prod.mk.inj (Except.ok.inj h)
      exact ⟨size, ⟨rfl, n, hn, Bytes.hasAtLeast_iff.mp hfits⟩, hinput⟩
    · nomatch h
  · rintro ⟨size, ⟨rfl, n, hn, hfits⟩, hinput⟩
    refine ⟨(n, j), (recognises_operandNat 8 i n j).mpr ⟨size, hn, hinput⟩, ?_⟩
    exact if_pos (Bytes.hasAtLeast_iff.mpr hfits)

/-! ## Reading -/

/-- A natural number of one or two bytes is the number that the machine makes of it. -/
theorem toInt_eq_iff {width : Nat} {raw : Bytes} {k : Nat} (h : LittleEndian width raw k)
    (hwidth : width ≤ 2) {n : Int64} : n.toInt = k ↔ n = Int64.ofNat k := by
  have hlt : k < 2 ^ 16 := by
    obtain ⟨rfl, rfl⟩ := h
    exact Nat.lt_of_lt_of_le (ofLittleEndian_lt raw) (Nat.pow_le_pow_right (by decide) (by omega))
  have hk : (Int64.ofNat k).toInt = k := Int64.toInt_ofNat_of_lt (by omega)
  rw [← hk, Int64.toInt_inj]

/-- What is read after a code spells an opcode with it. -/
theorem spells_of_operands {pos : Nat} {code : UInt8} {i : Input} {op : Opcode} {j : Input}
    (h : operands pos code i = .ok (op, j)) : ∃ front, op.Spells j.rest (code :: front) ∧
      i.rest = front ++ j.rest ∧ j.pos = i.pos + front.length := by
  have hbare : ∀ {code : UInt8} {op' : Opcode},
      (.ok (op', i) : Except CodecError (Opcode × Input)) = .ok (op, j) →
      op'.Spells j.rest [code] → ∃ front, op.Spells j.rest (code :: front) ∧
        i.rest = front ++ j.rest ∧ j.pos = i.pos + front.length := by
    intro code op' h hspells
    obtain ⟨rfl, rfl⟩ := Prod.mk.inj (Except.ok.inj h)
    exact ⟨[], hspells, rfl, rfl⟩
  unfold operands at h
  split at h
  · obtain ⟨front, ⟨version, rfl, hknown, rfl⟩, hinput⟩ := (recognises_protocol pos i op j).mp h
    exact ⟨_, .protocol hknown, hinput⟩
  · obtain ⟨size, ⟨rfl, n, hn, hfits⟩, hinput⟩ := frame_eq_ok_iff.mp h
    exact ⟨_, .frame hn hfits, hinput⟩
  · exact hbare h .stop
  · exact hbare h .mark
  · exact hbare h .pop
  · exact hbare h .popMark
  · exact hbare h .dup
  · exact hbare h .none
  · exact hbare h .true
  · exact hbare h .false
  · obtain ⟨raw, ⟨hlen, hshort, rfl⟩, hinput⟩ := (recognises_pushSigned 4 i op j).mp h
    exact ⟨_, .fourBytes hlen ((twosComplement_iff hshort).mpr rfl), hinput⟩
  · obtain ⟨raw, ⟨k, hk, rfl⟩, hinput⟩ :=
      (recognises_number operandByte UInt8.toNat recognises_operandByte
        (fun n => .push (.int (Int64.ofNat n))) i op j).mp h
    exact ⟨_, .natural List.mem_cons_self hk ((toInt_eq_iff hk (by decide)).mpr rfl), hinput⟩
  · obtain ⟨raw, ⟨k, hk, rfl⟩, hinput⟩ := (recognises_pushNat 2 i op j).mp h
    exact ⟨_, .natural (.tail _ (.head _)) hk ((toInt_eq_iff hk (by decide)).mpr rfl), hinput⟩
  · obtain ⟨raw, ⟨n, size, b, rfl, hsize, rfl, hshort, rfl⟩, hinput⟩ :=
      (recognises_operandByte.bindMap (fun _ n => recognises_pushSigned n) i op j).mp h
    exact ⟨_, .sized ⟨size, rfl, hsize⟩ hshort ((twosComplement_iff hshort).mpr rfl), hinput⟩
  · obtain ⟨raw, ⟨bits, rfl, rfl⟩, hinput⟩ :=
      (recognises_bits (fun bits => Opcode.push (.float bits)) i op j).mp h
    exact ⟨_, .float, hinput⟩
  · obtain ⟨raw, ⟨s, hs, rfl⟩, hinput⟩ :=
      (recognises_str operandByte UInt8.toNat recognises_operandByte i op j).mp h
    exact ⟨_, .str (.head _) hs, hinput⟩
  · obtain ⟨raw, ⟨s, hs, rfl⟩, hinput⟩ := (recognises_pushStr 4 i op j).mp h
    exact ⟨_, .str (.tail _ (.head _)) hs, hinput⟩
  · obtain ⟨raw, ⟨s, hs, rfl⟩, hinput⟩ := (recognises_pushStr 8 i op j).mp h
    exact ⟨_, .str (.tail _ (.tail _ (.head _))) hs, hinput⟩
  · obtain ⟨raw, ⟨b, hb, rfl⟩, hinput⟩ :=
      (recognises_bytes operandByte UInt8.toNat recognises_operandByte i op j).mp h
    exact ⟨_, .bytes (.head _) hb, hinput⟩
  · obtain ⟨raw, ⟨b, hb, rfl⟩, hinput⟩ := (recognises_pushBytes 4 i op j).mp h
    exact ⟨_, .bytes (.tail _ (.head _)) hb, hinput⟩
  · obtain ⟨raw, ⟨b, hb, rfl⟩, hinput⟩ := (recognises_pushBytes 8 i op j).mp h
    exact ⟨_, .bytes (.tail _ (.tail _ (.head _))) hb, hinput⟩
  · exact hbare h .emptyTuple
  · exact hbare h .tuple
  · exact hbare h .tupleOfOne
  · exact hbare h .tupleOfTwo
  · exact hbare h .tupleOfThree
  · exact hbare h .emptyList
  · exact hbare h .append
  · exact hbare h .appends
  · exact hbare h .list
  · exact hbare h .emptyDict
  · exact hbare h .dict
  · exact hbare h .setItem
  · exact hbare h .setItems
  · exact hbare h .memoize
  · obtain ⟨raw, ⟨id, hid, rfl⟩, hinput⟩ :=
      (recognises_number operandByte UInt8.toNat recognises_operandByte .put i op j).mp h
    exact ⟨_, .put (.head _) hid, hinput⟩
  · obtain ⟨raw, ⟨id, hid, rfl⟩, hinput⟩ :=
      (recognises_withId 4 .put i op j).mp h
    exact ⟨_, .put (.tail _ (.head _)) hid, hinput⟩
  · obtain ⟨raw, ⟨id, hid, rfl⟩, hinput⟩ :=
      (recognises_number operandByte UInt8.toNat recognises_operandByte .get i op j).mp h
    exact ⟨_, .get (.head _) hid, hinput⟩
  · obtain ⟨raw, ⟨id, hid, rfl⟩, hinput⟩ :=
      (recognises_withId 4 .get i op j).mp h
    exact ⟨_, .get (.tail _ (.head _)) hid, hinput⟩
  · nomatch h

/-- What spells an opcode with a code is read after it. -/
theorem operands_of_spells {pos : Nat} {code : UInt8} {front : Bytes} {i : Input} {op : Opcode}
    {j : Input} (h : op.Spells j.rest (code :: front))
    (hinput : i.rest = front ++ j.rest ∧ j.pos = i.pos + front.length) :
    operands pos code i = .ok (op, j) := by
  have hbare : ∀ {op' : Opcode}, front = [] →
      (.ok (op', i) : Except CodecError (Opcode × Input)) = .ok (op', j) := by
    rintro op' rfl
    exact (recognises_pure op' i op' j).mpr ⟨[], ⟨rfl, rfl⟩, hinput⟩
  cases h with
  | frame hn hfits => exact frame_eq_ok_iff.mpr ⟨front, ⟨rfl, _, hn, hfits⟩, hinput⟩
  | protocol hknown =>
    exact (recognises_protocol pos i _ j).mpr ⟨_, ⟨_, rfl, hknown, rfl⟩, hinput⟩
  | fourBytes hlen hn =>
    have hshort : front.length ≤ 8 := by omega
    obtain rfl := (twosComplement_iff hshort).mp hn
    exact (recognises_pushSigned 4 i _ j).mpr ⟨front, ⟨hlen, hshort, rfl⟩, hinput⟩
  | natural hcode hk hn =>
    rcases hcode with _ | ⟨_, _ | ⟨_, hnil⟩⟩
    · obtain rfl := (toInt_eq_iff hk (by decide)).mp hn
      exact (recognises_number operandByte UInt8.toNat recognises_operandByte
        (fun n => .push (.int (Int64.ofNat n))) i _ j).mpr ⟨front, ⟨_, hk, rfl⟩, hinput⟩
    · obtain rfl := (toInt_eq_iff hk (by decide)).mp hn
      exact (recognises_pushNat 2 i _ j).mpr ⟨front, ⟨_, hk, rfl⟩, hinput⟩
    · nomatch hnil
  | sized hsized hshort hn =>
    obtain ⟨size, rfl, hsize⟩ := hsized
    obtain rfl := (twosComplement_iff hshort).mp hn
    exact (recognises_operandByte.bindMap (fun _ n => recognises_pushSigned n) i _ j).mpr
      ⟨_, ⟨_, size, _, rfl, hsize, rfl, hshort, rfl⟩, hinput⟩
  | float =>
    exact (recognises_bits (fun bits => Opcode.push (.float bits)) i _ j).mpr
      ⟨_, ⟨_, rfl, rfl⟩, hinput⟩
  | str hcode hs =>
    rcases hcode with _ | ⟨_, _ | ⟨_, _ | ⟨_, hnil⟩⟩⟩
    · exact (recognises_str operandByte UInt8.toNat recognises_operandByte i _ j).mpr
        ⟨front, ⟨_, hs, rfl⟩, hinput⟩
    · exact (recognises_pushStr 4 i _ j).mpr ⟨front, ⟨_, hs, rfl⟩, hinput⟩
    · exact (recognises_pushStr 8 i _ j).mpr ⟨front, ⟨_, hs, rfl⟩, hinput⟩
    · nomatch hnil
  | bytes hcode hb =>
    rcases hcode with _ | ⟨_, _ | ⟨_, _ | ⟨_, hnil⟩⟩⟩
    · exact (recognises_bytes operandByte UInt8.toNat recognises_operandByte i _ j).mpr
        ⟨front, ⟨_, hb, rfl⟩, hinput⟩
    · exact (recognises_pushBytes 4 i _ j).mpr ⟨front, ⟨_, hb, rfl⟩, hinput⟩
    · exact (recognises_pushBytes 8 i _ j).mpr ⟨front, ⟨_, hb, rfl⟩, hinput⟩
    · nomatch hnil
  | put hcode hid =>
    rcases hcode with _ | ⟨_, _ | ⟨_, hnil⟩⟩
    · exact (recognises_number operandByte UInt8.toNat recognises_operandByte .put i _ j).mpr
        ⟨front, ⟨_, hid, rfl⟩, hinput⟩
    · exact (recognises_withId 4 .put i _ j).mpr ⟨front, ⟨_, hid, rfl⟩, hinput⟩
    · nomatch hnil
  | get hcode hid =>
    rcases hcode with _ | ⟨_, _ | ⟨_, hnil⟩⟩
    · exact (recognises_number operandByte UInt8.toNat recognises_operandByte .get i _ j).mpr
        ⟨front, ⟨_, hid, rfl⟩, hinput⟩
    · exact (recognises_withId 4 .get i _ j).mpr ⟨front, ⟨_, hid, rfl⟩, hinput⟩
    · nomatch hnil
  | _ => exact hbare rfl

/-- Every opcode has its code. -/
theorem Opcode.Spells.eq_cons {behind raw : Bytes} {op : Opcode} (h : op.Spells behind raw) :
    ∃ code front, raw = code :: front := by
  cases h <;> exact ⟨_, _, rfl⟩

theorem Opcode.Spells.length_pos {behind raw : Bytes} {op : Opcode} (h : op.Spells behind raw) :
    0 < raw.length := by
  obtain ⟨code, front, rfl⟩ := h.eq_cons
  exact Nat.succ_pos _

/-- **Reading takes off just what spells an opcode**, in front of what is left. -/
theorem read_eq_ok_iff {i : Input} {op : Opcode} {j : Input} :
    Opcode.read i = .ok (op, j) ↔ ∃ raw, op.Spells j.rest raw ∧ i.rest = raw ++ j.rest ∧
      j.pos = i.pos + raw.length := by
  unfold Opcode.read
  rw [except_bind_eq_ok]
  constructor
  · rintro ⟨⟨code, k⟩, hcode, h⟩
    obtain ⟨_, rfl, hrest, hpos⟩ := (recognises_byte _ i code k).mp hcode
    obtain ⟨front, hspells, hrest', hpos'⟩ := spells_of_operands h
    refine ⟨code :: front, hspells, ?_, ?_⟩
    · rw [hrest, hrest']
      rfl
    · rw [hpos', hpos, List.length_singleton, List.length_cons]
      omega
  · rintro ⟨raw, hspells, hrest, hpos⟩
    obtain ⟨code, front, rfl⟩ := hspells.eq_cons
    refine ⟨(code, ⟨i.pos + 1, front ++ j.rest⟩), ?_, ?_⟩
    · exact (recognises_byte _ i code _).mpr ⟨[code], rfl, hrest, rfl⟩
    · refine operands_of_spells hspells ⟨rfl, ?_⟩
      rw [hpos, List.length_cons]
      show i.pos + (front.length + 1) = i.pos + 1 + front.length
      omega

end SealedStore.Pickle
