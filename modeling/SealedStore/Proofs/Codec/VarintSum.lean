/-
  Varints as sums.

  A byte string begins with a number when all of a few first bytes but the last have the top bit
  set, and then the number is the sum of their lower seven bits, each byte counting 128 times as
  much as the one before it (`Begins`).  The sum is that of exact numbers: what does not fit into
  64 bits is no number, however the bits of a sum that wraps around might look.

  `Groups` says the same byte by byte, from the front; `groups_take_iff` joins the two.
-/
import Mathlib.Algebra.BigOperators.Ring.Finset
import SealedStore.Codec.Payload
import SealedStore.Proofs.Codec.Varint

namespace SealedStore.Varint

open Finset

/-! ## Sums -/

/-- The sum of the lower seven bits of the first `k` bytes, each 128 times as much as the one before
    it. -/
def groupSum (d : Bytes) (k : Nat) : Nat :=
  ∑ i ∈ range k, (d.getD i 0).toNat % 128 * 128 ^ i

/-- The first `k` bytes are a number of 64 bits. -/
structure Begins (d : Bytes) (n k : Nat) : Prop where
  pos : 1 ≤ k
  short : k ≤ min 10 d.length
  /-- The top bit is set in every byte but the last. -/
  more : ∀ i, i + 1 < k → 128 ≤ (d.getD i 0).toNat
  last : (d.getD (k - 1) 0).toNat < 128
  sum : groupSum d k = n
  small : n < 2 ^ 64

variable {d rest raw : Bytes} {b : UInt8} {n k : Nat}

/-- A byte in front moves the sum of the others up by seven bits. -/
theorem groupSum_cons (b : UInt8) (rest : Bytes) (k : Nat) :
    groupSum (b :: rest) (k + 1) = b.toNat % 128 + 128 * groupSum rest k := by
  have hshift : ∀ i ∈ range k, ((b :: rest).getD (i + 1) 0).toNat % 128 * 128 ^ (i + 1) =
      128 * ((rest.getD i 0).toNat % 128 * 128 ^ i) := by
    intro i _
    rw [List.getD_cons_succ, Nat.pow_succ, ← Nat.mul_assoc, Nat.mul_comm]
  calc groupSum (b :: rest) (k + 1)
      = ∑ i ∈ range k, ((b :: rest).getD (i + 1) 0).toNat % 128 * 128 ^ (i + 1) +
          ((b :: rest).getD 0 0).toNat % 128 * 128 ^ 0 := sum_range_succ' _ k
    _ = 128 * groupSum rest k + b.toNat % 128 := by
        rw [sum_congr rfl hshift, ← mul_sum, Nat.pow_zero, Nat.mul_one, List.getD_cons_zero]
        rfl
    _ = b.toNat % 128 + 128 * groupSum rest k := Nat.add_comm _ _

theorem not_groups_nil : ¬ Groups [] n := by
  intro h
  nomatch h.length_pos

/-- Groups are one byte without the top bit, or a byte with it and more groups. -/
theorem groups_cons_iff : Groups (b :: rest) n ↔
    (rest = [] ∧ b.toNat < 128 ∧ n = b.toNat) ∨
      (128 ≤ b.toNat ∧ ∃ m, Groups rest m ∧ n = b.toNat % 128 + 128 * m) := by
  constructor
  · intro h
    cases h with
    | last hlast => exact .inl ⟨rfl, hlast, rfl⟩
    | more hmore hrest => exact .inr ⟨hmore, _, hrest, rfl⟩
  · rintro (⟨rfl, hlast, rfl⟩ | ⟨hmore, m, hrest, rfl⟩)
    · exact .last hlast
    · exact .more hmore hrest

/-- **Groups are added up.** -/
theorem groups_take_iff (h : k ≤ d.length) : Groups (d.take k) n ↔
    1 ≤ k ∧ (∀ i, i + 1 < k → 128 ≤ (d.getD i 0).toNat) ∧ (d.getD (k - 1) 0).toNat < 128 ∧
      groupSum d k = n := by
  induction d generalizing k n with
  | nil =>
    obtain rfl := Nat.le_zero.mp h
    exact ⟨fun hgroups => absurd hgroups not_groups_nil, fun hk => nomatch hk.1⟩
  | cons b rest ih =>
    match k, h with
    | 0, _ => exact ⟨fun hgroups => absurd hgroups not_groups_nil, fun hk => nomatch hk.1⟩
    | 1, _ =>
      have hsum : groupSum (b :: rest) 1 = b.toNat % 128 := groupSum_cons b rest 0
      rw [List.take_succ_cons, List.take_zero, groups_cons_iff, hsum]
      constructor
      · rintro (⟨-, hlast, rfl⟩ | ⟨-, m, hnil, -⟩)
        · exact ⟨Nat.le_refl 1, fun i hi => by omega, hlast, Nat.mod_eq_of_lt hlast⟩
        · exact absurd hnil not_groups_nil
      · rintro ⟨-, -, hlast, rfl⟩
        exact .inl ⟨rfl, hlast, Nat.mod_eq_of_lt hlast⟩
    | k + 2, h =>
      have hk : k + 1 ≤ rest.length := Nat.le_of_succ_le_succ h
      have hne : rest.take (k + 1) ≠ [] := by
        rw [← List.length_pos_iff, List.length_take]
        omega
      rw [List.take_succ_cons, groups_cons_iff, groupSum_cons, or_iff_right fun hnil => hne hnil.1]
      constructor
      · rintro ⟨hmore, m, hrest, rfl⟩
        obtain ⟨-, hbytes, hlast, rfl⟩ := (ih hk).mp hrest
        refine ⟨by omega, ?_, hlast, rfl⟩
        intro i hi
        cases i with
        | zero => exact hmore
        | succ i => exact hbytes i (by omega)
      · rintro ⟨-, hbytes, hlast, rfl⟩
        refine ⟨hbytes 0 (by omega), groupSum rest (k + 1), ?_, rfl⟩
        exact (ih hk).mpr ⟨by omega, fun i hi => hbytes (i + 1) (by omega), hlast, rfl⟩

/-! ## Reading -/

/-- **Reading finds the number that the bytes begin with.** -/
theorem decode_eq_ok_iff_begins : decode d = .ok (n, k) ↔ Begins d n k := by
  rw [decode_eq_ok_iff]
  constructor
  · rintro ⟨front, back, rfl, rfl, hgroups, hshort, hsmall⟩
    have hwithin : front.length ≤ (front ++ back).length := by
      rw [List.length_append]
      exact Nat.le_add_right _ _
    have htake : (front ++ back).take front.length = front := List.take_left
    rw [← htake] at hgroups
    obtain ⟨hpos, hmore, hlast, hsum⟩ := (groups_take_iff hwithin).mp hgroups
    exact ⟨hpos, Nat.le_min.mpr ⟨hshort, hwithin⟩, hmore, hlast, hsum, hsmall⟩
  · intro h
    obtain ⟨hten, hwithin⟩ := Nat.le_min.mp h.short
    have hlen : (d.take k).length = k := List.length_take_of_le hwithin
    refine ⟨d.take k, d.drop k, (List.take_append_drop k d).symm, hlen, ?_, ?_, h.small⟩
    · exact (groups_take_iff hwithin).mpr ⟨h.pos, h.more, h.last, h.sum⟩
    · rwa [hlen]

/-- The reader of payloads takes off what is decoded, and knows its position. -/
theorem varint_eq_ok_iff {o : Nat} :
    Payload.varint ⟨o, d⟩ = .ok (n, ⟨o + k, d.drop k⟩) ↔ decode d = .ok (n, k) := by
  unfold Payload.varint
  cases hdecode : decode d with
  | error fault =>
    constructor
    · intro h
      nomatch h
    · intro h
      nomatch h
  | ok found =>
    obtain ⟨m, length⟩ := found
    constructor
    · intro h
      obtain ⟨rfl, hinput⟩ := Prod.mk.inj (Except.ok.inj h)
      obtain rfl : length = k := Nat.add_left_cancel (Input.mk.inj hinput).1
      rfl
    · intro h
      obtain ⟨rfl, rfl⟩ := Prod.mk.inj (Except.ok.inj h)
      rfl

theorem varint_eq_error {fault : Fault} (h : decode d = .error fault) (o : Nat) :
    Payload.varint ⟨o, d⟩ = .error (.corrupt o (Payload.varintCause fault)) := by
  simp only [Payload.varint, h]

/-- What is read whole is no shorter than what is written, and the same if it is as short. -/
theorem length_encode_le (h : decode d = .ok (n, k)) :
    (encode n).length ≤ k ∧ (k = (encode n).length → d.take k = encode n) := by
  obtain ⟨front, back, rfl, rfl, hdenotes⟩ := decode_eq_ok_iff.mp h
  rw [List.take_left]
  rcases hdenotes.eq_or_lt with heq | hlt
  · rw [heq]
    exact ⟨Nat.le_refl _, fun _ => rfl⟩
  · exact ⟨Nat.le_of_lt hlt, fun hlen => absurd hlen (Nat.ne_of_gt hlt)⟩

/-- **Varints and their bytes**: what is read, what is refused, what is written, and how signed
    numbers are numbered. -/
theorem varints_read_and_written :
    (∀ (d : Bytes) (o : Nat),
      (∀ n k, Payload.varint ⟨o, d⟩ = .ok (n, ⟨o + k, d.drop k⟩) ↔ Begins d n k) ∧
      ((¬ ∃ n k, Begins d n k) → ∃ cause, Payload.varint ⟨o, d⟩ = .error (.corrupt o cause))) ∧
    (∀ n : UInt64,
      (∀ (t : Bytes) (o : Nat), Payload.varint ⟨o, encode n.toNat ++ t⟩ =
        .ok (n.toNat, ⟨o + (encode n.toNat).length, t⟩)) ∧
      ∀ d k, Begins d n.toNat k →
        (encode n.toNat).length ≤ k ∧ (k = (encode n.toNat).length → d.take k = encode n.toNat)) ∧
    (∀ i : Int64, zigzag i < 2 ^ 64 ∧ unzigzag (zigzag i) = i) ∧
    ∀ z : UInt64, zigzag (unzigzag z.toNat) = z.toNat := by
  refine ⟨fun d o => ⟨fun n k => ?_, fun hnone => ?_⟩, fun n => ⟨fun t o => ?_, fun d k h => ?_⟩,
    fun i => ⟨zigzag_lt i, unzigzag_zigzag i⟩, fun z => zigzag_unzigzag z.toNat_lt⟩
  · rw [varint_eq_ok_iff, decode_eq_ok_iff_begins]
  · cases hdecode : decode d with
    | error fault => exact ⟨_, varint_eq_error hdecode o⟩
    | ok found => exact absurd ⟨_, _, decode_eq_ok_iff_begins.mp hdecode⟩ hnone
  · have hdecode : decode (encode n.toNat ++ t) = .ok (n.toNat, (encode n.toNat).length) :=
      decode_eq_ok_iff.mpr ⟨_, t, rfl, rfl, denotes_encode n.toNat_lt⟩
    have hread := varint_eq_ok_iff (o := o).mpr hdecode
    rwa [List.drop_left] at hread
  · exact length_encode_le (decode_eq_ok_iff_begins.mpr h)

/-- A number with a group too many, which is read but not written, and ten groups with seven bits in
    the last one, of which there is room for one. -/
theorem padded_read_and_overflow_refused :
    let padded : Bytes := [0x85, 0x00]
    let full : Bytes := List.replicate 9 0x80 ++ [0x7F]
    Begins padded 5 2 ∧ Payload.varint ⟨3, padded⟩ = .ok (5, ⟨3 + 2, []⟩) ∧
      (encode 5).length = 1 ∧ (encode 5).length ≤ 2 ∧
      (¬ ∃ n k, Begins full n k) ∧
      ∃ cause, Payload.varint ⟨3, full⟩ = .error (.corrupt 3 cause) := by
  intro padded full
  obtain ⟨hread, hwritten, -⟩ := varints_read_and_written
  have hpadded : Begins padded 5 2 := decode_eq_ok_iff_begins.mp rfl
  have hdecode : decode full = .error .overflow := rfl
  have hnone : ¬ ∃ n k, Begins full n k := by
    rintro ⟨n, k, hbegins⟩
    nomatch hdecode.symm.trans (decode_eq_ok_iff_begins.mpr hbegins)
  refine ⟨hpadded, ((hread padded 3).1 5 2).mpr hpadded, rfl, ?_, hnone, (hread full 3).2 hnone⟩
  exact ((hwritten 5).2 padded 2 hpadded).1

end SealedStore.Varint
