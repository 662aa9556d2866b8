/-
  Numbers as bytes, in both directions.

  `Bytes.bigEndian w` writes the low `w` bytes of a number and `Bytes.ofBigEndian` reads bytes
  back.  Between the numbers below `256 ^ w` and the byte strings of length `w` the two are
  inverse to each other: `ofBigEndian_bigEndian` and `bigEndian_ofBigEndian`.
-/
import Mathlib.Algebra.Order.Ring.Int
import SealedStore.Bytes

namespace SealedStore.Bytes

/-! ## Bytes as digits -/

theorem toNat_toUInt8 {n : Nat} (h : n < 256) : n.toUInt8.toNat = n := by
  rw [Nat.toUInt8, UInt8.toNat_ofNat']
  exact Nat.mod_eq_of_lt h

theorem toUInt8_toNat (b : UInt8) : b.toNat.toUInt8 = b :=
  UInt8.toNat_inj.mp (toNat_toUInt8 b.toNat_lt)

theorem toUInt8_mod (n : Nat) : (n % 256).toUInt8 = n.toUInt8 := by
  apply UInt8.toNat_inj.mp
  show (UInt8.ofNat (n % 256)).toNat = (UInt8.ofNat n).toNat
  rw [UInt8.toNat_ofNat', UInt8.toNat_ofNat']
  omega

/-! ## Most significant byte first -/

@[simp] theorem length_bigEndian (w n : Nat) : (bigEndian w n).length = w := by
  induction w with
  | zero => rfl
  | succ w ih => rw [bigEndian, List.length_cons, ih]

/-- What is read from written bytes, after digits that were read before them. -/
theorem foldl_bigEndian (w n acc : Nat) :
    (bigEndian w n).foldl (fun n b => 256 * n + b.toNat) acc = acc * 256 ^ w + n % 256 ^ w := by
  induction w generalizing acc with
  | zero => simp [bigEndian, Nat.mod_one]
  | succ w ih =>
    have hdigit : (n / 256 ^ w).toUInt8.toNat = n / 256 ^ w % 256 := by
      rw [Nat.toUInt8, UInt8.toNat_ofNat']
    have hsplit : n % 256 ^ (w + 1) = n % 256 ^ w + 256 ^ w * (n / 256 ^ w % 256) := by
      rw [Nat.pow_succ, Nat.mod_mul]
    rw [bigEndian, List.foldl_cons, ih, Nat.pow_eq, hdigit, hsplit, Nat.pow_succ]
    rw [Nat.add_mul, Nat.mul_comm 256 acc, Nat.mul_assoc, Nat.mul_comm 256 (256 ^ w),
      Nat.mul_comm (n / 256 ^ w % 256)]
    omega

theorem ofBigEndian_bigEndian {w n : Nat} (h : n < 256 ^ w) :
    ofBigEndian (bigEndian w n) = n := by
  rw [ofBigEndian, foldl_bigEndian, Nat.zero_mul, Nat.zero_add, Nat.mod_eq_of_lt h]

/-- The digits read so far are shifted by those still to come. -/
theorem foldl_digits (raw : Bytes) (acc : Nat) :
    raw.foldl (fun n b => 256 * n + b.toNat) acc = acc * 256 ^ raw.length + ofBigEndian raw := by
  induction raw generalizing acc with
  | nil => simp [ofBigEndian]
  | cons b raw ih =>
    have hzero : ofBigEndian (b :: raw) = b.toNat * 256 ^ raw.length + ofBigEndian raw := by
      rw [ofBigEndian, List.foldl_cons, ih, Nat.mul_zero, Nat.zero_add]
    rw [List.foldl_cons, ih, hzero, List.length_cons, Nat.pow_succ, Nat.add_mul]
    rw [Nat.mul_comm 256 acc, Nat.mul_assoc, Nat.mul_comm 256 (256 ^ raw.length), Nat.add_assoc]

theorem ofBigEndian_cons (b : UInt8) (raw : Bytes) :
    ofBigEndian (b :: raw) = b.toNat * 256 ^ raw.length + ofBigEndian raw := by
  rw [ofBigEndian, List.foldl_cons, foldl_digits, Nat.mul_zero, Nat.zero_add]

theorem ofBigEndian_lt (raw : Bytes) : ofBigEndian raw < 256 ^ raw.length := by
  induction raw with
  | nil => simp [ofBigEndian]
  | cons b raw ih =>
    have hb : (b.toNat + 1) * 256 ^ raw.length ≤ 256 * 256 ^ raw.length :=
      Nat.mul_le_mul_right _ b.toNat_lt
    rw [ofBigEndian_cons, List.length_cons, Nat.pow_succ, Nat.mul_comm _ 256]
    rw [Nat.add_mul, Nat.one_mul] at hb
    omega

/-- Bytes above the ones written do not matter. -/
theorem bigEndian_add_mul (w n high : Nat) :
    bigEndian w (high * 256 ^ w + n) = bigEndian w n := by
  induction w generalizing high n with
  | zero => rfl
  | succ w ih =>
    have hpow : high * 256 ^ (w + 1) = high * 256 * 256 ^ w := by
      rw [Nat.pow_succ, Nat.mul_comm (256 ^ w), Nat.mul_assoc]
    -- what is above adds a multiple of 256 to the first digit
    have hdiv : (high * 256 * 256 ^ w + n) / 256 ^ w = n / 256 ^ w + high * 256 := by
      rw [Nat.add_comm, Nat.add_mul_div_right _ _ (Nat.pow_pos (by omega))]
    rw [bigEndian, bigEndian, hpow, ih, Nat.pow_eq, hdiv]
    congr 1
    rw [← toUInt8_mod, Nat.add_mul_mod_self_right, toUInt8_mod]

/-- Digits are those of their number. -/
theorem bigEndian_ofBigEndian (raw : Bytes) : bigEndian raw.length (ofBigEndian raw) = raw := by
  induction raw with
  | nil => rfl
  | cons b raw ih =>
    have hdiv : (b.toNat * 256 ^ raw.length + ofBigEndian raw) / 256 ^ raw.length = b.toNat := by
      rw [Nat.add_comm, Nat.add_mul_div_right _ _ (Nat.pow_pos (by omega)),
        Nat.div_eq_of_lt (ofBigEndian_lt raw), Nat.zero_add]
    rw [List.length_cons, bigEndian, ofBigEndian_cons, Nat.pow_eq, hdiv, bigEndian_add_mul, ih,
      toUInt8_toNat]

end SealedStore.Bytes
