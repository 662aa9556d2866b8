/-
  What a checksum tells apart.

  A shift is linear in exclusive or, and a bit that leaves the register at its low end shows at its
  top.  So a difference of two registers never vanishes while both take in the same bytes
  (`register_inj`); and while they take in different bytes, it can only vanish if it was within so
  many low bytes before (`xor_lt_of_register_eq`).  Two byte strings that differ within four bytes
  in a row therefore have different checksums: the register has no more than four.
-/
import Mathlib.Data.Nat.Bitwise
import SealedStore.Codec.Checksum

namespace SealedStore.Checksum

/-! ## Shifts -/

/-- One turn of the register in numbers: it is halved, and the polynomial comes in when the bit that
    falls out is set. -/
theorem toNat_shift (r : UInt32) :
    (shift r).toNat = r.toNat / 2 ^^^ if r.toNat % 2 = 1 then polynomial.toNat else 0 := by
  have hlow : (r &&& 1 == 1) = decide (r.toNat % 2 = 1) := by
    rw [Bool.eq_iff_iff, beq_iff_eq, decide_eq_true_iff, ← UInt32.toNat_inj, UInt32.toNat_and]
    show r.toNat &&& 1 = 1 ↔ _
    rw [Nat.and_one_is_mod]
  have hhalf : (r >>> 1).toNat = r.toNat / 2 := by
    rw [UInt32.toNat_shiftRight]
    exact Nat.shiftRight_one r.toNat
  unfold shift
  rw [hlow]
  by_cases hodd : r.toNat % 2 = 1
  · rw [decide_eq_true hodd, if_pos rfl, if_pos hodd, UInt32.toNat_xor, hhalf]
  · rw [decide_eq_false hodd, if_neg Bool.false_ne_true, if_neg hodd, hhalf, Nat.xor_zero]

/-- **A shift is linear**: the polynomial comes in where just one of the two low bits is set. -/
theorem shift_xor (r s : UInt32) : shift (r ^^^ s) = shift r ^^^ shift s := by
  apply UInt32.toNat_inj.mp
  rw [UInt32.toNat_xor, toNat_shift, toNat_shift, toNat_shift, UInt32.toNat_xor, Nat.xor_div_two]
  have hodd := @Nat.xor_mod_two_eq_one r.toNat s.toNat
  generalize r.toNat / 2 = x
  generalize s.toNat / 2 = y
  generalize polynomial.toNat = p
  by_cases hr : r.toNat % 2 = 1
  · by_cases hs : s.toNat % 2 = 1
    · have hboth : ¬ (r.toNat ^^^ s.toNat) % 2 = 1 := by omega
      rw [if_neg hboth, if_pos hr, if_pos hs, Nat.xor_zero, Nat.xor_assoc x p,
        Nat.xor_left_comm p y p, Nat.xor_self, Nat.xor_zero]
    · have hone : (r.toNat ^^^ s.toNat) % 2 = 1 := by omega
      rw [if_pos hone, if_pos hr, if_neg hs, Nat.xor_zero, Nat.xor_assoc, Nat.xor_assoc,
        Nat.xor_comm y p]
  · by_cases hs : s.toNat % 2 = 1
    · have hone : (r.toNat ^^^ s.toNat) % 2 = 1 := by omega
      rw [if_pos hone, if_neg hr, if_pos hs, Nat.xor_zero, Nat.xor_assoc]
    · have hnone : ¬ (r.toNat ^^^ s.toNat) % 2 = 1 := by omega
      rw [if_neg hnone, if_neg hr, if_neg hs, Nat.xor_zero, Nat.xor_zero, Nat.xor_zero]

/-- The polynomial has its top bit set, so the top bit after a shift is the low bit before it.  If
    that is clear the shift has just halved the register. -/
theorem toNat_eq_of_shift_lt {d : UInt32} (h : (shift d).toNat < 2 ^ 31) :
    d.toNat = 2 * (shift d).toNat := by
  have hd := d.toNat_lt
  rw [toNat_shift] at h ⊢
  by_cases hodd : d.toNat % 2 = 1
  · exfalso
    rw [if_pos hodd] at h
    have hhalf : (d.toNat / 2).testBit 31 = false := Nat.testBit_lt_two_pow (by omega)
    have hpolynomial : polynomial.toNat.testBit 31 = true := by decide
    have htop : (d.toNat / 2 ^^^ polynomial.toNat).testBit 31 = true := by
      rw [Nat.testBit_xor, hhalf, hpolynomial]
      rfl
    exact absurd h (Nat.not_lt.mpr (Nat.ge_two_pow_of_testBit htop))
  · rw [if_neg hodd, Nat.xor_zero]
    omega

/-- A turn loses nothing: the bit that falls out is seen again in the top bit of the polynomial. -/
theorem shift_injective : Function.Injective shift := by
  intro r s h
  have hzero : shift (r ^^^ s) = 0 := by rw [shift_xor, h, UInt32.xor_self]
  have hnat := toNat_eq_of_shift_lt (d := r ^^^ s) (by rw [hzero]; decide)
  rw [hzero] at hnat
  exact UInt32.xor_eq_zero_iff.mp (UInt32.toNat_inj.mp hnat)

theorem iterate_shift_xor (n : Nat) (r s : UInt32) :
    shift^[n] (r ^^^ s) = shift^[n] r ^^^ shift^[n] s := by
  induction n generalizing r s with
  | zero => rfl
  | succ n ih =>
    rw [Function.iterate_succ_apply, Function.iterate_succ_apply, Function.iterate_succ_apply,
      shift_xor, ih]

/-- If the upper `n` bits are clear after as many shifts, the lower ones were so before. -/
theorem toNat_eq_of_iterate_lt {n : Nat} (hn : n ≤ 32) {d : UInt32}
    (h : (shift^[n] d).toNat < 2 ^ (32 - n)) : d.toNat = 2 ^ n * (shift^[n] d).toNat := by
  induction n generalizing d with
  | zero =>
    show d.toNat = 1 * d.toNat
    omega
  | succ n ih =>
    rw [Function.iterate_succ_apply] at h ⊢
    have hpow : 2 ^ (32 - n) = 2 * 2 ^ (32 - (n + 1)) := by
      rw [← Nat.pow_succ']
      congr 1
      omega
    have hrest := ih (by omega) (d := shift d) (by omega)
    have hhalf : (shift d).toNat < 2 ^ 31 := by
      calc (shift d).toNat = 2 ^ n * (shift^[n] (shift d)).toNat := hrest
        _ < 2 ^ n * 2 ^ (32 - (n + 1)) := Nat.mul_lt_mul_of_pos_left h (Nat.two_pow_pos n)
        _ = 2 ^ 31 := by
          rw [← Nat.pow_add]
          congr 1
          omega
    rw [toNat_eq_of_shift_lt hhalf, Nat.pow_succ', Nat.mul_assoc, ← hrest]

/-! ## Bytes -/

theorem update_eq (r : UInt32) (b : UInt8) : update r b = shift^[8] (r ^^^ b.toUInt32) := rfl

theorem toNat_xor_bytes_lt (b c : UInt8) : (b.toUInt32 ^^^ c.toUInt32).toNat < 256 := by
  rw [UInt32.toNat_xor, UInt8.toNat_toUInt32, UInt8.toNat_toUInt32]
  exact Nat.xor_lt_two_pow (n := 8) b.toNat_lt c.toNat_lt

/-- The difference of two registers, once both have taken in a byte. -/
theorem update_xor_update (r s : UInt32) (b c : UInt8) :
    update r b ^^^ update s c = shift^[8] ((r ^^^ s) ^^^ (b.toUInt32 ^^^ c.toUInt32)) := by
  rw [update_eq, update_eq, ← iterate_shift_xor]
  congr 1
  rw [UInt32.xor_assoc, UInt32.xor_assoc, ← UInt32.xor_assoc b.toUInt32,
    ← UInt32.xor_assoc s, UInt32.xor_comm b.toUInt32 s]

/-- A small difference of registers was a multiple of 256 before both took in a byte, apart from
    the difference of the bytes. -/
theorem toNat_xor_of_update_lt {r s : UInt32} {b c : UInt8}
    (h : (update r b ^^^ update s c).toNat < 2 ^ 24) :
    ((r ^^^ s) ^^^ (b.toUInt32 ^^^ c.toUInt32)).toNat =
      256 * (update r b ^^^ update s c).toNat := by
  rw [update_xor_update] at h ⊢
  exact toNat_eq_of_iterate_lt (by decide) h

theorem update_inj {r s : UInt32} {b : UInt8} (h : update r b = update s b) : r = s :=
  (UInt32.xor_left_inj b.toUInt32).mp (shift_injective.iterate 8 h)

/-- **Different registers stay different** over the same bytes. -/
theorem register_inj {r s : UInt32} {bytes : Bytes} (h : register r bytes = register s bytes) :
    r = s := by
  induction bytes generalizing r s with
  | nil => exact h
  | cons b bytes ih => exact update_inj (ih h)

/-- Registers that become the same over `n` bytes differ in their low `n` bytes only. -/
theorem xor_lt_of_register_eq {r s : UInt32} {w w' : Bytes} (hlen : w'.length = w.length)
    (hshort : w.length ≤ 4) (h : register r w = register s w') :
    (r ^^^ s).toNat < 2 ^ (8 * w.length) := by
  induction w generalizing r s w' with
  | nil =>
    obtain rfl := List.eq_nil_of_length_eq_zero hlen
    obtain rfl : r = s := h
    rw [UInt32.xor_self]
    decide
  | cons b w ih =>
    cases w' with
    | nil => nomatch hlen
    | cons c w' =>
      rw [List.length_cons] at hshort ⊢
      have hafter := ih (Nat.succ.inj hlen) (by omega) h
      have hsmall : 2 ^ (8 * w.length) ≤ 2 ^ 24 := Nat.pow_le_pow_right (by decide) (by omega)
      have hbefore := toNat_xor_of_update_lt (Nat.lt_of_lt_of_le hafter hsmall)
      have hpow : 2 ^ (8 * (w.length + 1)) = 256 * 2 ^ (8 * w.length) := by
        rw [Nat.mul_succ, Nat.add_comm, Nat.pow_add]
      -- the bytes that come in change no more than the lowest byte of the difference
      have hbytes : (b.toUInt32 ^^^ c.toUInt32).toNat < 2 ^ (8 * (w.length + 1)) := by
        have := toNat_xor_bytes_lt b c
        have := Nat.two_pow_pos (8 * w.length)
        omega
      have hboth : ((r ^^^ s) ^^^ (b.toUInt32 ^^^ c.toUInt32)).toNat <
          2 ^ (8 * (w.length + 1)) := by
        rw [hbefore, hpow]
        omega
      have hcancel : r ^^^ s = ((r ^^^ s) ^^^ (b.toUInt32 ^^^ c.toUInt32)) ^^^
          (b.toUInt32 ^^^ c.toUInt32) := by
        rw [UInt32.xor_assoc (r ^^^ s), UInt32.xor_self, UInt32.xor_zero]
      rw [hcancel, UInt32.toNat_xor]
      exact Nat.xor_lt_two_pow hboth hbytes

/-- **Up to four bytes are known from the registers** before and after them. -/
theorem eq_of_register_eq {r : UInt32} {w w' : Bytes} (hlen : w'.length = w.length)
    (hshort : w.length ≤ 4) (h : register r w = register r w') : w = w' := by
  induction w generalizing r w' with
  | nil => exact (List.eq_nil_of_length_eq_zero hlen).symm
  | cons b w ih =>
    cases w' with
    | nil => nomatch hlen
    | cons c w' =>
      rw [List.length_cons] at hshort
      have hafter := xor_lt_of_register_eq (Nat.succ.inj hlen) (by omega) h
      have hsmall : 2 ^ (8 * w.length) ≤ 2 ^ 24 := Nat.pow_le_pow_right (by decide) (by omega)
      have hbefore := toNat_xor_of_update_lt (Nat.lt_of_lt_of_le hafter hsmall)
      -- the first bytes differ by a multiple of 256, so they are the same
      have hbytes := toNat_xor_bytes_lt b c
      rw [UInt32.xor_self, UInt32.zero_xor] at hbefore
      have hzero : (b.toUInt32 ^^^ c.toUInt32).toNat = (0 : UInt32).toNat := by
        show _ = 0
        omega
      have hsame := UInt32.xor_eq_zero_iff.mp (UInt32.toNat_inj.mp hzero)
      obtain rfl : b = c := by
        apply UInt8.toNat_inj.mp
        rw [← UInt8.toNat_toUInt32, hsame, UInt8.toNat_toUInt32]
      rw [ih (Nat.succ.inj hlen) (by omega) h]

theorem register_append (r : UInt32) (front back : Bytes) :
    register r (front ++ back) = register (register r front) back :=
  List.foldl_append

/-- **A checksum notices a change of up to four bytes in a row.** -/
theorem crc32_ne_of_burst (front back : Bytes) {w w' : Bytes} (hlen : w'.length = w.length)
    (hshort : w.length ≤ 4) (hne : w' ≠ w) :
    crc32 (front ++ w' ++ back) ≠ crc32 (front ++ w ++ back) := by
  intro h
  have hregister := (UInt32.xor_left_inj 0xFFFFFFFF).mp h
  rw [register_append, register_append, register_append, register_append] at hregister
  exact hne (eq_of_register_eq hlen hshort (register_inj hregister).symm).symm

end SealedStore.Checksum
