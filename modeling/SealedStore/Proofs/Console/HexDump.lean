/-
  Dumps of bytes, column by column.

  Every line begins with the offset of its first byte, and then has its bytes twice: by pairs of
  digits in forty columns, and one character for each from column 51 on (`IsLine`).  The columns
  stay where they are as long as an offset has eight digits, so the digits of all lines together
  are read back as the bytes.

  Digits are compared with those of the standard library, filled up with zeros: `hexFixed` finds
  each digit by itself, the most significant one first, and the library divides from the other end.
-/
import Mathlib.Data.List.Forall2
import SealedStore.Console.HexDump
import SealedStore.Proofs.Endian
import SealedStore.Proofs.Text.Literal

namespace SealedStore

/-! ## Digits -/

namespace Bytes

theorem hexDigit_eq_digitChar : ∀ n < 16, hexDigit n = Nat.digitChar n := by decide

theorem length_hexFixed (width n : Nat) : (hexFixed width n).length = width := by
  induction width with
  | zero => rfl
  | succ width ih => rw [hexFixed, List.length_cons, ih]

theorem hexFixed_zero (width : Nat) : hexFixed width 0 = List.replicate width '0' := by
  induction width with
  | zero => rfl
  | succ width ih =>
    rw [hexFixed, ih, Nat.zero_div, List.replicate_succ]
    rfl

/-- The last digit may be taken off instead of the first. -/
theorem hexFixed_succ (width n : Nat) :
    hexFixed (width + 1) n = hexFixed width (n / 16) ++ [hexDigit (n % 16)] := by
  induction width with
  | zero =>
    show [hexDigit (n / 1 % 16)] = _
    rw [Nat.div_one]
    rfl
  | succ width ih =>
    have hfirst : n / Nat.pow 16 (width + 1) = n / 16 / Nat.pow 16 width := by
      rw [Nat.div_div_eq_div_mul]
      exact congrArg (n / ·) (Nat.pow_succ'.trans rfl)
    rw [hexFixed, ih, hfirst]
    rfl

/-- **Digits of a fixed number** are the digits of the number behind zeros. -/
theorem hexFixed_eq_leftpad {width n : Nat} (hwidth : 0 < width) (h : n < 16 ^ width) :
    hexFixed width n = (Nat.toDigits 16 n).leftpad width '0' := by
  induction width generalizing n with
  | zero => exact absurd hwidth (Nat.lt_irrefl 0)
  | succ width ih =>
    rw [hexFixed_succ, hexDigit_eq_digitChar _ (Nat.mod_lt n (by decide))]
    rcases Nat.lt_or_ge n 16 with hsmall | hlarge
    · rw [Nat.toDigits_of_lt_base hsmall, Nat.div_eq_of_lt hsmall, Nat.mod_eq_of_lt hsmall,
        hexFixed_zero]
      rfl
    · -- there is a digit in front of the last one, so there is room for it
      have hroom : 0 < width := by
        rcases Nat.eq_zero_or_pos width with rfl | hpos
        · exact absurd hlarge (Nat.not_le.mpr h)
        · exact hpos
      have hdiv : n / 16 < 16 ^ width :=
        Nat.div_lt_of_lt_mul (by rwa [Nat.mul_comm, ← Nat.pow_succ])
      rw [ih hroom hdiv, Nat.toDigits_of_base_le (by decide) hlarge, List.leftpad, List.leftpad,
        List.length_append, List.length_singleton, Nat.add_sub_add_right, List.append_assoc]

/-- The bytes that digits spell, two digits for each. -/
def ofHex? : List Char → Option Bytes
  | [] => some []
  | [_] => none
  | high :: low :: rest => do
    let a ← Json.hexValue? high
    let b ← Json.hexValue? low
    let bytes ← ofHex? rest
    some ((16 * a + b).toUInt8 :: bytes)

theorem ofHex?_flatMap_hexByte (bytes : Bytes) : ofHex? (bytes.flatMap hexByte) = some bytes := by
  induction bytes with
  | nil => rfl
  | cons b bytes ih =>
    obtain ⟨high, low, x, y, hdigits, hhigh, hlow, hsum⟩ := Literal.hexFixed_two b.toNat_lt
    rw [List.flatMap_cons, hexByte, hdigits]
    show ofHex? (high :: low :: bytes.flatMap hexByte) = _
    simp only [ofHex?, hhigh, hlow, ih, hsum, Option.bind_eq_bind, Option.bind_some]
    rw [toUInt8_toNat]

theorem hexByte_eq_leftpad (b : UInt8) : hexByte b = (Nat.toDigits 16 b.toNat).leftpad 2 '0' :=
  hexFixed_eq_leftpad (by decide) b.toNat_lt

theorem space_not_mem_hexFixed (width n : Nat) : ' ' ∉ hexFixed width n := by
  have hdigit : ∀ d < 16, ' ' ≠ hexDigit d := by decide
  induction width with
  | zero => exact List.not_mem_nil
  | succ width ih =>
    rw [hexFixed, List.mem_cons, not_or]
    exact ⟨hdigit _ (Nat.mod_lt _ (by decide)), ih⟩

end Bytes

/-! ## Lines -/

namespace HexDump

/-- A printable byte is shown as it is, and any other as a dot. -/
def Shows (b : UInt8) (c : Char) : Prop :=
  if 0x20 ≤ b.toNat ∧ b.toNat ≤ 0x7E then c.toNat = b.toNat else c = '.'

/-- The digits in the columns for pairs of bytes. -/
def digits (line : List Char) : List Char := ((line.drop 10).take 40).filter (· != ' ')

/-- The columns of a line that shows bytes from an offset on. -/
structure IsLine (offset : Nat) (bytes : Bytes) (line : List Char) : Prop where
  offset : line.take 10 = (Nat.toDigits 16 offset).leftpad 8 '0' ++ [':', ' ']
  digits : digits line = bytes.flatMap fun b => (Nat.toDigits 16 b.toNat).leftpad 2 '0'
  gap : (line.drop 50).head? = some ' '
  text : List.Forall₂ Shows bytes (line.drop 51)

/-- A character of ASCII is shown by itself, any other byte by a dot. -/
theorem shows_printable (b : UInt8) : Shows b (printable b) := by
  have hrange : (decide (0x20 ≤ b) && decide (b ≤ 0x7E)) = true ↔
      0x20 ≤ b.toNat ∧ b.toNat ≤ 0x7E := by
    rw [Bool.and_eq_true, decide_eq_true_iff, decide_eq_true_iff, UInt8.le_iff_toNat_le,
      UInt8.le_iff_toNat_le]
    rfl
  unfold Shows printable
  by_cases h : 0x20 ≤ b.toNat ∧ b.toNat ≤ 0x7E
  · rw [if_pos h, if_pos (hrange.mpr h)]
    exact Literal.toNat_charOf_byte b
  · rw [if_neg h, if_neg fun hp => h (hrange.mp hp)]

/-- Two digits for each byte, and a blank behind every second one. -/
theorem length_pairs (bytes : Bytes) :
    (pairs bytes).length = 2 * bytes.length + bytes.length / 2 := by
  induction bytes using pairs.induct with
  | case1 => rfl
  | case2 b => rw [pairs, Bytes.hexByte, Bytes.length_hexFixed, List.length_singleton]
  | case3 b c rest ih =>
    have hb := Bytes.length_hexFixed 2 b.toNat
    have hc := Bytes.length_hexFixed 2 c.toNat
    simp only [pairs, List.length_append, List.length_cons, Bytes.hexByte, hb, hc, ih]
    omega

theorem filter_hexByte (b : UInt8) : (Bytes.hexByte b).filter (· != ' ') = Bytes.hexByte b := by
  rw [List.filter_eq_self]
  intro c hc
  have hne : c ≠ ' ' := fun heq => Bytes.space_not_mem_hexFixed 2 b.toNat (heq ▸ hc)
  simpa using hne

/-- Between the digits there are spaces only. -/
theorem filter_pairs (bytes : Bytes) :
    (pairs bytes).filter (· != ' ') = bytes.flatMap Bytes.hexByte := by
  induction bytes using pairs.induct with
  | case1 => rfl
  | case2 b => rw [pairs, filter_hexByte, List.flatMap_singleton]
  | case3 b c rest ih =>
    rw [pairs, List.filter_append, List.filter_append, filter_hexByte, filter_hexByte,
      List.filter_cons, ih, List.flatMap_cons, List.flatMap_cons, List.append_assoc]
    rfl

theorem length_padded {width : Nat} {cs : List Char} (h : cs.length ≤ width) :
    (padded width cs).length = width := by
  rw [padded, List.length_append, List.length_replicate]
  omega

theorem filter_padded (width : Nat) (cs : List Char) :
    (padded width cs).filter (· != ' ') = cs.filter (· != ' ') := by
  rw [padded, List.filter_append, List.filter_replicate_of_neg, List.append_nil]
  decide

section
variable {offset : Nat} {bytes : Bytes}

/-- The parts of a row that have fixed widths. -/
theorem row_eq (hoffset : offset < 2 ^ 32) (hlen : bytes.length ≤ 16) :
    ∃ front middle, row offset bytes = front ++ (middle ++ ' ' :: bytes.map printable) ∧
      front.length = 10 ∧ middle.length = 40 ∧
      front = (Nat.toDigits 16 offset).leftpad 8 '0' ++ [':', ' '] ∧
      middle.filter (· != ' ') = bytes.flatMap Bytes.hexByte := by
  have height : Bytes.hexPadded 8 offset = Bytes.hexFixed 8 offset := if_pos hoffset
  refine ⟨Bytes.hexPadded 8 offset ++ [':', ' '], padded hexWidth (pairs bytes), ?_, ?_, ?_, ?_, ?_⟩
  · rw [row, List.append_assoc, List.append_assoc]
  · rw [height, List.length_append, Bytes.length_hexFixed]
    rfl
  · refine length_padded ?_
    rw [length_pairs]
    show _ ≤ 40
    omega
  · rw [height, Bytes.hexFixed_eq_leftpad (by decide) hoffset]
  · rw [filter_padded, filter_pairs]

/-- **A row has its columns where they belong.** -/
theorem isLine_row (hoffset : offset < 2 ^ 32) (hlen : bytes.length ≤ 16) :
    IsLine offset bytes (row offset bytes) := by
  obtain ⟨front, middle, hrow, hfront, hmiddle, hdigits, hpairs⟩ := row_eq hoffset hlen
  have hcolumns : (row offset bytes).drop 10 = middle ++ ' ' :: bytes.map printable := by
    rw [hrow, List.drop_left' hfront]
  have hbehind : (row offset bytes).drop 50 = ' ' :: bytes.map printable := by
    rw [show 50 = 10 + 40 from rfl, ← List.drop_drop, hcolumns, List.drop_left' hmiddle]
  constructor
  · rw [hrow, List.take_left' hfront, hdigits]
  · rw [digits, hcolumns, List.take_left' hmiddle, hpairs]
    exact congrArg (bytes.flatMap ·) (funext Bytes.hexByte_eq_leftpad)
  · rw [hbehind]
    rfl
  · rw [show 51 = 50 + 1 from rfl, ← List.drop_drop, hbehind]
    show List.Forall₂ Shows bytes (bytes.map printable)
    rw [List.forall₂_map_right_iff, List.forall₂_same]
    exact fun b _ => shows_printable b

end

/-! ## All lines -/

section
variable {most offset : Nat} {bytes : Bytes}

theorem rows_succ (hbytes : bytes ≠ []) :
    rows (most + 1) offset bytes =
      row offset (bytes.take 16) :: rows most (offset + 16) (bytes.drop 16) :=
  if_neg fun hempty => hbytes (List.isEmpty_iff.mp hempty)

/-- There is one line for each sixteen bytes and for those that are left over. -/
theorem length_rows (h : bytes.length ≤ most) :
    (rows most offset bytes).length = (bytes.length + 15) / 16 := by
  induction most generalizing offset bytes with
  | zero =>
    rw [Nat.le_zero.mp h]
    rfl
  | succ most ih =>
    by_cases hbytes : bytes = []
    · rw [hbytes]
      rfl
    · have hpos := List.length_pos_iff.mpr hbytes
      have hrest : (bytes.drop 16).length = bytes.length - 16 := List.length_drop
      rw [rows_succ hbytes, List.length_cons, ih (by omega), hrest]
      omega

/-- **The lines come in the order of the bytes**, sixteen bytes in each. -/
theorem rows_get (h : bytes.length ≤ most) (r : Nat) :
    (rows most offset bytes)[r]? =
      if 16 * r < bytes.length then
        some (row (offset + 16 * r) ((bytes.drop (16 * r)).take 16))
      else none := by
  induction most generalizing offset bytes r with
  | zero =>
    rw [if_neg (by omega)]
    rfl
  | succ most ih =>
    by_cases hbytes : bytes = []
    · subst hbytes
      rw [if_neg (by exact Nat.not_lt_zero _)]
      rfl
    · have hpos := List.length_pos_iff.mpr hbytes
      have hrest : (bytes.drop 16).length = bytes.length - 16 := List.length_drop
      rw [rows_succ hbytes]
      cases r with
      | zero =>
        rw [if_pos hpos]
        rfl
      | succ r =>
        have hin : 16 * r < bytes.length - 16 ↔ 16 * (r + 1) < bytes.length := by omega
        have hoffset : offset + 16 + 16 * r = offset + 16 * (r + 1) := by omega
        have hdrop : 16 + 16 * r = 16 * (r + 1) := by omega
        rw [List.getElem?_cons_succ, ih (by omega), hrest, List.drop_drop, hoffset, hdrop]
        simp only [hin]

/-- The digits of all lines are those of all bytes. -/
theorem flatMap_digits_rows (h : bytes.length ≤ most) (hend : offset + bytes.length ≤ 2 ^ 32) :
    (rows most offset bytes).flatMap digits = bytes.flatMap Bytes.hexByte := by
  induction most generalizing offset bytes with
  | zero =>
    rw [List.length_eq_zero_iff.mp (Nat.le_zero.mp h)]
    rfl
  | succ most ih =>
    by_cases hbytes : bytes = []
    · rw [hbytes]
      rfl
    · have hpos := List.length_pos_iff.mpr hbytes
      have hrest : (bytes.drop 16).length = bytes.length - 16 := List.length_drop
      have hoffset : offset < 2 ^ 32 := by omega
      have hline := isLine_row hoffset (List.length_take_le 16 bytes)
      have hfirst :
          digits (row offset (bytes.take 16)) = (bytes.take 16).flatMap Bytes.hexByte := by
        rw [hline.digits]
        exact congrArg ((bytes.take 16).flatMap ·) (funext Bytes.hexByte_eq_leftpad).symm
      rw [rows_succ hbytes, List.flatMap_cons, hfirst]
      rcases Nat.lt_or_ge bytes.length 16 with hshort | hlong
      · have hdrop : bytes.drop 16 = [] := List.drop_eq_nil_of_le (Nat.le_of_lt hshort)
        have hlast : rows most (offset + 16) (bytes.drop 16) = [] := by
          rw [hdrop]
          cases most <;> rfl
        rw [hlast, List.take_of_length_le (Nat.le_of_lt hshort)]
        exact List.append_nil _
      · rw [ih (by omega) (by omega), ← List.flatMap_append, List.take_append_drop]

end

/-- **A dump shows all bytes**, sixteen in a line and each where it belongs, and they are read back
    from their digits. -/
theorem lines_show {bytes : Bytes} (h : bytes.length ≤ 2 ^ 32) :
    (lines bytes).length = (bytes.length + 15) / 16 ∧
      (∀ r line, (lines bytes)[r]? = some line →
        IsLine (16 * r) ((bytes.drop (16 * r)).take 16) line) ∧
      Bytes.ofHex? ((lines bytes).flatMap digits) = some bytes := by
  refine ⟨length_rows (Nat.le_refl _), ?_, ?_⟩
  · intro r line hline
    rw [lines, rows_get (Nat.le_refl _), Nat.zero_add] at hline
    split at hline
    · next hin =>
      obtain rfl := Option.some.inj hline
      exact isLine_row (by omega) (List.length_take_le _ _)
    · nomatch hline
  · rw [lines, flatMap_digits_rows (Nat.le_refl _) (by omega)]
    exact Bytes.ofHex?_flatMap_hexByte bytes

/-- A full line, and one that ends in the middle of a pair. -/
theorem nineteen_show :
    let bytes : Bytes := (List.range 19).map fun n => (0x6E + n).toUInt8
    bytes.length ≤ 2 ^ 32 ∧ (lines bytes).length = 2 ∧
      (∃ line, (lines bytes)[1]? = some line ∧ IsLine 16 [0x7E, 0x7F, 0x80] line ∧
        line.drop 51 = ['~', '.', '.']) ∧
      Bytes.ofHex? ((lines bytes).flatMap digits) = some bytes := by
  intro bytes
  have hnineteen : bytes.length = 19 := rfl
  have hlen : bytes.length ≤ 2 ^ 32 := by omega
  obtain ⟨hcount, hlines, hback⟩ := lines_show hlen
  exact ⟨hlen, by omega, ⟨_, rfl, hlines 1 _ rfl, rfl⟩, hback⟩

end HexDump

end SealedStore
