/-
  Texts without control characters.

  A text has `NoControls` when none of its characters is below U+0020; it is then on one line.
  Whatever is put together from digits and visible signs is such a text: hexadecimal codes, whole
  numbers, floats in every layout, and the literals of texts and of bytes, which escape all else.
  Between characters and their bytes nothing is lost here, since a byte below 0x80 is a character
  of its own.
-/
import SealedStore.Proofs.Text.Literal
import SealedStore.Value.Printed

namespace SealedStore

/-- No character of a text is below U+0020. -/
def NoControls (cs : List Char) : Prop := ∀ c ∈ cs, 0x20 ≤ c.toNat

instance : DecidablePred NoControls := fun cs => List.decidableBAll (0x20 ≤ Char.toNat ·) cs

theorem noControls_nil : NoControls [] := nofun

theorem noControls_cons_iff {c : Char} {cs : List Char} :
    NoControls (c :: cs) ↔ 0x20 ≤ c.toNat ∧ NoControls cs :=
  List.forall_mem_cons

theorem noControls_append_iff {cs ds : List Char} :
    NoControls (cs ++ ds) ↔ NoControls cs ∧ NoControls ds :=
  List.forall_mem_append

namespace NoControls

theorem append {cs ds : List Char} (h : NoControls cs) (h' : NoControls ds) :
    NoControls (cs ++ ds) :=
  noControls_append_iff.mpr ⟨h, h'⟩

theorem take {cs : List Char} (h : NoControls cs) (n : Nat) : NoControls (cs.take n) :=
  fun c hc => h c (List.mem_of_mem_take hc)

theorem drop {cs : List Char} (h : NoControls cs) (n : Nat) : NoControls (cs.drop n) :=
  fun c hc => h c (List.mem_of_mem_drop hc)

theorem newline_not_mem {cs : List Char} (h : NoControls cs) : '\n' ∉ cs :=
  fun hn => absurd (h '\n' hn) (by decide)

theorem count_newline {cs : List Char} (h : NoControls cs) : cs.count '\n' = 0 :=
  List.count_eq_zero.mpr h.newline_not_mem

end NoControls

/-! ## Numbers -/

theorem noControls_hexFixed (width n : Nat) : NoControls (Bytes.hexFixed width n) :=
  fun c hc => (Literal.printable_hexFixed width n c hc).1

theorem noControls_toDigits (n : Nat) : NoControls (Nat.toDigits 10 n) := by
  intro c hc
  have hdigit : c.isDigit = true := Nat.isDigit_of_mem_toDigits (by decide) (by decide) hc
  rw [Char.isDigit, Bool.and_eq_true, decide_eq_true_iff, ge_iff_le, UInt32.le_iff_toNat_le]
    at hdigit
  exact Nat.le_trans (by decide) hdigit.1

theorem noControls_zeros (n : Nat) : NoControls (List.replicate n '0') := by
  intro c hc
  obtain rfl := List.eq_of_mem_replicate hc
  decide

theorem Value.noControls_intText (n : Int) : NoControls (intText n) := by
  rw [intText]
  split
  · exact noControls_cons_iff.mpr ⟨by decide, noControls_toDigits n.natAbs⟩
  · exact noControls_toDigits n.natAbs

namespace Layout

theorem noControls_pointed (whole : Nat) {digits : List Char} (h : NoControls digits) :
    NoControls (pointed whole digits) := by
  have hfraction := h.drop whole
  unfold pointed
  refine (((h.take whole).append (noControls_zeros _)).append (by decide)).append ?_
  split
  · decide
  · exact hfraction

theorem noControls_mark (width : Nat) (e : Int) : NoControls (mark width e) := by
  unfold mark
  refine (NoControls.append ?_ (noControls_zeros _)).append (noControls_toDigits _)
  split
  · decide
  · decide

theorem noControls_decimal (layout : Layout) {digits : List Char} (h : NoControls digits)
    (e : Int) :
    NoControls (layout.decimal digits e) := by
  unfold decimal
  split
  · split
    · exact noControls_pointed _ h
    · exact (NoControls.append (by decide) (noControls_zeros _)).append h
  · refine ((h.take 1).append ?_).append (noControls_mark _ e)
    split
    · exact noControls_nil
    · exact noControls_cons_iff.mpr ⟨by decide, h.drop 1⟩

theorem noControls_finite (layout : Layout) (bits : UInt64) : NoControls (layout.finite bits) := by
  unfold finite
  split
  · decide
  · exact noControls_decimal layout (noControls_toDigits _) _

/-- **A float is on one line** in a layout whose names are. -/
theorem noControls_float {layout : Layout} (hnan : NoControls layout.nan.toList)
    (hinfinity : NoControls layout.infinity.toList)
    (hnegative : NoControls layout.negativeInfinity.toList) (bits : UInt64) :
    NoControls (layout.float bits) := by
  unfold float
  split
  · exact hnan
  · split
    · split
      · exact hnegative
      · exact hinfinity
    · split
      · exact noControls_cons_iff.mpr ⟨by decide, noControls_finite layout _⟩
      · exact noControls_finite layout bits

end Layout

/-! ## Literals -/

namespace Literal

/-- **A literal is on one line**, whatever the text. -/
theorem noControls_str (s : String) : NoControls (str s) := by
  obtain ⟨body, hstr, hreads⟩ := exists_reads_str s
  have hquote : 0x20 ≤ (quoteOf s.toList).toNat := by
    rcases quoteOf_eq_or s.toList with h | h
    · rw [h]
      decide
    · rw [h]
      decide
  have hbody : NoControls body := fun c hc => (isControl_eq_false_iff.mp (hreads.plain c hc)).1
  rw [hstr]
  exact (noControls_cons_iff.mpr ⟨hquote, hbody⟩).append
    (noControls_cons_iff.mpr ⟨hquote, noControls_nil⟩)

/-- So is one of bytes. -/
theorem noControls_bytes (b : Bytes) : NoControls (bytes b) := by
  obtain ⟨body, hbytes, hreads⟩ := exists_reads_bytes b
  have hbody : NoControls body := fun c hc => (hreads.plain c hc).1
  rw [hbytes]
  exact (noControls_cons_iff.mpr ⟨by decide, noControls_cons_iff.mpr ⟨by decide, hbody⟩⟩).append
    (by decide)

end Literal

/-! ## Bytes -/

namespace Utf8

open Bytes (toNat_toUInt8)

/-- A character is one byte of its own number, or else all its bytes are 0x80 and above. -/
theorem encodeChar_cases (c : Char) :
    (c.toNat < 0x80 ∧ encodeChar c = [c.toNat.toUInt8]) ∨ ∀ b ∈ encodeChar c, 0x80 ≤ b.toNat := by
  have hrange := toNat_char_range c
  have hlong : ∀ n, 0x80 ≤ n ∧ n < 0x100 → 0x80 ≤ n.toUInt8.toNat := by
    intro n hn
    rw [toNat_toUInt8 hn.2]
    exact hn.1
  unfold encodeChar
  by_cases h1 : c.toNat < 0x80
  · exact .inl ⟨h1, if_pos h1⟩
  · refine .inr ?_
    simp only [if_neg h1]
    split
    · rw [List.forall_mem_cons, List.forall_mem_singleton]
      exact ⟨hlong _ (by omega), hlong _ (by omega)⟩
    · split
      · rw [List.forall_mem_cons, List.forall_mem_cons, List.forall_mem_singleton]
        exact ⟨hlong _ (by omega), hlong _ (by omega), hlong _ (by omega)⟩
      · rw [List.forall_mem_cons, List.forall_mem_cons, List.forall_mem_cons,
          List.forall_mem_singleton]
        exact ⟨hlong _ (by omega), hlong _ (by omega), hlong _ (by omega), hlong _ (by omega)⟩

/-- Only the line feed has its byte in its encoding. -/
theorem newline_mem_encodeChar {c : Char} : 0x0A ∈ encodeChar c ↔ c = '\n' := by
  constructor
  · intro h
    rcases encodeChar_cases c with ⟨hc, heq⟩ | hlong
    · rw [heq, List.mem_singleton, ← UInt8.toNat_inj, toNat_toUInt8 (by omega)] at h
      exact Char.toNat_inj.mp h.symm
    · exact absurd (hlong _ h) (by decide)
  · rintro rfl
    decide

/-- **The bytes of a text have a line break just when the text has one.** -/
theorem newline_mem_encodeChars {cs : List Char} : 0x0A ∈ encodeChars cs ↔ '\n' ∈ cs := by
  rw [encodeChars, List.mem_flatMap]
  simp [newline_mem_encodeChar]

theorem count_encodeChar (c : Char) : (encodeChar c).count 0x0A = [c].count '\n' := by
  by_cases hc : c = '\n'
  · subst hc
    decide
  · have hbytes : 0x0A ∉ encodeChar c := fun h => hc (newline_mem_encodeChar.mp h)
    have hchar : '\n' ∉ [c] := fun h => hc (List.mem_singleton.mp h).symm
    rw [List.count_eq_zero.mpr hbytes, List.count_eq_zero.mpr hchar]

/-- And the bytes have as many of them as the text. -/
theorem count_encodeChars (cs : List Char) : (encodeChars cs).count 0x0A = cs.count '\n' := by
  induction cs with
  | nil => rfl
  | cons c cs ih =>
    rw [encodeChars, List.flatMap_cons, List.count_append, count_encodeChar, ← encodeChars, ih,
      ← List.count_append, List.singleton_append]

end Utf8

end SealedStore
