/-
  Strings and numbers of JSON texts are read back.

  Both are read off the front of a text, so each lemma has the rest of the text in it.  A string
  ends at its quote, whatever follows; a number ends where no part of a number follows (`Stops`).
  What is written for a text has no quote and no backslash of its own in it, and the digits of a
  natural number do not begin with a zero that others follow.
-/
import Mathlib.Data.List.Basic
import Mathlib.Data.List.TakeDrop
import SealedStore.Json.Number
import SealedStore.Json.Reader

namespace SealedStore.Json

/-! ## Strings -/

theorem textOf?_units (cs : List Char) : textOf? (units cs) = some cs := by
  induction cs with
  | nil => rfl
  | cons c cs ih =>
    rw [units] at ih
    rw [units, List.map_cons, textOf?, ih, Option.map_some]

theorem hexValue?_hexDigit : ∀ n < 16, hexValue? (Bytes.hexDigit n) = some n := by decide

/-- Four hexadecimal digits give back the number that they were written for. -/
theorem code?_hexFixed {n : Nat} (h : n < 0x10000) :
    ∃ a b c d, Bytes.hexFixed 4 n = [a, b, c, d] ∧ code? a b c d = some n := by
  refine ⟨_, _, _, _, rfl, ?_⟩
  have hfirst := hexValue?_hexDigit (n / 0x1000 % 16) (Nat.mod_lt _ (by decide))
  have hsecond := hexValue?_hexDigit (n / 0x100 % 16) (Nat.mod_lt _ (by decide))
  have hthird := hexValue?_hexDigit (n / 0x10 % 16) (Nat.mod_lt _ (by decide))
  have hfourth := hexValue?_hexDigit (n / 1 % 16) (Nat.mod_lt _ (by decide))
  have hsum : ((n / 0x1000 % 16 * 16 + n / 0x100 % 16) * 16 + n / 0x10 % 16) * 16 + n / 1 % 16 =
      n := by omega
  simp only [code?, hfirst, hsecond, hthird, hfourth, Option.bind_eq_bind, Option.bind_some]
  exact congrArg some hsum

/-- A character in front is read back, and then the rest of the string. -/
theorem string?_writeUnit (c : Char) (rest : List Char) :
    string? (writeUnit (.char c) ++ rest) = attached (.char c) (string? rest) := by
  rw [writeUnit]
  split
  · next h => rw [eq_of_beq h]; rfl
  split
  · next h => rw [eq_of_beq h]; rfl
  split
  · next h => rw [eq_of_beq h]; rfl
  split
  · next h => rw [eq_of_beq h]; rfl
  split
  · next h => rw [eq_of_beq h]; rfl
  split
  · next h => rw [eq_of_beq h]; rfl
  split
  · next h => rw [eq_of_beq h]; rfl
  split
  · next hlow =>
    obtain ⟨a, b, x, d, hhex, hcode⟩ := code?_hexFixed (n := c.toNat) (by omega)
    have hunit : unitOf c.toNat = .char c := by
      rw [unitOf, if_neg, Char.ofNat_toNat]
      simp only [Bool.and_eq_true, decide_eq_true_eq]
      omega
    rw [writeCode, hhex]
    show string? ('\\' :: 'u' :: a :: b :: x :: d :: rest) = _
    rw [string?, hcode, ← hunit]
    rfl
  · next hquote hback _ _ _ _ _ hlow =>
    rw [List.singleton_append, string?.eq_def]
    split
    · next h => nomatch h
    · next h => exact absurd (beq_iff_eq.mpr (List.cons.inj h).1) hquote
    · next h => exact absurd (beq_iff_eq.mpr (List.cons.inj h).1) hback
    · next h => exact absurd (beq_iff_eq.mpr (List.cons.inj h).1) hback
    · next h =>
      obtain ⟨rfl, rfl⟩ := List.cons.inj h
      simp [hlow, Bool.eq_false_iff.mpr hback]

/-- **A text is read back from its string**, up to the quote. -/
theorem string?_units (cs rest : List Char) :
    string? ((units cs).flatMap writeUnit ++ '"' :: rest) = some (units cs, rest) := by
  induction cs with
  | nil => rfl
  | cons c cs ih =>
    rw [units] at ih
    rw [units, List.map_cons, List.flatMap_cons, List.append_assoc, string?_writeUnit, ih]
    rfl

/-! ## Digits -/

/-- No part of a number follows. -/
def Stops (rest : List Char) : Prop :=
  ∀ c ∈ rest.head?, c.isDigit = false ∧ c ≠ '.' ∧ c ≠ 'e' ∧ c ≠ 'E'

theorem stops_nil : Stops [] := nofun

/-- Digits are taken up to the first character that is none. -/
theorem digits_append {ds rest : List Char} (hds : ∀ c ∈ ds, c.isDigit = true)
    (hrest : Stops rest) : digits (ds ++ rest) = (ds, rest) := by
  rw [digits, List.span_eq_takeWhile_dropWhile, List.takeWhile_append_of_pos hds,
    List.dropWhile_append_of_pos hds]
  cases rest with
  | nil => simp
  | cons c rest =>
    have hc := (hrest c rfl).1
    simp [hc]

theorem isDigit_of_mem_toDigits {n : Nat} {c : Char} (h : c ∈ Nat.toDigits 10 n) :
    c.isDigit = true :=
  Nat.isDigit_of_mem_toDigits (by decide) (by decide) h

/-- The first digit of a positive number is not zero. -/
theorem head_toDigits_ne_zero {n : Nat} (h : 0 < n) :
    ∀ c ∈ (Nat.toDigits 10 n).head?, c ≠ '0' := by
  induction n using Nat.strongRecOn with
  | ind n ih =>
    by_cases hlt : n < 10
    · rw [Nat.toDigits_of_lt_base hlt]
      intro c hc
      obtain rfl := Option.some.inj hc
      exact fun h0 => absurd (Nat.digitChar_eq_zero.mp h0) (by omega)
    · rw [Nat.toDigits_of_base_le (by decide) (Nat.le_of_not_lt hlt),
        List.head?_append_of_ne_nil _ Nat.toDigits_ne_nil]
      exact ih (n / 10) (by omega) (by omega)

/-! ## Numbers -/

/-- The digits of a natural number are the whole part of a number. -/
theorem whole?_toDigits (n : Nat) {rest : List Char} (hrest : Stops rest) :
    whole? (Nat.toDigits 10 n ++ rest) = some (Nat.toDigits 10 n, rest) := by
  rw [whole?, digits_append (fun _ => isDigit_of_mem_toDigits) hrest]
  split
  · next h => exact absurd (Prod.mk.inj h).1 Nat.toDigits_ne_nil
  · next h =>
    -- a zero with a digit behind it: neither 0 nor a positive number is written so
    have hdigits := (Prod.mk.inj h).1
    rcases Nat.eq_zero_or_pos n with rfl | hpos
    · nomatch hdigits
    · exact absurd rfl (head_toDigits_ne_zero hpos '0' (by rw [hdigits]; rfl))
  · next h => rw [h]

/-- Where a number stops it has no fraction. -/
theorem fraction?_of_stops {rest : List Char} (hrest : Stops rest) :
    fraction? rest = some ([], rest) := by
  cases rest with
  | nil => rfl
  | cons c rest =>
    rw [fraction?]
    intro _ h
    exact (hrest c rfl).2.1 (List.cons.inj h).1

theorem exponent?_of_stops {rest : List Char} (hrest : Stops rest) :
    exponent? rest = some ([], rest) := by
  cases rest with
  | nil => rfl
  | cons c rest =>
    obtain ⟨-, -, he, hE⟩ := hrest c rfl
    simp [exponent?, he, hE]

theorem unsigned?_toDigits (n : Nat) {rest : List Char} (hrest : Stops rest) :
    unsigned? (Nat.toDigits 10 n ++ rest) = some (Nat.toDigits 10 n, rest) := by
  simp [unsigned?, whole?_toDigits n hrest, fraction?_of_stops hrest, exponent?_of_stops hrest]

/-- How a number begins. -/
def Opens (c : Char) : Prop := c = '-' ∨ c.isDigit = true

instance : DecidablePred Opens := fun c => inferInstanceAs (Decidable (c = '-' ∨ c.isDigit = true))

theorem Opens.ne {c d : Char} (hc : Opens c) (hd : ¬ Opens d) : c ≠ d := by
  rintro rfl
  exact hd hc

theorem Opens.isSpace_eq {c : Char} (hc : Opens c) : isSpace c = false := by
  rw [Bool.eq_false_iff]
  intro hspace
  simp only [isSpace, Bool.or_eq_true, beq_iff_eq] at hspace
  rcases hspace with ((rfl | rfl) | rfl) | rfl <;> exact absurd hc (by decide)

/-- A number as it may be written: it begins as one, and the reader takes all of it. -/
structure IsNumber (lexeme : List Char) : Prop where
  opens : ∃ c cs, lexeme = c :: cs ∧ Opens c
  number? : ∀ rest, Stops rest → number? (lexeme ++ rest) = some (lexeme, rest)

theorem isNumber_toDigits (n : Nat) : IsNumber (Nat.toDigits 10 n) := by
  obtain ⟨c, cs, h⟩ := List.exists_cons_of_ne_nil (Nat.toDigits_ne_nil (n := n) (b := 10))
  have hdigit : c.isDigit = true := isDigit_of_mem_toDigits (by rw [h]; exact List.mem_cons_self)
  refine ⟨⟨c, cs, h, .inr hdigit⟩, fun rest hrest => ?_⟩
  rw [← unsigned?_toDigits n hrest, h, List.cons_append, Json.number?]
  intro _ h'
  rw [(List.cons.inj h').1] at hdigit
  nomatch hdigit

theorem isNumber_negative (n : Nat) : IsNumber ('-' :: Nat.toDigits 10 n) := by
  refine ⟨⟨'-', _, rfl, .inl rfl⟩, fun rest hrest => ?_⟩
  rw [List.cons_append, Json.number?, unsigned?_toDigits n hrest]
  rfl

/-! ## Whole numbers -/

theorem natOf_toDigits (n : Nat) : natOf (Nat.toDigits 10 n) = n :=
  Nat.ofDigitChars_ten_toDigits

/-- A sign is read off first, and the digits are all of the rest. -/
theorem ofLexeme_of_sign {lexeme : List Char} {negative : Bool} {n : Nat}
    (h : sign lexeme = (negative, Nat.toDigits 10 n)) :
    Numeral.ofLexeme lexeme = ⟨negative, Nat.toDigits 10 n, [], false, [], true⟩ := by
  have hall : digits (Nat.toDigits 10 n ++ []) = (Nat.toDigits 10 n, []) :=
    digits_append (fun _ => isDigit_of_mem_toDigits) stops_nil
  rw [List.append_nil, digits] at hall
  simp only [Numeral.ofLexeme, h, hall]
  rfl

/-- The digits of a natural number are read as a number without sign, fraction and exponent. -/
theorem ofLexeme_toDigits (n : Nat) :
    Numeral.ofLexeme (Nat.toDigits 10 n) = ⟨false, Nat.toDigits 10 n, [], false, [], true⟩ := by
  have hdigits : ∀ c ∈ Nat.toDigits 10 n, c.isDigit = true := fun _ => isDigit_of_mem_toDigits
  apply ofLexeme_of_sign
  rw [sign.eq_def]
  split
  · next h => exact absurd (hdigits '-' (h ▸ List.mem_cons_self)) (by decide)
  · next h => exact absurd (hdigits '+' (h ▸ List.mem_cons_self)) (by decide)
  · rfl

theorem ofLexeme_negative (n : Nat) :
    Numeral.ofLexeme ('-' :: Nat.toDigits 10 n) = ⟨true, Nat.toDigits 10 n, [], false, [], true⟩ :=
  ofLexeme_of_sign rfl

theorem byte?_toDigits (b : UInt8) : byte? (Nat.toDigits 10 b.toNat) = some b := by
  rw [byte?, ofLexeme_toDigits]
  simp [natOf_toDigits, b.toNat_lt]

end SealedStore.Json
