/-
  Literals are read back.

  What stands between the quotes of a literal is a row of pieces, one for each character of a text
  or byte of a byte string (`Piece`): a character that stands for itself, an escape of one letter,
  or a code of two hexadecimal digits.  Each piece can be told from its front, so no piece runs into
  the next one: undoing the escapes gives the codes of the pieces (`codes?_flatMap`), and the first
  quote without an escape is the one that ends the literal (`splitQuote?_flatMap`).
-/
import SealedStore.Proofs.Json.Tokens
import SealedStore.Proofs.Text.Utf8
import SealedStore.Value.Literal

namespace SealedStore.Literal

/-! ## Reading a literal -/

/-- The character that an escape of one letter stands for. -/
def escaped? : Char → Option Char
  | '\\' => some '\\'
  | 'n' => some '\n'
  | 'r' => some '\r'
  | 't' => some '\t'
  | '\'' => some '\''
  | '"' => some '"'
  | _ => none

/-- Undoes the escapes: the codes that a text of characters and escapes stands for. -/
def codes? : List Char → Option (List Nat)
  | [] => some []
  | '\\' :: 'x' :: high :: low :: rest => do
    let high ← Json.hexValue? high
    let low ← Json.hexValue? low
    let codes ← codes? rest
    return (16 * high + low) :: codes
  | '\\' :: letter :: rest => do
    let c ← escaped? letter
    let codes ← codes? rest
    return c.toNat :: codes
  | c :: rest => if c == '\\' then none else (codes? rest).map (c.toNat :: ·)

/-- What stands before the first quote that no backslash escapes, and what stands behind it. -/
def splitQuote? (quote : Char) : List Char → Option (List Char × List Char)
  | [] => none
  | '\\' :: c :: rest => (splitQuote? quote rest).map fun x => ('\\' :: c :: x.1, x.2)
  | c :: rest =>
    if c == quote then some ([], rest)
    else (splitQuote? quote rest).map fun x => (c :: x.1, x.2)

/-! ## Pieces -/

/-- A printable character of ASCII. -/
def Printable (c : Char) : Prop := 0x20 ≤ c.toNat ∧ c.toNat ≤ 0x7E

instance : DecidablePred Printable := fun c =>
  inferInstanceAs (Decidable (0x20 ≤ c.toNat ∧ c.toNat ≤ 0x7E))

/-- What is written between quotes for one code, if `Plain` characters stand for themselves. -/
inductive Piece (Plain : Char → Prop) (quote : Char) : List Char → Nat → Prop where
  | plain {c : Char} (plain : Plain c) (backslash : c ≠ '\\') (unquoted : c ≠ quote) :
    Piece Plain quote [c] c.toNat
  | letter {letter : Char} {code : Nat} (h : (escaped? letter).map Char.toNat = some code) :
    Piece Plain quote ['\\', letter] code
  | hex {code : Nat} (h : code < 0x100) :
    Piece Plain quote ('\\' :: 'x' :: Bytes.hexFixed 2 code) code

/-- A letter of an escape is printable, and it is not that of a code. -/
theorem printable_of_escaped? {letter c : Char} (h : escaped? letter = some c) :
    Printable letter ∧ letter ≠ 'x' := by
  unfold escaped? at h
  split at h <;> first | decide | nomatch h

theorem printable_hexFixed (width n : Nat) : ∀ c ∈ Bytes.hexFixed width n, Printable c := by
  have hdigit : ∀ d < 16, Printable (Bytes.hexDigit d) := by decide
  induction width with
  | zero => nofun
  | succ width ih => exact List.forall_mem_cons.mpr ⟨hdigit _ (Nat.mod_lt _ (by decide)), ih⟩

/-- A code is written with two digits. -/
theorem hexFixed_two {n : Nat} (h : n < 0x100) :
    ∃ high low a b, Bytes.hexFixed 2 n = [high, low] ∧ Json.hexValue? high = some a ∧
      Json.hexValue? low = some b ∧ 16 * a + b = n := by
  refine ⟨_, _, _, _, rfl, Json.hexValue?_hexDigit (n / 0x10 % 16) (Nat.mod_lt _ (by decide)),
    Json.hexValue?_hexDigit (n / 1 % 16) (Nat.mod_lt _ (by decide)), ?_⟩
  omega

section
variable {Plain : Char → Prop} {quote : Char} {piece : List Char} {code : Nat}

/-- The escapes of a piece are undone, whatever stands behind it. -/
theorem codes?_piece (h : Piece Plain quote piece code) (rest : List Char) :
    codes? (piece ++ rest) = (codes? rest).map (code :: ·) := by
  cases h with
  | plain plain backslash unquoted =>
    rw [List.singleton_append, codes?, if_neg (by simpa using backslash)]
    · exact fun _ _ _ h => absurd h backslash
    · exact fun _ _ h => absurd h backslash
  | letter h =>
    obtain ⟨c, hc, rfl⟩ := Option.map_eq_some_iff.mp h
    rw [List.cons_append, List.singleton_append, codes?, hc]
    · cases codes? rest <;> rfl
    · exact fun _ _ _ hx => absurd hx (printable_of_escaped? hc).2
  | hex h =>
    obtain ⟨high, low, a, b, hdigits, hhigh, hlow, hsum⟩ := hexFixed_two h
    rw [hdigits]
    show codes? ('\\' :: 'x' :: high :: low :: rest) = _
    rw [codes?, hhigh, hlow, ← hsum]
    cases codes? rest <;> rfl

/-- A piece is left whole, whatever stands behind it. -/
theorem splitQuote?_piece (h : Piece Plain quote piece code) (hquote : quote = '\'' ∨ quote = '"')
    (rest : List Char) :
    splitQuote? quote (piece ++ rest) =
      (splitQuote? quote rest).map fun x => (piece ++ x.1, x.2) := by
  have hone : ∀ c tail, c ≠ '\\' → c ≠ quote →
      splitQuote? quote (c :: tail) = (splitQuote? quote tail).map fun x => (c :: x.1, x.2) := by
    intro c tail hback hc
    rw [splitQuote?, if_neg (by simpa using hc)]
    exact fun _ _ h => absurd h hback
  have hescape : ∀ c tail, splitQuote? quote ('\\' :: c :: tail) =
      (splitQuote? quote tail).map fun x => ('\\' :: c :: x.1, x.2) := by
    intro c tail
    rw [splitQuote?]
  cases h with
  | plain plain backslash unquoted => exact hone _ rest backslash unquoted
  | letter h => exact hescape _ rest
  | hex h =>
    obtain ⟨high, low, a, b, hdigits, hhigh, hlow, -⟩ := hexFixed_two h
    have hdigit : ∀ c n, Json.hexValue? c = some n → c ≠ '\\' ∧ c ≠ quote := by
      rintro c n hc
      constructor
      · rintro rfl
        nomatch hc
      · rintro rfl
        rcases hquote with rfl | rfl <;> nomatch hc
    obtain ⟨hback, hhighq⟩ := hdigit high a hhigh
    obtain ⟨hback', hlowq⟩ := hdigit low b hlow
    rw [hdigits]
    show splitQuote? quote ('\\' :: 'x' :: high :: low :: rest) = _
    rw [hescape, hone high _ hback hhighq, hone low _ hback' hlowq, Option.map_map, Option.map_map]
    rfl

/-- All of a piece is plain if whatever is printable is. -/
theorem forall_plain_piece (h : Piece Plain quote piece code)
    (hplain : ∀ c, Printable c → Plain c) : ∀ c ∈ piece, Plain c := by
  cases h with
  | plain plain backslash unquoted => exact List.forall_mem_singleton.mpr plain
  | letter h =>
    obtain ⟨c, hc, -⟩ := Option.map_eq_some_iff.mp h
    rw [List.forall_mem_cons, List.forall_mem_singleton]
    exact ⟨hplain _ (by decide), hplain _ (printable_of_escaped? hc).1⟩
  | hex h =>
    rw [List.forall_mem_cons, List.forall_mem_cons]
    exact ⟨hplain _ (by decide), hplain _ (by decide),
      fun c hc => hplain c (printable_hexFixed 2 code c hc)⟩

end

/-! ## Rows of pieces -/

/-- A text between quotes that is read back as codes. -/
structure Reads (Plain : Char → Prop) (quote : Char) (body : List Char) (codes : List Nat) :
    Prop where
  plain : ∀ c ∈ body, Plain c
  /-- No quote stands in it without an escape, -/
  unquoted : splitQuote? quote body = none
  /-- and a quote behind it ends it. -/
  ends : ∀ rest, splitQuote? quote (body ++ quote :: rest) = some (body, rest)
  codes : codes? body = some codes

/-- **A row of pieces is read back**, one code for each piece. -/
theorem reads_flatMap {α : Type} {Plain : Char → Prop} {quote : Char} {write : α → List Char}
    {code : α → Nat} (hplain : ∀ c, Printable c → Plain c) (hquote : quote = '\'' ∨ quote = '"')
    (hpiece : ∀ x, Piece Plain quote (write x) (code x)) (xs : List α) :
    Reads Plain quote (xs.flatMap write) (xs.map code) := by
  induction xs with
  | nil =>
    refine ⟨nofun, rfl, fun rest => ?_, rfl⟩
    rcases hquote with rfl | rfl <;> rfl
  | cons x xs ih =>
    obtain ⟨hbody, hunquoted, hends, hcodes⟩ := ih
    rw [List.flatMap_cons, List.map_cons]
    refine ⟨?_, ?_, fun rest => ?_, ?_⟩
    · exact List.forall_mem_append.mpr ⟨forall_plain_piece (hpiece x) hplain, hbody⟩
    · rw [splitQuote?_piece (hpiece x) hquote, hunquoted, Option.map_none]
    · rw [List.append_assoc, splitQuote?_piece (hpiece x) hquote, hends, Option.map_some]
    · rw [codes?_piece (hpiece x), hcodes, Option.map_some]

/-! ## Characters and bytes -/

theorem isControl_eq_false_iff {c : Char} :
    isControl c = false ↔ 0x20 ≤ c.toNat ∧ (c.toNat < 0x7F ∨ 0x9F < c.toNat) := by
  simp only [isControl, Bool.or_eq_false_iff, Bool.and_eq_false_iff, decide_eq_false_iff_not]
  omega

theorem isControl_eq_false_of_printable {c : Char} (h : Printable c) : isControl c = false :=
  isControl_eq_false_iff.mpr ⟨h.1, .inl (Nat.lt_succ_of_le h.2)⟩

/-- A character of a text is written as a piece. -/
theorem piece_escapeChar {quote : Char} (hquote : quote = '\'' ∨ quote = '"') (c : Char) :
    Piece (isControl · = false) quote (escapeChar quote c) c.toNat := by
  unfold escapeChar
  -- the escapes of one letter come first
  iterate 4
    split
    · next hc =>
      obtain rfl := beq_iff_eq.mp hc
      exact .letter rfl
  next hback _ _ _ =>
  split
  · next hc =>
    obtain rfl := beq_iff_eq.mp hc
    exact .letter (by rcases hquote with rfl | rfl <;> rfl)
  · next hunquoted =>
    split
    · next hcontrol =>
      refine .hex ?_
      simp only [isControl, Bool.or_eq_true, Bool.and_eq_true, decide_eq_true_eq] at hcontrol
      omega
    · next hcontrol =>
      exact .plain (Bool.eq_false_of_not_eq_true hcontrol) (by simpa using hback)
        (by simpa using hunquoted)

theorem toNat_charOf_byte (b : UInt8) : (Char.ofNat b.toNat).toNat = b.toNat :=
  Utf8.toNat_ofNat (.inl (Nat.lt_trans b.toNat_lt (by decide)))

/-- So is a byte of a byte string. -/
theorem piece_escapeByte (b : UInt8) : Piece Printable '\'' (escapeByte b) b.toNat := by
  unfold escapeByte
  iterate 5
    split
    · next hb =>
      obtain rfl := beq_iff_eq.mp hb
      exact .letter rfl
  next hback hquote _ _ _ =>
  split
  · next hb =>
    rw [Bool.and_eq_true, decide_eq_true_iff, decide_eq_true_iff, UInt8.le_iff_toNat_le,
      UInt8.le_iff_toNat_le] at hb
    have hne : ∀ {d : UInt8}, ¬ (b == d) = true → Char.ofNat b.toNat ≠ Char.ofNat d.toNat := by
      intro d hd heq
      apply hd
      rw [beq_iff_eq, ← UInt8.toNat_inj, ← toNat_charOf_byte b, heq, toNat_charOf_byte]
    have hpiece : Piece Printable '\'' [Char.ofNat b.toNat] (Char.ofNat b.toNat).toNat :=
      .plain (by rw [Printable, toNat_charOf_byte]; exact hb) (hne hback) (hne hquote)
    rwa [toNat_charOf_byte] at hpiece
  · exact .hex b.toNat_lt

/-- The quote of a text is one of two. -/
theorem quoteOf_eq_or (cs : List Char) : quoteOf cs = '\'' ∨ quoteOf cs = '"' := by
  unfold quoteOf
  split
  · exact .inr rfl
  · exact .inl rfl

/-! ## Literals -/

/-- A literal of a string is quotes around what reads as its characters. -/
theorem exists_reads_str (s : String) :
    ∃ body, str s = quoteOf s.toList :: body ++ [quoteOf s.toList] ∧
      Reads (isControl · = false) (quoteOf s.toList) body (s.toList.map Char.toNat) :=
  ⟨_, rfl, reads_flatMap (fun _ => isControl_eq_false_of_printable) (quoteOf_eq_or _)
    (piece_escapeChar (quoteOf_eq_or _)) _⟩

theorem exists_reads_bytes (b : Bytes) :
    ∃ body, bytes b = 'b' :: '\'' :: body ++ ['\''] ∧
      Reads Printable '\'' body (b.map UInt8.toNat) :=
  ⟨_, rfl, reads_flatMap (fun _ h => h) (.inl rfl) piece_escapeByte b⟩

/-- Where a quote ends two bodies, they stand for the same codes, and the same follows. -/
theorem Reads.append_inj {Plain : Char → Prop} {quote : Char} {body body' r r' : List Char}
    {codes codes' : List Nat} (h : Reads Plain quote body codes)
    (h' : Reads Plain quote body' codes') (heq : body ++ quote :: r = body' ++ quote :: r') :
    codes = codes' ∧ r = r' := by
  have hsplit := h.ends r
  rw [heq, h'.ends, Option.some.injEq, Prod.mk.injEq] at hsplit
  obtain ⟨rfl, rfl⟩ := hsplit
  exact ⟨Option.some.inj (h.codes.symm.trans h'.codes), rfl⟩

/-- A literal of a text is not the front of another one. -/
theorem str_append_inj {s t : String} {r r' : List Char} (h : str s ++ r = str t ++ r') :
    s = t ∧ r = r' := by
  obtain ⟨body, hs, hreads⟩ := exists_reads_str s
  obtain ⟨body', ht, hreads'⟩ := exists_reads_str t
  rw [hs, ht] at h
  simp only [List.cons_append, List.append_assoc, List.nil_append] at h
  obtain ⟨hquote, h⟩ := List.cons.inj h
  rw [← hquote] at h hreads'
  obtain ⟨hcodes, hrest⟩ := hreads.append_inj hreads' h
  have hchars := List.map_injective_iff.mpr (fun _ _ => Char.toNat_inj.mp) hcodes
  exact ⟨String.toList_inj.mp hchars, hrest⟩

/-- A literal of bytes and what follows it can be told apart. -/
theorem bytes_append_inj {b c : Bytes} {r r' : List Char} (h : bytes b ++ r = bytes c ++ r') :
    b = c ∧ r = r' := by
  obtain ⟨body, hb, hreads⟩ := exists_reads_bytes b
  obtain ⟨body', hc, hreads'⟩ := exists_reads_bytes c
  rw [hb, hc] at h
  simp only [List.cons_append, List.append_assoc, List.nil_append] at h
  obtain ⟨hcodes, hrest⟩ := hreads.append_inj hreads' (List.cons.inj (List.cons.inj h).2).2
  exact ⟨List.map_injective_iff.mpr (fun _ _ => UInt8.toNat_inj.mp) hcodes, hrest⟩

/-- **Literals are read back.**  Between its quotes a text has no control character and a byte
    string only printable ASCII; the first quote without an escape ends the literal; and undoing the
    escapes gives the code points of the text and the bytes. -/
theorem literals_read_back :
    (∀ s : String, ∃ quote body, (quote = '\'' ∨ quote = '"') ∧
      str s = quote :: body ++ [quote] ∧
      Reads (isControl · = false) quote body (s.toList.map Char.toNat)) ∧
    ∀ b : Bytes, ∃ body, bytes b = 'b' :: '\'' :: body ++ ['\''] ∧
      Reads Printable '\'' body (b.map UInt8.toNat) := by
  refine ⟨fun s => ?_, exists_reads_bytes⟩
  obtain ⟨body, hstr, hreads⟩ := exists_reads_str s
  exact ⟨_, body, quoteOf_eq_or _, hstr, hreads⟩

end SealedStore.Literal
