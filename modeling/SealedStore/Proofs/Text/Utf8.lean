/-
  UTF-8: decoding accepts exactly what encoding writes.

  `front_encodeChar` says that the bytes of a character are recognised whatever follows them,
  `eq_encodeChar_of_front` that nothing else is recognised as a character.  Over whole strings
  the two give `decode_eq_ok_iff`: bytes decode to a text just when they are its encoding.
-/
import SealedStore.Proofs.Endian
import SealedStore.Text.Utf8

namespace SealedStore.Utf8

open Bytes (toNat_toUInt8 toUInt8_toNat)

/-! ## Ranges of bytes as ranges of numbers -/

theorem isContinuation_iff {b : UInt8} :
    isContinuation b = true ↔ 0x80 ≤ b.toNat ∧ b.toNat ≤ 0xBF := by
  simp [isContinuation, UInt8.le_iff_toNat_le]

/-- The byte after the first of a long character: a continuation byte, and for four first bytes
    not every one. -/
theorem isSecond_iff {first second : UInt8} :
    isSecond first second = true ↔
      0x80 ≤ second.toNat ∧ second.toNat ≤ 0xBF ∧
      (first.toNat = 0xE0 → 0xA0 ≤ second.toNat) ∧ (first.toNat = 0xED → second.toNat ≤ 0x9F) ∧
      (first.toNat = 0xF0 → 0x90 ≤ second.toNat) ∧
      (first.toNat = 0xF4 → second.toNat ≤ 0x8F) := by
  have heq : ∀ k : UInt8, (first == k) = true ↔ first.toNat = k.toNat := fun k => by
    rw [beq_iff_eq, UInt8.toNat_inj]
  have hE0 := heq 0xE0
  have hED := heq 0xED
  have hF0 := heq 0xF0
  have hF4 := heq 0xF4
  unfold isSecond
  simp only [UInt8.reduceToNat] at hE0 hED hF0 hF4
  simp only [hE0, hED, hF0, hF4]
  split
  · simp [UInt8.le_iff_toNat_le]; omega
  · split
    · simp [UInt8.le_iff_toNat_le]; omega
    · split
      · simp [UInt8.le_iff_toNat_le]; omega
      · split
        · simp [UInt8.le_iff_toNat_le]; omega
        · rw [isContinuation_iff]; omega

theorem tail_eq (b : UInt8) : tail b = b.toNat - 0x80 := rfl

/-- Code points are below the surrogates or above them. -/
theorem toNat_char_range (c : Char) :
    c.toNat < 0xD800 ∨ 0xDFFF < c.toNat ∧ c.toNat < 0x110000 := c.valid

theorem toNat_ofNat {n : Nat} (h : n < 0xD800 ∨ 0xDFFF < n ∧ n < 0x110000) :
    (Char.ofNat n).toNat = n := by
  have hvalid : n.isValidChar := h
  rw [Char.ofNat, dif_pos hvalid]
  rfl

/-! ## The branches of `front`, by the number of its first byte -/

theorem front_one {b : UInt8} (rest : Bytes) (h : b.toNat < 0x80) :
    front b rest = .char (Char.ofNat b.toNat) 1 := by
  rw [front, if_pos (UInt8.lt_iff_toNat_lt.mpr h)]

theorem front_two {b : UInt8} (rest : Bytes) (h : 0xC2 ≤ b.toNat) (h' : b.toNat < 0xE0) :
    front b rest = front2 b rest := by
  rw [front, if_neg, if_neg, if_pos (UInt8.lt_iff_toNat_lt.mpr h')]
  · exact fun hlt => absurd (UInt8.lt_iff_toNat_lt.mp hlt) (Nat.not_lt.mpr h)
  · exact fun hlt => absurd (UInt8.lt_iff_toNat_lt.mp hlt)
      (Nat.not_lt.mpr (Nat.le_trans (by decide) h))

theorem front_three {b : UInt8} (rest : Bytes) (h : 0xE0 ≤ b.toNat) (h' : b.toNat < 0xF0) :
    front b rest = front3 b rest := by
  have hge : ∀ k : UInt8, k.toNat ≤ 0xE0 → ¬ b < k := fun k hk hlt =>
    absurd (UInt8.lt_iff_toNat_lt.mp hlt) (Nat.not_lt.mpr (Nat.le_trans hk h))
  rw [front, if_neg (hge _ (by decide)), if_neg (hge _ (by decide)), if_neg (hge _ (by decide)),
    if_pos (UInt8.lt_iff_toNat_lt.mpr h')]

theorem front_four {b : UInt8} (rest : Bytes) (h : 0xF0 ≤ b.toNat) (h' : b.toNat < 0xF5) :
    front b rest = front4 b rest := by
  have hge : ∀ k : UInt8, k.toNat ≤ 0xF0 → ¬ b < k := fun k hk hlt =>
    absurd (UInt8.lt_iff_toNat_lt.mp hlt) (Nat.not_lt.mpr (Nat.le_trans hk h))
  rw [front, if_neg (hge _ (by decide)), if_neg (hge _ (by decide)), if_neg (hge _ (by decide)),
    if_neg (hge _ (by decide)), if_pos (UInt8.lt_iff_toNat_lt.mpr h')]

/-- All other bytes begin no character. -/
theorem front_none {b : UInt8} (rest : Bytes) (h : 0x80 ≤ b.toNat)
    (h' : b.toNat < 0xC2 ∨ 0xF5 ≤ b.toNat) : front b rest = .illFormed 1 := by
  have hge : ∀ k : UInt8, k.toNat ≤ b.toNat → ¬ b < k := fun k hk hlt =>
    absurd (UInt8.lt_iff_toNat_lt.mp hlt) (Nat.not_lt.mpr hk)
  rw [front, if_neg (hge 0x80 h)]
  rcases h' with hlow | hhigh
  · rw [if_pos (UInt8.lt_iff_toNat_lt.mpr hlow)]
  · have hle : ∀ k : UInt8, k.toNat ≤ 0xF5 → ¬ b < k := fun k hk =>
      hge k (Nat.le_trans hk hhigh)
    rw [if_neg (hle _ (by decide)), if_neg (hle _ (by decide)), if_neg (hle _ (by decide)),
      if_neg (hle _ (by decide))]

/-! ## One character -/

theorem ofNat_eq {c : Char} {n : Nat} (h : n = c.toNat) : Char.ofNat n = c := by
  rw [h, Char.ofNat_toNat]

/-- The bytes of a character are recognised, whatever follows them. -/
theorem front_encodeChar (c : Char) (rest : Bytes) :
    ∃ b more, encodeChar c = b :: more ∧ front b (more ++ rest) = .char c (more.length + 1) := by
  -- one case for each length; that there are no surrogates is needed where three bytes are
  have hrange := toNat_char_range c
  unfold encodeChar
  by_cases h1 : c.toNat < 0x80
  · have hb := toNat_toUInt8 (n := c.toNat) (by omega)
    refine ⟨c.toNat.toUInt8, [], if_pos h1, ?_⟩
    rw [front_one _ (by omega), ofNat_eq hb]
    rfl
  by_cases h2 : c.toNat < 0x800
  · have hb := toNat_toUInt8 (n := 0xC0 + c.toNat / 0x40) (by omega)
    have hc := toNat_toUInt8 (n := 0x80 + c.toNat % 0x40) (by omega)
    refine ⟨_, [_], by rw [if_neg h1, if_pos h2], ?_⟩
    have hcont := isContinuation_iff.mpr ⟨Nat.le_trans (by omega) (Nat.le_of_eq hc.symm), by omega⟩
    rw [front_two _ (by omega) (by omega), List.singleton_append, front2, if_pos hcont]
    refine congrArg (Front.char · 2) (ofNat_eq ?_)
    simp only [tail_eq, hb, hc]
    omega
  by_cases h3 : c.toNat < 0x10000
  · have hb := toNat_toUInt8 (n := 0xE0 + c.toNat / 0x1000) (by omega)
    have hc := toNat_toUInt8 (n := 0x80 + c.toNat / 0x40 % 0x40) (by omega)
    have hd := toNat_toUInt8 (n := 0x80 + c.toNat % 0x40) (by omega)
    refine ⟨_, [_, _], by rw [if_neg h1, if_neg h2, if_pos h3], ?_⟩
    have hsecond : isSecond (0xE0 + c.toNat / 0x1000).toUInt8
        (0x80 + c.toNat / 0x40 % 0x40).toUInt8 = true := isSecond_iff.mpr (by omega)
    have hthird : isContinuation (0x80 + c.toNat % 0x40).toUInt8 = true :=
      isContinuation_iff.mpr (by omega)
    rw [front_three _ (by omega) (by omega), List.cons_append, List.singleton_append]
    simp only [front3, hsecond, hthird, Bool.not_true, Bool.false_eq_true, if_false, if_true]
    refine congrArg (Front.char · 3) (ofNat_eq ?_)
    simp only [tail_eq, hb, hc, hd]
    omega
  · have hb := toNat_toUInt8 (n := 0xF0 + c.toNat / 0x40000) (by omega)
    have hc := toNat_toUInt8 (n := 0x80 + c.toNat / 0x1000 % 0x40) (by omega)
    have hd := toNat_toUInt8 (n := 0x80 + c.toNat / 0x40 % 0x40) (by omega)
    have he := toNat_toUInt8 (n := 0x80 + c.toNat % 0x40) (by omega)
    refine ⟨_, [_, _, _], by rw [if_neg h1, if_neg h2, if_neg h3], ?_⟩
    have hsecond : isSecond (0xF0 + c.toNat / 0x40000).toUInt8
        (0x80 + c.toNat / 0x1000 % 0x40).toUInt8 = true := isSecond_iff.mpr (by omega)
    have hthird : isContinuation (0x80 + c.toNat / 0x40 % 0x40).toUInt8 = true :=
      isContinuation_iff.mpr (by omega)
    have hfourth : isContinuation (0x80 + c.toNat % 0x40).toUInt8 = true :=
      isContinuation_iff.mpr (by omega)
    rw [front_four _ (by omega) (by omega), List.cons_append, List.cons_append,
      List.singleton_append]
    simp only [front4, hsecond, hthird, hfourth, Bool.not_true, Bool.false_eq_true, if_false,
      if_true]
    refine congrArg (Front.char · 4) (ofNat_eq ?_)
    simp only [tail_eq, hb, hc, hd, he]
    omega

/-- A byte is given by its number. -/
theorem toUInt8_eq {b : UInt8} {n : Nat} (h : n = b.toNat) : n.toUInt8 = b := by
  rw [h, toUInt8_toNat]

theorem encodeChar_two {b c : UInt8} (hb : 0xC2 ≤ b.toNat) (hb' : b.toNat < 0xE0)
    (hc : isContinuation c = true) :
    encodeChar (Char.ofNat ((b.toNat - 0xC0) * 0x40 + tail c)) = [b, c] := by
  rw [isContinuation_iff] at hc
  have hn := toNat_ofNat (n := (b.toNat - 0xC0) * 0x40 + tail c) (by simp only [tail_eq]; omega)
  simp only [tail_eq] at hn ⊢
  simp only [encodeChar, hn]
  rw [if_neg (by omega), if_pos (by omega), toUInt8_eq (b := b) (by omega),
    toUInt8_eq (b := c) (by omega)]

/-- Three bytes that may follow each other are the encoding of the character that they carry. -/
theorem encodeChar_three {b c d : UInt8} (hb : 0xE0 ≤ b.toNat) (hb' : b.toNat < 0xF0)
    (hc : isSecond b c = true) (hd : isContinuation d = true) :
    encodeChar (Char.ofNat ((b.toNat - 0xE0) * 0x1000 + tail c * 0x40 + tail d)) = [b, c, d] := by
  rw [isSecond_iff] at hc
  rw [isContinuation_iff] at hd
  have hn := toNat_ofNat (n := (b.toNat - 0xE0) * 0x1000 + tail c * 0x40 + tail d)
    (by simp only [tail_eq]; omega)
  simp only [tail_eq] at hn ⊢
  simp only [encodeChar, hn]
  rw [if_neg (by omega), if_neg (by omega), if_pos (by omega), toUInt8_eq (b := b) (by omega),
    toUInt8_eq (b := c) (by omega), toUInt8_eq (b := d) (by omega)]

/-- Four bytes that may follow each other are the encoding of the character that they carry. -/
theorem encodeChar_four {b c d e : UInt8} (hb : 0xF0 ≤ b.toNat) (hb' : b.toNat < 0xF5)
    (hc : isSecond b c = true) (hd : isContinuation d = true) (he : isContinuation e = true) :
    encodeChar (Char.ofNat
      ((b.toNat - 0xF0) * 0x40000 + tail c * 0x1000 + tail d * 0x40 + tail e)) = [b, c, d, e] := by
  rw [isSecond_iff] at hc
  rw [isContinuation_iff] at hd he
  have hn := toNat_ofNat
    (n := (b.toNat - 0xF0) * 0x40000 + tail c * 0x1000 + tail d * 0x40 + tail e)
    (by simp only [tail_eq]; omega)
  simp only [tail_eq] at hn ⊢
  simp only [encodeChar, hn]
  rw [if_neg (by omega), if_neg (by omega), if_neg (by omega), toUInt8_eq (b := b) (by omega),
    toUInt8_eq (b := c) (by omega), toUInt8_eq (b := d) (by omega), toUInt8_eq (b := e) (by omega)]

/-- Whatever is recognised as a character is its encoding. -/
theorem eq_encodeChar_of_front {b : UInt8} {rest : Bytes} {x : Char} {length : Nat}
    (h : front b rest = .char x length) :
    ∃ back, b :: rest = encodeChar x ++ back ∧ (encodeChar x).length = length := by
  -- the first byte says how many bytes the character has, if it can begin one
  rcases Nat.lt_or_ge b.toNat 0x80 with h1 | h1
  · rw [front_one _ h1] at h
    obtain ⟨rfl, rfl⟩ := Front.char.inj h
    have hn := toNat_ofNat (n := b.toNat) (by omega)
    refine ⟨rest, ?_⟩
    simp only [encodeChar, hn, if_pos h1, toUInt8_toNat, List.singleton_append,
      List.length_singleton, and_self]
  rcases Nat.lt_or_ge b.toNat 0xC2 with h2 | h2
  · rw [front_none _ h1 (.inl h2)] at h
    nomatch h
  rcases Nat.lt_or_ge b.toNat 0xE0 with h3 | h3
  · rw [front_two _ h2 h3] at h
    unfold front2 at h
    split at h
    · nomatch h
    · split at h
      · next c back hc =>
        obtain ⟨rfl, rfl⟩ := Front.char.inj h
        rw [encodeChar_two h2 h3 hc]
        exact ⟨back, rfl, rfl⟩
      · nomatch h
  rcases Nat.lt_or_ge b.toNat 0xF0 with h4 | h4
  · rw [front_three _ h3 h4] at h
    unfold front3 at h
    split at h
    · nomatch h
    · split at h
      · nomatch h
      · next hc =>
        split at h
        · nomatch h
        · split at h
          · next d back hd =>
            obtain ⟨rfl, rfl⟩ := Front.char.inj h
            rw [encodeChar_three h3 h4 (by simpa using hc) hd]
            exact ⟨back, rfl, rfl⟩
          · nomatch h
  rcases Nat.lt_or_ge b.toNat 0xF5 with h5 | h5
  · rw [front_four _ h4 h5] at h
    unfold front4 at h
    split at h
    · nomatch h
    · split at h
      · nomatch h
      · next hc =>
        split at h
        · nomatch h
        · split at h
          · nomatch h
          · next hd =>
            split at h
            · nomatch h
            · split at h
              · next e back he =>
                obtain ⟨rfl, rfl⟩ := Front.char.inj h
                rw [encodeChar_four h4 h5 (by simpa using hc) (by simpa using hd) he]
                exact ⟨back, rfl, rfl⟩
              · nomatch h
  · rw [front_none _ h1 (.inr h5)] at h
    nomatch h

/-! ## Whole texts -/

/-- The rest of a character that was recognised is passed over. -/
theorem decodeFrom_skip (more rest : Bytes) (good : Nat) :
    decodeFrom more.length good (more ++ rest) = decodeFrom 0 good rest := by
  induction more with
  | nil => rfl
  | cons b more ih => exact ih

/-- One character in front is read, and the rest after it. -/
theorem decodeFrom_encodeChar (c : Char) (good : Nat) (rest : Bytes) :
    decodeFrom 0 good (encodeChar c ++ rest)
      = (decodeFrom 0 (good + (encodeChar c).length) rest).map (c :: ·) := by
  obtain ⟨b, more, hchar, hfront⟩ := front_encodeChar c rest
  rw [hchar, List.cons_append, decodeFrom, hfront]
  show (decodeFrom (more.length + 1 - 1) _ (more ++ rest)).map _ = _
  rw [Nat.add_sub_cancel, decodeFrom_skip, List.length_cons]

/-- Characters are decoded from their encoding, wherever in a text they stand. -/
theorem decodeFrom_encodeChars (cs : List Char) (good : Nat) :
    decodeFrom 0 good (encodeChars cs) = .ok cs := by
  induction cs generalizing good with
  | nil => rfl
  | cons c cs ih =>
    rw [encodeChars, List.flatMap_cons, decodeFrom_encodeChar, ← encodeChars, ih]
    rfl

/-- Reading fails or gives characters whose encoding was read.  The bytes are used up one
    character at a time, so the induction is on a bound of their number. -/
theorem eq_encodeChars_of_decodeFrom {n : Nat} {raw : Bytes} {good : Nat} {cs : List Char}
    (hn : raw.length ≤ n) (h : decodeFrom 0 good raw = .ok cs) : raw = encodeChars cs := by
  induction n generalizing raw good cs with
  | zero =>
    have hnil := List.eq_nil_of_length_eq_zero (Nat.le_zero.mp hn)
    subst hnil
    obtain rfl : cs = [] := (Except.ok.inj h).symm
    rfl
  | succ n ih =>
    cases raw with
    | nil =>
      obtain rfl : cs = [] := (Except.ok.inj h).symm
      rfl
    | cons b rest =>
      -- the step says that a character is in front, the whole run what was read after it
      have hstep := h
      rw [decodeFrom] at hstep
      split at hstep
      · next c length hfront =>
        obtain ⟨back, hraw, -⟩ := eq_encodeChar_of_front hfront
        rw [hraw, decodeFrom_encodeChar] at h
        cases hback : decodeFrom 0 (good + (encodeChar c).length) back with
        | error e => rw [hback] at h; nomatch h
        | ok ds =>
          rw [hback] at h
          obtain rfl : c :: ds = cs := Except.ok.inj h
          obtain ⟨b', more, hchar, -⟩ := front_encodeChar c back
          have hlen : back.length ≤ n := by
            have := congrArg List.length hraw
            rw [hchar, List.length_cons, List.length_append, List.length_cons] at this
            rw [List.length_cons] at hn
            omega
          rw [hraw, ih hlen hback, encodeChars, encodeChars, List.flatMap_cons]
      · nomatch hstep
      · nomatch hstep

/-- **Decoding inverts encoding and accepts nothing else.** -/
theorem decode_eq_ok_iff {raw : Bytes} {s : String} : decode raw = .ok s ↔ raw = encode s := by
  constructor
  · intro h
    cases hcs : decodeFrom 0 0 raw with
    | error e => rw [decode, decodeChars, hcs] at h; nomatch h
    | ok cs =>
      rw [decode, decodeChars, hcs] at h
      obtain rfl : String.ofList cs = s := Except.ok.inj h
      rw [encode, String.toList_ofList]
      exact eq_encodeChars_of_decodeFrom (Nat.le_refl _) hcs
  · rintro rfl
    rw [decode, decodeChars, encode, decodeFrom_encodeChars]
    exact congrArg Except.ok String.ofList_toList

/-- A character has the bytes that strings are made of. -/
theorem encodeChar_eq_utf8EncodeChar (c : Char) : encodeChar c = String.utf8EncodeChar c := by
  have hrange := toNat_char_range c
  have hval : c.val.toNat = c.toNat := rfl
  unfold encodeChar String.utf8EncodeChar
  simp only [hval, Nat.toUInt8]
  by_cases h1 : c.toNat < 0x80
  · rw [if_pos h1, if_pos (by omega)]
  by_cases h2 : c.toNat < 0x800
  · rw [if_neg h1, if_pos h2, if_neg (by omega), if_pos (by omega), Nat.add_comm 0xC0,
      Nat.add_comm 0x80, Nat.mod_eq_of_lt (by omega : c.toNat / 64 < 0x20)]
  by_cases h3 : c.toNat < 0x10000
  · rw [if_neg h1, if_neg h2, if_pos h3, if_neg (by omega), if_neg (by omega), if_pos (by omega),
      Nat.add_comm 0xE0, Nat.add_comm 0x80, Nat.add_comm 0x80,
      Nat.mod_eq_of_lt (by omega : c.toNat / 4096 < 0x10)]
  · rw [if_neg h1, if_neg h2, if_neg h3, if_neg (by omega), if_neg (by omega), if_neg (by omega),
      Nat.add_comm 0xF0, Nat.add_comm 0x80, Nat.add_comm 0x80, Nat.add_comm 0x80,
      Nat.mod_eq_of_lt (by omega : c.toNat / 262144 < 0x08)]

/-- The bytes of a text are those that the string is made of. -/
theorem encode_eq_toByteArray (s : String) : encode s = s.toByteArray.data.toList := by
  have hchars : encodeChar = String.utf8EncodeChar := funext encodeChar_eq_utf8EncodeChar
  rw [← String.utf8Encode_toList, encode, encodeChars, hchars, List.utf8Encode,
    List.data_toByteArray, List.toList_toArray]

/-- Different texts have different bytes. -/
theorem encode_inj {s t : String} (h : encode s = encode t) : s = t :=
  Except.ok.inj ((decode_eq_ok_iff.mpr rfl).symm.trans (decode_eq_ok_iff.mpr h))

end SealedStore.Utf8
