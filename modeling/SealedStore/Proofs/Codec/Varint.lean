/-
  Varints: which byte strings denote a number, and that reading and writing agree with it.

  `Groups` says how the bytes make up the number, `Denotes` adds the two limits: ten bytes, and
  64 bits.  `decode_eq_ok_iff` says that `decode` finds exactly the byte strings that denote a
  number, `denotes_encode` that `encode` writes one of them, and `minimal_iff` that this is the
  shortest.

  The reader works on words.  `decodeWord_cons` and `decodeWord_cons_of_not_fits` say in numbers
  what one turn of its loop does, `zigzag_eq` and `toInt_unzigzag` what the two expressions on bits
  are; nothing else opens them.
-/
import SealedStore.Codec.Varint
import SealedStore.Proofs.Endian

namespace SealedStore.Varint

/-! ## What bytes denote -/

/-- The groups of a number, least significant first: seven bits in every byte, and the top bit
    set in all but the last. -/
inductive Groups : Bytes → Nat → Prop where
  | last {b : UInt8} : b.toNat < 128 → Groups [b] b.toNat
  | more {b : UInt8} {rest : Bytes} {n : Nat} :
      128 ≤ b.toNat → Groups rest n → Groups (b :: rest) (b.toNat % 128 + 128 * n)

/-- One to ten bytes, not necessarily the fewest, that are the groups of a number of 64 bits. -/
structure Denotes (raw : Bytes) (n : Nat) : Prop where
  groups : Groups raw n
  short : raw.length ≤ 10
  small : n < 2 ^ 64

theorem Groups.length_pos {raw : Bytes} {n : Nat} (h : Groups raw n) : 0 < raw.length := by
  cases h <;> exact Nat.succ_pos _

/-! ## Groups in a word -/

/-- The lower seven bits of a byte. -/
theorem toNat_and_0x7F (b : UInt8) : (b &&& 0x7F).toNat = b.toNat % 128 := by
  rw [UInt8.toNat_and]
  exact Nat.and_two_pow_sub_one_eq_mod b.toNat 7

/-- The bit that tells the last group from the others. -/
theorem and_0x80_eq_zero_iff (b : UInt8) : b &&& 0x80 = 0 ↔ b.toNat < 128 := by
  have hbits : ∀ i < 256, i &&& 128 = i / 128 * 128 := by decide +kernel
  rw [← UInt8.toNat_inj, UInt8.toNat_and, show (0x80 : UInt8).toNat = 128 from rfl,
    hbits _ b.toNat_lt, show (0 : UInt8).toNat = 0 from rfl]
  omega

/-- The six bits that the tenth group may not have. -/
theorem and_0x7E_eq_zero_iff (b : UInt8) : b &&& 0x7E = 0 ↔ b.toNat % 128 ≤ 1 := by
  have hbits : ∀ i < 256, i &&& 126 = i % 128 / 2 * 2 := by decide +kernel
  rw [← UInt8.toNat_inj, UInt8.toNat_and, show (0x7E : UInt8).toNat = 126 from rfl,
    hbits _ b.toNat_lt, show (0 : UInt8).toNat = 0 from rfl]
  omega

/-- There is room for the group of a byte above `taken` others. -/
def Fits (taken : Nat) (b : UInt8) : Prop :=
  taken ≤ 9 ∧ b.toNat % 128 < 2 ^ (64 - 7 * taken)

/-- The two checks in front of a group refuse it exactly where there is no room for it. -/
theorem not_overflow_iff (taken : Nat) (b : UInt8) :
    ¬ (64 ≤ 7 * taken ∨ (7 * taken = 63 ∧ b &&& 0x7E ≠ 0)) ↔ Fits taken b := by
  have hb : b.toNat % 128 < 128 := Nat.mod_lt _ (by decide)
  rw [Ne, and_0x7E_eq_zero_iff, Fits]
  rcases Nat.lt_trichotomy taken 9 with h | rfl | h
  · have : 2 ^ 7 ≤ 2 ^ (64 - 7 * taken) := Nat.pow_le_pow_right (by decide) (by omega)
    omega
  · omega
  · omega

/-- A group put on top of a word falls on bits that are not in use, and loses none of its own. -/
theorem Fits.toNat_or {taken : Nat} {b : UInt8} (h : Fits taken b) {word : UInt64}
    (hword : word.toNat < 2 ^ (7 * taken)) :
    (word ||| (b &&& 0x7F).toUInt64 <<< (7 * taken).toUInt64).toNat =
      word.toNat + 2 ^ (7 * taken) * (b.toNat % 128) := by
  obtain ⟨hnine, hroom⟩ := h
  have hshift : (7 * taken).toUInt64.toNat = 7 * taken :=
    UInt64.toNat_ofNat_of_lt (Nat.lt_of_le_of_lt (by omega : 7 * taken ≤ 63) (by decide))
  have hpow : 2 ^ (7 * taken) * 2 ^ (64 - 7 * taken) = 2 ^ 64 := by
    rw [← Nat.pow_add, show 7 * taken + (64 - 7 * taken) = 64 by omega]
  have hlt : 2 ^ (7 * taken) * (b.toNat % 128) < 2 ^ 64 := by
    rw [← hpow]
    exact Nat.mul_lt_mul_of_pos_left hroom (Nat.two_pow_pos _)
  rw [UInt64.toNat_or, UInt64.toNat_shiftLeft, UInt8.toNat_toUInt64, toNat_and_0x7F, hshift,
    Nat.mod_eq_of_lt (show 7 * taken < 64 by omega), Nat.shiftLeft_eq,
    Nat.mul_comm (b.toNat % 128), Nat.mod_eq_of_lt hlt, Nat.or_comm,
    ← Nat.two_pow_add_eq_or_of_lt hword, Nat.add_comm]

/-- One group more: the word that it makes, and whether the reading goes on with it. -/
theorem decodeWord_cons {taken : Nat} {b : UInt8} (h : Fits taken b) {word : UInt64}
    (hword : word.toNat < 2 ^ (7 * taken)) (rest : Bytes) :
    ∃ next : UInt64, next.toNat = word.toNat + 2 ^ (7 * taken) * (b.toNat % 128) ∧
      next.toNat < 2 ^ (7 * (taken + 1)) ∧
      decodeWord word taken (b :: rest) =
        if b.toNat < 128 then .ok (next, taken + 1) else decodeWord next (taken + 1) rest := by
  refine ⟨_, h.toNat_or hword, ?_, ?_⟩
  · have hgroup : b.toNat % 128 < 2 ^ 7 := Nat.mod_lt _ (by decide)
    rw [h.toNat_or hword, Nat.mul_add 7, Nat.pow_add, Nat.add_comm, Nat.mul_comm _ (2 ^ (7 * 1))]
    exact Nat.mul_add_lt_mul_of_lt_of_lt hgroup hword
  · rw [decodeWord, if_neg ((not_overflow_iff taken b).mpr h)]
    simp only [and_0x80_eq_zero_iff]

/-- A group that there is no room for is refused. -/
theorem decodeWord_cons_of_not_fits {taken : Nat} {b : UInt8} (h : ¬ Fits taken b)
    (word : UInt64) (rest : Bytes) : decodeWord word taken (b :: rest) = .error .overflow := by
  rw [decodeWord, if_pos (Decidable.not_not.mp (h ∘ (not_overflow_iff taken b).mp))]

/-- Below nine groups the bits that are left become seven fewer with each. -/
theorem two_pow_left {taken : Nat} (h : taken ≤ 8) :
    2 ^ (64 - 7 * taken) = 128 * 2 ^ (64 - 7 * (taken + 1)) := by
  rw [show 64 - 7 * taken = 64 - 7 * (taken + 1) + 7 by omega, Nat.pow_add, Nat.mul_comm]

/-- The word after a group and a number above it. -/
theorem add_group (word taken group n : Nat) :
    word + 2 ^ (7 * taken) * group + 2 ^ (7 * (taken + 1)) * n =
      word + 2 ^ (7 * taken) * (group + 128 * n) := by
  rw [Nat.mul_add 7, Nat.pow_add, Nat.mul_add (2 ^ (7 * taken)), Nat.mul_assoc, Nat.add_assoc]

/-! ## Reading -/

/-- What was read above `taken` groups: groups that make ten bytes at most together with those,
    and that fit into the bits that were left.  By induction over the bytes; the word stays below
    `2 ^ (7 * taken)`, which is why a group never meets a bit that is set. -/
theorem groups_of_decodeWord {word : UInt64} {taken : Nat} {bytes : Bytes} {w : UInt64} {k : Nat}
    (hword : word.toNat < 2 ^ (7 * taken)) (h : decodeWord word taken bytes = .ok (w, k)) :
    ∃ front back n, bytes = front ++ back ∧ taken + front.length = k ∧ Groups front n ∧
      k ≤ 10 ∧ n < 2 ^ (64 - 7 * taken) ∧ w.toNat = word.toNat + 2 ^ (7 * taken) * n := by
  induction bytes generalizing word taken with
  | nil => nomatch h
  | cons b rest ih =>
    by_cases hfits : Fits taken b
    · obtain ⟨next, hnext, hbound, hstep⟩ := decodeWord_cons hfits hword rest
      obtain ⟨hnine, hroom⟩ := hfits
      rw [hstep] at h
      split at h
      · next hlast =>
        obtain ⟨rfl, rfl⟩ := Prod.mk.inj (Except.ok.inj h)
        rw [Nat.mod_eq_of_lt hlast] at hnext hroom
        exact ⟨[b], rest, b.toNat, rfl, rfl, .last hlast, by omega, hroom, hnext⟩
      · next hmore =>
        obtain ⟨front, back, n, rfl, rfl, hgroups, hten, hsmall, hw⟩ := ih hbound h
        have hlen := hgroups.length_pos
        have h8 : taken ≤ 8 := by omega
        have := two_pow_left h8
        refine ⟨b :: front, back, b.toNat % 128 + 128 * n, rfl, ?_, .more (by omega) hgroups, hten,
          by omega, ?_⟩
        · rw [List.length_cons]
          omega
        · rw [hw, hnext, add_group]
    · rw [decodeWord_cons_of_not_fits hfits] at h
      nomatch h

/-- Groups that fit above `taken` others are read, whatever stands behind them. -/
theorem Groups.exists_decodeWord {front : Bytes} {n : Nat} (h : Groups front n) {word : UInt64}
    {taken : Nat} (hword : word.toNat < 2 ^ (7 * taken)) (hten : taken + front.length ≤ 10)
    (hsmall : n < 2 ^ (64 - 7 * taken)) (back : Bytes) :
    ∃ w, decodeWord word taken (front ++ back) = .ok (w, taken + front.length) ∧
      w.toNat = word.toNat + 2 ^ (7 * taken) * n := by
  induction h generalizing word taken with
  | @last b hlast =>
    have hmod := Nat.mod_eq_of_lt hlast
    rw [List.length_singleton] at hten
    obtain ⟨next, hnext, -, hstep⟩ :=
      decodeWord_cons (b := b) ⟨by omega, by omega⟩ hword back
    rw [hmod] at hnext
    rw [if_pos hlast] at hstep
    exact ⟨next, hstep, hnext⟩
  | @more b rest m hmore hgroups ih =>
    have hlen := hgroups.length_pos
    rw [List.length_cons] at hten
    have h8 : taken ≤ 8 := by omega
    have := two_pow_left h8
    obtain ⟨next, hnext, hbound, hstep⟩ :=
      decodeWord_cons (b := b) ⟨by omega, by omega⟩ hword (rest ++ back)
    obtain ⟨w, hread, hw⟩ := ih hbound (by omega) (by omega)
    rw [if_neg (Nat.not_lt.mpr hmore), hread, Nat.add_assoc, Nat.add_comm 1] at hstep
    exact ⟨w, hstep, by rw [hw, hnext, add_group]⟩

/-- **Reading finds exactly the bytes that denote a number.** -/
theorem decode_eq_ok_iff {bytes : Bytes} {n k : Nat} :
    decode bytes = .ok (n, k) ↔
      ∃ front back, bytes = front ++ back ∧ front.length = k ∧ Denotes front n := by
  have hzero : (0 : UInt64).toNat = 0 := rfl
  have hword : (0 : UInt64).toNat < 2 ^ (7 * 0) := Nat.one_pos
  rw [decode]
  constructor
  · intro h
    cases hread : decodeWord 0 0 bytes with
    | error fault => rw [hread] at h; nomatch h
    | ok found =>
      obtain ⟨w, length⟩ := found
      rw [hread] at h
      obtain ⟨rfl, rfl⟩ := Prod.mk.inj (Except.ok.inj h)
      obtain ⟨front, back, m, rfl, rfl, hgroups, hten, hsmall, hw⟩ :=
        groups_of_decodeWord hword hread
      obtain rfl : w.toNat = m := by omega
      exact ⟨front, back, rfl, (Nat.zero_add _).symm, hgroups, by omega, hsmall⟩
  · rintro ⟨front, back, rfl, rfl, hgroups, hten, hsmall⟩
    obtain ⟨w, hread, hw⟩ := hgroups.exists_decodeWord hword (by omega) hsmall back
    obtain rfl : w.toNat = n := by omega
    rw [hread, Nat.zero_add]
    rfl

/-! ## Writing -/

/-- What is written is the groups of the number, when there are enough of them for it. -/
theorem groups_encodeGroups {more n : Nat} (h : n < 128 ^ (more + 1)) :
    Groups (encodeGroups more n) n := by
  induction more generalizing n with
  | zero =>
    have hn : n.toUInt8.toNat = n := Bytes.toNat_toUInt8 (by omega)
    have hlast := Groups.last (b := n.toUInt8) (by omega)
    rwa [hn] at hlast
  | succ more ih =>
    rw [encodeGroups]
    split
    · next hlast =>
      have hn : n.toUInt8.toNat = n := Bytes.toNat_toUInt8 (by omega)
      have hgroups := Groups.last (b := n.toUInt8) (by omega)
      rwa [hn] at hgroups
    · have hb : (n % 128 + 128).toUInt8.toNat = n % 128 + 128 := Bytes.toNat_toUInt8 (by omega)
      have hrest : Groups (encodeGroups more (n / 128)) (n / 128) :=
        ih (Nat.div_lt_of_lt_mul (by rw [Nat.mul_comm, ← Nat.pow_succ]; exact h))
      have hgroups := Groups.more (b := (n % 128 + 128).toUInt8) (by omega) hrest
      rwa [hb, show (n % 128 + 128) % 128 + 128 * (n / 128) = n by omega] at hgroups

/-- There is at most one group more than `more`. -/
theorem length_encodeGroups_le (more n : Nat) : (encodeGroups more n).length ≤ more + 1 := by
  induction more generalizing n with
  | zero => exact Nat.le_refl _
  | succ more ih =>
    rw [encodeGroups]
    split
    · exact Nat.succ_le_succ (Nat.zero_le _)
    · exact Nat.succ_le_succ (ih _)

/-- The bytes are what is written for the number. -/
def Writes (raw : Bytes) (n : Nat) : Prop := raw = encode n

theorem writes_encode (n : Nat) : Writes (encode n) n := rfl

/-- **Writing gives bytes that denote the number.** -/
theorem denotes_encode {n : Nat} (h : n < 2 ^ 64) : Denotes (encode n) n :=
  ⟨groups_encodeGroups (Nat.lt_trans h (by decide)), length_encodeGroups_le 9 n, h⟩

/-! ## Shortest forms -/

/-- The fewest bytes that denote the number. -/
def Minimal (raw : Bytes) (n : Nat) : Prop :=
  Denotes raw n ∧ ∀ other, Denotes other n → raw.length ≤ other.length

/-- What is written is the groups themselves or has fewer bytes.  Group by group the two agree
    until the writer stops, which it does where only zeros are left. -/
theorem Groups.eq_or_lt {raw : Bytes} {n : Nat} (h : Groups raw n) {more : Nat}
    (hn : n < 128 ^ (more + 1)) :
    encodeGroups more n = raw ∨ (encodeGroups more n).length < raw.length := by
  induction h generalizing more with
  | @last b hb =>
    left
    cases more with
    | zero => rw [encodeGroups, Bytes.toUInt8_toNat]
    | succ more => rw [encodeGroups, if_pos hb, Bytes.toUInt8_toNat]
  | @more b rest m hb hgroups ih =>
    have hlt := b.toNat_lt
    have hrest := hgroups.length_pos
    have hone : 1 < (b :: rest).length := Nat.succ_lt_succ hrest
    cases more with
    | zero => exact .inr hone
    | succ more =>
      rw [encodeGroups]
      split
      · exact .inr hone
      · have hhead : ((b.toNat % 128 + 128 * m) % 128 + 128).toUInt8 = b := by
          rw [show (b.toNat % 128 + 128 * m) % 128 + 128 = b.toNat by omega, Bytes.toUInt8_toNat]
        have htail : (b.toNat % 128 + 128 * m) / 128 = m := by omega
        have hm : m < 128 ^ (more + 1) := by
          rw [Nat.pow_succ] at hn
          omega
        rw [hhead, htail]
        rcases ih hm with heq | hless
        · exact .inl (by rw [heq])
        · exact .inr (Nat.succ_lt_succ hless)

theorem Denotes.eq_or_lt {raw : Bytes} {n : Nat} (h : Denotes raw n) :
    encode n = raw ∨ (encode n).length < raw.length :=
  h.groups.eq_or_lt (Nat.lt_trans h.small (by decide))

/-- **What is written is the one shortest form.** -/
theorem minimal_iff {raw : Bytes} {n : Nat} : Minimal raw n ↔ raw = encode n ∧ n < 2 ^ 64 := by
  constructor
  · rintro ⟨h, hleast⟩
    refine ⟨?_, h.small⟩
    rcases h.eq_or_lt with heq | hlt
    · exact heq.symm
    · exact absurd (hleast _ (denotes_encode h.small)) (Nat.not_le.mpr hlt)
  · rintro ⟨rfl, hn⟩
    refine ⟨denotes_encode hn, fun other h => ?_⟩
    rcases h.eq_or_lt with heq | hlt
    · rw [heq]
    · exact Nat.le_of_lt hlt

/-! ## Signed numbers -/

/-- The sign shifted through the whole word. -/
theorem shiftRight_63 (n : Int64) : n >>> 63 = if n.toInt < 0 then -1 else 0 := by
  have hlow := n.le_toInt
  have hhigh := n.toInt_lt
  have hshift : (n >>> 63).toInt = n.toInt / 2 ^ 63 := by
    show (n >>> 63).toBitVec.toInt = _
    rw [Int64.toBitVec_shiftRight]
    show (n.toBitVec.sshiftRight 63).toInt = _
    rw [BitVec.toInt_sshiftRight, Int.shiftRight_eq_div_pow]
    rfl
  apply Int64.toInt_inj.mp
  rw [hshift]
  split
  · show _ = (-1 : Int)
    omega
  · show _ = (0 : Int)
    omega

/-- The natural number of a signed one: twice that, or one less than twice its opposite. -/
theorem zigzag_eq (n : Int64) :
    (zigzag n : Int) = if n.toInt < 0 then -2 * n.toInt - 1 else 2 * n.toInt := by
  have hdouble : (n <<< 1).toBitVec.toNat = 2 * n.toBitVec.toNat % 2 ^ 64 := by
    rw [Int64.toBitVec_shiftLeft]
    show (n.toBitVec <<< 1).toNat = _
    rw [BitVec.toNat_shiftLeft, Nat.shiftLeft_eq, Nat.mul_comm]
  have hlt := n.toBitVec.isLt
  have hint : n.toInt = _ := BitVec.toInt_eq_toNat_cond n.toBitVec
  show ((n <<< 1 ^^^ n >>> 63).toBitVec.toNat : Int) = _
  rw [shiftRight_63]
  split
  · rw [Int64.xor_neg_one, Int64.toBitVec_not, BitVec.toNat_not, hdouble]
    split at hint <;> omega
  · rw [Int64.xor_zero, hdouble]
    split at hint <;> omega

/-- The signed number of a natural one: its half, with the bits inverted if it was odd. -/
theorem toInt_unzigzag {z : Nat} (h : z < 2 ^ 64) :
    (unzigzag z).toInt = if z % 2 = 0 then ((z / 2 : Nat) : Int) else -(z / 2 : Nat) - 1 := by
  have hword : z.toUInt64.toNat = z := UInt64.toNat_ofNat_of_lt h
  have hbit : z.toUInt64 &&& 1 = if z % 2 = 0 then 0 else 1 := by
    rw [← UInt64.toNat_inj, UInt64.toNat_and, hword, show (1 : UInt64).toNat = 1 from rfl,
      Nat.and_one_is_mod]
    split
    · assumption
    · show _ = 1
      omega
  have hhalf : (z.toUInt64 >>> 1).toInt64.toInt = (z / 2 : Nat) := by
    have hnat : (z.toUInt64 >>> 1).toBitVec.toNat = z / 2 := by
      show (z.toUInt64 >>> 1).toNat = _
      rw [UInt64.toNat_shiftRight, hword]
      exact Nat.shiftRight_eq_div_pow z 1
    show (z.toUInt64 >>> 1).toBitVec.toInt = _
    rw [BitVec.toInt_eq_toNat_of_lt (by omega), hnat]
  show ((z.toUInt64 >>> 1).toInt64 ^^^ -(z.toUInt64 &&& 1).toInt64).toInt = _
  rw [hbit]
  split
  · show (_ ^^^ (0 : Int64)).toInt = _
    rw [Int64.xor_zero, hhalf]
  · show (_ ^^^ (-1 : Int64)).toInt = _
    rw [Int64.xor_neg_one, Int64.toInt_not, hhalf]
    exact Int.bmod_eq_of_le (by omega) (by omega)

/-- The number of a signed one has 64 bits. -/
theorem zigzag_lt (n : Int64) : zigzag n < 2 ^ 64 := UInt64.toNat_lt _

/-- Every signed number is found again, -/
theorem unzigzag_zigzag (n : Int64) : unzigzag (zigzag n) = n := by
  have hzigzag := zigzag_eq n
  apply Int64.toInt_inj.mp
  rw [toInt_unzigzag (zigzag_lt n)]
  split at hzigzag <;> split <;> omega

/-- and so is every natural one of 64 bits. -/
theorem zigzag_unzigzag {z : Nat} (h : z < 2 ^ 64) : zigzag (unzigzag z) = z := by
  have hzigzag := zigzag_eq (unzigzag z)
  rw [toInt_unzigzag h] at hzigzag
  split at hzigzag <;> split at hzigzag <;> omega

end SealedStore.Varint
