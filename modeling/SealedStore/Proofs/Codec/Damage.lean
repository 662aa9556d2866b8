/-
  Damage to sealed blobs.

  A blob that passes all checks of the frame is its own payload, wrapped (`intact_or_corrupt`): the
  header leaves no byte free.  So of two blobs that pass, neither has just another header, or a few
  other bytes in its payload, or bytes missing at its end.  That is damage (`Damage`), and a blob
  that was damaged in one of these ways is found corrupt.
-/
import SealedStore.Proofs.Codec.Checksum
import SealedStore.Proofs.Codec.Frame

namespace SealedStore.Frame

/-! ## Parts of a blob -/

/-- What `wrap` puts in front of a payload. -/
def header (p : Bytes) : Bytes :=
  magic ++ Bytes.bigEndian 2 version.toNat ++ Bytes.bigEndian 4 p.length ++
    Bytes.bigEndian 4 (Checksum.crc32 p).toNat

theorem length_header (p : Bytes) : (header p).length = headerLength := rfl

/-! ## Blobs that pass -/

/-- A blob that is its own payload, wrapped, and of which the header can say the length. -/
structure Intact (b : Bytes) : Prop where
  wrapped : b = wrap (payload b)
  short : (payload b).length < 2 ^ 32

/-- **A blob is intact or is found corrupt.** -/
theorem intact_or_corrupt (b : Bytes) :
    Intact b ∨ ∃ e, unpack b = .error e ∧ e.isCorruption = true := by
  rcases framed_or_headerFault b with ⟨crc, p, hp, rfl⟩ | ⟨e, hfault⟩
  · by_cases hcrc : Checksum.crc32 p = crc
    · subst hcrc
      exact .inl ⟨rfl, hp⟩
    · refine .inr ⟨.checksumMismatch crc (Checksum.crc32 p), ?_, rfl⟩
      rw [unpack_framed crc hp, if_neg hcrc]
  · exact .inr ⟨e, unpack_of_headerFault hfault, hfault.isCorruption⟩

/-! ## Two blobs that pass -/

section
variable {b b' : Bytes}

theorem Intact.length_le (h : Intact b) : headerLength ≤ b.length := by
  rw [h.wrapped, length_wrap]
  exact Nat.le_add_right _ _

theorem Intact.take_eq (h : Intact b) : b.take headerLength = header (payload b) := by
  calc b.take headerLength = (header (payload b) ++ payload b).take headerLength :=
        congrArg (List.take headerLength) h.wrapped
    _ = header (payload b) := List.take_left' (length_header (payload b))

/-- Blobs with the same header have payloads of one length and one checksum. -/
theorem Intact.same_header (h : Intact b) (h' : Intact b')
    (heq : b'.take headerLength = b.take headerLength) :
    (payload b').length = (payload b).length ∧
      Checksum.crc32 (payload b') = Checksum.crc32 (payload b) := by
  rw [h.take_eq, h'.take_eq, header, header] at heq
  obtain ⟨hfront, hcrc⟩ := List.append_inj' heq rfl
  obtain ⟨-, hlength⟩ := List.append_inj' hfront rfl
  constructor
  · have hnat := congrArg Bytes.ofBigEndian hlength
    rwa [Bytes.ofBigEndian_bigEndian h'.short, Bytes.ofBigEndian_bigEndian h.short] at hnat
  · have hnat := congrArg Bytes.ofBigEndian hcrc
    rw [Bytes.ofBigEndian_bigEndian (UInt32.toNat_lt _),
      Bytes.ofBigEndian_bigEndian (UInt32.toNat_lt _)] at hnat
    exact UInt32.toNat_inj.mp hnat

/-- Blobs with the same payload are the same. -/
theorem Intact.eq_of_payload (h : Intact b) (h' : Intact b') (heq : payload b' = payload b) :
    b' = b := by
  rw [h'.wrapped, heq, ← h.wrapped]

/-- No blob is the beginning of another, since both begin with the same header. -/
theorem Intact.not_append (h : Intact b) {extra : Bytes} (hextra : extra ≠ []) :
    ¬ Intact (b ++ extra) := by
  intro h'
  have htake : (b ++ extra).take headerLength = b.take headerLength :=
    List.take_append_of_le_length h.length_le
  obtain ⟨hlength, -⟩ := h.same_header h' htake
  have hlen := h.length_le
  have hpos := List.length_pos_iff.mpr hextra
  rw [payload, payload, List.length_drop, List.length_drop, List.length_append] at hlength
  omega

end

/-! ## Damage -/

/-- The second blob is the first one, damaged. -/
inductive Damage : Bytes → Bytes → Prop
  /-- Bytes of the header are others, and the payload is kept. -/
  | header {front front' : Bytes} (back : Bytes) :
      front.length = headerLength → front'.length = headerLength → front' ≠ front →
      Damage (front ++ back) (front' ++ back)
  /-- Up to four bytes in a row are others, behind the header, and the rest is kept. -/
  | burst {w w' : Bytes} (front back : Bytes) :
      headerLength ≤ front.length → w'.length = w.length → w.length ≤ 4 → w' ≠ w →
      Damage (front ++ w ++ back) (front ++ w' ++ back)
  /-- Bytes at the end are missing. -/
  | cut {lost : Bytes} (front : Bytes) : lost ≠ [] → Damage (front ++ lost) front
  /-- There are bytes behind the end. -/
  | extended {extra : Bytes} (front : Bytes) : extra ≠ [] → Damage front (front ++ extra)

/-- No damage leaves a blob intact: another header contradicts the same payload, a burst the
    checksum, and a different length the length in the header. -/
theorem Damage.not_intact {b b' : Bytes} (h : Damage b b') (hb : Intact b) : ¬ Intact b' := by
  intro hb'
  cases h with
  | @header front front' back hfront hfront' hne =>
    have hpayload : payload (front' ++ back) = payload (front ++ back) := by
      rw [payload, payload, ← hfront, List.drop_left, hfront, ← hfront', List.drop_left]
    exact hne (List.append_cancel_right (hb.eq_of_payload hb' hpayload))
  | @burst w w' front back hfront hlen hshort hne =>
    have htake : (front ++ w' ++ back).take headerLength =
        (front ++ w ++ back).take headerLength := by
      rw [List.append_assoc, List.append_assoc, List.take_append_of_le_length hfront,
        List.take_append_of_le_length hfront]
    obtain ⟨-, hcrc⟩ := hb.same_header hb' htake
    -- the payloads begin with what is left of `front` behind the header
    have hpayload : ∀ w : Bytes, payload (front ++ w ++ back) =
        front.drop headerLength ++ w ++ back := by
      intro w
      rw [payload, List.append_assoc, List.drop_append_of_le_length hfront, List.append_assoc]
    rw [hpayload, hpayload] at hcrc
    exact Checksum.crc32_ne_of_burst _ back hlen hshort hne hcrc
  | cut front hlost => exact hb'.not_append hlost hb
  | extended front hextra => exact hb.not_append hextra hb'

theorem intact_of_pack {v : Value} {b : Bytes} (h : pack v = .ok b) : Intact b := by
  obtain ⟨p, -, hlen, rfl⟩ := pack_eq_ok_iff.mp h
  exact ⟨rfl, hlen⟩

/-- **Damage to a sealed blob is found**: in its header, in up to four bytes in a row of its
    payload, or at its end. -/
theorem damage_detected {v : Value} {b b' : Bytes} (h : pack v = .ok b) (hdamage : Damage b b') :
    ∃ e, unpack b' = .error e ∧ e.isCorruption = true := by
  rcases intact_or_corrupt b' with hintact | hcorrupt
  · exact absurd hintact (hdamage.not_intact (intact_of_pack h))
  · exact hcorrupt

/-- The payload of a text of six bytes. -/
def textPayload : Bytes := [5, 6, 115, 101, 97, 108, 101, 100]

/-- The last four bytes of a text are damaged, or else the last byte is lost. -/
theorem damaged_text_detected :
    ∃ b, pack (.str "sealed") = .ok b ∧
      Damage b (header textPayload ++ [5, 6, 115, 101] ++ [0, 0, 0, 0]) ∧
      Damage b (b.take 21) ∧
      (∃ e, unpack (header textPayload ++ [5, 6, 115, 101] ++ [0, 0, 0, 0]) = .error e ∧
        e.isCorruption = true) ∧
      ∃ e, unpack (b.take 21) = .error e ∧ e.isCorruption = true := by
  have hpack := pack_eq_ok_iff.mpr
    ⟨_, show Payload.encode (.str "sealed") = .ok textPayload from rfl, by decide, rfl⟩
  have hburst : Damage (wrap textPayload)
      (header textPayload ++ [5, 6, 115, 101] ++ [0, 0, 0, 0]) := by
    have hdamage : Damage (header textPayload ++ [5, 6, 115, 101] ++ [97, 108, 101, 100] ++ [])
        (header textPayload ++ [5, 6, 115, 101] ++ [0, 0, 0, 0] ++ []) :=
      .burst _ _ (by decide) rfl (by decide) (by decide)
    rwa [List.append_nil, List.append_nil] at hdamage
  have hcut : Damage (wrap textPayload) ((wrap textPayload).take 21) := by
    have hdamage : Damage ((wrap textPayload).take 21 ++ (wrap textPayload).drop 21) _ :=
      .cut _ nofun
    rwa [List.take_append_drop] at hdamage
  exact ⟨_, hpack, hburst, hcut, damage_detected hpack hburst, damage_detected hpack hcut⟩

end SealedStore.Frame
