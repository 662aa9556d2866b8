/-
  Payloads end by themselves.

  No payload begins another one (`eq_of_decode_isPrefix`), so what is left of one after a cut is
  none, and all that is not a payload is corrupt.  In front of other bytes a payload is read as it
  is when it stands alone: the reader stops where it ends (`value_append`), and it is `decode` that
  finds the bytes behind it, at that place.
-/
import SealedStore.Proofs.Codec.Faults
import SealedStore.Proofs.Codec.Reading

namespace SealedStore.Payload

open Reader

/-- No payload begins another: a reader that gave a value for the shorter one would stop there in
    the longer one too. -/
theorem eq_of_decode_isPrefix {p b : Bytes} {v w : Value} (hp : decode p = .ok w)
    (hb : decode b = .ok v) (h : p <+: b) : p = b := by
  obtain ⟨lost, rfl⟩ := h
  have hshort : Grammar p w := grammar_of_decode hp
  have hlong : Grammar (p ++ lost) v := grammar_of_decode hb
  have heq : p ++ lost = (p ++ lost) ++ [] := (List.append_nil _).symm
  exact ((recognises_value (maxDepth + 1)).unambiguous hshort hlong lost [] heq).1

/-- The reader takes a payload off what begins with it. -/
theorem value_append {b : Bytes} {v : Value} (h : decode b = .ok v) (t : Bytes) :
    value (maxDepth + 1) ⟨0, b ++ t⟩ = .ok (v, ⟨b.length, t⟩) := by
  have hread := (recognises_value (maxDepth + 1)).read_append (grammar_of_decode h) 0 t
  rwa [Nat.zero_add] at hread

/-- **Payloads delimit themselves.**  What begins a payload and is not all of it is corrupt, at an
    offset within what is left; what is longer than a payload is corrupt where the payload ends. -/
theorem payload_delimits_itself {b : Bytes} {v : Value} (h : decode b = .ok v) :
    (∀ p, p <+: b → p ≠ b →
      ∃ offset cause, decode p = .error (.corrupt offset cause) ∧ offset ≤ p.length) ∧
    ∀ t, t ≠ [] → decode (b ++ t) = .error (.corrupt b.length (.trailingPayload t.length)) := by
  constructor
  · intro p hbegins hproper
    cases hdecode : decode p with
    | ok w => exact absurd (eq_of_decode_isPrefix hdecode h hbegins) hproper
    | error e =>
      obtain ⟨offset, cause, rfl, hoffset⟩ := corrupt_of_decode hdecode
      exact ⟨offset, cause, rfl, hoffset⟩
  · intro t hne
    have hrest : ¬ t.isEmpty = true := fun hempty => hne (List.isEmpty_iff.mp hempty)
    rw [decode, value_append h t, except_ok_bind]
    exact if_neg hrest

/-- A list of two truth values, cut within the list and followed by a payload of its own. -/
theorem list_delimits_itself :
    decode [0x08, 2, 0x01, 0x02] = .ok (.list [.bool false, .bool true]) ∧
    (∃ offset cause, decode [0x08, 2, 0x01] = .error (.corrupt offset cause) ∧ offset ≤ 3) ∧
    decode ([0x08, 2, 0x01, 0x02] ++ [0x00]) = .error (.corrupt 4 (.trailingPayload 1)) := by
  have hread : decode [0x08, 2, 0x01, 0x02] = .ok (.list [.bool false, .bool true]) := rfl
  obtain ⟨hcut, hlonger⟩ := payload_delimits_itself hread
  exact ⟨hread, hcut [0x08, 2, 0x01] ⟨[0x02], rfl⟩ (by decide), hlonger [0x00] (by decide)⟩

end SealedStore.Payload
