/-
  Values that are not written.

  The writer has one way to fail: it refuses the value.  No failure of `encode` or of `pack` says
  that bytes are at fault, so a store takes each of them for a fault of the value.
-/
import SealedStore.Codec.Frame
import SealedStore.Proofs.Codec.Limits

namespace SealedStore

/-- A failure is the refusal of a value. -/
def Refusal {α : Type} (x : Except CodecError α) : Prop :=
  ∀ e, x = .error e → ∃ kind reason, e = .unsupported kind reason

theorem refusal_ok {α : Type} (a : α) : Refusal (.ok a) := fun _ h => nomatch h

theorem refusal_unsupported {α : Type} (kind : Kind) (reason : Unwritable) :
    Refusal (.error (.unsupported kind reason) : Except CodecError α) :=
  fun _ h => ⟨kind, reason, (Except.error.inj h).symm⟩

theorem Refusal.isCorruption {α : Type} {x : Except CodecError α} {e : CodecError} (hx : Refusal x)
    (h : x = .error e) : e.isCorruption = false := by
  obtain ⟨kind, reason, rfl⟩ := hx e h
  rfl

theorem Payload.refusal_encode (v : Value) : Refusal (encode v) := by
  intro e h
  obtain ⟨before, p, behind, -, -, -, rfl⟩ := encode_eq_error_iff.mp h
  exact ⟨p.value.kind, p.refusal, rfl⟩

/-- **A value without a blob is refused**, and nothing else is at fault. -/
theorem Frame.refusal_pack (v : Value) : Refusal (Frame.pack v) := by
  unfold pack
  cases hencode : Payload.encode v with
  | error e =>
    obtain ⟨kind, reason, rfl⟩ := Payload.refusal_encode v e hencode
    exact refusal_unsupported kind reason
  | ok p =>
    rw [except_ok_bind]
    split
    · exact refusal_ok _
    · exact refusal_unsupported _ _

end SealedStore
