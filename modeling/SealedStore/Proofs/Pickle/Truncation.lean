/-
  Streams that are cut.

  What is left of a stream is read as the whole stream is, up to the cut (`stream_placed`): it has
  no result, as the whole would then have bytes behind its `stop`, and nothing in it is refused
  that the whole does not refuse.  All that can be wrong is that bytes are missing.
-/
import SealedStore.Proofs.Pickle.Streams

namespace SealedStore.Pickle

open Reader

variable {v : Value}

/-- The beginning of a stream and the whole of it, given as many steps as the beginning needs. -/
theorem placed_of_load_append {p lost : Bytes} (h : load (p ++ lost) = .ok v) :
    Placed p.length 0 lost (stream p.length ⟨0, p⟩) (.ok (v, ⟨(p ++ lost).length, []⟩)) := by
  have hsteps : p.length ≤ (p ++ lost).length := by
    rw [List.length_append]
    exact Nat.le_add_right _ _
  have hpart : stream (p ++ lost).length ⟨0, p⟩ = stream p.length ⟨0, p⟩ :=
    stream_of_le (Nat.le_refl _) hsteps
  have hend : Input.endPos ⟨0, p⟩ = p.length := Nat.zero_add _
  have hplaced : Placed p.length 0 lost (stream (p ++ lost).length ⟨0, p⟩)
      (stream (p ++ lost).length ⟨0, p ++ lost⟩) := stream_placed _ hend
  rwa [hpart, stream_of_load h] at hplaced

/-- **A stream that is cut is corrupt**, wherever the cut is, and at an offset within what is
    left. -/
theorem load_of_cut {d p : Bytes} (h : load d = .ok v) (hbegins : p <+: d) (hproper : p ≠ d) :
    ∃ offset cause, load p = .error (.corrupt offset cause) ∧ offset ≤ p.length := by
  obtain ⟨lost, rfl⟩ := hbegins
  rcases (placed_of_load_append h).of_ok with ⟨i, -, hend⟩ | ⟨offset, cause, hstream, hoffset⟩
  · -- the whole stream would end with what was cut off
    obtain ⟨-, hrest⟩ := Input.mk.inj hend
    obtain ⟨-, rfl⟩ := List.append_eq_nil_iff.mp hrest.symm
    exact absurd (List.append_nil p).symm hproper
  · refine ⟨offset, cause, ?_, hoffset⟩
    rw [load, hstream]
    rfl

/-- A frame with a number in it, cut behind the number: the frame is too long then. -/
theorem framed_number_cut :
    load [0x80, 4, 0x95, 3, 0, 0, 0, 0, 0, 0, 0, 0x4B, 7, 0x2E] = .ok (.int 7) ∧
    ∃ offset cause, load [0x80, 4, 0x95, 3, 0, 0, 0, 0, 0, 0, 0, 0x4B, 7] =
      .error (.corrupt offset cause) ∧ offset ≤ 13 := by
  have hload : load [0x80, 4, 0x95, 3, 0, 0, 0, 0, 0, 0, 0, 0x4B, 7, 0x2E] = .ok (.int 7) := rfl
  exact ⟨hload, load_of_cut hload ⟨[0x2E], rfl⟩ (by decide)⟩

end SealedStore.Pickle
