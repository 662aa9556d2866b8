/-
  What is at fault when something fails.

  A failure to write is the value's fault and a failure to read is that of the bytes: the writers
  refuse (`Refusal`), and the readers find nothing but corruption (`Corruption`).  A store in
  memory adds only that a slot may be empty.  So from the kind of its error one knows whether the
  value, the blob or the slot is to blame (`Blames`).
-/
import SealedStore.Proofs.Codec.Blob
import SealedStore.Proofs.Codec.Damage
import SealedStore.Proofs.Codec.Faults
import SealedStore.Proofs.Store.Memory

namespace SealedStore

/-- A failure says that bytes are corrupt, and never that a value is refused. -/
def Corruption {α : Type} (x : Except CodecError α) : Prop :=
  ∀ e, x = .error e → ∀ kind reason, e ≠ .unsupported kind reason

theorem CodecError.isCorruption_iff {e : CodecError} :
    e.isCorruption = true ↔ ∀ kind reason, e ≠ .unsupported kind reason := by
  cases e with
  | unsupported kind reason => exact ⟨fun h => (nomatch h), fun h => absurd rfl (h kind reason)⟩
  | _ => exact ⟨fun _ => nofun, fun _ => rfl⟩

/-! ## Reading -/

theorem Payload.corruption_decode (b : Bytes) : Corruption (decode b) := by
  intro e h
  obtain ⟨offset, cause, rfl, -⟩ := corrupt_of_decode h
  exact nofun

theorem Frame.corruption_inspect (b : Bytes) : Corruption (inspect b) := by
  intro e h
  have hfault := inspect_eq_error_iff.mp h
  exact CodecError.isCorruption_iff.mp hfault.isCorruption

/-- **A blob that is not read is corrupt**: a blob with a sound frame is a payload, and another one
    fails for its frame. -/
theorem Frame.corruption_unpack (b : Bytes) : Corruption (unpack b) := by
  intro e h
  rcases intact_or_corrupt b with hintact | ⟨e', h', hcorrupt⟩
  · rw [hintact.wrapped, unpack_wrap hintact.short] at h
    exact Payload.corruption_decode (payload b) e h
  · obtain rfl : e' = e := Except.error.inj (h'.symm.trans h)
    exact CodecError.isCorruption_iff.mp hcorrupt

/-! ## Stores in memory -/

namespace MemoryStore

variable {store next : MemoryStore} {slot : SlotName}

/-- A value is put unless it is refused. -/
theorem refused_of_put {v : Value} {e : StoreError}
    (h : Store.put store slot v = (.error e, next)) :
    ∃ kind reason, e = .serialization slot (.unsupported kind reason) ∧ next = store := by
  cases hpack : Frame.pack v with
  | ok blob =>
    rw [put_of_pack store slot hpack] at h
    nomatch h
  | error c =>
    obtain ⟨kind, reason, rfl⟩ := Frame.refusal_pack v c hpack
    rw [Store.put_of_refused store slot hpack] at h
    obtain ⟨he, rfl⟩ := Prod.mk.inj h
    exact ⟨kind, reason, (Except.error.inj he).symm, rfl⟩

/-- A slot whose blob is not read is corrupt. -/
theorem get_of_unpack_error {blob : Bytes} {c : CodecError} (hslot : store.get? slot = some blob)
    (hread : Frame.unpack blob = .error c) : Store.get store slot = .error (.corrupt slot c) := by
  have hcorrupt := CodecError.isCorruption_iff.mpr (Frame.corruption_unpack blob c hread)
  simp only [Store.get, getRaw_of_some hslot, hread, StoreError.ofCodec, hcorrupt, if_true]

/-- A slot gives its value unless it is empty or holds a blob that is corrupt. -/
theorem empty_or_corrupt_of_get {e : StoreError} (h : Store.get store slot = .error e) :
    (store.get? slot = none ∧ e = .notFound slot) ∨
      ∃ blob c,
        store.get? slot = some blob ∧ Frame.unpack blob = .error c ∧ e = .corrupt slot c := by
  cases hslot : store.get? slot with
  | none =>
    rw [Store.get, getRaw_of_none hslot] at h
    exact .inl ⟨rfl, (Except.error.inj h).symm⟩
  | some blob =>
    cases hread : Frame.unpack blob with
    | ok v =>
      rw [get_of_some hslot hread] at h
      contradiction
    | error c =>
      rw [get_of_unpack_error hslot hread] at h
      exact .inr ⟨blob, c, rfl, hread, (Except.error.inj h).symm⟩

end MemoryStore

/-! ## All failures -/

/-- What is to blame when a value is written, when bytes are read, and when a store in memory puts
    the value into a slot or gets one from there. -/
structure Blames (store : MemoryStore) (slot : SlotName) (v : Value) (b : Bytes) : Prop where
  /-- The value, when it has no payload. -/
  encode : Refusal (Payload.encode v)
  /-- The value, when it has no blob. -/
  pack : Refusal (Frame.pack v)
  /-- The payload, at an offset within it. -/
  decode : ∀ e, Payload.decode b = .error e →
    ∃ offset cause, e = .corrupt offset cause ∧ offset ≤ b.length
  /-- The blob. -/
  unpack : Corruption (Frame.unpack b)
  /-- The header of the blob. -/
  inspect : Corruption (Frame.inspect b)
  /-- The value, when it is not put, and then the store is as it was. -/
  put : ∀ e next, Store.put store slot v = (.error e, next) →
    (∃ kind reason, e = .serialization slot (.unsupported kind reason)) ∧
      e.slot? = some slot ∧ next = store
  /-- The slot that was asked for when it is empty, and otherwise its blob. -/
  get : ∀ e, Store.get store slot = .error e →
    (store.get? slot = none ∧ e = .notFound slot ∨
      ∃ blob c, store.get? slot = some blob ∧ Frame.unpack blob = .error c ∧ e = .corrupt slot c) ∧
      e.slot? = some slot

/-- **Every failure blames what is at fault**, and names the slot that was worked on. -/
theorem failures_blame (store : MemoryStore) (slot : SlotName) (v : Value) (b : Bytes) :
    Blames store slot v b := by
  refine ⟨Payload.refusal_encode v, Frame.refusal_pack v, fun e h => Payload.corrupt_of_decode h,
    Frame.corruption_unpack b, Frame.corruption_inspect b, ?_, ?_⟩
  · intro e next h
    obtain ⟨kind, reason, rfl, hnext⟩ := MemoryStore.refused_of_put h
    exact ⟨⟨kind, reason, rfl⟩, rfl, hnext⟩
  · intro e h
    have hcases := MemoryStore.empty_or_corrupt_of_get h
    refine ⟨hcases, ?_⟩
    rcases hcases with ⟨-, rfl⟩ | ⟨blob, c, -, -, rfl⟩
    · rfl
    · rfl

end SealedStore
