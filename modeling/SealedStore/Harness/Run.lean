/-
  Writing values to slots, reading them back and comparing.

  A run writes all samples before it reads the first, and stops at the first failure.  Every
  operation gives back the harness with all that was done until then.
-/
import SealedStore.Harness.Renderer
import SealedStore.Harness.Sample
import SealedStore.Store.Basic

namespace SealedStore

/-- Why a run stops. -/
inductive HarnessError where
  | store (e : StoreError)
  /-- What was read back is not what was written. -/
  | mismatch (slot : SlotName) (written found : Value)
  | render (slot : SlotName) (fault : RenderFault)

namespace HarnessError

/-- The text of the error. -/
def message : HarnessError → String
  | .store e => e.message
  | .mismatch slot written found =>
    s!"round-trip mismatch in slot {slot.name}: wrote {written.display}, read back {found.display}"
  | .render slot fault => s!"failed to render slot {slot.name}: {fault.message}"

/-- The slot that the error concerns, when there is one. -/
def slot? : HarnessError → Option SlotName
  | .store e => e.slot?
  | .mismatch slot _ _ | .render slot _ => some slot

/-- The text of the cause below the error, when there is one. -/
def causeMessage? : HarnessError → Option String
  | .store e => e.causeMessage?
  | .mismatch _ _ _ | .render _ _ => none

end HarnessError

/-- A value that was written and read back. -/
structure RunEntry where
  slot : SlotName
  /-- The size of the blob that was written. -/
  bytes : Nat
  /-- What was read back. -/
  value : Value
  /-- What was read back is what was written, floats bit for bit. -/
  matched : Bool

/-- What a run did, in the order of reading. -/
structure RunReport where
  entries : List RunEntry

namespace RunReport

/-- The number of values read back. -/
def size (report : RunReport) : Nat := report.entries.length

/-- The size of all blobs written. -/
def totalBytes (report : RunReport) : Nat :=
  report.entries.foldl (fun total entry => total + entry.bytes) 0

/-- The number of values that were read back different. -/
def mismatches (report : RunReport) : Nat := report.entries.countP fun entry => !entry.matched

end RunReport

/-- A store to write to and read from, and what the values go to. -/
structure Harness (σ ρ : Type) where
  store : σ
  renderer : ρ
  /-- A value that is read back different stops the run. -/
  verify : Bool

namespace Harness

variable {σ ρ : Type} [Store σ] [Renderer ρ]

/-- Writes a value to a slot, and gives the size of its blob. -/
def write (h : Harness σ ρ) (slot : SlotName) (v : Value) :
    Except HarnessError Nat × Harness σ ρ :=
  match Store.put h.store slot v with
  | (.ok size, store) => (.ok size, { h with store })
  | (.error e, store) => (.error (.store e), { h with store })

/-- Reads the value of a slot and shows it. -/
def read (h : Harness σ ρ) (slot : SlotName) : Except HarnessError Value × Harness σ ρ :=
  match Store.get h.store slot with
  | .error e => (.error (.store e), h)
  | .ok v =>
    match Renderer.render h.renderer slot v with
    | (.ok (), renderer) => (.ok v, { h with renderer })
    | (.error fault, renderer) => (.error (.render slot fault), { h with renderer })

/-- Writes samples in order, and gives the sizes of their blobs. -/
def writeAll (h : Harness σ ρ) : List Sample → Except HarnessError (List Nat) × Harness σ ρ
  | [] => (.ok [], h)
  | sample :: samples =>
    match h.write sample.slot sample.value with
    | (.error e, h) => (.error e, h)
    | (.ok size, h) =>
      match h.writeAll samples with
      | (.error e, h) => (.error e, h)
      | (.ok sizes, h) => (.ok (size :: sizes), h)

/-- Reads samples in order, which were written with these sizes. -/
def readAll (h : Harness σ ρ) :
    List (Sample × Nat) → Except HarnessError (List RunEntry) × Harness σ ρ
  | [] => (.ok [], h)
  | (sample, bytes) :: samples =>
    match h.read sample.slot with
    | (.error e, h) => (.error e, h)
    | (.ok value, h) =>
      let matched := value.sameAs sample.value
      if h.verify && !matched then (.error (.mismatch sample.slot sample.value value), h)
      else match h.readAll samples with
        | (.error e, h) => (.error e, h)
        | (.ok entries, h) => (.ok (⟨sample.slot, bytes, value, matched⟩ :: entries), h)

/-- Writes all samples, then reads them in the same order. -/
def run (h : Harness σ ρ) (samples : List Sample) :
    Except HarnessError RunReport × Harness σ ρ :=
  match h.writeAll samples with
  | (.error e, h) => (.error e, h)
  | (.ok sizes, h) =>
    match h.readAll (samples.zip sizes) with
    | (.error e, h) => (.error e, h)
    | (.ok entries, h) => (.ok ⟨entries⟩, h)

end Harness

end SealedStore
