/-
  Work on a store, call by call.

  A `Call` is an operation with its arguments and an `Answer` what the operation gives.  So a
  course of work on a store is a list of calls, whatever the store is, and two stores can be
  compared by their answers to the same calls.
-/
import SealedStore.Proofs.Codec.Refusal
import SealedStore.Store.Basic

namespace SealedStore

/-- An operation on a store, with its arguments. -/
inductive Call where
  | put (slot : SlotName) (v : Value)
  | putRaw (slot : SlotName) (blob : Bytes)
  | get (slot : SlotName)
  | getRaw (slot : SlotName)
  | contains (slot : SlotName)
  | list

/-- What an operation gives. -/
inductive Answer where
  | size (r : Except StoreError Nat)
  | done (r : Except StoreError Unit)
  | value (r : Except StoreError Value)
  | blob (r : Except StoreError Bytes)
  | held (r : Except StoreError Bool)
  | slots (r : Except StoreError (List SlotName))

/-- Why an operation did not do what it was asked, if it did not. -/
def Answer.error? : Answer → Option StoreError
  | .size (.error e) | .done (.error e) | .value (.error e) | .blob (.error e)
  | .held (.error e) | .slots (.error e) => some e
  | _ => none

namespace Store

variable {σ : Type} [Store σ]

/-! ## Putting a value -/

/-- A value without a blob is refused and leaves the store as it is. -/
theorem put_of_refused (store : σ) (slot : SlotName) {v : Value} {e : CodecError}
    (h : Frame.pack v = .error e) : put store slot v = (.error (.serialization slot e), store) := by
  unfold put
  rw [h]
  show (Except.error (StoreError.ofCodec slot e), store) = _
  rw [StoreError.ofCodec, (Frame.refusal_pack v).isCorruption h, if_neg Bool.false_ne_true]

/-- A value with a blob is put as the blob is, and its size is told. -/
theorem put_of_pack (store : σ) (slot : SlotName) {v : Value} {blob : Bytes}
    (h : Frame.pack v = .ok blob) :
    put store slot v =
      ((putRaw store slot blob).1.map fun _ => blob.length, (putRaw store slot blob).2) := by
  simp only [put, h]
  rcases putRaw store slot blob with ⟨e | ⟨⟩, next⟩
  · rfl
  · rfl

/-! ## Calls -/

/-- Carries out a call. -/
def perform (store : σ) : Call → Answer × σ
  | .put slot v =>
    match put store slot v with
    | (r, store) => (.size r, store)
  | .putRaw slot blob =>
    match putRaw store slot blob with
    | (r, store) => (.done r, store)
  | .get slot => (.value (get store slot), store)
  | .getRaw slot => (.blob (getRaw store slot), store)
  | .contains slot => (.held (contains store slot), store)
  | .list => (.slots (list store), store)

theorem perform_put (store : σ) (slot : SlotName) (v : Value) :
    perform store (.put slot v) = (.size (put store slot v).1, (put store slot v).2) := rfl

theorem perform_putRaw (store : σ) (slot : SlotName) (blob : Bytes) :
    perform store (.putRaw slot blob) =
      (.done (putRaw store slot blob).1, (putRaw store slot blob).2) := rfl

/-- The answers to calls that are carried out one after the other. -/
def answers (store : σ) : List Call → List Answer
  | [] => []
  | call :: calls => (perform store call).1 :: answers (perform store call).2 calls

/-- The store after calls. -/
def after (store : σ) (calls : List Call) : σ :=
  calls.foldl (fun store call => (perform store call).2) store

theorem after_cons (store : σ) (call : Call) (calls : List Call) :
    after store (call :: calls) = after (perform store call).2 calls := rfl

end Store

/-! ## What calls write -/

/-- The bytes that a call puts into a slot.  There are none when the call is about another slot,
    when it only reads, and when its value has no blob. -/
def Call.written (slot : SlotName) : Call → Option Bytes
  | .put s v => if s = slot then (Frame.pack v).toOption else none
  | .putRaw s blob => if s = slot then some blob else none
  | .get _ | .getRaw _ | .contains _ | .list => none

/-- The bytes that were put into a slot last. -/
def lastWritten (slot : SlotName) (calls : List Call) : Option Bytes :=
  calls.findSomeRev? (Call.written slot)

theorem findSomeRev?_append {α β : Type} (f : α → Option β) (xs ys : List α) :
    (xs ++ ys).findSomeRev? f = (ys.findSomeRev? f).or (xs.findSomeRev? f) := by
  simp [List.findSome?_append]

theorem lastWritten_cons (slot : SlotName) (call : Call) (calls : List Call) :
    lastWritten slot (call :: calls) = (lastWritten slot calls).or (call.written slot) :=
  findSomeRev?_append (Call.written slot) [call] calls

/-- What is put into a slot stays until something else is put there. -/
theorem lastWritten_append {slot : SlotName} {before later : List Call} {call : Call} {blob : Bytes}
    (hcall : call.written slot = some blob) (hlater : ∀ c ∈ later, c.written slot = none) :
    lastWritten slot (before ++ call :: later) = some blob := by
  have hnone : lastWritten slot later = none := by
    simpa [lastWritten, List.findSome?_eq_none_iff] using hlater
  rw [lastWritten, findSomeRev?_append, ← lastWritten, lastWritten_cons, hnone, hcall]
  rfl

end SealedStore
