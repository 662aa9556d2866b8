/-
  How pickle streams spell plain data.

  A scalar is one opcode, a tuple comes after its items, and a list or a dictionary begins empty
  and is filled in batches.  What is remembered gets the next id, a container while it is still
  empty; its id may be used once the container is completed.  `Emits` says which opcodes emit a
  value after others, and `Pickles` which bytes spell such opcodes, with frames between them.
-/
import SealedStore.Pickle.Load
import SealedStore.Proofs.Pickle.Opcodes
import SealedStore.Proofs.Value.WellFormed

namespace SealedStore.Pickle

/-! ## Opcodes -/

/-- What ids stand for, the first for id 0: a completed value, or a container that is still open. -/
abbrev Known := List (Option Value)

/-- What is known when more values were remembered and completed. -/
def Known.add (known : Known) (added : List Value) : Known := known ++ added.map some

theorem Known.add_nil (known : Known) : known.add [] = known := List.append_nil known

theorem Known.add_add (known : Known) (added added' : List Value) :
    (known.add added).add added' = known.add (added ++ added') := by
  rw [add, add, add, List.map_append, List.append_assoc]

theorem Known.length_add (known : Known) (added : List Value) :
    (known.add added).length = known.length + added.length := by
  rw [add, List.length_append, List.length_map]

theorem Known.getElem?_add {known : Known} {id : Nat} {x : Option Value}
    (h : known[id]? = some x) (added : List Value) : (known.add added)[id]? = some x := by
  rw [add, List.getElem?_append_left (List.getElem?_eq_some_iff.mp h).1, h]

/-- A value that is a single opcode, and that nothing is added to. -/
def Atom : Value → Prop
  | .none | .bool _ | .int _ | .float _ | .str _ | .bytes _ | .tuple [] => True
  | _ => False

/-- The opcode, if any, that remembers a value under an id, and what is remembered by it.  Ids are
    numbers of 32 bits. -/
inductive Keeps (id : Nat) (v : Value) : List Opcode → List Value → Prop
  | not : Keeps id v [] []
  | memoize : id < memoIds → Keeps id v [.memoize] [v]
  | put : Keeps id v [.put id] [v]

/-- What opcodes may be there for. -/
inductive Task where
  /-- A value. -/
  | value (v : Value)
  /-- Values, one after the other. -/
  | values (vs : List Value)
  /-- Values that are added to a list. -/
  | items (vs : List Value)
  /-- Keys with their values that are added to a dictionary. -/
  | entries (es : List (Value × Value))

/-- The opcodes do a task when the ids stand for what is known.  So many values are copies, and
    these values were remembered, in order of their ids. -/
inductive Emits : Known → List Opcode → Task → (copied : Nat) → (added : List Value) → Prop
  | atom {known v keep kept} :
      Atom v → Keeps known.length v keep kept →
      Emits known (.push v :: keep) (.value v) 0 kept
  | get {known v} {id : Nat} :
      known[id]? = some (some v) → Emits known [.get id] (.value v) v.nodes.length []
  | tupleOf {known ops vs copied inner keep kept} :
      Emits known ops (.values vs) copied inner → 1 ≤ vs.length → vs.length ≤ 3 →
      Keeps (known.length + inner.length) (.tuple vs) keep kept →
      Emits known (ops ++ .tupleOf vs.length :: keep) (.value (.tuple vs)) copied (inner ++ kept)
  | tuple {known ops vs copied inner keep kept} :
      Emits known ops (.values vs) copied inner →
      Keeps (known.length + inner.length) (.tuple vs) keep kept →
      Emits known (.mark :: ops ++ .tuple :: keep) (.value (.tuple vs)) copied (inner ++ kept)
  | list {known ops vs copied inner keep kept} :
      Keeps known.length (.list vs) keep kept →
      Emits (known ++ kept.map fun _ => none) ops (.items vs) copied inner →
      Emits known (.push (.list []) :: keep ++ ops) (.value (.list vs)) copied (kept ++ inner)
  | dict {known ops es copied inner keep kept} :
      Keeps known.length (.dict es) keep kept →
      (Value.dict es).KeysHashable → (Value.dict es).KeysApart →
      Emits (known ++ kept.map fun _ => none) ops (.entries es) copied inner →
      Emits known (.push (.dict []) :: keep ++ ops) (.value (.dict es)) copied (kept ++ inner)
  | noValues {known} : Emits known [] (.values []) 0 []
  | andValues {known ops v a added ops' vs b added'} :
      Emits known ops (.value v) a added →
      Emits (known.add added) ops' (.values vs) b added' →
      Emits known (ops ++ ops') (.values (v :: vs)) (a + b) (added ++ added')
  | noItems {known} : Emits known [] (.items []) 0 []
  | append {known ops v a added ops' vs b added'} :
      Emits known ops (.value v) a added →
      Emits (known.add added) ops' (.items vs) b added' →
      Emits known (ops ++ .append :: ops') (.items (v :: vs)) (a + b) (added ++ added')
  | appends {known ops us a added ops' vs b added'} :
      Emits known ops (.values us) a added →
      Emits (known.add added) ops' (.items vs) b added' →
      Emits known (.mark :: ops ++ .appends :: ops') (.items (us ++ vs)) (a + b) (added ++ added')
  | noEntries {known} : Emits known [] (.entries []) 0 []
  | setItem {known ops k v a added ops' es b added'} :
      Emits known ops (.values [k, v]) a added →
      Emits (known.add added) ops' (.entries es) b added' →
      Emits known (ops ++ .setItem :: ops') (.entries ((k, v) :: es)) (a + b) (added ++ added')
  | setItems {known ops ds a added ops' es b added'} :
      Emits known ops (.values (Value.dict ds).members) a added →
      Emits (known.add added) ops' (.entries es) b added' →
      Emits known (.mark :: ops ++ .setItems :: ops') (.entries (ds ++ es)) (a + b)
        (added ++ added')

/-! ## Bytes -/

/-- The bytes are the opcodes and the `stop` behind them, with frames before any of these. -/
inductive Spelled : Bytes → List Opcode → Prop
  | stop {raw} : Opcode.Spells [] raw .stop → Spelled raw []
  | frame {raw behind ops} :
      Opcode.Spells behind raw .frame → Spelled behind ops → Spelled (raw ++ behind) ops
  | next {raw behind op ops} :
      Opcode.Spells behind raw op → Spelled behind ops → Spelled (raw ++ behind) (op :: ops)

/-- The bytes are a pickle of a value, in which so many values are copies. -/
def Pickles (bytes : Bytes) (v : Value) (copied : Nat) : Prop :=
  ∃ version body ops added, version ≤ highestProtocol ∧
    bytes = protocolCode :: version :: body ∧ Spelled body ops ∧
      Emits [] ops (.value v) copied added

end SealedStore.Pickle
