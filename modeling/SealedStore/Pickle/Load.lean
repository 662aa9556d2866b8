/-
  Running pickle streams.

  A stream begins with its protocol version and ends with `stop`, which gives the value on
  top of the stack.  `load` reads the one stream that the bytes are, `loadAll` streams that
  stand one behind the other; nothing is carried from one stream to the next.
-/
import SealedStore.Pickle.Machine
import SealedStore.Pickle.Opcode

namespace SealedStore.Pickle

/-- What an opcode other than `stop` does to the machine. -/
def Machine.exec (m : Machine) : Opcode → Except Cause Machine
  | .protocol => .ok m
  | .frame => .ok m
  | .stop => .ok m
  | .mark => .ok m.pushMark
  | .pop => m.popItem
  | .popMark => do
    let (_, m) ← m.popToMark
    .ok m
  | .dup => do
    let n ← m.top
    let m ← m.charge n.size
    .ok (m.push n)
  | .push v => .ok (m.push (.leaf v))
  | .tuple => m.gather (Node.sequence .tuple)
  | .tupleOf n => do
    let (items, m) ← m.popOnto n []
    let n ← Node.sequence .tuple items
    .ok (m.push n)
  | .list => m.gather (Node.sequence .list)
  | .append => do
    let (item, m) ← m.pop
    m.replaceTop (·.append [item])
  | .appends => do
    let (items, m) ← m.popToMark
    m.replaceTop (·.append items)
  | .dict => m.gather Node.dictOf
  | .setItem => do
    let (value, m) ← m.pop
    let (key, m) ← m.pop
    m.replaceTop (·.setItems [key, value])
  | .setItems => do
    let (items, m) ← m.popToMark
    Node.requirePairs items
    m.replaceTop (·.setItems items)
  | .memoize => if m.memo.size < memoIds then m.remember m.memo.size else .error .memoFull
  | .put id => m.remember id
  | .get id => m.fetch id

/-- Where a run stands after an opcode. -/
inductive Status where
  | running (m : Machine)
  | stopped (v : Value)

/-- Runs one opcode. -/
def Machine.apply (m : Machine) : Opcode → Except Cause Status
  | .stop => do
    let (n, _) ← m.pop
    .ok (.stopped n.value)
  | op => do
    let m ← m.exec op
    .ok (.running m)

/-- What is wrong with an opcode that was read at a position. -/
def located {α : Type} (pos : Nat) : Except Cause α → Except CodecError α
  | .ok x => .ok x
  | .error cause => .error (.corrupt pos cause)

/-- Reads one opcode and runs it. -/
def step (m : Machine) : Reader Status := fun i => do
  let (op, j) ← Opcode.read i
  let status ← located i.pos (m.apply op)
  .ok (status, j)

/-- Runs opcodes until the stream stops, at most `steps` of them.  Every opcode takes a byte, so as
    many steps as there are bytes are enough. -/
def run : (steps : Nat) → Machine → Reader Value
  | 0, _, i => .error (.corrupt i.pos .endWithoutStop)
  | steps + 1, m, i => do
    let (status, j) ← step m i
    match status with
    | .stopped v => .ok (v, j)
    | .running m => run steps m j

/-- The opcode code that begins a stream. -/
def protocolCode : UInt8 := 0x80

/-- The protocol version at the beginning of a stream. -/
def header : Reader Opcode := fun i => do
  let (code, j) ← operandByte i
  if code ≠ protocolCode then .error (.corrupt i.pos .noProtocol) else protocol i.pos j

/-- One stream of at most `steps` opcodes. -/
def stream (steps : Nat) : Reader Value := fun i => do
  let (_, j) ← header i
  run steps .start j

/-- The value of the stream that the bytes are. -/
def load (bytes : Bytes) : Except CodecError Value := do
  let (v, i) ← stream bytes.length ⟨0, bytes⟩
  if i.rest.isEmpty then .ok v
  else .error (.corrupt i.pos (.trailingStream i.rest.length))

/-- The values of streams of at most `steps` opcodes each up to the end, at most `most` of them. -/
def streams (steps : Nat) : (most : Nat) → Input → Except CodecError (List Value)
  | 0, _ => .ok []
  | most + 1, i =>
    if i.rest.isEmpty then .ok []
    else do
      let (v, j) ← stream steps i
      let vs ← streams steps most j
      .ok (v :: vs)

/-- The values of all streams that the bytes are. -/
def loadAll (bytes : Bytes) : Except CodecError (List Value) :=
  streams bytes.length bytes.length ⟨0, bytes⟩

end SealedStore.Pickle
