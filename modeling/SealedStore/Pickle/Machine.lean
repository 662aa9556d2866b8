/-
  The stack machine that pickle streams are programs of.

  The stack holds values and marks.  The memo holds values under ids: a list or a dictionary
  is remembered by its place on the stack for as long as it stays there, so that what is added
  to it later is seen, and as it was when it is taken off; any other value is remembered as it
  is.  A value on the stack knows the ids under which it is remembered by its place.  A value
  taken from the memo is a copy, and copies are counted.
-/
import Std.Data.TreeMap.Basic
import SealedStore.Pickle.Node

namespace SealedStore.Pickle

/-- What lies on the stack. -/
inductive Item where
  | mark
  /-- A value, and the ids under which it was remembered by its place. -/
  | node (n : Node) (ids : List Nat)
  deriving Inhabited

/-- What is remembered under an id. -/
inductive Entry where
  /-- The value at this height of the stack, the lowest being at height 0. -/
  | live (height : Nat)
  /-- This value. -/
  | frozen (n : Node)
  deriving Inhabited

/-- The memo: entries under ids. -/
abbrev Memo := Std.TreeMap Nat Entry

namespace Memo

/-- Keeps a value under an id that stood for its place. -/
def freeze (height : Nat) (n : Node) (memo : Memo) (id : Nat) : Memo :=
  match memo[id]? with
  | some (.live h) => if h = height then memo.insert id (.frozen n) else memo
  | _ => memo

end Memo

/-- The state between two opcodes. -/
structure Machine where
  /-- The top comes last. -/
  stack : Array Item
  memo : Memo
  /-- How many values were copied so far. -/
  shared : Nat
  deriving Inhabited

namespace Machine

/-- Nothing on the stack and nothing remembered. -/
def start : Machine := ⟨#[], ∅, 0⟩

/-- Puts a node on the stack. -/
def push (m : Machine) (n : Node) : Machine := { m with stack := m.stack.push (.node n []) }

/-- Puts a mark on the stack. -/
def pushMark (m : Machine) : Machine := { m with stack := m.stack.push .mark }

/-- The node on top. -/
def top (m : Machine) : Except Cause Node :=
  match m.stack.back? with
  | none => .error .emptyStack
  | some .mark => .error .markForValue
  | some (.node n _) => .ok n

/-- Takes the top off. -/
def drop (m : Machine) : Machine := { m with stack := m.stack.pop }

/-- Takes off a value that is on top and keeps it under its ids. -/
def release (m : Machine) (n : Node) (ids : List Nat) : Machine :=
  let below := m.stack.pop
  { m with stack := below, memo := ids.foldl (Memo.freeze below.size n) m.memo }

/-- Takes the top off, be it a value or a mark. -/
def popItem (m : Machine) : Except Cause Machine :=
  match m.stack.back? with
  | none => .error .emptyStack
  | some .mark => .ok m.drop
  | some (.node n ids) => .ok (m.release n ids)

/-- Takes a value off the top. -/
def pop (m : Machine) : Except Cause (Node × Machine) :=
  match m.stack.back? with
  | none => .error .emptyStack
  | some .mark => .error .markForValue
  | some (.node n ids) => .ok (n, m.release n ids)

/-- Takes `n` values off in front of others that were taken off before, the lowest first. -/
def popOnto (m : Machine) : Nat → List Node → Except Cause (List Node × Machine)
  | 0, above => .ok (above, m)
  | n + 1, above => do
    let (node, m) ← m.pop
    m.popOnto n (node :: above)

/-- Takes off a mark and the values above it, in front of others that were taken off before.  Of a
    stack of `height` items that holds no mark nothing is made. -/
def popAbove (m : Machine) : (height : Nat) → List Node → Except Cause (List Node × Machine)
  | 0, _ => .error .noMark
  | height + 1, above =>
    match m.stack.back? with
    | none => .error .noMark
    | some .mark => .ok (above, m.drop)
    | some (.node n ids) => (m.release n ids).popAbove height (n :: above)

/-- Takes off all values above the uppermost mark, and the mark.  The lowest comes first. -/
def popToMark (m : Machine) : Except Cause (List Node × Machine) := m.popAbove m.stack.size []

/-- Puts another node in the place of the top, under the same ids. -/
def replaceTop (m : Machine) (change : Node → Except Cause Node) : Except Cause Machine :=
  match m.stack.back? with
  | none => .error .emptyStack
  | some .mark => .error .markForValue
  | some (.node n ids) => do
    let n ← change n
    .ok { m with stack := m.stack.pop.push (.node n ids) }

/-- Counts copies of values. -/
def charge (m : Machine) (size : Nat) : Except Cause Machine :=
  if maxShared < m.shared + size then .error .tooShared
  else .ok { m with shared := m.shared + size }

/-- What an id stands for now. -/
def lookup (m : Machine) (id : Nat) : Except Cause Node :=
  match m.memo[id]? with
  | none => .error (.undefinedMemo id)
  | some (.frozen n) => .ok n
  | some (.live height) =>
    match m.stack[height]? with
    | some (.node n _) => .ok n
    | _ => .error (.lostMemo id)

/-- Remembers the top under an id: a list or a dictionary by its place. -/
def remember (m : Machine) (id : Nat) : Except Cause Machine :=
  match m.stack.back? with
  | none => .error .emptyStack
  | some .mark => .error .markRemembered
  | some (.node n ids) =>
    match n.content with
    | .fixed _ => .ok { m with memo := m.memo.insert id (.frozen n) }
    | _ =>
      let below := m.stack.pop
      let height := below.size
      .ok { m with
        stack := below.push (.node n (id :: ids)), memo := m.memo.insert id (.live height) }

/-- Takes a copy of what an id stands for. -/
def fetch (m : Machine) (id : Nat) : Except Cause Machine := do
  let n ← m.lookup id
  let m ← m.charge n.size
  .ok (m.push n)

/-- Takes values off above the mark and puts what is made of them on the stack. -/
def gather (m : Machine) (make : List Node → Except Cause Node) : Except Cause Machine := do
  let (items, m) ← m.popToMark
  let n ← make items
  .ok (m.push n)

end Machine

end SealedStore.Pickle
