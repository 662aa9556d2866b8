/-
  Values on the stack of the pickle machine.

  A list or a dictionary may still grow while it lies there.  Its members are kept last first,
  so that adding one does not touch the others; `value` gives the value in its own order.  A
  node also knows bounds on the nesting and on the number of its values, so that neither is
  ever counted again.
-/
import SealedStore.Codec.Error

namespace SealedStore.Pickle

/-- What a node holds. -/
inductive Content where
  /-- A value that nothing can be added to. -/
  | fixed (v : Value)
  /-- A list, its last item first. -/
  | list (reversed : List Value)
  /-- A dictionary, its last entry first. -/
  | dict (reversed : List (Value × Value))
  deriving Inhabited

namespace Content

/-- The content that holds a value. -/
def ofValue : Value → Content
  | .list items => list items.reverse
  | .dict entries => dict entries.reverse
  | v => fixed v

/-- The value that is held. -/
def value : Content → Value
  | fixed v => v
  | list reversed => .list reversed.reverse
  | dict reversed => .dict reversed.reverse

@[simp] theorem value_ofValue (v : Value) : (ofValue v).value = v := by
  cases v <;> simp [ofValue, value]

end Content

/-- A value on the stack, with bounds on its nesting and on its number of values. -/
structure Node where
  content : Content
  /-- No less than the containers nested in it; a scalar or an empty container has none. -/
  depth : Nat
  /-- No less than the values in it, itself included. -/
  size : Nat
  deriving Inhabited

namespace Node

/-- The value of a node. -/
def value (n : Node) : Value := n.content.value

/-- The node of a scalar or an empty container. -/
def leaf (v : Value) : Node := ⟨.ofValue v, 0, 1⟩

@[simp] theorem value_leaf (v : Value) : (leaf v).value = v := Content.value_ofValue v

/-- The values of nodes in order. -/
def values (nodes : List Node) : List Value := nodes.map (·.value)

/-- The greatest depth of a container of the nodes. -/
def depthOver (nodes : List Node) : Nat := nodes.foldl (fun d n => max d (n.depth + 1)) 0

/-- The sizes of the nodes together. -/
def sizeOver (nodes : List Node) : Nat := nodes.foldl (fun s n => s + n.size) 0

/-- The node, if it is not nested too deep. -/
def checked (n : Node) : Except Cause Node :=
  if maxDepth < n.depth then .error .tooDeep else .ok n

/-- A tuple or list of the nodes. -/
def sequence (make : List Value → Value) (items : List Node) : Except Cause Node :=
  checked ⟨.ofValue (make (values items)), depthOver items, 1 + sizeOver items⟩

/-- A node with other content, once more nodes are members of it. -/
def grown (n : Node) (content : Content) (members : List Node) : Node :=
  ⟨content, max n.depth (depthOver members), n.size + sizeOver members⟩

/-- Adds the nodes at the end of a list. -/
def append (n : Node) (items : List Node) : Except Cause Node :=
  match n.content with
  | .list reversed => checked (n.grown (.list ((values items).reverse ++ reversed)) items)
  | c => .error (.notList c.value.kind)

/-- Puts a value under a key, in the place of an earlier value or else at the end, among entries
    whose last comes first. -/
def enter (key value : Value) (reversed : List (Value × Value)) : List (Value × Value) :=
  if reversed.any fun entry => entry.1.equals key then
    (Value.insert key value reversed.reverse).reverse
  else (key, value) :: reversed

/-- Entries that are kept last first are entered as into a dictionary. -/
theorem reverse_enter (key value : Value) (reversed : List (Value × Value)) :
    (enter key value reversed).reverse = Value.insert key value reversed.reverse := by
  unfold enter
  split
  · exact List.reverse_reverse _
  · next h =>
    rw [List.reverse_cons]
    refine (Value.insert_of_forall_ne ?_).symm
    intro entry hentry
    simpa using fun heq => h (List.any_eq_true.2 ⟨entry, List.mem_reverse.1 hentry, heq⟩)

/-- Puts keys and values, which come by turns, into entries one after the other. -/
def enterAll : List (Value × Value) → List Node → Except Cause (List (Value × Value))
  | reversed, key :: value :: rest =>
    if key.value.isHashable then enterAll (enter key.value value.value reversed) rest
    else .error (.unhashableDictKey key.value.kind)
  | reversed, _ => .ok reversed

/-- Puts keys and values, which come by turns, into a dictionary. -/
def setItems (n : Node) (items : List Node) : Except Cause Node :=
  match n.content with
  | .dict reversed => do
    let reversed ← enterAll reversed items
    checked (n.grown (.dict reversed) items)
  | c => .error (.notDict c.value.kind)

/-- Requires that nodes can be taken two at a time. -/
def requirePairs (items : List Node) : Except Cause Unit :=
  if items.length % 2 = 1 then .error .oddItems else .ok ()

/-- A new dictionary of keys and values that come by turns. -/
def dictOf (items : List Node) : Except Cause Node := do
  requirePairs items
  (leaf (.dict [])).setItems items

end Node

end SealedStore.Pickle
