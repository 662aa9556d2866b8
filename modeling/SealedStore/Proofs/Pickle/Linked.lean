/-
  What an opcode does to the stack and to the memo.

  Every opcode that does not remember something first takes items off the stack, as many as
  `Machine.taken` tells beforehand, and then puts one item on it or changes the top (`exec_cases`).
  Taking items off cuts the memo: an entry for a place that is gone holds the value that lay there
  (`Entry.cut`).  Nothing that is added afterwards changes an entry.

  This rests on an invariant: under every id that stands for a place of the stack a list or a
  dictionary lies there and knows the id (`Machine.Linked`).  Without it an id that was given
  away again could settle the entry of another value.
-/
import SealedStore.Proofs.Pickle.Node
import SealedStore.Proofs.Pickle.Machine

namespace SealedStore.Pickle

/-! ## Lists and dictionaries -/

namespace Node

/-- The node is a list or a dictionary. -/
def IsOpen (n : Node) : Prop := n.value.kind = .list ∨ n.value.kind = .dict

/-- A list or a dictionary is held as one that may grow. -/
def Regular (n : Node) : Prop := n.content = .ofValue n.value

variable {n n' : Node} {items : List Node}

theorem regular_ofValue (v : Value) (depth size : Nat) : Regular ⟨.ofValue v, depth, size⟩ :=
  congrArg Content.ofValue (Content.value_ofValue v).symm

/-- A list or a dictionary is not held as a value that nothing can be added to. -/
theorem Regular.content_ne (h : n.Regular) (hopen : n.IsOpen) (v : Value) :
    n.content ≠ .fixed v := by
  intro hfixed
  have hofValue : Content.ofValue n.value = .fixed v := h.symm.trans hfixed
  rcases hopen with hkind | hkind
  · cases hv : n.value with
    | list items => rw [hv] at hofValue; nomatch hofValue
    | _ => rw [hv] at hkind; nomatch hkind
  · cases hv : n.value with
    | dict entries => rw [hv] at hofValue; nomatch hofValue
    | _ => rw [hv] at hkind; nomatch hkind

theorem Regular.exists_fixed (h : n.Regular) (hopen : ¬ n.IsOpen) : ∃ v, n.content = .fixed v := by
  rw [show n.content = _ from h]
  cases hv : n.value with
  | list items => exact absurd (.inl (by rw [hv]; rfl)) hopen
  | dict entries => exact absurd (.inr (by rw [hv]; rfl)) hopen
  | _ => exact ⟨_, rfl⟩

theorem regular_sequence {make : List Value → Value} (h : sequence make items = .ok n) :
    n.Regular := by
  obtain ⟨rfl, -⟩ := sequence_eq_ok_iff.mp h
  exact regular_ofValue _ _ _

/-- What was added to is a list. -/
theorem open_append (h : n.append items = .ok n') : n'.Regular ∧ n'.IsOpen := by
  obtain ⟨reversed, -, rfl, -⟩ := append_eq_ok_iff.mp h
  refine ⟨?_, .inl rfl⟩
  show Content.list _ = .ofValue (.list _)
  rw [Content.ofValue, List.reverse_reverse]

/-- What has items under keys is a dictionary. -/
theorem open_setItems (h : n.setItems items = .ok n') : n'.Regular ∧ n'.IsOpen := by
  obtain ⟨reversed, reversed', -, -, -, rfl, -⟩ := setItems_eq_ok_iff.mp h
  refine ⟨?_, .inr rfl⟩
  show Content.dict _ = .ofValue (.dict _)
  rw [Content.ofValue, List.reverse_reverse]

end Node

/-! ## What an opcode takes off -/

/-- The item is a mark. -/
def Item.isMark : Item → Bool
  | .mark => true
  | .node _ _ => false

/-- How many values lie above the uppermost mark. -/
def aboveMark (stack : Array Item) : Nat := stack.toList.reverse.findIdx Item.isMark

theorem aboveMark_node (below : Array Item) (n : Node) (ids : List Nat) :
    aboveMark (below.push (.node n ids)) = aboveMark below + 1 := by
  rw [aboveMark, Array.toList_push, List.reverse_append, List.reverse_singleton,
    List.singleton_append, List.findIdx_cons]
  rfl

theorem aboveMark_mark (below : Array Item) : aboveMark (below.push .mark) = 0 := by
  rw [aboveMark, Array.toList_push, List.reverse_append, List.reverse_singleton,
    List.singleton_append, List.findIdx_cons]
  rfl

/-- An entry when all but the lower `kept` items of a stack are taken off. -/
def Entry.cut (stack : Array Item) (kept : Nat) : Entry → Entry
  | .frozen n => .frozen n
  | .live height =>
    if height < kept then .live height
    else
      match stack[height]? with
      | some (.node n _) => .frozen n
      | _ => .live height

theorem Entry.cut_of_lt {stack : Array Item} {kept height : Nat} (h : height < kept) :
    (Entry.live height).cut stack kept = .live height := if_pos h

theorem Entry.cut_of_node {stack : Array Item} {kept height : Nat} {n : Node} {ids : List Nat}
    (h : kept ≤ height) (hnode : stack[height]? = some (.node n ids)) :
    (Entry.live height).cut stack kept = .frozen n := by
  rw [cut, if_neg (Nat.not_lt.mpr h), hnode]

namespace Machine

/-- How many items an opcode takes off the stack. -/
def taken (m : Machine) : Opcode → Nat
  | .stop | .pop | .append => 1
  | .setItem => 2
  | .tupleOf n => n
  | .popMark | .tuple | .list | .dict | .appends | .setItems => aboveMark m.stack + 1
  | _ => 0

/-- The id under which an opcode remembers the top. -/
def stores (m : Machine) : Opcode → Option Nat
  | .memoize => some m.memo.size
  | .put id => some id
  | _ => none

/-- Every id that stands for a place is known to the list or dictionary there. -/
structure Linked (m : Machine) : Prop where
  regular : ∀ (height : Nat) n ids, m.stack[height]? = some (.node n ids) → n.Regular
  frozen : ∀ (id : Nat) n, m.memo[id]? = some (.frozen n) → n.Regular
  live : ∀ id height : Nat, m.memo[id]? = some (.live height) →
    ∃ n ids, m.stack[height]? = some (.node n ids) ∧ n.IsOpen ∧ id ∈ ids

/-- Items are taken off, and the entries of their ids hold them. -/
structure Cut (m m' : Machine) : Prop where
  le : m'.stack.size ≤ m.stack.size
  stack : ∀ height, height < m'.stack.size → m'.stack[height]? = m.stack[height]?
  memo : ∀ id : Nat, m'.memo[id]? = m.memo[id]?.map (Entry.cut m.stack m'.stack.size)

/-- An item is put on the stack, or the list or dictionary on top grows. -/
inductive Adds (m : Machine) : Machine → Prop
  | nothing (shared : Nat) : Adds m { m with shared := shared }
  | mark : Adds m m.pushMark
  | node {n : Node} (shared : Nat) : n.Regular → Adds m { m.push n with shared := shared }
  | grown {below : Array Item} {n n' : Node} {ids : List Nat} :
      m.stack = below.push (.node n ids) → n'.Regular ∧ n'.IsOpen →
      Adds m { m with stack := below.push (.node n' ids) }

variable {m m' m'' : Machine} {n : Node} {below : Array Item} {ids : List Nat}

theorem linked_start : start.Linked where
  regular _ _ _ h := nomatch h
  frozen id n h := by
    rw [show start.memo = ∅ from rfl, Std.TreeMap.getElem?_emptyc] at h
    nomatch h
  live id height h := by
    rw [show start.memo = ∅ from rfl, Std.TreeMap.getElem?_emptyc] at h
    nomatch h

/-! ### One item after the other -/

theorem getElem?_of_push {x y : Item} {height : Nat} (hstack : m.stack = below.push x)
    (h : m.stack[height]? = some y) :
    (height < below.size ∧ below[height]? = some y) ∨ (height = below.size ∧ y = x) := by
  rw [hstack, Array.getElem?_push] at h
  split at h
  · next heq => exact .inr ⟨heq, (Option.some.inj h).symm⟩
  · exact .inl ⟨(Array.getElem?_eq_some_iff.mp h).1, h⟩

theorem getElem?_below {x : Item} {height : Nat} (hstack : m.stack = below.push x)
    (h : height < below.size) : below[height]? = m.stack[height]? := by
  rw [hstack, Array.getElem?_push, if_neg (Nat.ne_of_lt h)]

theorem size_of_push {x : Item} (hstack : m.stack = below.push x) :
    m.stack.size = below.size + 1 := by
  rw [hstack, Array.size_push]

theorem Linked.regular_top (h : m.Linked) (hstack : m.stack = below.push (.node n ids)) :
    n.Regular :=
  h.regular below.size n ids (by rw [hstack, Array.getElem?_push_size])

/-- What is done to an entry depends on the item at the place that it names. -/
theorem Linked.map_congr (h : m.Linked) {f g : Entry → Entry} {id : Nat}
    (hfrozen : ∀ n, f (.frozen n) = g (.frozen n))
    (hlive : ∀ (height : Nat) n ids, m.stack[height]? = some (.node n ids) → id ∈ ids →
      f (.live height) = g (.live height)) : m.memo[id]?.map f = m.memo[id]?.map g := by
  cases he : m.memo[id]? with
  | none => rfl
  | some e =>
    cases e with
    | frozen n => exact congrArg some (hfrozen n)
    | live height =>
      obtain ⟨n, ids, hnode, -, hid⟩ := h.live id height he
      exact congrArg some (hlive height n ids hnode hid)

/-- The memo is left alone if no value is taken off under which the id is known. -/
theorem Linked.map_cut_eq (h : m.Linked) {kept id : Nat}
    (hkept : ∀ (height : Nat) n ids, m.stack[height]? = some (.node n ids) → id ∈ ids →
      height < kept) : m.memo[id]?.map (Entry.cut m.stack kept) = m.memo[id]? := by
  calc m.memo[id]?.map (Entry.cut m.stack kept) = m.memo[id]?.map (fun e => e) :=
        h.map_congr (fun _ => rfl) fun height n ids hnode hid =>
          Entry.cut_of_lt (hkept height n ids hnode hid)
    _ = m.memo[id]? := Option.map_id'

theorem Linked.cut_refl (h : m.Linked) : m.Cut m where
  le := Nat.le_refl _
  stack _ _ := rfl
  memo _ := (h.map_cut_eq fun _ _ _ hnode _ => (Array.getElem?_eq_some_iff.mp hnode).1).symm

/-- A value is taken off. -/
theorem Linked.cut_without (h : m.Linked) (hstack : m.stack = below.push (.node n ids)) :
    m.Cut (m.without below n ids) where
  le := by
    rw [size_of_push hstack]
    exact Nat.le_succ _
  stack height hlt := getElem?_below hstack hlt
  memo id := by
    refine (Memo.getElem?_freezeAll below.size n m.memo ids id).trans ?_
    show _ = m.memo[id]?.map (Entry.cut m.stack below.size)
    by_cases hid : id ∈ ids
    · rw [if_pos hid]
      refine h.map_congr (fun n => rfl) fun height n' ids' hnode _ => ?_
      rcases getElem?_of_push hstack hnode with ⟨hlt, -⟩ | ⟨rfl, heq⟩
      · rw [Entry.cut_of_lt hlt, Entry.settle, if_neg (Nat.ne_of_lt hlt)]
      · obtain ⟨rfl, rfl⟩ := Item.node.inj heq
        rw [Entry.cut_of_node (Nat.le_refl _) hnode, Entry.settle, if_pos rfl]
    · -- what is remembered under another id lies below
      rw [if_neg hid]
      refine (h.map_cut_eq fun height n' ids' hnode hid' => ?_).symm
      rcases getElem?_of_push hstack hnode with ⟨hlt, -⟩ | ⟨-, heq⟩
      · exact hlt
      · obtain ⟨-, rfl⟩ := Item.node.inj heq
        exact absurd hid' hid

/-- A mark is taken off, for which no id stands. -/
theorem Linked.cut_mark (h : m.Linked) (hstack : m.stack = below.push .mark) :
    m.Cut { m with stack := below } where
  le := by
    rw [size_of_push hstack]
    exact Nat.le_succ _
  stack height hlt := getElem?_below hstack hlt
  memo id := by
    refine (h.map_cut_eq fun height n ids hnode _ => ?_).symm
    rcases getElem?_of_push hstack hnode with ⟨hlt, -⟩ | ⟨-, heq⟩
    · exact hlt
    · nomatch heq

/-- Taking items off keeps the ids linked: an entry that still stands for a place stands for one
    that is left, and any other has come to hold what lay there. -/
theorem Cut.linked (hcut : m.Cut m') (h : m.Linked) : m'.Linked where
  regular height n ids hnode := by
    have hlt := (Array.getElem?_eq_some_iff.mp hnode).1
    rw [hcut.stack height hlt] at hnode
    exact h.regular height n ids hnode
  frozen id n hfrozen := by
    rw [hcut.memo] at hfrozen
    obtain ⟨e, he, hcute⟩ := Option.map_eq_some_iff.mp hfrozen
    cases e with
    | frozen n' =>
      obtain rfl := Entry.frozen.inj hcute
      exact h.frozen id _ he
    | live height =>
      obtain ⟨n', ids, hnode, -⟩ := h.live id height he
      by_cases hlt : height < m'.stack.size
      · rw [Entry.cut_of_lt hlt] at hcute
        nomatch hcute
      · rw [Entry.cut_of_node (Nat.not_lt.mp hlt) hnode] at hcute
        obtain rfl := Entry.frozen.inj hcute
        exact h.regular height _ ids hnode
  live id height hlive := by
    rw [hcut.memo] at hlive
    obtain ⟨e, he, hcute⟩ := Option.map_eq_some_iff.mp hlive
    cases e with
    | frozen n' => nomatch hcute
    | live height' =>
      obtain ⟨n', ids, hnode, hopen⟩ := h.live id height' he
      by_cases hlt : height' < m'.stack.size
      · rw [Entry.cut_of_lt hlt] at hcute
        obtain rfl := Entry.live.inj hcute
        exact ⟨n', ids, (hcut.stack _ hlt).trans hnode, hopen⟩
      · rw [Entry.cut_of_node (Nat.not_lt.mp hlt) hnode] at hcute
        nomatch hcute

/-- Taking items off twice is taking them off at once. -/
theorem Cut.trans (h : m.Linked) (hcut : m.Cut m') (hcut' : m'.Cut m'') : m.Cut m'' where
  le := Nat.le_trans hcut'.le hcut.le
  stack height hlt :=
    (hcut'.stack height hlt).trans (hcut.stack height (Nat.lt_of_lt_of_le hlt hcut'.le))
  memo id := by
    rw [hcut'.memo, hcut.memo, Option.map_map]
    refine h.map_congr (fun n => rfl) fun height n ids hnode _ => ?_
    rw [Function.comp_apply]
    -- the place is kept by both, or it is lost by the second or already by the first
    by_cases hlt : height < m'.stack.size
    · have hnode' := (hcut.stack height hlt).trans hnode
      rw [Entry.cut_of_lt hlt]
      by_cases hlt' : height < m''.stack.size
      · rw [Entry.cut_of_lt hlt', Entry.cut_of_lt hlt']
      · rw [Entry.cut_of_node (Nat.not_lt.mp hlt') hnode,
          Entry.cut_of_node (Nat.not_lt.mp hlt') hnode']
    · have hle := Nat.not_lt.mp hlt
      rw [Entry.cut_of_node hle hnode, Entry.cut_of_node (Nat.le_trans hcut'.le hle) hnode]
      rfl

/-! ### Several items -/

theorem Linked.cut_pop (h : m.Linked) (hpop : m.pop = .ok (n, m')) :
    m.Cut m' ∧ m'.stack.size = m.stack.size - 1 := by
  obtain ⟨below, ids, hstack, rfl⟩ := pop_eq_ok_iff.mp hpop
  refine ⟨h.cut_without hstack, ?_⟩
  rw [size_of_push hstack]
  rfl

theorem Linked.cut_popItem (h : m.Linked) (hpop : m.popItem = .ok m') :
    m.Cut m' ∧ m'.stack.size = m.stack.size - 1 := by
  rcases popItem_eq_ok_iff.mp hpop with ⟨below, hstack, rfl⟩ | ⟨n, hpop⟩
  · refine ⟨h.cut_mark hstack, ?_⟩
    rw [size_of_push hstack]
    rfl
  · exact h.cut_pop hpop

theorem Takes.cut {ns : List Node} (htakes : Takes m ns m') (h : m.Linked) : m.Cut m' := by
  induction htakes with
  | nil => exact h.cut_refl
  | snoc hpop _ ih =>
    obtain ⟨hcut, -⟩ := h.cut_pop hpop
    exact hcut.trans h (ih (hcut.linked h))

/-- Values that are taken off lay above the uppermost mark. -/
theorem Takes.aboveMark_eq {ns : List Node} (htakes : Takes m ns m') :
    aboveMark m.stack = ns.length + aboveMark m'.stack := by
  induction htakes with
  | nil => exact (Nat.zero_add _).symm
  | @snoc m m' m'' n ns hpop _ ih =>
    obtain ⟨below, ids, hstack, rfl⟩ := pop_eq_ok_iff.mp hpop
    have hbelow : aboveMark below = ns.length + aboveMark m''.stack := ih
    rw [hstack, aboveMark_node, hbelow, List.length_append, List.length_singleton]
    omega

/-- With the values above a mark the mark is taken off too. -/
theorem Linked.cut_popToMark (h : m.Linked) {items : List Node}
    (hpop : m.popToMark = .ok (items, m')) :
    m.Cut m' ∧ m'.stack.size = m.stack.size - (aboveMark m.stack + 1) := by
  obtain ⟨m₁, below, htakes, hmark, rfl⟩ := popToMark_eq_ok_iff.mp hpop
  have hcut := htakes.cut h
  refine ⟨hcut.trans h ((hcut.linked h).cut_mark hmark), ?_⟩
  rw [htakes.size_eq, htakes.aboveMark_eq, hmark, aboveMark_mark, Array.size_push]
  show below.size = _
  omega

/-! ## What an opcode adds -/

theorem Adds.memo_eq (h : m.Adds m') : m'.memo = m.memo := by
  cases h <;> rfl

/-- Items stay where they are; only a list or a dictionary may have grown. -/
theorem Adds.node_or (hadds : m.Adds m') {height : Nat}
    (h : m.stack[height]? = some (.node n ids)) :
    m'.stack[height]? = some (.node n ids) ∨
      ∃ n', m'.stack[height]? = some (.node n' ids) ∧ n'.IsOpen := by
  have hpush : ∀ x, (m.stack.push x)[height]? = some (.node n ids) := by
    intro x
    rw [Array.getElem?_push, if_neg (Nat.ne_of_lt (Array.getElem?_eq_some_iff.mp h).1), h]
  cases hadds with
  | nothing => exact .inl h
  | mark => exact .inl (hpush _)
  | node => exact .inl (hpush _)
  | @grown below n₀ n' ids₀ hstack hn' =>
    rcases getElem?_of_push hstack h with ⟨hlt, hbelow⟩ | ⟨rfl, heq⟩
    · refine .inl ?_
      show (below.push _)[height]? = _
      rw [Array.getElem?_push, if_neg (Nat.ne_of_lt hlt), hbelow]
    · obtain ⟨rfl, rfl⟩ := Item.node.inj heq
      exact .inr ⟨n', Array.getElem?_push_size, hn'.2⟩

/-- Lists and dictionaries are held as ones that may grow also after something was added. -/
theorem Adds.regular (hadds : m.Adds m') (h : m.Linked) {height : Nat}
    (hnode : m'.stack[height]? = some (.node n ids)) : n.Regular := by
  cases hadds with
  | nothing => exact h.regular height n ids hnode
  | mark =>
    rcases getElem?_of_push (m := m.pushMark) rfl hnode with ⟨-, hbelow⟩ | ⟨-, heq⟩
    · exact h.regular height n ids hbelow
    · nomatch heq
  | @node n' shared hn' =>
    rcases getElem?_of_push (m := m.push n') rfl hnode with ⟨-, hbelow⟩ | ⟨-, heq⟩
    · exact h.regular height n ids hbelow
    · obtain ⟨rfl, -⟩ := Item.node.inj heq
      exact hn'
  | @grown below n₀ n' ids₀ hstack hn' =>
    rcases getElem?_of_push rfl hnode with ⟨hlt, hbelow⟩ | ⟨-, heq⟩
    · rw [getElem?_below hstack hlt] at hbelow
      exact h.regular height n ids hbelow
    · obtain ⟨rfl, -⟩ := Item.node.inj heq
      exact hn'.1

/-- Adding an item keeps the ids linked: none is given, and a container that grows keeps its own. -/
theorem Adds.linked (hadds : m.Adds m') (h : m.Linked) : m'.Linked where
  regular _ _ _ hnode := hadds.regular h hnode
  frozen id n hfrozen := h.frozen id n (hadds.memo_eq ▸ hfrozen)
  live id height hlive := by
    rw [hadds.memo_eq] at hlive
    obtain ⟨n, ids, hnode, hopen, hid⟩ := h.live id height hlive
    rcases hadds.node_or hnode with hsame | ⟨n', hgrown, hopen'⟩
    · exact ⟨n, ids, hsame, hopen, hid⟩
    · exact ⟨n', ids, hgrown, hopen', hid⟩

theorem adds_push (hn : n.Regular) : m.Adds (m.push n) := .node m.shared hn

theorem Linked.lookup_regular (h : m.Linked) {id : Nat} (hlookup : m.lookup id = .ok n) :
    n.Regular := by
  rcases lookup_eq_ok_iff.mp hlookup with hfrozen | ⟨height, ids, -, hnode⟩
  · exact h.frozen id n hfrozen
  · exact h.regular height n ids hnode

theorem adds_replaceTop {change : Node → Except Cause Node} (h : m.replaceTop change = .ok m')
    (hchange : ∀ n n', change n = .ok n' → n'.Regular ∧ n'.IsOpen) : m.Adds m' := by
  obtain ⟨below, n, n', ids, hstack, hn', rfl⟩ := replaceTop_eq_ok_iff.mp h
  exact .grown hstack (hchange n n' hn')

/-- A copy is put on the stack. -/
theorem adds_charge_push (hn : n.Regular) {size : Nat} (h : m.charge size = .ok m') :
    m.Adds (m'.push n) := by
  obtain ⟨-, rfl⟩ := charge_eq_ok_iff.mp h
  exact .node _ hn

/-! ## Remembering -/

/-- **What is remembered is the top**, a list or a dictionary by its place. -/
theorem Linked.remember_cases (h : m.Linked) {id : Nat} (hremember : m.remember id = .ok m') :
    ∃ (below : Array Item) (n : Node) (ids : List Nat), m.stack = below.push (.node n ids) ∧
      ((¬ n.IsOpen ∧ m' = { m with memo := m.memo.insert id (.frozen n) }) ∨
        (n.IsOpen ∧ m' = ⟨below.push (.node n (id :: ids)), m.memo.insert id (.live below.size),
          m.shared⟩)) := by
  obtain ⟨below, n, ids, hstack⟩ := exists_top_of_remember hremember
  have hregular : n.Regular := h.regular_top hstack
  refine ⟨below, n, ids, hstack, ?_⟩
  by_cases hopen : n.IsOpen
  · rw [remember_of_open hstack (hregular.content_ne hopen)] at hremember
    exact .inr ⟨hopen, (Except.ok.inj hremember).symm⟩
  · obtain ⟨v, hfixed⟩ := hregular.exists_fixed hopen
    rw [remember_of_fixed hstack hfixed] at hremember
    exact .inl ⟨hopen, (Except.ok.inj hremember).symm⟩

/-- Remembering a value as it is keeps the ids linked, as the id stands for no place. -/
theorem Linked.insert_frozen (h : m.Linked) (hn : n.Regular) (id : Nat) :
    Linked { m with memo := m.memo.insert id (.frozen n) } where
  regular := h.regular
  frozen id' n' hfrozen := by
    rw [Memo.getElem?_insert] at hfrozen
    split at hfrozen
    · obtain rfl := Entry.frozen.inj (Option.some.inj hfrozen)
      exact hn
    · exact h.frozen id' n' hfrozen
  live id' height hlive := by
    rw [Memo.getElem?_insert] at hlive
    split at hlive
    · nomatch Option.some.inj hlive
    · exact h.live id' height hlive

/-- The list or dictionary on top learns an id. -/
theorem Linked.insert_live (h : m.Linked) (hstack : m.stack = below.push (.node n ids))
    (hopen : n.IsOpen) (id : Nat) :
    Linked ⟨below.push (.node n (id :: ids)), m.memo.insert id (.live below.size), m.shared⟩ where
  regular height n' ids' hnode := by
    rcases getElem?_of_push rfl hnode with ⟨hlt, hbelow⟩ | ⟨-, heq⟩
    · exact h.regular height n' ids' (getElem?_below hstack hlt ▸ hbelow)
    · obtain ⟨rfl, -⟩ := Item.node.inj heq
      exact h.regular_top hstack
  frozen id' n' hfrozen := by
    rw [Memo.getElem?_insert] at hfrozen
    split at hfrozen
    · nomatch Option.some.inj hfrozen
    · exact h.frozen id' n' hfrozen
  live id' height hlive := by
    rw [Memo.getElem?_insert] at hlive
    split at hlive
    · next hid =>
      obtain rfl := Entry.live.inj (Option.some.inj hlive)
      exact ⟨n, id :: ids, Array.getElem?_push_size, hopen, hid ▸ List.mem_cons_self⟩
    · obtain ⟨n', ids', hnode, hopen', hmem⟩ := h.live id' height hlive
      rcases getElem?_of_push hstack hnode with ⟨hlt, hbelow⟩ | ⟨rfl, heq⟩
      · refine ⟨n', ids', ?_, hopen', hmem⟩
        show (below.push _)[height]? = _
        rw [Array.getElem?_push, if_neg (Nat.ne_of_lt hlt), hbelow]
      · obtain ⟨rfl, rfl⟩ := Item.node.inj heq
        exact ⟨_, id :: ids', Array.getElem?_push_size, hopen', List.mem_cons_of_mem _ hmem⟩

theorem Linked.remember (h : m.Linked) {id : Nat} (hremember : m.remember id = .ok m') :
    m'.Linked := by
  obtain ⟨below, n, ids, hstack, ⟨-, rfl⟩ | ⟨hopen, rfl⟩⟩ := h.remember_cases hremember
  · exact h.insert_frozen (h.regular_top hstack) id
  · exact h.insert_live hstack hopen id

/-! ## One opcode -/

/-- What lies above a mark is cut off, and what is made of it is put in its place. -/
theorem adds_gather {make : List Node → Except Cause Node} (h : m.Linked)
    (hgather : m.gather make = .ok m') (hmake : ∀ items n, make items = .ok n → n.Regular) :
    ∃ m₁, m.Cut m₁ ∧ m₁.stack.size = m.stack.size - (aboveMark m.stack + 1) ∧ m₁.Adds m' := by
  obtain ⟨⟨items, m₁⟩, hpop, hgather⟩ := except_bind_eq_ok.mp hgather
  obtain ⟨n, hn, hgather⟩ := except_bind_eq_ok.mp hgather
  obtain rfl := Except.ok.inj hgather
  obtain ⟨hcut, hsize⟩ := h.cut_popToMark hpop
  exact ⟨m₁, hcut, hsize, adds_push (hmake items n hn)⟩

/-- **What an opcode does**: it remembers the top, or it takes items off and adds one. -/
theorem exec_cases (h : m.Linked) {op : Opcode} (hop : op ≠ .stop) (hexec : m.exec op = .ok m') :
    (∃ id, m.stores op = some id ∧ m.remember id = .ok m') ∨
      (m.stores op = none ∧ ∃ m₁, m.Cut m₁ ∧ m₁.stack.size = m.stack.size - m.taken op ∧
        m₁.Adds m') := by
  have hkept : m.Adds m' → ∃ m₁, m.Cut m₁ ∧ m₁.stack.size = m.stack.size - 0 ∧ m₁.Adds m' :=
    fun hadds => ⟨m, h.cut_refl, rfl, hadds⟩
  cases op with
  | stop => exact absurd rfl hop
  | memoize =>
    obtain ⟨-, hremember⟩ := memoize_eq_ok_iff.mp hexec
    exact .inl ⟨_, rfl, hremember⟩
  | put id => exact .inl ⟨id, rfl, hexec⟩
  | protocol =>
    obtain rfl := Except.ok.inj hexec
    exact .inr ⟨rfl, hkept (.nothing _)⟩
  | frame =>
    obtain rfl := Except.ok.inj hexec
    exact .inr ⟨rfl, hkept (.nothing _)⟩
  | mark =>
    obtain rfl := Except.ok.inj hexec
    exact .inr ⟨rfl, hkept .mark⟩
  | push v =>
    obtain rfl := Except.ok.inj hexec
    exact .inr ⟨rfl, hkept (adds_push (Node.regular_ofValue v 0 1))⟩
  | dup =>
    obtain ⟨n, htop, hexec⟩ := except_bind_eq_ok.mp hexec
    obtain ⟨m₁, hcharge, hexec⟩ := except_bind_eq_ok.mp hexec
    obtain rfl := Except.ok.inj hexec
    obtain ⟨below, ids, hstack⟩ := top_eq_ok_iff.mp htop
    exact .inr ⟨rfl, hkept (adds_charge_push (h.regular_top hstack) hcharge)⟩
  | get id =>
    obtain ⟨n, hlookup, hexec⟩ := except_bind_eq_ok.mp hexec
    obtain ⟨m₁, hcharge, hexec⟩ := except_bind_eq_ok.mp hexec
    obtain rfl := Except.ok.inj hexec
    exact .inr ⟨rfl, hkept (adds_charge_push (h.lookup_regular hlookup) hcharge)⟩
  | pop =>
    obtain ⟨hcut, hsize⟩ := h.cut_popItem hexec
    exact .inr ⟨rfl, m', hcut, hsize, .nothing _⟩
  | popMark =>
    obtain ⟨⟨items, m₁⟩, hpop, hexec⟩ := except_bind_eq_ok.mp hexec
    obtain rfl := Except.ok.inj hexec
    obtain ⟨hcut, hsize⟩ := h.cut_popToMark hpop
    exact .inr ⟨rfl, m₁, hcut, hsize, .nothing _⟩
  | tuple => exact .inr ⟨rfl, adds_gather h hexec fun _ _ => Node.regular_sequence⟩
  | list => exact .inr ⟨rfl, adds_gather h hexec fun _ _ => Node.regular_sequence⟩
  | dict =>
    exact .inr ⟨rfl, adds_gather h hexec fun _ _ hdict =>
      (Node.open_setItems (Node.dictOf_eq_ok_iff.mp hdict).2).1⟩
  | tupleOf k =>
    obtain ⟨⟨items, m₁⟩, hpop, hexec⟩ := except_bind_eq_ok.mp hexec
    obtain ⟨n, hn, hexec⟩ := except_bind_eq_ok.mp hexec
    obtain rfl := Except.ok.inj hexec
    obtain ⟨ns, rfl, -, htakes⟩ := popOnto_eq_ok_iff.mp hpop
    refine .inr ⟨rfl, m₁, htakes.cut h, ?_, adds_push (Node.regular_sequence hn)⟩
    rw [htakes.size_eq]
    exact (Nat.add_sub_cancel _ _).symm
  | append =>
    obtain ⟨⟨item, m₁⟩, hpop, hexec⟩ := except_bind_eq_ok.mp hexec
    obtain ⟨hcut, hsize⟩ := h.cut_pop hpop
    exact .inr ⟨rfl, m₁, hcut, hsize, adds_replaceTop hexec fun _ _ => Node.open_append⟩
  | appends =>
    obtain ⟨⟨items, m₁⟩, hpop, hexec⟩ := except_bind_eq_ok.mp hexec
    obtain ⟨hcut, hsize⟩ := h.cut_popToMark hpop
    exact .inr ⟨rfl, m₁, hcut, hsize, adds_replaceTop hexec fun _ _ => Node.open_append⟩
  | setItem =>
    obtain ⟨⟨value, m₁⟩, hpop, hexec⟩ := except_bind_eq_ok.mp hexec
    obtain ⟨⟨key, m₂⟩, hpop', hexec⟩ := except_bind_eq_ok.mp hexec
    obtain ⟨hcut, hsize⟩ := h.cut_pop hpop
    obtain ⟨hcut', hsize'⟩ := (hcut.linked h).cut_pop hpop'
    refine .inr ⟨rfl, m₂, hcut.trans h hcut', ?_,
      adds_replaceTop hexec fun _ _ => Node.open_setItems⟩
    rw [hsize', hsize]
    rfl
  | setItems =>
    obtain ⟨⟨items, m₁⟩, hpop, hexec⟩ := except_bind_eq_ok.mp hexec
    obtain ⟨-, -, hexec⟩ := except_bind_eq_ok.mp hexec
    obtain ⟨hcut, hsize⟩ := h.cut_popToMark hpop
    exact .inr ⟨rfl, m₁, hcut, hsize, adds_replaceTop hexec fun _ _ => Node.open_setItems⟩

/-- **Every opcode keeps the ids linked.** -/
theorem Linked.exec (h : m.Linked) {op : Opcode} (hop : op ≠ .stop) (hexec : m.exec op = .ok m') :
    m'.Linked := by
  rcases exec_cases h hop hexec with ⟨id, -, hremember⟩ | ⟨-, m₁, hcut, -, hadds⟩
  · exact h.remember hremember
  · exact hadds.linked (hcut.linked h)

/-- The entry of an id that is not stored is only cut. -/
theorem Linked.memo_exec (h : m.Linked) {op : Opcode} (hop : op ≠ .stop)
    (hexec : m.exec op = .ok m') {id : Nat} (hid : m.stores op ≠ some id) :
    m'.memo[id]? = m.memo[id]?.map (Entry.cut m.stack (m.stack.size - m.taken op)) := by
  rcases exec_cases h hop hexec with ⟨id', hid', hremember⟩ | ⟨-, m₁, hcut, hsize, hadds⟩
  · have hne : id ≠ id' := by
      rintro rfl
      exact hid hid'
    have htaken : m.taken op = 0 := by
      cases op with
      | memoize => rfl
      | put => rfl
      | _ => nomatch hid'
    have hmemo : m'.memo[id]? = m.memo[id]? := by
      obtain ⟨below, n, ids, -, ⟨-, rfl⟩ | ⟨-, rfl⟩⟩ := h.remember_cases hremember
      · exact (Memo.getElem?_insert _ _ _ _).trans (if_neg hne)
      · exact (Memo.getElem?_insert _ _ _ _).trans (if_neg hne)
    rw [hmemo, htaken]
    exact h.cut_refl.memo id
  · rw [hadds.memo_eq, hcut.memo, hsize]

/-- The entry of an id that is stored is the top: a list or a dictionary by its place. -/
theorem Linked.memo_stored (h : m.Linked) {op : Opcode} (hop : op ≠ .stop)
    (hexec : m.exec op = .ok m') {id : Nat} (hid : m.stores op = some id) :
    ∃ n, m.top = .ok n ∧ (¬ n.IsOpen → m'.memo[id]? = some (.frozen n)) ∧
      (n.IsOpen → m'.memo[id]? = some (.live (m.stack.size - 1))) := by
  rcases exec_cases h hop hexec with ⟨id', hid', hremember⟩ | ⟨hnone, -⟩
  · obtain rfl : id' = id := Option.some.inj (hid'.symm.trans hid)
    obtain ⟨below, n, ids, hstack, hcases⟩ := h.remember_cases hremember
    have hinsert : ∀ e, (m.memo.insert id' e)[id']? = some e := fun e =>
      (Memo.getElem?_insert _ _ _ _).trans (if_pos rfl)
    refine ⟨n, top_eq_ok_iff.mpr ⟨below, ids, hstack⟩, ?_⟩
    rw [size_of_push hstack]
    rcases hcases with ⟨hopen, rfl⟩ | ⟨hopen, rfl⟩
    · exact ⟨fun _ => hinsert _, fun h => absurd h hopen⟩
    · exact ⟨fun h => absurd hopen h, fun _ => hinsert _⟩
  · rw [hnone] at hid
    nomatch hid

end Machine

end SealedStore.Pickle
