/-
  A stream keeps within its bytes.

  What is counted while a stream is run is bounded by what was read of it.  Every opcode takes a
  byte, and the position never leaves the bytes.  A byte pays for at most one value on the stack,
  and what is more than that was copied, of which there is a limit.  A value in the memo was on the
  stack when it was remembered or taken off, and so it is no greater than the stack was then
  (`Paid`).

  From this follows what an opcode comes to on its way, also one that fails in the end
  (`Computes`): numbers that are twice the limit above what was read, at most.  A word that can
  count the bytes and as many again has room for them.  The values in hand belong to that: they
  are on the stack no more when the machine adds up their sizes, but they were there before.
-/
import Mathlib.Algebra.Order.BigOperators.Group.List
import Mathlib.Algebra.Order.Group.Nat
import SealedStore.Proofs.Pickle.Joining
import SealedStore.Proofs.Pickle.Soundness

namespace SealedStore

/-- What is left of the bytes begins at the position and ends with them. -/
theorem Input.leftOf_iff {bytes : Bytes} {i : Input} :
    i.LeftOf bytes ↔ i.pos ≤ bytes.length ∧ i.rest = bytes.drop i.pos := by
  constructor
  · rintro ⟨done, hbytes, hpos⟩
    rw [hbytes, hpos, List.length_append, List.drop_left]
    exact ⟨Nat.le_add_right _ _, rfl⟩
  · rintro ⟨hpos, hrest⟩
    refine ⟨bytes.take i.pos, ?_, (List.length_take_of_le hpos).symm⟩
    rw [hrest, List.take_append_drop]

theorem Input.LeftOf.endPos_eq {bytes : Bytes} {i : Input} (h : i.LeftOf bytes) :
    i.endPos = bytes.length := by
  obtain ⟨done, hbytes, hpos⟩ := h
  rw [Input.endPos, hbytes, hpos, List.length_append]

namespace Pickle

open Reader

/-! ## Sizes -/

/-- No node is greater than the stack that it lies on. -/
theorem size_le_stackSize {stack : Array Item} {n : Node} {ids : List Nat}
    (h : Item.node n ids ∈ stack) : n.size ≤ stackSize stack := by
  have hmem : (Item.node n ids).size ∈ stack.toList.map Item.size :=
    List.mem_map_of_mem (Array.mem_toList_iff.mpr h)
  exact List.le_sum_of_mem hmem

theorem Node.sizeOver_le_of_sublist {part whole : List Node} (h : part.Sublist whole) :
    sizeOver part ≤ sizeOver whole := by
  rw [sizeOver_eq, sizeOver_eq]
  exact (h.map _).sum_le_sum fun _ _ => Nat.zero_le _

namespace Machine

variable {m m' : Machine} {n base : Node} {items : List Node} {op : Opcode}
  {limit budget : Nat}

/-- What is in hand and the top together are no more than was there before. -/
theorem Bounded.top_le (h : m.Bounded limit items budget) (htop : m.top = .ok base) :
    Node.sizeOver (base :: items) ≤ budget + maxShared := by
  obtain ⟨below, ids, hstack⟩ := top_eq_ok_iff.mp htop
  have hbase : base.size ≤ stackSize m.stack := size_le_stackSize (hstack ▸ Array.mem_push_self)
  have hsize := h.size
  have hshared := h.shared
  rw [Node.sizeOver_cons]
  omega

/-- The same of what is in hand and an empty container. -/
theorem Bounded.leaf_le (h : m.Bounded limit items budget) (v : Value) :
    Node.sizeOver (.leaf v :: items) ≤ budget + 1 + maxShared := by
  have hsize := h.size
  have hshared := h.shared
  have hleaf : (Node.leaf v).size = 1 := rfl
  rw [Node.sizeOver_cons, hleaf]
  omega

/-- **What is joined** is no greater than what was on the stack, but for an empty container. -/
theorem Bounded.joins_le (h : m.Bounded limit [] budget) (hjoins : m.Joins op base items) :
    Node.sizeOver (base :: items) ≤ budget + 1 + maxShared := by
  -- when all is in hand, the container is the top, or there is none yet
  suffices hsome : ∃ m' : Machine, m'.Bounded limit items budget ∧
      (m'.top = .ok base ∨ ∃ v, base = .leaf v) by
    obtain ⟨m', hm', htop | ⟨v, rfl⟩⟩ := hsome
    · have hle := hm'.top_le htop
      omega
    · exact hm'.leaf_le v
  cases hjoins with
  | tuple hpop => exact ⟨_, h.popToMark hpop, .inr ⟨_, rfl⟩⟩
  | list hpop => exact ⟨_, h.popToMark hpop, .inr ⟨_, rfl⟩⟩
  | dict hpop => exact ⟨_, h.popToMark hpop, .inr ⟨_, rfl⟩⟩
  | tupleOf hpop =>
    obtain ⟨ns, -, rfl, htakes⟩ := popOnto_eq_ok_iff.mp hpop
    exact ⟨_, h.takes htakes, .inr ⟨_, rfl⟩⟩
  | append hpop htop => exact ⟨_, h.pop hpop, .inl htop⟩
  | appends hpop htop => exact ⟨_, h.popToMark hpop, .inl htop⟩
  | setItem hvalue hkey htop => exact ⟨_, (h.pop hvalue).pop hkey, .inl htop⟩
  | setItems hpop htop => exact ⟨_, h.popToMark hpop, .inl htop⟩

/-! ## What is computed -/

/-- A number that an opcode comes to on its way, even if it fails in the end: a sum of sizes, in
    whatever order they are added up, a depth, or the number of copies. -/
inductive Computes (m : Machine) : Opcode → Nat → Prop
  | size {op : Opcode} {base : Node} {items part : List Node} :
      m.Joins op base items → part.Sublist (base :: items) → Computes m op (Node.sizeOver part)
  | depth {op : Opcode} {base n : Node} {items : List Node} :
      m.Joins op base items → n ∈ base :: items → Computes m op (n.depth + 1)
  | copyTop {n : Node} : m.top = .ok n → Computes m .dup (m.shared + n.size)
  | copyKept {id : Nat} {n : Node} :
      m.lookup id = .ok n → Computes m (.get id) (m.shared + n.size)

/-- What is held is paid for by bytes and copies, in the memo as well, where nothing is added up. -/
structure Paid (limit budget : Nat) (m : Machine) : Prop where
  bounded : m.Bounded limit [] budget
  held : ∀ n, m.Has n → n.size ≤ budget + maxShared

theorem paid_start (limit budget : Nat) : Paid limit budget .start where
  bounded := .start limit budget
  held _ hn := absurd hn not_has_start

/-- **No number that is computed** is far above what was paid for. -/
theorem Paid.computes_le (h : m.Paid limit budget) {k : Nat} (hk : m.Computes op k) :
    k ≤ budget + 2 * maxShared := by
  have hshared := h.bounded.shared
  have hlimits : maxDepth + 1 ≤ maxShared := by decide
  cases hk with
  | size hjoins hpart =>
    have hwhole := h.bounded.joins_le hjoins
    have hle := Node.sizeOver_le_of_sublist hpart
    omega
  | @depth _ base n items hjoins hn =>
    obtain ⟨hbase, hitems⟩ := hjoins.has
    have hdepth : n.depth ≤ maxDepth := by
      rcases List.mem_cons.mp hn with rfl | hn
      · rcases hbase with hbase | ⟨v, -, rfl⟩
        · exact (h.bounded.sound hbase).depth
        · exact Nat.zero_le _
      · exact (h.bounded.sound (hitems n hn)).depth
    omega
  | copyTop htop =>
    have hn := h.held _ (has_of_top htop)
    omega
  | copyKept hlookup =>
    have hn := h.held _ (has_of_lookup hlookup)
    omega

/-! ## One opcode -/

/-- **What the memo keeps** after an opcode was held before. -/
theorem Linked.has_of_frozen (h : m.Linked) (hop : op ≠ .stop) (hexec : m.exec op = .ok m')
    {id : Nat} (hfrozen : m'.memo[id]? = some (.frozen n)) : m.Has n := by
  by_cases hid : m.stores op = some id
  · obtain ⟨n', htop, hfixed, hopen⟩ := h.memo_stored hop hexec hid
    by_cases hn' : n'.IsOpen
    · rw [hopen hn'] at hfrozen
      nomatch hfrozen
    · rw [hfixed hn'] at hfrozen
      obtain rfl := Entry.frozen.inj (Option.some.inj hfrozen)
      exact has_of_top htop
  · rw [h.memo_exec hop hexec hid] at hfrozen
    obtain ⟨e, he, hcut⟩ := Option.map_eq_some_iff.mp hfrozen
    cases e with
    | frozen n' =>
      obtain rfl := Entry.frozen.inj hcut
      exact .memo he
    | live height =>
      obtain ⟨n', ids, hnode, -⟩ := h.live id height he
      by_cases hlt : height < m.stack.size - m.taken op
      · rw [Entry.cut_of_lt hlt] at hcut
        nomatch hcut
      · rw [Entry.cut_of_node (Nat.not_lt.mp hlt) hnode] at hcut
        obtain rfl := Entry.frozen.inj hcut
        exact .stack (Array.mem_of_getElem? hnode)

/-- **A step pays for what it leaves**: the stack by its bytes, the memo from the stack. -/
theorem Paid.step {i j : Input} (h : m.Paid i.endPos budget) (hlinked : m.Linked)
    (hstep : step m i = .ok (.running m', j)) :
    m'.Paid j.endPos (budget + (j.pos - i.pos)) := by
  obtain ⟨hbounded, -, -⟩ := h.bounded.step hstep
  obtain ⟨op, -, happly⟩ := step_eq_ok_iff.mp hstep
  obtain ⟨hop, hexec⟩ := apply_running_iff.mp happly
  refine ⟨hbounded, ?_⟩
  rintro n (hmem | hfrozen)
  · have hle := size_le_stackSize hmem
    have hsize := hbounded.size
    have hshared := hbounded.shared
    rw [Node.sizeOver_nil] at hsize
    omega
  · have hle := h.held n (hlinked.has_of_frozen hop hexec hfrozen)
    omega

end Machine

/-! ## All opcodes -/

section
variable {start i : Input} {past : List Step} {m : Machine}

/-- **At any time all that is held is paid for** by what was read since the stream began. -/
theorem paid_of_reaches (h : Reaches start past m i) : m.Paid i.endPos (i.pos - start.pos) := by
  induction h with
  | first => exact Machine.paid_start _ _
  | @next past m m' op i j hreaches _ hstep ih =>
    have hlinked := (Machine.kept_of_reaches hreaches).linked
    have hbegun := hreaches.advances.pos_lt
    have hread := (advances_of_step hstep).pos_lt
    have hpos : j.pos - start.pos = i.pos - start.pos + (j.pos - i.pos) := by omega
    rw [hpos]
    exact ih.step hlinked hstep

/-- Every opcode took a byte, and the header took two. -/
theorem Reaches.length_le (h : Reaches start past m i) : start.pos + 2 + past.length ≤ i.pos := by
  induction h with
  | first hheader =>
    obtain ⟨version, -, -, -, hpos⟩ := header_eq_ok_iff.mp hheader
    exact Nat.le_of_eq hpos.symm
  | next _ _ hstep ih =>
    have hread := (advances_of_step hstep).pos_lt
    rw [List.length_append, List.length_singleton]
    omega

/-- A machine between two opcodes of a stream that begins at an input keeps within the bytes. -/
structure Contained (bytes : Bytes) (start : Input) (past : List Step) (m : Machine) (i : Input) :
    Prop where
  position : i.pos ≤ bytes.length ∧ i.rest = bytes.drop i.pos
  opcodes : start.pos + 2 + past.length ≤ i.pos
  /-- The next opcode, with its operands, is what the bytes are up to a later position. -/
  reads : ∀ op j, Opcode.read i = .ok (op, j) → i.pos < j.pos ∧ j.pos ≤ bytes.length ∧
    op.Spells (bytes.drop j.pos) ((bytes.drop i.pos).take (j.pos - i.pos))
  /-- The sizes on the stack are paid for by bytes and by copies. -/
  stack : stackSize m.stack ≤ (i.pos - start.pos) + m.shared
  shared : m.shared ≤ 2 ^ 20
  /-- So they are when an opcode has taken values off, whether or not it goes on. -/
  midway : ∀ ns m', Machine.Takes m ns m' →
    stackSize m'.stack + Node.sizeOver ns ≤ (i.pos - start.pos) + m'.shared ∧
      m'.shared ≤ 2 ^ 20 ∧ ∀ n, m'.Has n → n.value.nodes.length ≤ n.size
  sizes : ∀ n, m.Has n → n.value.nodes.length ≤ n.size ∧ n.size ≤ (i.pos - start.pos) + 2 ^ 20
  depths : ∀ n, m.Has n → n.value.level ≤ n.depth ∧ n.depth ≤ maxDepth
  computed : ∀ op k, m.Computes op k → k ≤ (i.pos - start.pos) + 2 ^ 21
  /-- A word that can count the bytes and as many again has room for what is computed. -/
  words : ∀ width, 22 ≤ width → bytes.length < 2 ^ (width - 1) → ∀ op k, m.Computes op k →
    k < 2 ^ width

/-- What is read of the bytes is what they are between two positions. -/
theorem spells_of_read {bytes : Bytes} {j : Input} {op : Opcode} (hi : i.LeftOf bytes)
    (h : Opcode.read i = .ok (op, j)) : i.pos < j.pos ∧ j.pos ≤ bytes.length ∧
      op.Spells (bytes.drop j.pos) ((bytes.drop i.pos).take (j.pos - i.pos)) := by
  obtain ⟨raw, hspells, hrest, hpos⟩ := read_eq_ok_iff.mp h
  have hraw := hspells.length_pos
  have hj : j.LeftOf bytes := hi.advances ⟨raw, List.length_pos_iff.mp hraw, hrest, hpos⟩
  obtain ⟨hle, hleft⟩ := Input.leftOf_iff.mp hj
  obtain ⟨-, hleft'⟩ := Input.leftOf_iff.mp hi
  have hlen : j.pos - i.pos = raw.length := by omega
  refine ⟨by omega, hle, ?_⟩
  rw [← hleft, ← hleft', hrest, hlen, List.take_left]
  exact hspells

/-- **Between two opcodes a machine keeps within the bytes.**  All bounds come from what is paid for
    up to the position, and that is at most the length of the bytes. -/
theorem contained_of_reaches {bytes : Bytes} (hstart : start.LeftOf bytes)
    (h : Reaches start past m i) : Contained bytes start past m i := by
  have hleft : i.LeftOf bytes := hstart.advances h.advances
  have hpaid : m.Paid i.endPos (i.pos - start.pos) := paid_of_reaches h
  have hposition := Input.leftOf_iff.mp hleft
  have hcomputed : ∀ op k, m.Computes op k → k ≤ (i.pos - start.pos) + 2 ^ 21 :=
    fun op k hk => hpaid.computes_le hk
  constructor
  · exact hposition
  · exact h.length_le
  · exact fun op j => spells_of_read hleft
  · exact hpaid.bounded.size
  · exact hpaid.bounded.shared
  · intro ns m' htakes
    have hhand := hpaid.bounded.takes htakes
    rw [List.append_nil] at hhand
    exact ⟨hhand.size, hhand.shared, fun n hn => (hhand.sound hn).nodes⟩
  · exact fun n hn => ⟨(hpaid.bounded.sound hn).nodes, hpaid.held n hn⟩
  · exact fun n hn => ⟨(hpaid.bounded.sound hn).level, (hpaid.bounded.sound hn).depth⟩
  · exact hcomputed
  · intro width hwidth hbytes op k hk
    have hle := hcomputed op k hk
    have hlimit : 2 ^ 21 ≤ 2 ^ (width - 1) := Nat.pow_le_pow_right (by decide) (by omega)
    have hdouble : 2 ^ width = 2 ^ (width - 1) * 2 := by
      rw [← Nat.pow_succ, Nat.succ_eq_add_one, Nat.sub_add_cancel (by omega)]
    omega

/-! ## The end of a stream -/

/-- How a stream ends that begins at an input: at an opcode that fails, or at one that stops it. -/
inductive Finishes (start : Input) : Except CodecError (Value × Input) → Prop
  | fails {i : Input} {e : CodecError} : Fails start i e → Finishes start (.error e)
  | stops {past : List Step} {m : Machine} {i j : Input} {v : Value} :
      Reaches start past m i → step m i = .ok (.stopped v, j) → Finishes start (.ok (v, j))

/-- A run that gives a value comes to the opcode that stops it. -/
theorem finishes_of_run {steps : Nat} {v : Value} {j : Input} (hreaches : Reaches start past m i)
    (h : run steps m i = .ok (v, j)) : Finishes start (.ok (v, j)) := by
  induction steps generalizing past m i with
  | zero => nomatch h
  | succ steps ih =>
    rcases run_succ_eq_ok_iff.mp h with hstep | ⟨m', k, hstep, hrun⟩
    · exact .stops hreaches hstep
    · obtain ⟨op, hread, -⟩ := step_eq_ok_iff.mp hstep
      exact ih (hreaches.next hread hstep) hrun

/-- **Steps never run out**, as every opcode takes a byte. -/
theorem finishes_of_stream {steps : Nat} (hsteps : start.rest.length ≤ steps) :
    Finishes start (stream steps start) := by
  cases hstream : stream steps start with
  | error e =>
    obtain ⟨j, hfails⟩ := fails_of_stream hsteps hstream
    exact .fails hfails
  | ok found =>
    obtain ⟨⟨op, i⟩, hheader, hrun⟩ := except_bind_eq_ok.mp hstream
    exact finishes_of_run (.first hheader) hrun

/-- **A stream keeps within its bytes**, wherever in them it begins, and comes to an end. -/
theorem keeps_within_bytes (bytes : Bytes) (start : Input) (hstart : start.LeftOf bytes) :
    (∀ past m i, Reaches start past m i → Contained bytes start past m i) ∧
    (∀ i offset cause, Fails start i (.corrupt offset cause) →
      i.pos ≤ offset ∧ offset ≤ bytes.length) ∧
    ∀ steps, start.rest.length ≤ steps → Finishes start (stream steps start) := by
  refine ⟨fun past m i => contained_of_reaches hstart, fun i offset cause hfails => ?_,
    fun steps => finishes_of_stream⟩
  rw [← (hfails.leftOf hstart).endPos_eq]
  exact hfails.within

/-- A value that is replaced in a dictionary leaves its size behind, and a copy is made of that. -/
theorem replaced_within_bytes :
    let number : Bytes := [0x80, 4, 0x4B, 7, 0x2E]
    let replaced : Bytes := [0x80, 4, 0x7D, 0x94, 0x4B, 1, 0x4B, 2, 0x73, 0x4B, 1, 0x4B, 3, 0x73,
      0x68, 0, 0x2E]
    ∃ past m n, Reaches ⟨5, replaced⟩ past m ⟨21, [0x2E]⟩ ∧ m.top = .ok n ∧
      n.value = .dict [(.int 1, .int 3)] ∧ n.value.nodes.length = 3 ∧ n.size = 5 ∧
      stackSize m.stack = 10 ∧ m.shared = 5 ∧
      Contained (number ++ replaced) ⟨5, replaced⟩ past m ⟨21, [0x2E]⟩ ∧
      Finishes ⟨5, replaced⟩ (stream 17 ⟨5, replaced⟩) := by
  intro number replaced
  have hempty : Reaches ⟨5, replaced⟩ [] .start ⟨7, replaced.drop 2⟩ := .first rfl
  have hentry := ((((hempty.next rfl rfl).next rfl rfl).next rfl rfl).next rfl rfl).next rfl rfl
  have hcopied := (((hentry.next rfl rfl).next rfl rfl).next rfl rfl).next rfl rfl
  have hleft : Input.LeftOf (number ++ replaced) ⟨5, replaced⟩ := ⟨number, rfl, rfl⟩
  obtain ⟨hreached, -, hends⟩ := keeps_within_bytes _ _ hleft
  exact ⟨_, _, _, hcopied, rfl, rfl, rfl, rfl, rfl, rfl, hreached _ _ _ hcopied,
    hends 17 (by decide)⟩

end

end Pickle

end SealedStore
