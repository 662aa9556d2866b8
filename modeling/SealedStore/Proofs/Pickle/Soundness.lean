/-
  What pickle streams give.

  A node is sound when its value is plain data and the depth and the size that it knows are bounds
  for its value.  Every operation of the machine keeps all nodes sound, on the stack and in the
  memo.  At the same time no more values lie on the stack than bytes were read and copies were
  made: what an operation takes off it holds in hand, and what it makes of that it pays for with
  the byte of its opcode (`Bounded`).

  So a stream gives a plain value of limited depth and size (`sound_of_load`), and such a value
  can be stored.
-/
import SealedStore.Proofs.Pickle.Holding
import SealedStore.Proofs.Pickle.Node
import SealedStore.Proofs.Pickle.Run

namespace SealedStore.Pickle

/-! ## Nodes -/

/-- A text or a byte string has no more bytes than so many. -/
def TextWithin (limit : Nat) : Value → Prop
  | .str s => (Utf8.encode s).length ≤ limit
  | .bytes b => b.length ≤ limit
  | _ => True

/-- Plain data all through, with texts of limited length. -/
def Modest (limit : Nat) (v : Value) : Prop := v.Everywhere fun w => w.Plain ∧ TextWithin limit w

/-- The value is plain, and what the node knows about it holds. -/
structure Node.Sound (limit : Nat) (n : Node) : Prop where
  modest : Modest limit n.value
  level : n.value.level ≤ n.depth
  depth : n.depth ≤ maxDepth
  nodes : n.value.nodes.length ≤ n.size

namespace Node

variable {limit : Nat} {n n' : Node} {items : List Node}

/-- A node is sound when the members of its value are lower than its depth and fit into its
    size. -/
theorem sound_of_members (hself : n.value.Plain ∧ TextWithin limit n.value)
    (hmembers : ∀ w ∈ n.value.members, Modest limit w ∧ w.level < n.depth)
    (hdepth : n.depth ≤ maxDepth) (hsize : 1 + Value.weight n.value.members ≤ n.size) :
    n.Sound limit where
  modest := Value.everywhere_iff.mpr ⟨hself, fun w hw => (hmembers w hw).1⟩
  level := Value.level_le_iff.mpr fun w hw => (hmembers w hw).2
  depth := hdepth
  nodes := by rwa [Value.length_nodes]

theorem Sound.members (h : n.Sound limit) :
    ∀ w ∈ n.value.members, Modest limit w ∧ w.level < n.depth :=
  fun w hw => ⟨h.modest.member hw, Value.level_le_iff.mp h.level w hw⟩

theorem Sound.weight (h : n.Sound limit) : 1 + Value.weight n.value.members ≤ n.size := by
  rw [← Value.length_nodes]
  exact h.nodes

/-- The values of sound nodes, together. -/
theorem forall_values (h : ∀ n ∈ items, n.Sound limit) :
    ∀ w ∈ values items, Modest limit w ∧ w.level < depthOver items := by
  intro w hw
  obtain ⟨n, hn, rfl⟩ := List.mem_map.mp hw
  exact ⟨(h n hn).modest, Nat.lt_of_le_of_lt (h n hn).level (depth_lt_depthOver hn)⟩

/-- Sound nodes count at least the values that they have. -/
theorem weight_values_le (h : ∀ n ∈ items, n.Sound limit) :
    Value.weight (values items) ≤ sizeOver items := by
  induction items with
  | nil => exact Nat.le_refl 0
  | cons n items ih =>
    have hn := (h n List.mem_cons_self).nodes
    have hrest := ih fun n hn => h n (List.mem_cons_of_mem _ hn)
    rw [sizeOver_cons]
    show n.value.nodes.length + Value.weight (values items) ≤ _
    omega

/-- A plain value without members is a sound leaf. -/
theorem sound_leaf {v : Value} (hmembers : v.members = []) (hplain : v.Plain)
    (htext : TextWithin limit v) : (leaf v).Sound limit := by
  refine sound_of_members ?_ ?_ (Nat.zero_le _) ?_
  · rw [value_leaf]
    exact ⟨hplain, htext⟩
  · rw [value_leaf, hmembers]
    intro w hw
    nomatch hw
  · rw [value_leaf, hmembers]
    exact Nat.le_refl 1

/-- A tuple or a list of sound nodes is sound, and one more than they are together. -/
theorem sound_sequence {make : List Value → Value} (hmake : make = .tuple ∨ make = .list)
    (hitems : ∀ n ∈ items, n.Sound limit) (h : sequence make items = .ok n) :
    n.Sound limit ∧ n.size = 1 + sizeOver items := by
  obtain ⟨rfl, hdepth⟩ := sequence_eq_ok_iff.mp h
  refine ⟨sound_of_members ?_ ?_ hdepth ?_, rfl⟩
  · show (Content.value _).Plain ∧ TextWithin limit (Content.value _)
    rw [Content.value_ofValue]
    rcases hmake with rfl | rfl
    · exact ⟨Value.plain_tuple _, trivial⟩
    · exact ⟨Value.plain_list _, trivial⟩
  · show ∀ w ∈ (Content.value _).members, _
    rw [Content.value_ofValue]
    rcases hmake with rfl | rfl <;> exact forall_values hitems
  · show 1 + Value.weight (Content.value _).members ≤ _
    rw [Content.value_ofValue]
    rcases hmake with rfl | rfl <;> exact Nat.add_le_add_left (weight_values_le hitems) 1

/-- Adding to a container adds the depths and sizes of what is added. -/
theorem sound_grown {content : Content} (hn : n.Sound limit) (hitems : ∀ n ∈ items, n.Sound limit)
    (hself : content.value.Plain ∧ TextWithin limit content.value)
    (hmembers : ∀ w ∈ content.value.members, w ∈ n.value.members ∨ w ∈ values items)
    (hweight : Value.weight content.value.members ≤
      Value.weight n.value.members + Value.weight (values items))
    (hdepth : (n.grown content items).depth ≤ maxDepth) : (n.grown content items).Sound limit := by
  refine sound_of_members hself ?_ hdepth ?_
  · intro w hw
    rcases hmembers w hw with hw | hw
    · obtain ⟨hmodest, hlevel⟩ := hn.members w hw
      exact ⟨hmodest, Nat.lt_of_lt_of_le hlevel (Nat.le_max_left _ _)⟩
    · obtain ⟨hmodest, hlevel⟩ := forall_values hitems w hw
      exact ⟨hmodest, Nat.lt_of_lt_of_le hlevel (Nat.le_max_right _ _)⟩
  · have hold := hn.weight
    have hnew := weight_values_le hitems
    show 1 + Value.weight content.value.members ≤ n.size + sizeOver items
    omega

/-- A list that sound nodes are added to stays sound, and its size grows by theirs. -/
theorem sound_append (hn : n.Sound limit) (hitems : ∀ n ∈ items, n.Sound limit)
    (h : n.append items = .ok n') : n'.Sound limit ∧ n'.size = n.size + sizeOver items := by
  obtain ⟨reversed, hlist, rfl, hdepth⟩ := append_eq_ok_iff.mp h
  have hold : n.value = .list reversed.reverse := by rw [value, hlist, Content.value]
  have hnew : (Content.list ((values items).reverse ++ reversed)).value =
      .list (reversed.reverse ++ values items) := by
    rw [Content.value, List.reverse_append, List.reverse_reverse]
  refine ⟨sound_grown hn hitems ?_ ?_ ?_ hdepth, rfl⟩
  · rw [hnew]
    exact ⟨Value.plain_list _, trivial⟩
  · rw [hnew, hold]
    exact fun w hw => List.mem_append.mp hw
  · rw [hnew, hold]
    exact Nat.le_of_eq (Value.weight_append _ _)

/-- A dictionary that sound nodes are added to stays sound, and its size grows by theirs; of a key
    that was there the size is counted again. -/
theorem sound_setItems (hn : n.Sound limit) (hitems : ∀ n ∈ items, n.Sound limit)
    (h : n.setItems items = .ok n') : n'.Sound limit ∧ n'.size = n.size + sizeOver items := by
  obtain ⟨reversed, reversed', hdict, hkeys, hentries, rfl, hdepth⟩ := setItems_eq_ok_iff.mp h
  have hold : n.value = .dict reversed.reverse := by rw [value, hdict, Content.value]
  have hnew : (Content.dict reversed').value =
      .dict (Value.insertEach reversed.reverse (pairUp (values items))) := by
    rw [Content.value, hentries]
  -- the dictionary was plain before, and insertions keep it so
  obtain ⟨⟨-, hhashable, hapart⟩, -⟩ := hn.modest.self
  rw [hold] at hhashable hapart
  refine ⟨sound_grown hn hitems ?_ ?_ ?_ hdepth, rfl⟩
  · rw [hnew]
    exact ⟨Value.plain_dict (Value.keysHashable_insertEach hhashable hkeys)
      (Value.keysApart_insertEach hapart), trivial⟩
  · rw [hnew, hold]
    exact Value.forall_members_insertEach (fun w hw => .inl hw)
      fun w hw => .inr (mem_members_pairUp hw)
  · rw [hnew, hold]
    exact Nat.le_trans Value.weight_insertEach_le
      (Nat.add_le_add_left (weight_pairUp_le (values items)) _)

theorem sound_dictOf (hitems : ∀ n ∈ items, n.Sound limit) (h : dictOf items = .ok n) :
    n.Sound limit ∧ n.size = 1 + sizeOver items := by
  obtain ⟨-, h⟩ := dictOf_eq_ok_iff.mp h
  exact sound_setItems (sound_leaf rfl Value.plain_emptyDict trivial) hitems h

end Node

/-! ## The machine -/

/-- The size of what lies on the stack. -/
def Item.size : Item → Nat
  | .mark => 0
  | .node n _ => n.size

/-- The sizes of all that lies on the stack. -/
def stackSize (stack : Array Item) : Nat := (stack.toList.map Item.size).sum

theorem stackSize_push (stack : Array Item) (x : Item) :
    stackSize (stack.push x) = stackSize stack + x.size := by
  rw [stackSize, stackSize, Array.toList_push, List.map_append, List.sum_append, List.map_singleton,
    List.sum_singleton]

namespace Machine

/-- All nodes are sound, those in hand too, and no more values are there than the budget and the
    copies allow. -/
structure Bounded (limit : Nat) (hand : List Node) (budget : Nat) (m : Machine) : Prop where
  held : ∀ n ∈ hand, n.Sound limit
  stack : ∀ n ids, Item.node n ids ∈ m.stack → n.Sound limit
  memo : ∀ (id : Nat) n, m.memo[id]? = some (.frozen n) → n.Sound limit
  size : stackSize m.stack + Node.sizeOver hand ≤ budget + m.shared
  shared : m.shared ≤ maxShared

namespace Bounded

variable {limit budget : Nat} {hand : List Node} {m m' : Machine} {n : Node}

theorem start (limit budget : Nat) : Bounded limit [] budget .start where
  held := fun _ hn => (nomatch hn)
  stack := fun _ _ hn => (nomatch Array.not_mem_empty _ hn)
  memo := by
    intro id n h
    rw [show Machine.start.memo = ∅ from rfl, Std.TreeMap.getElem?_emptyc] at h
    nomatch h
  size := Nat.zero_le _
  shared := Nat.zero_le _

theorem mono (h : Bounded limit hand budget m) {budget' : Nat} (hle : budget ≤ budget') :
    Bounded limit hand budget' m :=
  { h with size := Nat.le_trans h.size (Nat.add_le_add_right hle _) }

/-- What is held is sound, wherever it is. -/
theorem sound (h : Bounded limit hand budget m) (hn : m.Has n) : n.Sound limit := by
  rcases hn with hmem | hfrozen
  · exact h.stack n _ hmem
  · exact h.memo _ n hfrozen

/-- A value that is taken off comes into the hand, and its ids keep it. -/
theorem pop (h : Bounded limit hand budget m) (hpop : m.pop = .ok (n, m')) :
    Bounded limit (n :: hand) budget m' := by
  obtain ⟨hn, hkept⟩ := has_of_pop hpop
  have hsound : ∀ k, m'.Has k → k.Sound limit := fun k hk => h.sound (hkept k hk)
  obtain ⟨below, ids, hstack, rfl⟩ := pop_eq_ok_iff.mp hpop
  constructor
  · exact List.forall_mem_cons.mpr ⟨h.sound hn, h.held⟩
  · exact fun k ids' hmem => hsound k (.stack hmem)
  · exact fun id k hfrozen => hsound k (.memo hfrozen)
  · have hsize := h.size
    rw [hstack, stackSize_push] at hsize
    rw [Node.sizeOver_cons]
    show stackSize below + (n.size + Node.sizeOver hand) ≤ budget + m.shared
    have : Item.size (.node n ids) = n.size := rfl
    omega
  · exact h.shared

/-- What is taken off comes into the hand. -/
theorem takes {ns above : List Node} (h : Bounded limit above budget m) (htakes : Takes m ns m') :
    Bounded limit (ns ++ above) budget m' := by
  induction htakes generalizing above with
  | nil => exact h
  | snoc hpop _ ih =>
    rw [← List.append_cons]
    exact ih (h.pop hpop)

theorem dropMark (h : Bounded limit hand budget m) {below : Array Item}
    (hstack : m.stack = below.push .mark) :
    Bounded limit hand budget { m with stack := below } := by
  have hsize := h.size
  rw [hstack, stackSize_push] at hsize
  exact { h with
    stack := fun n ids hmem => h.stack n ids (hstack ▸ Array.mem_push_of_mem _ hmem)
    size := hsize }

theorem popToMark {items : List Node} (h : Bounded limit [] budget m)
    (hpop : m.popToMark = .ok (items, m')) : Bounded limit items budget m' := by
  obtain ⟨m₁, below, htakes, hmark, rfl⟩ := popToMark_eq_ok_iff.mp hpop
  have hitems := (h.takes htakes).dropMark hmark
  rwa [List.append_nil] at hitems

/-- What is in hand may be thrown away. -/
theorem discard (h : Bounded limit hand budget m) : Bounded limit [] budget m :=
  { h with
    held := fun _ hn => (nomatch hn)
    size := Nat.le_trans (Nat.le_add_right _ _) h.size }

/-- What is in hand may be made into one node, at the cost of a byte. -/
theorem make (h : Bounded limit hand budget m)
    (hn : n.Sound limit ∧ n.size = 1 + Node.sizeOver hand) : Bounded limit [n] (budget + 1) m := by
  refine { h with held := List.forall_mem_cons.mpr ⟨hn.1, fun _ hn => (nomatch hn)⟩, size := ?_ }
  have hsize := h.size
  rw [Node.sizeOver_cons, Node.sizeOver_nil]
  omega

/-- A node in hand may be put on the stack. -/
theorem push (h : Bounded limit [n] budget m) : Bounded limit [] budget (m.push n) where
  held := fun _ hn => (nomatch hn)
  stack := by
    intro n' ids hmem
    rcases Array.mem_push.mp hmem with hmem | heq
    · exact h.stack n' ids hmem
    · obtain ⟨rfl, -⟩ := Item.node.inj heq
      exact h.held n' List.mem_cons_self
  memo := h.memo
  size := by
    have hsize := h.size
    rw [Node.sizeOver_cons] at hsize
    rw [show (m.push n).stack = m.stack.push (.node n []) from rfl, stackSize_push]
    exact hsize
  shared := h.shared

theorem pushMark (h : Bounded limit [] budget m) : Bounded limit [] budget m.pushMark :=
  { h with
    stack := by
      intro n ids hmem
      rcases Array.mem_push.mp hmem with hmem | heq
      · exact h.stack n ids hmem
      · nomatch heq
    size := by
      rw [show m.pushMark.stack = m.stack.push .mark from rfl, stackSize_push]
      exact h.size }

/-- The top may grow by what is in hand. -/
theorem replaceTop (h : Bounded limit hand budget m) {change : Node → Except Cause Node}
    (hreplace : m.replaceTop change = .ok m')
    (hchange : ∀ n n', n.Sound limit → change n = .ok n' →
      n'.Sound limit ∧ n'.size = n.size + Node.sizeOver hand) : Bounded limit [] budget m' := by
  obtain ⟨below, n, n', ids, hstack, heq, rfl⟩ := replaceTop_eq_ok_iff.mp hreplace
  have hn : m.Has n := .stack (hstack ▸ Array.mem_push_self)
  obtain ⟨hsound, hgrown⟩ := hchange n n' (h.sound hn) heq
  refine { h with held := fun _ hn => (nomatch hn), stack := ?_, size := ?_ }
  · intro k ids' hmem
    rcases Array.mem_push.mp hmem with hmem | heq
    · exact h.stack k ids' (hstack ▸ Array.mem_push_of_mem _ hmem)
    · obtain ⟨rfl, -⟩ := Item.node.inj heq
      exact hsound
  · have hsize := h.size
    rw [hstack, stackSize_push] at hsize
    have hold : Item.size (.node n ids) = n.size := rfl
    have hnew : Item.size (.node n' ids) = n'.size := rfl
    rw [stackSize_push, Node.sizeOver_nil]
    show _ ≤ budget + m.shared
    omega

/-- A copy may be taken into the hand, and is counted. -/
theorem charge (h : Bounded limit [] budget m) (hn : n.Sound limit)
    (hcharge : m.charge n.size = .ok m') : Bounded limit [n] budget m' := by
  obtain ⟨hle, rfl⟩ := charge_eq_ok_iff.mp hcharge
  refine { h with held := List.forall_mem_cons.mpr ⟨hn, fun _ hn => (nomatch hn)⟩,
                  size := ?_, shared := hle }
  have hsize := h.size
  rw [Node.sizeOver_nil] at hsize
  rw [Node.sizeOver_cons, Node.sizeOver_nil]
  show stackSize m.stack + _ ≤ budget + (m.shared + n.size)
  omega

/-- Remembering changes neither what is held nor how much of it. -/
theorem remember (h : Bounded limit [] budget m) {id : Nat} (hremember : m.remember id = .ok m') :
    Bounded limit [] budget m' := by
  have hsound : ∀ k, m'.Has k → k.Sound limit := fun k hk => h.sound (hk.of_remember hremember)
  -- a container is remembered by its place, so its item changes, but not its size
  have hsame : stackSize m'.stack = stackSize m.stack ∧ m'.shared = m.shared := by
    obtain ⟨below, n, ids, hstack⟩ := exists_top_of_remember hremember
    by_cases hfixed : ∃ v, n.content = .fixed v
    · obtain ⟨v, hv⟩ := hfixed
      obtain rfl := Except.ok.inj ((remember_of_fixed hstack hv id).symm.trans hremember)
      exact ⟨rfl, rfl⟩
    · have hopen : ∀ v, n.content ≠ .fixed v := fun v hv => hfixed ⟨v, hv⟩
      obtain rfl := Except.ok.inj ((remember_of_open hstack hopen id).symm.trans hremember)
      refine ⟨?_, rfl⟩
      rw [hstack, stackSize_push, stackSize_push]
      rfl
  obtain ⟨hsize, hshared⟩ := hsame
  constructor
  · exact h.held
  · exact fun k ids hmem => hsound k (.stack hmem)
  · exact fun id' k hfrozen => hsound k (.memo hfrozen)
  · rw [hsize, hshared]
    exact h.size
  · rw [hshared]
    exact h.shared

/-! ### One opcode -/

/-- What is made of the values above a mark is as great as they are and one more, which the opcode
    pays for. -/
theorem gather (h : Bounded limit [] budget m) {make : List Node → Except Cause Node}
    (hgather : m.gather make = .ok m')
    (hmake : ∀ items n, (∀ n ∈ items, n.Sound limit) → make items = .ok n →
      n.Sound limit ∧ n.size = 1 + Node.sizeOver items) : Bounded limit [] (budget + 1) m' := by
  obtain ⟨⟨items, m₁⟩, hpop, h₁⟩ := except_bind_eq_ok.mp hgather
  obtain ⟨n, hn, h₂⟩ := except_bind_eq_ok.mp h₁
  obtain rfl := Except.ok.inj h₂
  have hitems := h.popToMark hpop
  exact (hitems.make (hmake items n hitems.held hn)).push

/-- **Every opcode keeps the bounds**, and pays one byte for what it puts on the stack. -/
theorem exec (h : Bounded limit [] budget m) {op : Opcode}
    (hop : ∀ v, op = .push v → (Node.leaf v).Sound limit) (hexec : m.exec op = .ok m') :
    Bounded limit [] (budget + 1) m' := by
  cases op with
  | protocol =>
    obtain rfl := Except.ok.inj hexec
    exact h.mono (Nat.le_succ _)
  | frame =>
    obtain rfl := Except.ok.inj hexec
    exact h.mono (Nat.le_succ _)
  | stop =>
    obtain rfl := Except.ok.inj hexec
    exact h.mono (Nat.le_succ _)
  | mark =>
    obtain rfl := Except.ok.inj hexec
    exact h.pushMark.mono (Nat.le_succ _)
  | pop =>
    rcases popItem_eq_ok_iff.mp hexec with ⟨below, hmark, rfl⟩ | ⟨n, hpop⟩
    · exact (h.dropMark hmark).mono (Nat.le_succ _)
    · exact (h.pop hpop).discard.mono (Nat.le_succ _)
  | popMark =>
    obtain ⟨⟨items, m₁⟩, hpop, h₁⟩ := except_bind_eq_ok.mp hexec
    obtain rfl := Except.ok.inj h₁
    exact (h.popToMark hpop).discard.mono (Nat.le_succ _)
  | dup =>
    obtain ⟨n, htop, h₁⟩ := except_bind_eq_ok.mp hexec
    obtain ⟨m₁, hcharge, h₂⟩ := except_bind_eq_ok.mp h₁
    obtain rfl := Except.ok.inj h₂
    have hn : n.Sound limit := h.sound (has_of_top htop)
    exact ((h.charge hn hcharge).push).mono (Nat.le_succ _)
  | push v =>
    obtain rfl := Except.ok.inj hexec
    exact (h.make ⟨hop v rfl, rfl⟩).push
  | tuple => exact h.gather hexec fun items n hitems hn => Node.sound_sequence (.inl rfl) hitems hn
  | tupleOf k =>
    obtain ⟨⟨items, m₁⟩, hpop, h₁⟩ := except_bind_eq_ok.mp hexec
    obtain ⟨n, hn, h₂⟩ := except_bind_eq_ok.mp h₁
    obtain rfl := Except.ok.inj h₂
    obtain ⟨ns, -, rfl, htakes⟩ := popOnto_eq_ok_iff.mp hpop
    have hitems := h.takes htakes
    exact (hitems.make (Node.sound_sequence (.inl rfl) hitems.held hn)).push
  | list => exact h.gather hexec fun items n hitems hn => Node.sound_sequence (.inr rfl) hitems hn
  | append =>
    obtain ⟨⟨item, m₁⟩, hpop, h₁⟩ := except_bind_eq_ok.mp hexec
    have hitem := h.pop hpop
    exact (hitem.replaceTop h₁ fun n n' hn hn' =>
      Node.sound_append hn hitem.held hn').mono (Nat.le_succ _)
  | appends =>
    obtain ⟨⟨items, m₁⟩, hpop, h₁⟩ := except_bind_eq_ok.mp hexec
    have hitems := h.popToMark hpop
    exact (hitems.replaceTop h₁ fun n n' hn hn' =>
      Node.sound_append hn hitems.held hn').mono (Nat.le_succ _)
  | dict => exact h.gather hexec fun items n hitems hn => Node.sound_dictOf hitems hn
  | setItem =>
    obtain ⟨⟨value, m₁⟩, hvalue, h₁⟩ := except_bind_eq_ok.mp hexec
    obtain ⟨⟨key, m₂⟩, hkey, h₂⟩ := except_bind_eq_ok.mp h₁
    have hitems := (h.pop hvalue).pop hkey
    exact (hitems.replaceTop h₂ fun n n' hn hn' =>
      Node.sound_setItems hn hitems.held hn').mono (Nat.le_succ _)
  | setItems =>
    obtain ⟨⟨items, m₁⟩, hpop, h₁⟩ := except_bind_eq_ok.mp hexec
    obtain ⟨-, -, h₂⟩ := except_bind_eq_ok.mp h₁
    have hitems := h.popToMark hpop
    exact (hitems.replaceTop h₂ fun n n' hn hn' =>
      Node.sound_setItems hn hitems.held hn').mono (Nat.le_succ _)
  | memoize =>
    exact (h.remember (memoize_eq_ok_iff.mp hexec).2).mono (Nat.le_succ _)
  | put id => exact (h.remember hexec).mono (Nat.le_succ _)
  | get id =>
    obtain ⟨n, hlookup, h₁⟩ := except_bind_eq_ok.mp hexec
    obtain ⟨m₁, hcharge, h₂⟩ := except_bind_eq_ok.mp h₁
    obtain rfl := Except.ok.inj h₂
    have hn : n.Sound limit := h.sound (has_of_lookup hlookup)
    exact ((h.charge hn hcharge).push).mono (Nat.le_succ _)

end Bounded

end Machine

/-! ## Streams -/

/-- What an opcode puts on the stack is a scalar or an empty container, with a text no longer than
    the bytes of the opcode. -/
theorem sound_of_spells {limit : Nat} {behind raw : Bytes} {v : Value}
    (h : (Opcode.push v).Spells behind raw) (hlimit : raw.length ≤ limit) :
    (Node.leaf v).Sound limit := by
  cases h with
  | none => exact Node.sound_leaf rfl ⟨nofun, trivial, trivial⟩ trivial
  | true => exact Node.sound_leaf rfl ⟨nofun, trivial, trivial⟩ trivial
  | false => exact Node.sound_leaf rfl ⟨nofun, trivial, trivial⟩ trivial
  | fourBytes _ _ => exact Node.sound_leaf rfl ⟨nofun, trivial, trivial⟩ trivial
  | natural _ _ _ => exact Node.sound_leaf rfl ⟨nofun, trivial, trivial⟩ trivial
  | sized _ _ _ => exact Node.sound_leaf rfl ⟨nofun, trivial, trivial⟩ trivial
  | float => exact Node.sound_leaf rfl ⟨nofun, trivial, trivial⟩ trivial
  | str _ hs =>
    exact Node.sound_leaf rfl ⟨nofun, trivial, trivial⟩
      (Nat.le_trans (Nat.le_succ_of_le (Payload.Sized.length_le hs)) hlimit)
  | bytes _ hb =>
    exact Node.sound_leaf rfl ⟨nofun, trivial, trivial⟩
      (Nat.le_trans (Nat.le_succ_of_le (Payload.Sized.length_le hb)) hlimit)
  | emptyTuple => exact Node.sound_leaf rfl (Value.plain_tuple []) trivial
  | emptyList => exact Node.sound_leaf rfl (Value.plain_list []) trivial
  | emptyDict => exact Node.sound_leaf rfl Value.plain_emptyDict trivial

/-- **A step keeps the bounds**, and the bytes of its opcode pay for what it puts on the stack. -/
theorem Machine.Bounded.step {budget : Nat} {m m' : Machine} {i j : Input}
    (h : m.Bounded i.endPos [] budget) (hstep : step m i = .ok (.running m', j)) :
    m'.Bounded j.endPos [] (budget + (j.pos - i.pos)) ∧ j.endPos = i.endPos ∧ i.pos < j.pos := by
  obtain ⟨op, hread, happly⟩ := step_eq_ok_iff.mp hstep
  obtain ⟨raw, hspells, hbytes, hpos⟩ := read_eq_ok_iff.mp hread
  have hraw := hspells.length_pos
  have hend : j.endPos = i.endPos := by
    rw [Input.endPos, Input.endPos, hbytes, hpos, List.length_append, Nat.add_assoc]
  have hlen : raw.length ≤ i.endPos := by
    rw [Input.endPos, hbytes, List.length_append]
    omega
  have hpush : ∀ w, op = .push w → (Node.leaf w).Sound i.endPos := by
    rintro w rfl
    exact sound_of_spells hspells hlen
  have hnext := h.exec hpush (apply_running_iff.mp happly).2
  refine ⟨?_, hend, by omega⟩
  rw [hend]
  exact hnext.mono (by omega)

/-- **A run gives a sound value**, of no more values than bytes were read and copies were made. -/
theorem sound_of_run {limit steps : Nat} {m : Machine} {i : Input} {v : Value} {j : Input}
    (h : m.Bounded limit [] i.pos) (hend : i.endPos = limit) (hrun : run steps m i = .ok (v, j)) :
    ∃ n : Node, n.value = v ∧ n.Sound limit ∧ n.size ≤ limit + maxShared := by
  subst hend
  induction steps generalizing m i with
  | zero => nomatch hrun
  | succ steps ih =>
    rcases run_succ_eq_ok_iff.mp hrun with hstep | ⟨m', k, hstep, hrest⟩
    · obtain ⟨op, -, happly⟩ := step_eq_ok_iff.mp hstep
      obtain ⟨rfl, n, m', hpop, rfl⟩ := apply_stopped_iff.mp happly
      have hn := h.pop hpop
      have hsize := hn.size
      have hshared := hn.shared
      have hpos := Reader.pos_le_endPos i
      rw [Node.sizeOver_cons] at hsize
      exact ⟨n, rfl, hn.held n List.mem_cons_self, by omega⟩
    · obtain ⟨hnext, hend, hlt⟩ := h.step hstep
      rw [Nat.add_sub_cancel' (Nat.le_of_lt hlt)] at hnext
      obtain ⟨n, hvalue, hsound, hsize⟩ := ih hrest hnext
      rw [hend] at hsound hsize
      exact ⟨n, hvalue, hsound, hsize⟩

/-- The value of a stream is that of a sound node, no greater than the bytes and what may be
    copied. -/
theorem sound_of_load {bytes : Bytes} {v : Value} (h : load bytes = .ok v) :
    ∃ n : Node, n.value = v ∧ n.Sound bytes.length ∧ n.size ≤ bytes.length + maxShared := by
  obtain ⟨version, rest, pos, -, rfl, hrun⟩ := load_eq_ok_iff.mp h
  refine sound_of_run (Machine.Bounded.start _ _) ?_ hrun
  show 2 + rest.length = rest.length + 1 + 1
  omega

end SealedStore.Pickle
