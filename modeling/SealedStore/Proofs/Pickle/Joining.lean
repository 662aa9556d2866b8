/-
  What containers on the stack are made of.

  Eight opcodes make a container out of what they take off the stack, or add it to the one below
  (`Joins`).  Each of them is the same step on nodes: the values of the nodes become members, and
  the depth is that of what was there before and of what is added (`Joined`), unless it is too
  great.  No other opcode makes a node out of nodes.

  So a node that a machine holds after an opcode was held before, or is a leaf, or was joined from
  nodes held before (`has_of_exec`): what every joining keeps holds of every node.
-/
import SealedStore.Proofs.Pickle.Failing
import SealedStore.Proofs.Pickle.Holding
import SealedStore.Proofs.Pickle.Node

namespace SealedStore

/-! ## Values -/

namespace Value

/-- A container with more members behind its own.  A dictionary takes keys and values by turns, and
    a value under a key that is there comes in the place of the one before. -/
def join : Value → List Value → Value
  | tuple xs, vs => tuple (xs ++ vs)
  | list xs, vs => list (xs ++ vs)
  | dict entries, vs => dict (insertEach entries (Pickle.Node.pairUp vs))
  | v, _ => v

/-- The same, but nothing goes when something comes in its place. -/
def heap : Value → List Value → Value
  | dict entries, vs => dict (entries ++ Pickle.Node.pairUp vs)
  | v, vs => v.join vs

/-- The values are all put into the container: they are not a key without a value. -/
def Takes (v : Value) (vs : List Value) : Prop := (v.heap vs).members = v.members ++ vs

theorem takes_tuple (xs vs : List Value) : (tuple xs).Takes vs := rfl

theorem takes_list (xs vs : List Value) : (list xs).Takes vs := rfl

theorem takes_dict (entries : List (Value × Value)) {vs : List Value} (h : vs.length % 2 ≠ 1) :
    (dict entries).Takes vs := by
  show members (dict (entries ++ Pickle.Node.pairUp vs)) = _
  rw [members_dict_append, Pickle.Node.members_pairUp h]

/-- What is heaped up is above the container and above each of the values. -/
theorem Takes.level_heap {v : Value} {vs : List Value} (h : v.Takes vs) :
    (v.heap vs).level = max v.level (levelItems vs) := by
  rw [level_eq, level_eq v, ← levelItems_append]
  exact congrArg levelItems h

/-- Nothing comes from replacing that is not heaped up. -/
theorem level_join_le (v : Value) (vs : List Value) : (v.join vs).level ≤ (v.heap vs).level := by
  cases v with
  | dict entries =>
    refine level_mono (forall_members_insertEach ?_ ?_)
    · intro w hw
      show w ∈ members (dict (entries ++ _))
      rw [members_dict_append]
      exact List.mem_append_left _ hw
    · intro w hw
      show w ∈ members (dict (entries ++ _))
      rw [members_dict_append]
      exact List.mem_append_right _ hw
  | _ => exact Nat.le_refl _

end Value

namespace Pickle

/-! ## Nodes -/

namespace Node

/-- A node is a container joined with the nodes, and its depth is that of all of them. -/
structure Joined (base : Node) (items : List Node) (n : Node) : Prop where
  value : n.value = base.value.join (values items)
  depth : n.depth = max base.depth (depthOver items)
  takes : base.value.Takes (values items)

/-- What is made of a container and nodes is given if it is not too deep; it may also be refused for
    something else. -/
def Checks (base : Node) (items : List Node) (r : Except Cause Node) : Prop :=
  (∃ n, Joined base items n ∧ r = n.checked) ∨ ∃ cause, r = .error cause ∧ cause ≠ .tooDeep

variable {base n : Node} {items : List Node}

theorem Checks.ok (h : Checks base items (.ok n)) : Joined base items n ∧ n.depth ≤ maxDepth := by
  rcases h with ⟨n', hjoined, heq⟩ | ⟨cause, heq, -⟩
  · obtain ⟨rfl, hdepth⟩ := checked_eq_ok_iff.mp heq.symm
    exact ⟨hjoined, hdepth⟩
  · nomatch heq

/-- A container is refused as too deep for its depth alone. -/
theorem Checks.tooDeep (h : Checks base items (.error .tooDeep)) :
    ∃ n, Joined base items n ∧ maxDepth < n.depth := by
  rcases h with ⟨n, hjoined, heq⟩ | ⟨cause, heq, hcause⟩
  · unfold checked at heq
    split at heq
    · next hdepth => exact ⟨n, hjoined, hdepth⟩
    · nomatch heq
  · exact absurd (Except.error.inj heq).symm hcause

/-- A tuple or a list is an empty one joined with its items. -/
theorem checks_sequence {make : List Value → Value} (hmake : make = .tuple ∨ make = .list)
    (items : List Node) : Checks (leaf (make [])) items (sequence make items) := by
  refine .inl ⟨_, ⟨?_, (Nat.zero_max _).symm, ?_⟩, rfl⟩
  · rw [value_leaf]
    show Content.value _ = _
    rw [Content.value_ofValue]
    rcases hmake with rfl | rfl <;> rfl
  · rw [value_leaf]
    rcases hmake with rfl | rfl
    · exact Value.takes_tuple _ _
    · exact Value.takes_list _ _

/-- Adding items to a list joins them with it, if it is a list. -/
theorem checks_append (base : Node) (items : List Node) :
    Checks base items (base.append items) := by
  unfold append
  split
  · next reversed hlist =>
    have hold : base.value = .list reversed.reverse := by rw [value, hlist, Content.value]
    refine .inl ⟨_, ⟨?_, rfl, ?_⟩, rfl⟩
    · show Value.list (List.reverse (_ ++ reversed)) = _
      rw [hold, List.reverse_append, List.reverse_reverse]
      rfl
    · rw [hold]
      exact Value.takes_list _ _
  · refine .inr ⟨_, rfl, ?_⟩
    intro h
    cases h

/-- Entering keys and values does not look at depths. -/
theorem enterAll_ne_tooDeep (reversed : List (Value × Value)) (items : List Node) :
    enterAll reversed items ≠ .error .tooDeep := by
  induction reversed, items using enterAll.induct with
  | case1 reversed key value rest hkey ih =>
    rw [enterAll, if_pos hkey]
    exact ih
  | case2 reversed key value rest hkey =>
    rw [enterAll, if_neg hkey]
    intro h
    cases h
  | case3 reversed rest hrest =>
    rw [enterAll]
    · intro h
      cases h
    · exact hrest

/-- Adding keys and values to a dictionary joins them with it, if it is a dictionary and the keys
    may be keys. -/
theorem checks_setItems (base : Node) {items : List Node} (heven : items.length % 2 ≠ 1) :
    Checks base items (base.setItems items) := by
  unfold setItems
  split
  · next reversed hdict =>
    have hold : base.value = .dict reversed.reverse := by rw [value, hdict, Content.value]
    cases henter : enterAll reversed items with
    | error cause =>
      refine .inr ⟨cause, rfl, ?_⟩
      rintro rfl
      exact enterAll_ne_tooDeep reversed items henter
    | ok reversed' =>
      obtain ⟨-, hentries⟩ := enterAll_eq_ok_iff.mp henter
      refine .inl ⟨_, ⟨?_, rfl, ?_⟩, rfl⟩
      · show Value.dict reversed'.reverse = _
        rw [hold, hentries]
        rfl
      · rw [hold]
        exact Value.takes_dict _ (by rwa [values, List.length_map])
  · refine .inr ⟨_, rfl, ?_⟩
    intro h
    cases h

theorem checks_pair (base key value : Node) :
    Checks base [key, value] (base.setItems [key, value]) :=
  checks_setItems base (show 2 % 2 ≠ 1 by decide)

/-- A dictionary is an empty one joined with keys and values, of which there must be pairs. -/
theorem checks_dictOf (items : List Node) : Checks (leaf (.dict [])) items (dictOf items) := by
  unfold dictOf
  cases hpairs : requirePairs items with
  | error cause =>
    refine .inr ⟨cause, rfl, ?_⟩
    unfold requirePairs at hpairs
    split at hpairs
    · obtain rfl := Except.error.inj hpairs
      exact nofun
    · nomatch hpairs
  | ok u => exact checks_setItems _ (requirePairs_eq_ok_iff.mp hpairs)

end Node

namespace Machine

variable {m m' : Machine} {n k : Node} {items : List Node}

/-! ## Opcodes that join -/

/-- An opcode takes nodes off the stack to make them members of a container, which is a new one or
    lies below them. -/
inductive Joins (m : Machine) : Opcode → Node → List Node → Prop
  | tuple {items : List Node} {m' : Machine} :
      m.popToMark = .ok (items, m') → Joins m .tuple (.leaf (.tuple [])) items
  | tupleOf {count : Nat} {items : List Node} {m' : Machine} :
      m.popOnto count [] = .ok (items, m') → Joins m (.tupleOf count) (.leaf (.tuple [])) items
  | list {items : List Node} {m' : Machine} :
      m.popToMark = .ok (items, m') → Joins m .list (.leaf (.list [])) items
  | append {item base : Node} {m' : Machine} :
      m.pop = .ok (item, m') → m'.top = .ok base → Joins m .append base [item]
  | appends {items : List Node} {base : Node} {m' : Machine} :
      m.popToMark = .ok (items, m') → m'.top = .ok base → Joins m .appends base items
  | dict {items : List Node} {m' : Machine} :
      m.popToMark = .ok (items, m') → Joins m .dict (.leaf (.dict [])) items
  | setItem {value key base : Node} {m₁ m₂ : Machine} :
      m.pop = .ok (value, m₁) → m₁.pop = .ok (key, m₂) → m₂.top = .ok base →
      Joins m .setItem base [key, value]
  | setItems {items : List Node} {base : Node} {m' : Machine} :
      m.popToMark = .ok (items, m') → m'.top = .ok base → Joins m .setItems base items

/-- Only what is held is joined, and with a container that is held or empty. -/
theorem Joins.has {op : Opcode} {base : Node} (h : Joins m op base items) :
    (m.Has base ∨ ∃ v : Value, v.members = [] ∧ base = .leaf v) ∧ ∀ n ∈ items, m.Has n := by
  cases h with
  | tuple hpop => exact ⟨.inr ⟨.tuple [], rfl, rfl⟩, (has_of_popToMark hpop).1⟩
  | tupleOf hpop => exact ⟨.inr ⟨.tuple [], rfl, rfl⟩, (has_of_popOnto hpop).1⟩
  | list hpop => exact ⟨.inr ⟨.list [], rfl, rfl⟩, (has_of_popToMark hpop).1⟩
  | dict hpop => exact ⟨.inr ⟨.dict [], rfl, rfl⟩, (has_of_popToMark hpop).1⟩
  | append hpop htop =>
    obtain ⟨hitem, hkept⟩ := has_of_pop hpop
    exact ⟨.inl (hkept _ (has_of_top htop)), List.forall_mem_singleton.mpr hitem⟩
  | appends hpop htop =>
    obtain ⟨hitems, hkept⟩ := has_of_popToMark hpop
    exact ⟨.inl (hkept _ (has_of_top htop)), hitems⟩
  | setItem hvalue hkey htop =>
    obtain ⟨hvalue, hkept⟩ := has_of_pop hvalue
    obtain ⟨hkey, hkept'⟩ := has_of_pop hkey
    refine ⟨.inl (hkept _ (hkept' _ (has_of_top htop))), List.forall_mem_cons.mpr ⟨?_, ?_⟩⟩
    · exact hkept _ hkey
    · exact List.forall_mem_singleton.mpr hvalue
  | setItems hpop htop =>
    obtain ⟨hitems, hkept⟩ := has_of_popToMark hpop
    exact ⟨.inl (hkept _ (has_of_top htop)), hitems⟩

/-- What an opcode leaves a machine with: nodes that it had, leaves, and one that was joined. -/
inductive Comes (m : Machine) (op : Opcode) (k : Node) : Prop
  | kept : m.Has k → Comes m op k
  | leaf {v : Value} : op = .push v → k = .leaf v → Comes m op k
  | joined {base : Node} {items : List Node} :
      Joins m op base items → base.Joined items k → k.depth ≤ maxDepth → Comes m op k

/-- A node that is held after the values above a mark were made into one was held, or was joined of
    them. -/
theorem comes_of_gather {op : Opcode} {base : Node} {make : List Node → Except Cause Node}
    (hgather : m.gather make = .ok m') (hmake : ∀ items, Node.Checks base items (make items))
    (hjoins : ∀ items m', m.popToMark = .ok (items, m') → Joins m op base items)
    (hk : m'.Has k) : Comes m op k := by
  obtain ⟨⟨items, m₁⟩, hpop, hgather⟩ := except_bind_eq_ok.mp hgather
  obtain ⟨n, hn, hgather⟩ := except_bind_eq_ok.mp hgather
  obtain rfl := Except.ok.inj hgather
  rcases hk.of_push with hk | rfl
  · exact .kept ((has_of_popToMark hpop).2 k hk)
  · obtain ⟨hjoined, hdepth⟩ := Node.Checks.ok (hn ▸ hmake items)
    exact .joined (hjoins items m₁ hpop) hjoined hdepth

/-- A node that is held after the top was changed was held, or was joined with the top. -/
theorem comes_of_replaceTop {m₁ : Machine} {op : Opcode} {change : Node → Except Cause Node}
    (hreplace : m₁.replaceTop change = .ok m') (hkept : ∀ k, m₁.Has k → m.Has k)
    (hchange : ∀ base : Node, base.Checks items (change base))
    (hjoins : ∀ base, m₁.top = .ok base → Joins m op base items) (hk : m'.Has k) :
    Comes m op k := by
  obtain ⟨base, n, htop, hn, hreplaced⟩ := has_of_replaceTop hreplace
  rcases hreplaced k hk with hk | rfl
  · exact .kept (hkept k hk)
  · obtain ⟨hjoined, hdepth⟩ := Node.Checks.ok (hn ▸ hchange base)
    exact .joined (hjoins base htop) hjoined hdepth

/-- **Where the nodes of a machine come from**, after any opcode. -/
theorem has_of_exec {op : Opcode} (hexec : m.exec op = .ok m') (hk : m'.Has k) :
    Comes m op k := by
  cases op with
  | protocol | frame | stop =>
    obtain rfl := Except.ok.inj hexec
    exact .kept hk
  | mark =>
    obtain rfl := Except.ok.inj hexec
    exact .kept hk.of_pushMark
  | pop => exact .kept (hk.of_popItem hexec)
  | popMark =>
    obtain ⟨⟨items, m₁⟩, hpop, hexec⟩ := except_bind_eq_ok.mp hexec
    obtain rfl := Except.ok.inj hexec
    exact .kept ((has_of_popToMark hpop).2 k hk)
  | dup =>
    obtain ⟨n, htop, hexec⟩ := except_bind_eq_ok.mp hexec
    obtain ⟨m₁, hcharge, hexec⟩ := except_bind_eq_ok.mp hexec
    obtain rfl := Except.ok.inj hexec
    exact .kept ((has_of_top htop).of_copy hcharge hk)
  | push v =>
    obtain rfl := Except.ok.inj hexec
    rcases hk.of_push with hk | rfl
    · exact .kept hk
    · exact .leaf rfl rfl
  | tuple =>
    exact comes_of_gather hexec (Node.checks_sequence (.inl rfl)) (fun _ _ => .tuple) hk
  | tupleOf count =>
    obtain ⟨⟨items, m₁⟩, hpop, hexec⟩ := except_bind_eq_ok.mp hexec
    obtain ⟨n, hn, hexec⟩ := except_bind_eq_ok.mp hexec
    obtain rfl := Except.ok.inj hexec
    rcases hk.of_push with hk | rfl
    · exact .kept ((has_of_popOnto hpop).2 k hk)
    · obtain ⟨hjoined, hdepth⟩ := Node.Checks.ok (hn ▸ Node.checks_sequence (.inl rfl) items)
      exact .joined (.tupleOf hpop) hjoined hdepth
  | list =>
    exact comes_of_gather hexec (Node.checks_sequence (.inr rfl)) (fun _ _ => .list) hk
  | append =>
    obtain ⟨⟨item, m₁⟩, hpop, hexec⟩ := except_bind_eq_ok.mp hexec
    exact comes_of_replaceTop hexec (has_of_pop hpop).2 (fun base => base.checks_append [item])
      (fun _ htop => .append hpop htop) hk
  | appends =>
    obtain ⟨⟨items, m₁⟩, hpop, hexec⟩ := except_bind_eq_ok.mp hexec
    exact comes_of_replaceTop hexec (has_of_popToMark hpop).2
      (fun base => base.checks_append items) (fun _ htop => .appends hpop htop) hk
  | dict => exact comes_of_gather hexec Node.checks_dictOf (fun _ _ => .dict) hk
  | setItem =>
    obtain ⟨⟨value, m₁⟩, hvalue, hexec⟩ := except_bind_eq_ok.mp hexec
    obtain ⟨⟨key, m₂⟩, hkey, hexec⟩ := except_bind_eq_ok.mp hexec
    have hkept : ∀ k, m₂.Has k → m.Has k :=
      fun k hk => (has_of_pop hvalue).2 k ((has_of_pop hkey).2 k hk)
    exact comes_of_replaceTop hexec hkept (fun base => base.checks_pair key value)
      (fun _ htop => .setItem hvalue hkey htop) hk
  | setItems =>
    obtain ⟨⟨items, m₁⟩, hpop, hexec⟩ := except_bind_eq_ok.mp hexec
    obtain ⟨u, hpairs, hexec⟩ := except_bind_eq_ok.mp hexec
    have heven := Node.requirePairs_eq_ok_iff.mp hpairs
    exact comes_of_replaceTop hexec (has_of_popToMark hpop).2
      (fun base => base.checks_setItems heven) (fun _ htop => .setItems hpop htop) hk
  | memoize => exact .kept (hk.of_remember (memoize_eq_ok_iff.mp hexec).2)
  | put id => exact .kept (hk.of_remember hexec)
  | get id =>
    obtain ⟨n, hlookup, hexec⟩ := except_bind_eq_ok.mp hexec
    obtain ⟨m₁, hcharge, hexec⟩ := except_bind_eq_ok.mp hexec
    obtain rfl := Except.ok.inj hexec
    exact .kept ((has_of_lookup hlookup).of_copy hcharge hk)

/-! ## Containers that are too deep -/

/-- If an opcode is refused as too deep, what it would join is deeper than the limit. -/
def Overfills (m : Machine) (op : Opcode) : Prop :=
  ∃ base items n, Joins m op base items ∧ base.Joined items n ∧ maxDepth < n.depth

/-- What is wrong with the stack is not that something is too deep. -/
theorem tells_of_stack {α : Type} {P : Prop} {r : Except Cause α} (h : Tells Cause.OfStack r) :
    Tells (fun cause => cause = .tooDeep → P) r :=
  h.mono fun cause hcause heq => by
    subst heq
    exact hcause.elim

/-- A container is refused as too deep when it would have been. -/
theorem tells_of_checks {op : Opcode} {base : Node} {r : Except Cause Node}
    (hjoins : Joins m op base items) (h : base.Checks items r) :
    Tells (fun cause => cause = .tooDeep → m.Overfills op) r := by
  rintro cause rfl rfl
  obtain ⟨n, hjoined, hdepth⟩ := h.tooDeep
  exact ⟨base, items, n, hjoins, hjoined, hdepth⟩

theorem tells_of_replaceTop {m₁ : Machine} {op : Opcode} {change : Node → Except Cause Node}
    (hchange : ∀ base : Node, base.Checks items (change base))
    (hjoins : ∀ base, m₁.top = .ok base → Joins m op base items) :
    Tells (fun cause => cause = .tooDeep → m.Overfills op) (m₁.replaceTop change) := by
  refine m₁.tells_replaceTop ?_ fun base htop => tells_of_checks (hjoins base htop) (hchange base)
  rintro cause hcause rfl
  exact hcause.elim

theorem tells_of_gather {op : Opcode} {base : Node} {make : List Node → Except Cause Node}
    (hmake : ∀ items, Node.Checks base items (make items))
    (hjoins : ∀ items m', m.popToMark = .ok (items, m') → Joins m op base items) :
    Tells (fun cause => cause = .tooDeep → m.Overfills op) (m.gather make) := by
  refine (tells_of_stack m.tells_popToMark).bind fun found hpop => ?_
  refine (tells_of_checks (hjoins found.1 found.2 hpop) (hmake found.1)).bind fun _ _ => ?_
  exact tells_ok _

/-- **An opcode that is refused as too deep** is one that joins. -/
theorem overfills_of_exec {op : Opcode} (h : m.exec op = .error .tooDeep) : m.Overfills op := by
  suffices htells : Tells (fun cause => cause = .tooDeep → m.Overfills op) (m.exec op) from
    htells _ h rfl
  cases op with
  | protocol | frame | stop | mark | push => exact tells_ok _
  | pop => exact tells_of_stack m.tells_popItem
  | popMark => exact (tells_of_stack m.tells_popToMark).bind fun _ _ => tells_ok _
  | dup => exact tells_of_stack m.tells_dup
  | memoize => exact tells_of_stack m.tells_memoize
  | put id => exact tells_of_stack (m.tells_remember id)
  | get id => exact tells_of_stack (m.tells_fetch id)
  | tuple => exact tells_of_gather (Node.checks_sequence (.inl rfl)) fun _ _ => .tuple
  | list => exact tells_of_gather (Node.checks_sequence (.inr rfl)) fun _ _ => .list
  | dict => exact tells_of_gather Node.checks_dictOf fun _ _ => .dict
  | tupleOf count =>
    refine (tells_of_stack (m.tells_popOnto count [])).bind fun found hpop => ?_
    refine (tells_of_checks (.tupleOf hpop) (Node.checks_sequence (.inl rfl) found.1)).bind ?_
    exact fun _ _ => tells_ok _
  | append =>
    refine (tells_of_stack m.tells_pop).bind fun found hpop => ?_
    exact tells_of_replaceTop (fun base => base.checks_append _) fun _ htop => .append hpop htop
  | appends =>
    refine (tells_of_stack m.tells_popToMark).bind fun found hpop => ?_
    exact tells_of_replaceTop (fun base => base.checks_append _) fun _ htop => .appends hpop htop
  | setItem =>
    refine (tells_of_stack m.tells_pop).bind fun value hvalue => ?_
    refine (tells_of_stack (tells_pop value.2)).bind fun key hkey => ?_
    exact tells_of_replaceTop (fun base => base.checks_pair key.1 value.1)
      fun _ htop => .setItem hvalue hkey htop
  | setItems =>
    refine (tells_of_stack m.tells_popToMark).bind fun found hpop => ?_
    refine Tells.bind ?_ fun _ hpairs => ?_
    · rintro cause hodd rfl
      unfold Node.requirePairs at hodd
      split at hodd
      · nomatch hodd
      · nomatch hodd
    · have heven := Node.requirePairs_eq_ok_iff.mp hpairs
      exact tells_of_replaceTop (fun base => base.checks_setItems heven)
        fun _ htop => .setItems hpop htop

end Machine

end Pickle

end SealedStore
