/-
  Lists and dictionaries that are filled in batches.

  A list is made of all its items at once, or it begins empty and takes them one by one or several
  at a time; and a dictionary likewise.  A batch is refused if one of its members is too deep or
  has a key that may not be one, and this does not depend on what is in the container already.  So
  however the members are cut into batches, adding the batches one after the other is adding all
  members at once (`Grows.append`), and the cut makes no difference (`Course.eq_ok_iff`).

  Opcodes see of a machine what lies on its stack, and neither ids nor the memo (`shape`).
-/
import Mathlib.Data.List.Induction
import SealedStore.Proofs.Pickle.Machine
import SealedStore.Proofs.Pickle.Node
import SealedStore.Proofs.Value.Build

namespace SealedStore.Pickle

/-! ## Shapes -/

/-- The node of a value; a mark has none. -/
def Item.held : Item → Option Node
  | .mark => none
  | .node n _ => some n

namespace Machine

/-- The nodes and marks on the stack, the lowest first. -/
def shape (m : Machine) : List (Option Node) := m.stack.toList.map Item.held

/-- What comes of a change of what lies above the lower part of a stack: the node in its place, or
    the same refusal. -/
structure Leaves (below : List (Option Node)) (r : Except Cause Node)
    (after : Except Cause Machine) : Prop where
  ok : ∀ n, r = .ok n → ∃ m', after = .ok m' ∧ m'.shape = below ++ [some n]
  error : ∀ cause, r = .error cause → after = .error cause

variable {m : Machine} {below : List (Option Node)} {n d : Node} {items : List Node}

/-- The last of the shape is the item on top. -/
theorem shape_eq_concat {x : Option Node} (h : m.shape = below ++ [x]) :
    ∃ (rest : Array Item) (item : Item), m.stack = rest.push item ∧ item.held = x ∧
      rest.toList.map Item.held = below := by
  obtain ⟨front, back, hlist, hfront, hback⟩ := List.map_eq_append_iff.mp h
  obtain ⟨item, rfl, hitem⟩ := List.map_eq_singleton_iff.mp hback
  refine ⟨front.toArray, item, ?_, hitem, hfront⟩
  rw [← Array.toList_inj, Array.toList_push, hlist]

theorem shape_of_push {rest : Array Item} {x : Item} (h : m.stack = rest.push x) :
    m.shape = rest.toList.map Item.held ++ [x.held] := by
  rw [shape, h, Array.toList_push, List.map_append, List.map_singleton]

theorem shape_node {rest : Array Item} {ids : List Nat} (h : m.stack = rest.push (.node n ids)) :
    m.shape = rest.toList.map Item.held ++ [some n] := shape_of_push h

theorem shape_push : (m.push n).shape = m.shape ++ [some n] := shape_node rfl

/-- The node on top is taken off, and the rest of the stack keeps its shape. -/
theorem pop_of_shape (h : m.shape = below ++ [some n]) :
    ∃ m', m.pop = .ok (n, m') ∧ m'.shape = below := by
  obtain ⟨rest, item, hstack, hitem, hrest⟩ := shape_eq_concat h
  cases item with
  | mark => nomatch hitem
  | node n' ids =>
    obtain rfl := Option.some.inj hitem
    exact ⟨_, pop_eq_ok_iff.mpr ⟨rest, ids, hstack, rfl⟩, hrest⟩

/-- The nodes on top are taken off one after the other. -/
theorem takes_of_shape (h : m.shape = below ++ items.map some) :
    ∃ m', Takes m items m' ∧ m'.shape = below := by
  induction items using List.reverseRecOn generalizing m with
  | nil => exact ⟨m, .nil m, h.trans (List.append_nil _)⟩
  | append_singleton items n ih =>
    rw [List.map_append, ← List.append_assoc] at h
    obtain ⟨m₁, hpop, hshape⟩ := pop_of_shape h
    obtain ⟨m', htakes, hshape'⟩ := ih hshape
    exact ⟨m', .snoc hpop htakes, hshape'⟩

/-- The nodes above a mark are taken off with it. -/
theorem popToMark_of_shape (h : m.shape = below ++ none :: items.map some) :
    ∃ m', m.popToMark = .ok (items, m') ∧ m'.shape = below := by
  rw [List.append_cons] at h
  obtain ⟨m₁, htakes, hshape⟩ := takes_of_shape h
  obtain ⟨rest, item, hstack, hitem, hrest⟩ := shape_eq_concat hshape
  cases item with
  | mark => exact ⟨_, popToMark_eq_ok_iff.mpr ⟨m₁, rest, htakes, hstack, rfl⟩, hrest⟩
  | node n ids => nomatch hitem

/-- A change of the top leaves the stack below it as it was. -/
theorem leaves_replaceTop (h : m.shape = below ++ [some d]) (change : Node → Except Cause Node) :
    Leaves below (change d) (m.replaceTop change) := by
  obtain ⟨rest, item, hstack, hitem, rfl⟩ := shape_eq_concat h
  cases item with
  | mark => nomatch hitem
  | node d' ids =>
    obtain rfl := Option.some.inj hitem
    constructor
    · intro n hn
      exact ⟨_, replaceTop_eq_ok_iff.mpr ⟨rest, d', n, ids, hstack, hn, rfl⟩, shape_node rfl⟩
    · intro cause hcause
      have hback : m.stack.back? = some (.node d' ids) := by rw [hstack, back?_push]
      unfold replaceTop
      rw [hback]
      dsimp only
      rw [hcause]
      rfl

/-- Making a container of all values above the uppermost mark leaves the stack below the mark as it
    was. -/
theorem leaves_gather (h : m.shape = below ++ none :: items.map some)
    (make : List Node → Except Cause Node) : Leaves below (make items) (m.gather make) := by
  obtain ⟨m', hpop, rfl⟩ := popToMark_of_shape h
  have hgather : m.gather make = (make items >>= fun n => .ok (m'.push n)) := by
    rw [gather, hpop]
    rfl
  rw [hgather]
  constructor
  · intro n hn
    rw [hn]
    exact ⟨_, rfl, shape_push⟩
  · intro cause hcause
    rw [hcause]
    rfl

/-- A machine of a shape. -/
def ofShape (shape : List (Option Node)) : Machine :=
  ⟨(shape.map fun x => x.elim .mark fun n => .node n []).toArray, ∅, 0⟩

theorem shape_ofShape (shape : List (Option Node)) : (ofShape shape).shape = shape := by
  show (List.map _ shape).map Item.held = shape
  rw [List.map_map]
  refine (List.map_congr_left fun x _ => ?_).trans (List.map_id _)
  cases x <;> rfl

end Machine

/-! ## Batches -/

/-- A kind of container, with members of some type. -/
structure Growing (α : Type) where
  /-- The nodes of a member, as they lie on the stack. -/
  nodes : α → List Node
  /-- Adds one member. -/
  one : Opcode
  /-- Adds the members above the mark. -/
  many : Opcode
  /-- Makes a container of the members above the mark. -/
  whole : Opcode
  empty : Value
  /-- The value with these members, as it is built from values. -/
  build : List α → Except ValueError Value

/-- Lists of items. -/
def lists : Growing Node where
  nodes n := [n]
  one := .append
  many := .appends
  whole := .list
  empty := .list []
  build ns := .ok (.list (Node.values ns))

/-- Dictionaries of keys and values. -/
def dicts : Growing (Node × Node) where
  nodes p := [p.1, p.2]
  one := .setItem
  many := .setItems
  whole := .dict
  empty := .dict []
  build ps := Value.ofPairs (ps.map fun p => (p.1.value, p.2.value))

/-- Members that are added by one opcode. -/
inductive Batch (α : Type) where
  | one (x : α)
  | many (xs : List α)

namespace Batch

variable {α : Type}

def members : Batch α → List α
  | one x => [x]
  | many xs => xs

/-- The opcode that adds the batch. -/
def opcode (g : Growing α) : Batch α → Opcode
  | one _ => g.one
  | many _ => g.many

/-- What lies above the container before that. -/
def above (g : Growing α) : Batch α → List (Option Node)
  | one x => (g.nodes x).map some
  | many xs => none :: (xs.flatMap g.nodes).map some

end Batch

namespace Growing

variable {α : Type}

/-- The nodes of members in order. -/
def all (g : Growing α) (xs : List α) : List Node := xs.flatMap g.nodes

theorem all_append (g : Growing α) (xs ys : List α) : g.all (xs ++ ys) = g.all xs ++ g.all ys :=
  List.flatMap_append

/-- Batches are added to a container one after the other, each by its opcode and on a machine that
    has it above the container; and what comes of it. -/
inductive Course (g : Growing α) (below : List (Option Node)) :
    Node → List (Batch α) → Except Cause Node → Prop
  | done (d : Node) : Course g below d [] (.ok d)
  | next {d d' : Node} {batch : Batch α} {batches : List (Batch α)} {r : Except Cause Node}
      {m m' : Machine} :
      m.shape = below ++ some d :: batch.above g → m.exec (batch.opcode g) = .ok m' →
      m'.shape = below ++ [some d'] → Course g below d' batches r →
      Course g below d (batch :: batches) r
  | refused {d : Node} {batch : Batch α} {batches : List (Batch α)} {cause : Cause}
      {m : Machine} :
      m.shape = below ++ some d :: batch.above g →
      m.exec (batch.opcode g) = .error cause → Course g below d (batch :: batches) (.error cause)

/-- All ways to fill a container with the same members are one. -/
structure Agrees (g : Growing α) : Prop where
  /-- The empty container is there to begin with. -/
  begins : ∀ m : Machine, ∃ m', m.exec (.push g.empty) = .ok m' ∧
    m'.shape = m.shape ++ [some (.leaf g.empty)]
  /-- Any batches can be added, and then all of them are or one is refused. -/
  exists_course : ∀ below batches, ∃ r, g.Course below (.leaf g.empty) batches r
  /-- What comes of it comes of making the container of all members at once. -/
  eq_whole : ∀ {below batches r} {m : Machine}, g.Course below (.leaf g.empty) batches r →
    m.shape = below ++ none :: (g.all (batches.flatMap Batch.members)).map some →
    (∀ n, r = .ok n → ∃ m', m.exec g.whole = .ok m' ∧ m'.shape = below ++ [some n]) ∧
    (∀ cause, r = .error cause → ∃ cause', m.exec g.whole = .error cause')
  /-- It is the value that is built of the values of all members. -/
  eq_build : ∀ {below batches n}, g.Course below (.leaf g.empty) batches (.ok n) →
    g.build (batches.flatMap Batch.members) = .ok n.value
  /-- It is refused only for what cannot be built, or for a member that is as deep as may be. -/
  accepted_iff : ∀ {below batches r}, g.Course below (.leaf g.empty) batches r →
    ((∃ n, r = .ok n) ↔ (∃ v, g.build (batches.flatMap Batch.members) = .ok v) ∧
      ∀ n ∈ g.all (batches.flatMap Batch.members), n.depth < maxDepth)

/-- Nodes are added to a container by a function, and the opcodes do just that. -/
structure Grows (g : Growing α) (grow : Node → List Node → Except Cause Node) : Prop where
  one : ∀ {m : Machine} {below d x}, m.shape = below ++ some d :: (g.nodes x).map some →
    Machine.Leaves below (grow d (g.nodes x)) (m.exec g.one)
  many : ∀ {m : Machine} {below d xs}, m.shape = below ++ some d :: none :: (g.all xs).map some →
    Machine.Leaves below (grow d (g.all xs)) (m.exec g.many)
  whole : ∀ {m : Machine} {below xs}, m.shape = below ++ none :: (g.all xs).map some →
    Machine.Leaves below (grow (.leaf g.empty) (g.all xs)) (m.exec g.whole)
  push : ∀ m : Machine, m.exec (.push g.empty) = .ok (m.push (.leaf g.empty))
  empty : grow (.leaf g.empty) [] = .ok (.leaf g.empty)
  nil : ∀ {d n : Node} {items}, grow d items = .ok n → grow n [] = .ok n
  /-- Adding more is adding again. -/
  append : ∀ {d n : Node} {xs ys}, grow d (g.all xs ++ g.all ys) = .ok n ↔
    ∃ d', grow d (g.all xs) = .ok d' ∧ grow d' (g.all ys) = .ok n
  build : ∀ {n : Node} {xs}, grow (.leaf g.empty) (g.all xs) = .ok n → g.build xs = .ok n.value
  accepts : ∀ {xs}, (∃ n, grow (.leaf g.empty) (g.all xs) = .ok n) ↔
    (∃ v, g.build xs = .ok v) ∧ ∀ n ∈ g.all xs, n.depth < maxDepth

section
variable {g : Growing α} {grow : Node → List Node → Except Cause Node} {below : List (Option Node)}
  {d : Node} {batches : List (Batch α)} {r : Except Cause Node}

/-- The opcode of a batch adds its members. -/
theorem Grows.batch (h : Grows g grow) {m : Machine} (batch : Batch α)
    (hm : m.shape = below ++ some d :: batch.above g) :
    Machine.Leaves below (grow d (g.all batch.members)) (m.exec (batch.opcode g)) := by
  cases batch with
  | one x =>
    have hall : g.all [x] = g.nodes x := List.flatMap_singleton _ _
    show Machine.Leaves below (grow d (g.all [x])) _
    rw [hall]
    exact h.one hm
  | many xs => exact h.many hm

/-- **However members are cut into batches**, adding these is adding all members at once. -/
theorem Course.eq_ok_iff (h : g.Course below d batches r) (hgrows : Grows g grow)
    (hd : grow d [] = .ok d) (n : Node) :
    r = .ok n ↔ grow d (g.all (batches.flatMap Batch.members)) = .ok n := by
  induction h with
  | done d =>
    show _ ↔ grow d [] = .ok n
    rw [hd]
  | @next d d' batch batches r m m' hm hexec hm' _ ih =>
    have hleaves := hgrows.batch batch hm
    rw [List.flatMap_cons, all_append, hgrows.append]
    cases hgrow : grow d (g.all batch.members) with
    | error cause => nomatch hexec.symm.trans (hleaves.error cause hgrow)
    | ok d₁ =>
      obtain ⟨m₁, hexec₁, hm₁⟩ := hleaves.ok d₁ hgrow
      obtain rfl := Except.ok.inj (hexec.symm.trans hexec₁)
      have hsame : below ++ [some d'] = below ++ [some d₁] := hm'.symm.trans hm₁
      obtain rfl := Option.some.inj (List.singleton_inj.mp (List.append_cancel_left hsame))
      rw [ih (hgrows.nil hgrow)]
      constructor
      · intro hrest
        exact ⟨d', rfl, hrest⟩
      · rintro ⟨d₂, heq, hrest⟩
        obtain rfl := Except.ok.inj heq
        exact hrest
  | @refused d batch batches cause m hm hexec =>
    have hleaves := hgrows.batch batch hm
    rw [List.flatMap_cons, all_append, hgrows.append]
    constructor
    · intro heq
      nomatch heq
    · rintro ⟨d', hgrow, -⟩
      obtain ⟨m', hexec', -⟩ := hleaves.ok d' hgrow
      nomatch hexec.symm.trans hexec'

/-- Batches can be added to any container, up to the first that is refused: each needs a machine
    that has it above the container, and there is one of every shape. -/
theorem Grows.exists_course (h : Grows g grow) (below : List (Option Node)) (d : Node)
    (batches : List (Batch α)) : ∃ r, g.Course below d batches r := by
  induction batches generalizing d with
  | nil => exact ⟨_, .done d⟩
  | cons batch batches ih =>
    have hm := Machine.shape_ofShape (below ++ some d :: batch.above g)
    have hleaves := h.batch batch hm
    cases hgrow : grow d (g.all batch.members) with
    | error cause => exact ⟨_, .refused hm (hleaves.error cause hgrow)⟩
    | ok d' =>
      obtain ⟨m', hexec, hm'⟩ := hleaves.ok d' hgrow
      obtain ⟨r, hcourse⟩ := ih d'
      exact ⟨r, .next hm hexec hm' hcourse⟩

/-- Where the opcodes grow a container by a function that adds parts as it adds the whole, the cut
    into batches makes no difference. -/
theorem Grows.agrees (h : Grows g grow) : g.Agrees where
  begins m := ⟨_, h.push m, Machine.shape_push⟩
  exists_course below batches := h.exists_course below _ batches
  eq_whole {below batches r m} hcourse hm := by
    have hleaves := h.whole hm
    have hiff := hcourse.eq_ok_iff h h.empty
    refine ⟨fun n hn => hleaves.ok n ((hiff n).mp hn), fun cause hcause => ?_⟩
    cases hgrow : grow (.leaf g.empty) (g.all (batches.flatMap Batch.members)) with
    | error cause' => exact ⟨cause', hleaves.error cause' hgrow⟩
    | ok n => nomatch hcause.symm.trans ((hiff n).mpr hgrow)
  eq_build hcourse := h.build ((hcourse.eq_ok_iff h h.empty _).mp rfl)
  accepted_iff hcourse := by
    rw [← h.accepts]
    exact exists_congr (hcourse.eq_ok_iff h h.empty)

end

end Growing

/-! ## Lists -/

namespace Node

/-- Two rows of nodes need the greater of the depths that they need by themselves. -/
theorem depthOver_append (xs ys : List Node) :
    depthOver (xs ++ ys) = max (depthOver xs) (depthOver ys) := by
  refine le_antisymm ?_ (max_le ?_ ?_)
  · rw [depthOver_le_iff]
    intro n hn
    rcases List.mem_append.mp hn with hn | hn
    · exact lt_max_of_lt_left (depth_lt_depthOver hn)
    · exact lt_max_of_lt_right (depth_lt_depthOver hn)
  · rw [depthOver_le_iff]
    exact fun n hn => depth_lt_depthOver (List.mem_append_left _ hn)
  · rw [depthOver_le_iff]
    exact fun n hn => depth_lt_depthOver (List.mem_append_right _ hn)

theorem sizeOver_append (xs ys : List Node) :
    sizeOver (xs ++ ys) = sizeOver xs + sizeOver ys := by
  rw [sizeOver_eq, sizeOver_eq, sizeOver_eq, List.map_append, List.sum_append]

theorem grown_grown (n : Node) (content content' : Content) (xs ys : List Node) :
    (n.grown content xs).grown content' ys = n.grown content' (xs ++ ys) := by
  unfold grown
  rw [depthOver_append, sizeOver_append, max_assoc, Nat.add_assoc]

theorem grown_nil (n : Node) : n.grown n.content [] = n := by
  show Node.mk n.content (max n.depth 0) (n.size + 0) = n
  rw [Nat.max_zero]
  rfl

/-- What grew further was not deeper before. -/
theorem depth_grown_le {n : Node} {content content' : Content} {xs ys : List Node} {k : Nat}
    (h : (n.grown content' (xs ++ ys)).depth ≤ k) : (n.grown content xs).depth ≤ k := by
  refine Nat.le_trans ?_ h
  show max n.depth (depthOver xs) ≤ max n.depth (depthOver (xs ++ ys))
  rw [depthOver_append]
  exact max_le_max_left _ (Nat.le_max_left _ _)

theorem values_append (xs ys : List Node) : values (xs ++ ys) = values xs ++ values ys :=
  List.map_append

/-- Adding items to a list in two parts is adding all of them; the depth of the list only grows, so
    the first part is not too deep if the whole is not. -/
theorem append_append {d n : Node} {xs ys : List Node} :
    d.append (xs ++ ys) = .ok n ↔ ∃ d', d.append xs = .ok d' ∧ d'.append ys = .ok n := by
  have hreverse : ∀ reversed : List Value, (values (xs ++ ys)).reverse ++ reversed =
      (values ys).reverse ++ ((values xs).reverse ++ reversed) := by
    intro reversed
    rw [values_append, List.reverse_append, List.append_assoc]
  simp only [append_eq_ok_iff]
  constructor
  · rintro ⟨reversed, hlist, rfl, hdepth⟩
    refine ⟨_, ⟨reversed, hlist, rfl, depth_grown_le hdepth⟩, _, rfl, ?_, hdepth⟩
    rw [grown_grown, hreverse]
  · rintro ⟨_, ⟨reversed, hlist, rfl, -⟩, _, hlist', rfl, hdepth⟩
    obtain rfl := Content.list.inj hlist'
    rw [grown_grown, ← hreverse] at hdepth ⊢
    exact ⟨reversed, hlist, rfl, hdepth⟩

/-- Adding nothing to a list that was made leaves it as it is. -/
theorem append_nil {d n : Node} {items : List Node} (h : d.append items = .ok n) :
    n.append [] = .ok n := by
  obtain ⟨reversed, -, rfl, hdepth⟩ := append_eq_ok_iff.mp h
  refine append_eq_ok_iff.mpr ⟨_, rfl, ?_, hdepth⟩
  exact (grown_nil _).symm

/-- A list is made of its items as they are added to an empty one. -/
theorem append_empty (items : List Node) :
    (leaf (.list [])).append items = sequence .list items := by
  show checked ⟨.list ((values items).reverse ++ []), max 0 (depthOver items), _⟩ = _
  rw [List.append_nil, Nat.zero_max]
  rfl

/-! ## Dictionaries -/

theorem pairUp_append {vs : List Value} (h : vs.length % 2 ≠ 1) (ws : List Value) :
    pairUp (vs ++ ws) = pairUp vs ++ pairUp ws := by
  have happend := pairUp_members_append (pairUp vs) ws
  rwa [members_pairUp h] at happend

/-- Adding keys and values to a dictionary in two parts is adding all of them, if the first part
    does not end between a key and its value. -/
theorem setItems_append {d n : Node} {xs ys : List Node} (heven : xs.length % 2 ≠ 1) :
    d.setItems (xs ++ ys) = .ok n ↔ ∃ d', d.setItems xs = .ok d' ∧ d'.setItems ys = .ok n := by
  have hvalues : (values xs).length % 2 ≠ 1 := by rwa [values, List.length_map]
  have hpairs : pairUp (values (xs ++ ys)) = pairUp (values xs) ++ pairUp (values ys) := by
    rw [values_append, pairUp_append hvalues]
  have hkeys : (Value.dict (pairUp (values (xs ++ ys)))).KeysHashable ↔
      (Value.dict (pairUp (values xs))).KeysHashable ∧
        (Value.dict (pairUp (values ys))).KeysHashable := by
    rw [hpairs]
    exact List.forall_mem_append
  have hinsert : ∀ entries, Value.insertEach entries (pairUp (values (xs ++ ys))) =
      Value.insertEach (Value.insertEach entries (pairUp (values xs))) (pairUp (values ys)) := by
    intro entries
    rw [hpairs]
    exact List.foldl_append
  simp only [setItems_eq_ok_iff, hkeys, hinsert]
  constructor
  · rintro ⟨reversed, reversed', hdict, ⟨hfirst, hsecond⟩, hentries, rfl, hdepth⟩
    refine ⟨_, ⟨reversed, (Value.insertEach reversed.reverse (pairUp (values xs))).reverse, hdict,
      hfirst, List.reverse_reverse _, rfl, depth_grown_le hdepth⟩, _, reversed', rfl, hsecond, ?_,
      ?_, hdepth⟩
    · rw [List.reverse_reverse, hentries]
    · rw [grown_grown]
  · rintro ⟨_, ⟨reversed, between, hdict, hfirst, hbetween, rfl, -⟩, _, reversed', hdict', hsecond,
      hentries, rfl, hdepth⟩
    obtain rfl := Content.dict.inj hdict'
    rw [hbetween] at hentries
    rw [grown_grown] at hdepth ⊢
    exact ⟨reversed, reversed', hdict, ⟨hfirst, hsecond⟩, hentries, rfl, hdepth⟩

/-- Adding nothing to a dictionary that was made leaves it as it is. -/
theorem setItems_nil {d n : Node} {items : List Node} (h : d.setItems items = .ok n) :
    n.setItems [] = .ok n := by
  obtain ⟨reversed, reversed', -, -, -, rfl, hdepth⟩ := setItems_eq_ok_iff.mp h
  refine setItems_eq_ok_iff.mpr ⟨reversed', reversed', rfl, nofun, rfl, ?_, hdepth⟩
  exact (grown_nil _).symm

/-- The keys and values of members come in pairs. -/
theorem length_all_dicts (ps : List (Node × Node)) : (dicts.all ps).length % 2 ≠ 1 := by
  induction ps with
  | nil => exact nofun
  | cons p ps ih =>
    show (p.1 :: p.2 :: dicts.all ps).length % 2 ≠ 1
    rw [List.length_cons, List.length_cons]
    omega

/-- The nodes of members, paired up, have the values of the members. -/
theorem pairUp_all_dicts (ps : List (Node × Node)) :
    pairUp (values (dicts.all ps)) = ps.map fun p => (p.1.value, p.2.value) := by
  have hvalues : values (dicts.all ps) =
      (Value.dict (ps.map fun p => (p.1.value, p.2.value))).members := by
    show List.map _ (ps.flatMap _) = List.flatMap _ (ps.map _)
    rw [List.map_flatMap, List.flatMap_map]
    rfl
  rw [hvalues, pairUp_members]

end Node

/-! ## Both -/

theorem all_lists (ns : List Node) : lists.all ns = ns := List.flatMap_singleton' ns

/-- The opcodes of lists add items by `Node.append`, which has what batches need: it can be cut
    anywhere, and of an empty list it makes what a list is made of at once. -/
theorem lists_grow : Growing.Grows lists Node.append where
  one {m below d x} hm := by
    have hlist : m.shape = (below ++ [some d]) ++ [some x] := hm.trans (List.append_cons _ _ _)
    obtain ⟨m', hpop, hm'⟩ := Machine.pop_of_shape hlist
    have hexec : m.exec .append = m'.replaceTop (·.append [x]) := by
      show (m.pop >>= _) = _
      rw [hpop]
      rfl
    show Machine.Leaves below (d.append [x]) (m.exec .append)
    rw [hexec]
    exact Machine.leaves_replaceTop hm' fun d => d.append [x]
  many {m below d xs} hm := by
    obtain ⟨m', hpop, hm'⟩ := Machine.popToMark_of_shape (hm.trans (List.append_cons _ _ _))
    have hexec : m.exec .appends = m'.replaceTop (·.append (lists.all xs)) := by
      show (m.popToMark >>= _) = _
      rw [hpop]
      rfl
    show Machine.Leaves below _ (m.exec .appends)
    rw [hexec]
    exact Machine.leaves_replaceTop hm' fun d => d.append (lists.all xs)
  whole {m below xs} hm := by
    show Machine.Leaves below ((Node.leaf (.list [])).append _) (m.gather (Node.sequence .list))
    rw [Node.append_empty]
    exact Machine.leaves_gather hm _
  push m := rfl
  empty := rfl
  nil := Node.append_nil
  append := Node.append_append
  build {n xs} h := by
    obtain ⟨rfl, -⟩ := Node.sequence_eq_ok_iff.mp ((Node.append_empty _).symm.trans h)
    show lists.build xs = .ok (Content.value (.ofValue (.list (Node.values (lists.all xs)))))
    rw [Content.value_ofValue, all_lists]
    rfl
  accepts {xs} := by
    show (∃ n, (Node.leaf (.list [])).append (lists.all xs) = .ok n) ↔ _
    rw [Node.append_empty, ← Node.depthOver_le_iff]
    constructor
    · rintro ⟨n, hn⟩
      obtain ⟨-, hdepth⟩ := Node.sequence_eq_ok_iff.mp hn
      exact ⟨⟨_, rfl⟩, hdepth⟩
    · rintro ⟨-, hdepth⟩
      exact ⟨_, Node.sequence_eq_ok_iff.mpr ⟨rfl, hdepth⟩⟩

/-- The opcodes of dictionaries add entries by `Node.setItems`, which can be cut between entries; of
    an empty dictionary it makes what is built of the keys and values. -/
theorem dicts_grow : Growing.Grows dicts Node.setItems where
  one {m below d p} hm := by
    have hlist : m.shape = ((below ++ [some d]) ++ [some p.1]) ++ [some p.2] := by
      rw [hm, List.append_assoc, List.append_assoc]
      rfl
    obtain ⟨m₁, hvalue, hm₁⟩ := Machine.pop_of_shape hlist
    obtain ⟨m', hkey, hm'⟩ := Machine.pop_of_shape hm₁
    have hexec : m.exec .setItem = m'.replaceTop (·.setItems [p.1, p.2]) := by
      show (m.pop >>= _) = _
      rw [hvalue]
      show (m₁.pop >>= _) = _
      rw [hkey]
      rfl
    show Machine.Leaves below (d.setItems [p.1, p.2]) (m.exec .setItem)
    rw [hexec]
    exact Machine.leaves_replaceTop hm' fun d => d.setItems [p.1, p.2]
  many {m below d ps} hm := by
    obtain ⟨m', hpop, hm'⟩ := Machine.popToMark_of_shape (hm.trans (List.append_cons _ _ _))
    have hpairs : Node.requirePairs (dicts.all ps) = .ok () :=
      Node.requirePairs_eq_ok_iff.mpr (Node.length_all_dicts ps)
    have hexec : m.exec .setItems = m'.replaceTop (·.setItems (dicts.all ps)) := by
      show (m.popToMark >>= _) = _
      rw [hpop]
      show (Node.requirePairs (dicts.all ps) >>= _) = _
      rw [hpairs]
      rfl
    show Machine.Leaves below _ (m.exec .setItems)
    rw [hexec]
    exact Machine.leaves_replaceTop hm' fun d => d.setItems (dicts.all ps)
  whole {m below ps} hm := by
    have hpairs : Node.requirePairs (dicts.all ps) = .ok () :=
      Node.requirePairs_eq_ok_iff.mpr (Node.length_all_dicts ps)
    have hdict : Node.dictOf (dicts.all ps) = (Node.leaf (.dict [])).setItems (dicts.all ps) := by
      rw [Node.dictOf, hpairs]
      rfl
    show Machine.Leaves below ((Node.leaf (.dict [])).setItems _) (m.gather Node.dictOf)
    rw [← hdict]
    exact Machine.leaves_gather hm _
  push m := rfl
  empty := rfl
  nil := Node.setItems_nil
  append {d n ps qs} := Node.setItems_append (Node.length_all_dicts ps)
  build {n ps} h := by
    obtain ⟨reversed, reversed', hdict, hkeys, hentries, rfl, -⟩ := Node.setItems_eq_ok_iff.mp h
    obtain rfl : [] = reversed := Content.dict.inj hdict
    rw [Node.pairUp_all_dicts] at hkeys hentries
    refine Value.ofPairs_eq_ok_iff.mpr ⟨hkeys, ?_⟩
    show Value.dict reversed'.reverse = _
    rw [hentries]
    rfl
  accepts {ps} := by
    show (∃ n, (Node.leaf (.dict [])).setItems (dicts.all ps) = .ok n) ↔ _
    rw [← Node.depthOver_le_iff]
    have hmax : max 0 (Node.depthOver (dicts.all ps)) = Node.depthOver (dicts.all ps) :=
      Nat.zero_max _
    constructor
    · rintro ⟨n, hn⟩
      obtain ⟨_, _, -, hkeys, -, rfl, hdepth⟩ := Node.setItems_eq_ok_iff.mp hn
      rw [Node.pairUp_all_dicts] at hkeys
      exact ⟨⟨_, Value.ofPairs_eq_ok_iff.mpr ⟨hkeys, rfl⟩⟩, hmax.symm.le.trans hdepth⟩
    · rintro ⟨⟨v, hv⟩, hdepth⟩
      obtain ⟨hkeys, -⟩ := Value.ofPairs_eq_ok_iff.mp hv
      rw [← Node.pairUp_all_dicts] at hkeys
      exact ⟨_, Node.setItems_eq_ok_iff.mpr
        ⟨[], _, rfl, hkeys, List.reverse_reverse _, rfl, hmax.le.trans hdepth⟩⟩

/-- **Batches make no difference**, neither to dictionaries nor to lists: of the same members the
    same comes, and it is what is built of their values.  In a dictionary a key keeps its first
    place and has its last value. -/
theorem batches_agree : dicts.Agrees ∧ lists.Agrees ∧
    ∀ pairs v, Value.ofPairs pairs = .ok v ↔
      (Value.dict pairs).KeysHashable ∧ v = .dict (Value.settled pairs) :=
  ⟨dicts_grow.agrees, lists_grow.agrees, fun _ _ => Value.ofPairs_eq_ok_iff_settled⟩

end SealedStore.Pickle
