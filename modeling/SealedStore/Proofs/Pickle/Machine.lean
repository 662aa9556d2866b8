/-
  What the operations of the pickle machine do when they succeed.

  Taking a value off the stack settles its ids: the entries that stood for its place now hold the
  value (`getElem?_freezeAll`), and nothing else in the memo changes.  Every other operation is
  described by the shape of the stack before it.
-/
import Std.Data.TreeMap.Lemmas
import SealedStore.Pickle.Load
import SealedStore.Proofs.Codec.Reader

namespace SealedStore.Pickle

/-! ## The memo -/

/-- An entry once the value at a height is taken off. -/
def Entry.settle (height : Nat) (n : Node) : Entry → Entry
  | .live h => if h = height then .frozen n else .live h
  | .frozen n => .frozen n

theorem Entry.settle_settle (height : Nat) (n : Node) (e : Entry) :
    (e.settle height n).settle height n = e.settle height n := by
  cases e with
  | frozen n => rfl
  | live h => by_cases hh : h = height <;> simp [settle, hh]

namespace Memo

theorem getElem?_insert (memo : Memo) (id id' : Nat) (e : Entry) :
    (memo.insert id e)[id']? = if id' = id then some e else memo[id']? := by
  rw [Std.TreeMap.getElem?_insert]
  by_cases h : id' = id
  · rw [if_pos h, if_pos (Nat.compare_eq_eq.mpr h.symm)]
  · rw [if_neg h, if_neg fun hc => h (Nat.compare_eq_eq.mp hc).symm]

/-- Freezing an id settles its own entry, and no other. -/
theorem getElem?_freeze (height : Nat) (n : Node) (memo : Memo) (id id' : Nat) :
    (memo.freeze height n id)[id']? =
      if id' = id then memo[id']?.map (Entry.settle height n) else memo[id']? := by
  unfold freeze
  -- only the entry of `id` may change, and only if it stands for the place
  by_cases hid : id' = id
  · subst hid
    rw [if_pos rfl]
    split
    · next h hlive =>
      rw [hlive]
      split
      · next hh => rw [getElem?_insert, if_pos rfl, Option.map_some, Entry.settle, if_pos hh]
      · next hh => rw [hlive, Option.map_some, Entry.settle, if_neg hh]
    · next hother =>
      cases he : memo[id']? with
      | none => rfl
      | some e =>
        cases e with
        | frozen n => rfl
        | live h => exact absurd he (hother h)
  · rw [if_neg hid]
    split
    · split
      · rw [getElem?_insert, if_neg hid]
      · rfl
    · rfl

/-- **What a value that is taken off leaves in the memo.** -/
theorem getElem?_freezeAll (height : Nat) (n : Node) (memo : Memo) (ids : List Nat) (id' : Nat) :
    (ids.foldl (freeze height n) memo)[id']? =
      if id' ∈ ids then memo[id']?.map (Entry.settle height n) else memo[id']? := by
  induction ids generalizing memo with
  | nil => rfl
  | cons id ids ih =>
    rw [List.foldl_cons, ih, getElem?_freeze]
    by_cases hid : id' = id
    · subst hid
      rw [if_pos rfl, if_pos List.mem_cons_self, Option.map_map]
      split
      · exact congrArg (fun f => Option.map f memo[id']?) (funext (Entry.settle_settle height n))
      · rfl
    · have hmem : id' ∈ id :: ids ↔ id' ∈ ids := by rw [List.mem_cons, or_iff_right hid]
      rw [if_neg hid]
      simp only [hmem]

/-- Freezing forgets no id and adds none. -/
theorem size_freeze (height : Nat) (n : Node) (memo : Memo) (id : Nat) :
    (memo.freeze height n id).size = memo.size := by
  unfold freeze
  split
  · next h hlive =>
    split
    · rw [Std.TreeMap.size_insert, if_pos]
      rw [Std.TreeMap.contains_eq_isSome_getElem?, hlive]
      rfl
    · rfl
  · rfl

/-- Taking a value off forgets no id and adds none. -/
theorem size_freezeAll (height : Nat) (n : Node) (memo : Memo) (ids : List Nat) :
    (ids.foldl (freeze height n) memo).size = memo.size := by
  induction ids generalizing memo with
  | nil => rfl
  | cons id ids ih => rw [List.foldl_cons, ih, size_freeze]

end Memo

namespace Machine

variable {m m' : Machine} {n : Node}

/-! ## The top of the stack -/

theorem back?_push (below : Array Item) (x : Item) : (below.push x).back? = some x :=
  Array.back?_push

/-- The top is read where a value lies uppermost. -/
theorem top_eq_ok_iff :
    m.top = .ok n ↔
      ∃ (below : Array Item) (ids : List Nat), m.stack = below.push (.node n ids) := by
  unfold top
  constructor
  · intro h
    split at h
    · nomatch h
    · nomatch h
    · next n' ids hback =>
      obtain rfl := Except.ok.inj h
      obtain ⟨below, hstack⟩ := Array.back?_eq_some_iff.mp hback
      exact ⟨below, ids, hstack⟩
  · rintro ⟨below, ids, hstack⟩
    rw [hstack, back?_push]

/-- The machine without a value at a height, whose ids are settled. -/
def without (m : Machine) (below : Array Item) (n : Node) (ids : List Nat) : Machine :=
  ⟨below, ids.foldl (Memo.freeze below.size n) m.memo, m.shared⟩

theorem release_eq {below : Array Item} {ids : List Nat}
    (h : m.stack = below.push (.node n ids)) : m.release n ids = m.without below n ids := by
  unfold release without
  rw [h, Array.pop_push]

/-- A value is taken off where one lies uppermost, and its ids are settled. -/
theorem pop_eq_ok_iff :
    m.pop = .ok (n, m') ↔
      ∃ below ids, m.stack = below.push (.node n ids) ∧ m' = m.without below n ids := by
  unfold pop
  constructor
  · intro h
    split at h
    · nomatch h
    · nomatch h
    · next n' ids hback =>
      obtain ⟨below, hstack⟩ := Array.back?_eq_some_iff.mp hback
      rw [release_eq hstack] at h
      obtain ⟨rfl, rfl⟩ := Prod.mk.inj (Except.ok.inj h)
      exact ⟨below, ids, hstack, rfl⟩
  · rintro ⟨below, ids, hstack, rfl⟩
    have hback : m.stack.back? = some (.node n ids) := by rw [hstack, back?_push]
    simp only [hback, release_eq hstack]

theorem drop_eq {below : Array Item} {x : Item} (h : m.stack = below.push x) :
    m.drop = { m with stack := below } := by
  unfold drop
  rw [h, Array.pop_push]

/-- A mark is taken off without further ado, a value as ever. -/
theorem popItem_eq_ok_iff :
    m.popItem = .ok m' ↔
      (∃ below, m.stack = below.push .mark ∧ m' = { m with stack := below }) ∨
        ∃ n, m.pop = .ok (n, m') := by
  unfold popItem
  constructor
  · intro h
    split at h
    · nomatch h
    · next hback =>
      obtain ⟨below, hstack⟩ := Array.back?_eq_some_iff.mp hback
      rw [drop_eq hstack] at h
      exact .inl ⟨below, hstack, (Except.ok.inj h).symm⟩
    · next n ids hback =>
      obtain ⟨below, hstack⟩ := Array.back?_eq_some_iff.mp hback
      rw [release_eq hstack] at h
      exact .inr ⟨n, pop_eq_ok_iff.mpr ⟨below, ids, hstack, (Except.ok.inj h).symm⟩⟩
  · rintro (⟨below, hstack, rfl⟩ | ⟨n, hpop⟩)
    · have hback : m.stack.back? = some .mark := by rw [hstack, back?_push]
      simp only [hback, drop_eq hstack]
    · obtain ⟨below, ids, hstack, rfl⟩ := pop_eq_ok_iff.mp hpop
      have hback : m.stack.back? = some (.node n ids) := by rw [hstack, back?_push]
      simp only [hback, release_eq hstack]

/-- A value is changed where one lies uppermost, and keeps its ids. -/
theorem replaceTop_eq_ok_iff {change : Node → Except Cause Node} :
    m.replaceTop change = .ok m' ↔ ∃ (below : Array Item) (n n' : Node) (ids : List Nat),
      m.stack = below.push (.node n ids) ∧ change n = .ok n' ∧
        m' = { m with stack := below.push (.node n' ids) } := by
  unfold replaceTop
  constructor
  · intro h
    split at h
    · nomatch h
    · nomatch h
    · next n ids hback =>
      obtain ⟨below, hstack⟩ := Array.back?_eq_some_iff.mp hback
      obtain ⟨n', hchange, h⟩ := except_bind_eq_ok.mp h
      rw [hstack, Array.pop_push] at h
      exact ⟨below, n, n', ids, hstack, hchange, (Except.ok.inj h).symm⟩
  · rintro ⟨below, n, n', ids, hstack, hchange, rfl⟩
    have hback : m.stack.back? = some (.node n ids) := by rw [hstack, back?_push]
    simp only [hback]
    exact except_bind_eq_ok.mpr ⟨n', hchange, by rw [hstack, Array.pop_push]⟩

/-! ## Several values -/

/-- Values, the lowest first, are taken off one after the other. -/
inductive Takes : Machine → List Node → Machine → Prop where
  | nil (m : Machine) : Takes m [] m
  | snoc {m m' m'' : Machine} {n : Node} {ns : List Node} :
      m.pop = .ok (n, m') → Takes m' ns m'' → Takes m (ns ++ [n]) m''

theorem takes_nil_iff : Takes m [] m' ↔ m' = m := by
  constructor
  · intro h
    generalize hitems : ([] : List Node) = items at h
    cases h with
    | nil => rfl
    | snoc _ _ => nomatch List.append_ne_nil_of_right_ne_nil _ (List.cons_ne_nil _ _) hitems.symm
  · rintro rfl
    exact .nil m'

/-- The last of several values is taken off first. -/
theorem takes_snoc_iff {ns : List Node} :
    Takes m (ns ++ [n]) m' ↔ ∃ m₁, m.pop = .ok (n, m₁) ∧ Takes m₁ ns m' := by
  constructor
  · intro h
    generalize hitems : ns ++ [n] = items at h
    cases h with
    | nil => exact absurd hitems (List.append_ne_nil_of_right_ne_nil _ (List.cons_ne_nil _ _))
    | snoc hpop htakes =>
      obtain ⟨rfl, hn⟩ := List.append_inj' hitems rfl
      obtain rfl := List.singleton_inj.mp hn
      exact ⟨_, hpop, htakes⟩
  · rintro ⟨m₁, hpop, htakes⟩
    exact .snoc hpop htakes

/-- So many values are taken off and put in front of those that were taken off before. -/
theorem popOnto_eq_ok_iff {k : Nat} {above items : List Node} :
    m.popOnto k above = .ok (items, m') ↔
      ∃ ns, ns.length = k ∧ items = ns ++ above ∧ Takes m ns m' := by
  induction k generalizing m above with
  | zero =>
    constructor
    · intro h
      obtain ⟨rfl, rfl⟩ := Prod.mk.inj (Except.ok.inj h)
      exact ⟨[], rfl, rfl, .nil _⟩
    · rintro ⟨ns, hlen, rfl, htakes⟩
      cases htakes with
      | nil => rfl
      | snoc _ _ => rw [List.length_append] at hlen; nomatch hlen
  | succ k ih =>
    rw [popOnto, except_bind_eq_ok]
    constructor
    · rintro ⟨⟨n, m₁⟩, hpop, h⟩
      obtain ⟨ns, rfl, rfl, htakes⟩ := ih.mp h
      exact ⟨ns ++ [n], List.length_append, List.append_cons _ _ _, .snoc hpop htakes⟩
    · rintro ⟨ns, hlen, rfl, htakes⟩
      cases htakes with
      | nil => nomatch hlen
      | snoc hpop htakes =>
        rw [List.length_append] at hlen
        exact ⟨_, hpop, ih.mpr ⟨_, Nat.succ.inj hlen, List.append_assoc _ _ _, htakes⟩⟩

/-- The stack is lower by what was taken off. -/
theorem Takes.size_eq {ns : List Node} (h : Takes m ns m') :
    m.stack.size = m'.stack.size + ns.length := by
  induction h with
  | nil => rfl
  | snoc hpop _ ih =>
    obtain ⟨below, ids, hstack, rfl⟩ := pop_eq_ok_iff.mp hpop
    rw [hstack, Array.size_push, List.length_append]
    show below.size + 1 = _
    rw [show below.size = _ from ih]
    exact Nat.add_assoc _ _ _

/-- The values above the uppermost mark are taken off and then the mark, which is looked for no
    further down than a height. -/
theorem popAbove_eq_ok_iff {height : Nat} {above items : List Node} :
    m.popAbove height above = .ok (items, m') ↔
      ∃ ns m₁ below, ns.length < height ∧ items = ns ++ above ∧ Takes m ns m₁ ∧
        m₁.stack = below.push .mark ∧ m' = { m₁ with stack := below } := by
  induction height generalizing m above with
  | zero =>
    constructor
    · intro h; nomatch h
    · rintro ⟨ns, m₁, below, hlen, -⟩
      exact absurd hlen (Nat.not_lt_zero _)
  | succ height ih =>
    unfold popAbove
    constructor
    · intro h
      split at h
      · nomatch h
      · next hback =>
        obtain ⟨below, hstack⟩ := Array.back?_eq_some_iff.mp hback
        rw [drop_eq hstack] at h
        obtain ⟨rfl, rfl⟩ := Prod.mk.inj (Except.ok.inj h)
        exact ⟨[], m, below, Nat.succ_pos _, rfl, .nil _, hstack, rfl⟩
      · next n ids hback =>
        obtain ⟨below, hstack⟩ := Array.back?_eq_some_iff.mp hback
        rw [release_eq hstack] at h
        obtain ⟨ns, m₁, rest, hlen, rfl, htakes, hmark, rfl⟩ := ih.mp h
        refine ⟨ns ++ [n], m₁, rest, ?_, List.append_cons _ _ _,
          .snoc (pop_eq_ok_iff.mpr ⟨below, ids, hstack, rfl⟩) htakes, hmark, rfl⟩
        rw [List.length_append]
        exact Nat.succ_lt_succ hlen
    · rintro ⟨ns, m₁, rest, hlen, rfl, htakes, hmark, rfl⟩
      cases htakes with
      | nil =>
        have hback : m.stack.back? = some .mark := by rw [hmark, back?_push]
        simp only [hback, drop_eq hmark, List.nil_append]
      | @snoc _ _ _ n ns hpop htakes =>
        obtain ⟨below, ids, hstack, rfl⟩ := pop_eq_ok_iff.mp hpop
        rw [List.length_append] at hlen
        have hback : m.stack.back? = some (.node n ids) := by rw [hstack, back?_push]
        simp only [hback, release_eq hstack]
        exact ih.mpr ⟨_, m₁, rest, Nat.lt_of_succ_lt_succ hlen, List.append_assoc _ _ _, htakes,
          hmark, rfl⟩

/-- **What lies above the uppermost mark** is taken off with it. -/
theorem popToMark_eq_ok_iff {items : List Node} :
    m.popToMark = .ok (items, m') ↔ ∃ m₁ below, Takes m items m₁ ∧ m₁.stack = below.push .mark ∧
      m' = { m₁ with stack := below } := by
  unfold popToMark
  rw [popAbove_eq_ok_iff]
  constructor
  · rintro ⟨ns, m₁, below, -, rfl, htakes, hmark, rfl⟩
    exact ⟨m₁, below, by rwa [List.append_nil], hmark, rfl⟩
  · rintro ⟨m₁, below, htakes, hmark, rfl⟩
    refine ⟨items, m₁, below, ?_, (List.append_nil _).symm, htakes, hmark, rfl⟩
    -- below the values lies the mark, so the stack is high enough
    rw [htakes.size_eq, hmark, Array.size_push]
    omega

/-! ## Copies -/

/-- A copy is counted while there is room for it. -/
theorem charge_eq_ok_iff {size : Nat} :
    m.charge size = .ok m' ↔
      m.shared + size ≤ maxShared ∧ m' = { m with shared := m.shared + size } := by
  unfold charge
  constructor
  · intro h
    split at h
    · nomatch h
    · next hle => exact ⟨Nat.not_lt.mp hle, (Except.ok.inj h).symm⟩
  · rintro ⟨hle, rfl⟩
    exact if_neg (Nat.not_lt.mpr hle)

/-- An id is looked up where it holds a value, or stands for a place where one lies. -/
theorem lookup_eq_ok_iff {id : Nat} :
    m.lookup id = .ok n ↔ m.memo[id]? = some (.frozen n) ∨
      ∃ height ids, m.memo[id]? = some (.live height) ∧ m.stack[height]? = some (.node n ids) := by
  unfold lookup
  constructor
  · intro h
    split at h
    · nomatch h
    · next hfrozen =>
      obtain rfl := Except.ok.inj h
      exact .inl hfrozen
    · next height hlive =>
      split at h
      · next ids hnode =>
        obtain rfl := Except.ok.inj h
        exact .inr ⟨height, ids, hlive, hnode⟩
      · nomatch h
  · rintro (hfrozen | ⟨height, ids, hlive, hnode⟩)
    · simp only [hfrozen]
    · simp only [hlive, hnode]

/-- A value that nothing can be added to is remembered as it is. -/
theorem remember_of_fixed {below : Array Item} {ids : List Nat} {v : Value}
    (hstack : m.stack = below.push (.node n ids)) (hn : n.content = .fixed v) (id : Nat) :
    m.remember id = .ok { m with memo := m.memo.insert id (.frozen n) } := by
  have hback : m.stack.back? = some (.node n ids) := by rw [hstack, back?_push]
  unfold remember
  simp only [hback, hn]

/-- A list or a dictionary is remembered by its place. -/
theorem remember_of_open {below : Array Item} {ids : List Nat}
    (hstack : m.stack = below.push (.node n ids)) (hn : ∀ v, n.content ≠ .fixed v) (id : Nat) :
    m.remember id = .ok ⟨below.push (.node n (id :: ids)),
      m.memo.insert id (.live below.size), m.shared⟩ := by
  have hback : m.stack.back? = some (.node n ids) := by rw [hstack, back?_push]
  unfold remember
  simp only [hback]
  cases hc : n.content with
  | fixed v => exact absurd hc (hn v)
  | list reversed => simp only [hstack, Array.pop_push]
  | dict reversed => simp only [hstack, Array.pop_push]

theorem exists_top_of_remember {id : Nat} (h : m.remember id = .ok m') :
    ∃ (below : Array Item) (n : Node) (ids : List Nat), m.stack = below.push (.node n ids) := by
  unfold remember at h
  split at h
  · nomatch h
  · nomatch h
  · next n ids hback =>
    obtain ⟨below, hstack⟩ := Array.back?_eq_some_iff.mp hback
    exact ⟨below, n, ids, hstack⟩

/-- The next id is given to the top while there are ids left. -/
theorem memoize_eq_ok_iff :
    m.exec .memoize = .ok m' ↔ m.memo.size < memoIds ∧ m.remember m.memo.size = .ok m' := by
  show (if m.memo.size < memoIds then m.remember m.memo.size else .error .memoFull) = _ ↔ _
  split
  · next hfree => exact (and_iff_right hfree).symm
  · next hfull => exact ⟨fun h => (nomatch h), fun h => absurd h.1 hfull⟩

end Machine

end SealedStore.Pickle
