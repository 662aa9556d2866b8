/-
  What a machine knows while it builds values.

  A list of known values says what each id stands for, the ids being given out in order: a
  completed value, or a container that is still open.  `Machine.Agrees` says that the memo of a
  machine agrees with such a list.  A completed value may still lie on the stack, and is kept when
  it is taken off; so nothing that happens above the open containers makes a machine disagree.
-/
import SealedStore.Proofs.Pickle.Emission
import SealedStore.Proofs.Pickle.Exact
import SealedStore.Proofs.Pickle.Machine

namespace SealedStore.Pickle

namespace Machine

/-- An id stands for a value, be it kept or remembered by its place on the stack. -/
def Stands (m : Machine) (id : Nat) (v : Value) : Prop :=
  m.memo[id]? = some (.frozen (.exact v)) ∨
    ∃ height ids, m.memo[id]? = some (.live height) ∧ id ∈ ids ∧
      m.stack[height]? = some (.node (.exact v) ids)

/-- The ids of a machine are those known, and the completed ones stand for their values. -/
structure Agrees (known : Known) (m : Machine) : Prop where
  size : m.memo.size = known.length
  fresh : ∀ id, known.length ≤ id → m.memo[id]? = none
  stands : ∀ id v, known[id]? = some (some v) → m.Stands id v

/-- A machine goes on to another that agrees with what is then known.  What is remembered by a
    place below a height is still so. -/
structure Advances (m : Machine) (height copied : Nat) (known : Known) (m' : Machine) : Prop where
  shared : m'.shared = m.shared + copied
  keeps : ∀ (id h : Nat), h < height → m.memo[id]? = some (.live h) → m'.memo[id]? = some (.live h)
  agrees : Agrees known m'

variable {m m' m'' : Machine} {known known' : Known} {id height copied copied' : Nat} {v : Value}
  {n : Node} {below : Array Item} {ids : List Nat}

/-! ## Ids of completed values -/

theorem Stands.lookup (h : m.Stands id v) : m.lookup id = .ok (.exact v) := by
  rcases h with hfrozen | ⟨height, ids, hlive, -, hnode⟩
  · exact lookup_eq_ok_iff.mpr (.inl hfrozen)
  · exact lookup_eq_ok_iff.mpr (.inr ⟨height, ids, hlive, hnode⟩)

/-- Only the item that is remembered by its place matters. -/
theorem Stands.of_stack (h : m.Stands id v) (hmemo : m'.memo = m.memo)
    (hstack : ∀ (height : Nat) n ids, id ∈ ids → m.stack[height]? = some (.node n ids) →
      m'.stack[height]? = some (.node n ids)) : m'.Stands id v := by
  rcases h with hfrozen | ⟨height, ids, hlive, hid, hnode⟩
  · exact .inl (by rw [hmemo, hfrozen])
  · exact .inr ⟨height, ids, by rw [hmemo, hlive], hid, hstack height _ ids hid hnode⟩

/-- **A completed value that is taken off the stack is kept.** -/
theorem Stands.without (h : m.Stands id v) (hstack : m.stack = below.push (.node n ids)) :
    (m.without below n ids).Stands id v := by
  have hmemo : (m.without below n ids).memo[id]? =
      if id ∈ ids then m.memo[id]?.map (Entry.settle below.size n) else m.memo[id]? :=
    Memo.getElem?_freezeAll below.size n m.memo ids id
  rcases h with hfrozen | ⟨height, ids', hlive, hid, hnode⟩
  · rw [hfrozen, Option.map_some, Entry.settle, ite_self] at hmemo
    exact .inl hmemo
  · rw [hlive, Option.map_some, Entry.settle] at hmemo
    rw [hstack, Array.getElem?_push] at hnode
    -- the value itself may be the one that is taken off, with all its ids
    by_cases hheight : height = below.size
    · rw [if_pos hheight] at hmemo hnode
      obtain ⟨rfl, rfl⟩ := Item.node.inj (Option.some.inj hnode)
      rw [if_pos hid] at hmemo
      exact .inl hmemo
    · rw [if_neg hheight] at hmemo hnode
      rw [ite_self] at hmemo
      exact .inr ⟨height, ids', hmemo, hid, hnode⟩

/-! ## Agreement -/

theorem agrees_start : Agrees [] start where
  size := Std.TreeMap.size_emptyc
  fresh _ _ := Std.TreeMap.getElem?_emptyc
  stands _ _ h := nomatch h

/-- Only the items with an id of a completed value matter. -/
theorem Agrees.of_stack (h : Agrees known m) (hmemo : m'.memo = m.memo)
    (hstack : ∀ (id : Nat) v (height : Nat) n ids, known[id]? = some (some v) → id ∈ ids →
      m.stack[height]? = some (.node n ids) → m'.stack[height]? = some (.node n ids)) :
    Agrees known m' where
  size := by rw [hmemo, h.size]
  fresh id hid := by rw [hmemo, h.fresh id hid]
  stands id v hv := (h.stands id v hv).of_stack hmemo fun height n ids =>
    hstack id v height n ids hv

/-- A push changes nothing that is known. -/
theorem Agrees.of_push (h : Agrees known m) (hmemo : m'.memo = m.memo) {x : Item}
    (hstack : m'.stack = m.stack.push x) : Agrees known m' := by
  refine h.of_stack hmemo fun id v height n ids _ _ hnode => ?_
  have hlt := (Array.getElem?_eq_some_iff.mp hnode).1
  rw [hstack, Array.getElem?_push, if_neg (Nat.ne_of_lt hlt), hnode]

theorem Agrees.drop (h : Agrees known m) (hstack : m.stack = below.push .mark) :
    Agrees known { m with stack := below } := by
  refine h.of_stack rfl fun id v height n ids _ _ hnode => ?_
  rw [hstack, Array.getElem?_push] at hnode
  split at hnode
  · nomatch hnode
  · exact hnode

theorem Agrees.without (h : Agrees known m) (hstack : m.stack = below.push (.node n ids)) :
    Agrees known (m.without below n ids) where
  size := (Memo.size_freezeAll below.size n m.memo ids).trans h.size
  fresh id hid := by
    refine (Memo.getElem?_freezeAll below.size n m.memo ids id).trans ?_
    rw [h.fresh id hid, Option.map_none, ite_self]
  stands id v hv := (h.stands id v hv).without hstack

/-- An open container changes, which no completed value is remembered by. -/
theorem Agrees.replace (h : Agrees known m) (hstack : m.stack = below.push (.node n ids))
    (hopen : ∀ id ∈ ids, known[id]? = some none) (n' : Node) :
    Agrees known { m with stack := below.push (.node n' ids) } := by
  refine h.of_stack rfl fun id v height n₁ ids₁ hv hid hnode => ?_
  rw [hstack, Array.getElem?_push] at hnode
  by_cases hheight : height = below.size
  · rw [if_pos hheight] at hnode
    obtain ⟨rfl, rfl⟩ := Item.node.inj (Option.some.inj hnode)
    -- the ids on the open container are not those of completed values
    rw [hopen id hid] at hv
    nomatch Option.some.inj hv
  · rw [if_neg hheight] at hnode
    show (below.push _)[height]? = _
    rw [Array.getElem?_push, if_neg hheight, hnode]

/-! ## New ids -/

/-- The next id is remembered as whatever it stands for. -/
theorem Agrees.insert (h : Agrees known m) (entry : Entry) (value : Option Value)
    (hmemo : m'.memo = m.memo.insert known.length entry)
    (hold : ∀ (height : Nat) n ids, m.stack[height]? = some (.node n ids) →
      ∃ ids', ids ⊆ ids' ∧ m'.stack[height]? = some (.node n ids'))
    (hnew : ∀ v, value = some v → m'.Stands known.length v) : Agrees (known ++ [value]) m' where
  size := by
    have hfresh : m.memo.contains known.length = false := by
      rw [Std.TreeMap.contains_eq_isSome_getElem?, h.fresh _ (Nat.le_refl _)]
      rfl
    rw [hmemo, Std.TreeMap.size_insert, if_neg (by rw [hfresh]; exact Bool.false_ne_true), h.size,
      List.length_append]
    rfl
  fresh id hid := by
    rw [List.length_append, List.length_singleton] at hid
    rw [hmemo, Memo.getElem?_insert, if_neg (by omega), h.fresh id (by omega)]
  stands id v hv := by
    by_cases hid : id = known.length
    · subst hid
      rw [List.getElem?_concat_length] at hv
      exact hnew v (Option.some.inj hv)
    · have hlt : id < known.length := by
        have := (List.getElem?_eq_some_iff.mp hv).1
        rw [List.length_append, List.length_singleton] at this
        omega
      rw [List.getElem?_append_left hlt] at hv
      have hsame : m'.memo[id]? = m.memo[id]? := by rw [hmemo, Memo.getElem?_insert, if_neg hid]
      rcases h.stands id v hv with hfrozen | ⟨height, ids, hlive, hmem, hnode⟩
      · exact .inl (hsame.trans hfrozen)
      · obtain ⟨ids', hsub, hnode'⟩ := hold height _ ids hnode
        exact .inr ⟨height, ids', hsame.trans hlive, hsub hmem, hnode'⟩

/-- **An open container is completed.** -/
theorem Agrees.complete {rest : Known} (h : Agrees (known ++ none :: rest) m)
    (hv : m.Stands known.length v) : Agrees (known ++ some v :: rest) m where
  size := by rw [h.size, List.length_append, List.length_append, List.length_cons, List.length_cons]
  fresh id hid := by
    refine h.fresh id ?_
    rw [List.length_append, List.length_cons] at hid ⊢
    exact hid
  stands id w hw := by
    by_cases hid : id = known.length
    · subst hid
      rw [List.getElem?_append_right (Nat.le_refl _), Nat.sub_self] at hw
      obtain rfl := Option.some.inj (Option.some.inj hw)
      exact hv
    · refine h.stands id w ?_
      -- all other ids stand for what they stood for
      have hset : known ++ none :: rest = (known ++ some v :: rest).set known.length none := by
        rw [List.set_append_right _ _ (Nat.le_refl _), Nat.sub_self, List.set_cons_zero]
      rw [hset, List.getElem?_set_ne (Ne.symm hid), hw]

/-! ## Going on -/

theorem Advances.trans (h : m.Advances height copied known m')
    (h' : m'.Advances height copied' known' m'') :
    m.Advances height (copied + copied') known' m'' where
  shared := by rw [h'.shared, h.shared, Nat.add_assoc]
  keeps id k hk hlive := h'.keeps id k hk (h.keeps id k hk hlive)
  agrees := h'.agrees

theorem Advances.mono (h : m.Advances height copied known m') {height' : Nat}
    (hle : height' ≤ height) : m.Advances height' copied known m' where
  shared := h.shared
  keeps id k hk := h.keeps id k (Nat.lt_of_lt_of_le hk hle)
  agrees := h.agrees

/-- Nothing is forgotten where the memo stays the same. -/
theorem advances_of_memo (hmemo : m'.memo = m.memo) (hshared : m'.shared = m.shared + copied)
    (hagrees : Agrees known m') : m.Advances height copied known m' where
  shared := hshared
  keeps _ _ _ hlive := by rw [hmemo, hlive]
  agrees := hagrees

/-- A new id hides none that is remembered. -/
theorem Agrees.advances_insert (h : Agrees known m) {entry : Entry} {value : Option Value}
    (hagrees : Agrees (known ++ [value]) m') (hmemo : m'.memo = m.memo.insert known.length entry)
    (hshared : m'.shared = m.shared) : m.Advances height 0 (known ++ [value]) m' where
  shared := hshared
  keeps id k _ hlive := by
    rw [hmemo, Memo.getElem?_insert, if_neg, hlive]
    rintro rfl
    rw [h.fresh _ (Nat.le_refl _)] at hlive
    nomatch hlive
  agrees := hagrees

/-- A value that nothing can be added to is remembered as completed. -/
theorem Agrees.advances_fixed (h : Agrees known m) (v : Value) :
    m.Advances height 0 (known ++ [some v])
      { m with memo := m.memo.insert known.length (.frozen (.exact v)) } := by
  refine h.advances_insert (h.insert _ (some v) rfl ?_ ?_) rfl rfl
  · exact fun _ _ ids hnode => ⟨ids, List.Subset.refl _, hnode⟩
  · intro w hw
    obtain rfl := Option.some.inj hw
    exact .inl ((Memo.getElem?_insert _ _ _ _).trans (if_pos rfl))

/-- A container is remembered as open, by its place. -/
theorem Agrees.advances_open (h : Agrees known m) (hstack : m.stack = below.push (.node n [])) :
    m.Advances height 0 (known ++ [none]) ⟨below.push (.node n [known.length]),
      m.memo.insert known.length (.live below.size), m.shared⟩ := by
  refine h.advances_insert (h.insert _ none rfl ?_ nofun) rfl rfl
  intro height n' ids hnode
  rw [hstack, Array.getElem?_push] at hnode
  rw [Array.getElem?_push]
  by_cases hheight : height = below.size
  · rw [if_pos hheight] at hnode ⊢
    obtain ⟨rfl, rfl⟩ := Item.node.inj (Option.some.inj hnode)
    exact ⟨[known.length], List.nil_subset _, rfl⟩
  · rw [if_neg hheight] at hnode ⊢
    exact ⟨ids, List.Subset.refl _, hnode⟩

theorem advances_without (h : Agrees known m) (hstack : m.stack = below.push (.node n ids)) :
    m.Advances below.size 0 known (m.without below n ids) where
  shared := rfl
  keeps id k hk hlive := by
    refine (Memo.getElem?_freezeAll below.size n m.memo ids id).trans ?_
    rw [hlive, Option.map_some, Entry.settle, if_neg (Nat.ne_of_lt hk), ite_self]
  agrees := h.without hstack

/-! ## Values on the stack -/

/-- The exact nodes of values, the lowest first, lie on other items. -/
inductive Stacked (below : Array Item) : List Value → Array Item → Prop
  | nil : Stacked below [] below
  | snoc {vs stack} (v : Value) (ids : List Nat) :
      Stacked below vs stack → Stacked below (vs ++ [v]) (stack.push (.node (.exact v) ids))

theorem Stacked.cons {vs : List Value} {stack : Array Item}
    (h : Stacked (below.push (.node (.exact v) ids)) vs stack) : Stacked below (v :: vs) stack := by
  induction h with
  | nil => exact .snoc v ids .nil
  | snoc w ids' _ ih => exact .snoc w ids' ih

theorem Stacked.size_le {vs : List Value} {stack : Array Item} (h : Stacked below vs stack) :
    below.size ≤ stack.size := by
  induction h with
  | nil => exact Nat.le_refl _
  | snoc v ids _ ih =>
    rw [Array.size_push]
    exact Nat.le_succ_of_le ih

/-- **Values on the stack are taken off together**, which nothing below them notices. -/
theorem Stacked.takes {vs : List Value} (h : Stacked below vs m.stack) (hagrees : Agrees known m) :
    ∃ m', Takes m (vs.map .exact) m' ∧ m'.stack = below ∧ m.Advances below.size 0 known m' := by
  generalize hstack : m.stack = stack at h
  induction h generalizing m with
  | nil => exact ⟨m, .nil m, hstack, advances_of_memo rfl rfl hagrees⟩
  | @snoc vs stack v ids h ih =>
    have hstep := advances_without hagrees hstack
    -- the last value lies on top and goes first
    obtain ⟨m', htakes, hbelow, hadv⟩ := ih hstep.agrees rfl
    refine ⟨m', ?_, hbelow, (hstep.mono h.size_le).trans hadv⟩
    rw [List.map_append]
    exact .snoc (pop_eq_ok_iff.mpr ⟨stack, ids, hstack, rfl⟩) htakes

end Machine

end SealedStore.Pickle
