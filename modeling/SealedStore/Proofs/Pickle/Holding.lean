/-
  What a machine holds.

  Nodes lie on the stack, and those that were taken off after they had been remembered are in the
  memo.  Operations move nodes between the two and hand them out.  A node that is held after an
  operation was held before, unless the operation has put it there, whatever the memo makes of it:
  so a property that all nodes have is kept without a look at stack and memo.
-/
import SealedStore.Proofs.Pickle.Machine

namespace SealedStore.Pickle.Machine

/-- The node lies on the stack, or is what was taken off and remembered. -/
inductive Has (m : Machine) (n : Node) : Prop
  | stack {ids : List Nat} : .node n ids ∈ m.stack → Has m n
  | memo {id : Nat} : m.memo[id]? = some (.frozen n) → Has m n

variable {m m' : Machine} {n k : Node} {items : List Node}

theorem not_has_start : ¬ start.Has n := by
  rintro (hmem | hfrozen)
  · nomatch Array.not_mem_empty _ hmem
  · rw [show start.memo = ∅ from rfl, Std.TreeMap.getElem?_emptyc] at hfrozen
    nomatch hfrozen

theorem has_of_top (h : m.top = .ok n) : m.Has n := by
  obtain ⟨below, ids, hstack⟩ := top_eq_ok_iff.mp h
  exact .stack (hstack ▸ Array.mem_push_self)

theorem has_of_lookup {id : Nat} (h : m.lookup id = .ok n) : m.Has n := by
  rcases lookup_eq_ok_iff.mp h with hfrozen | ⟨height, ids, -, hnode⟩
  · exact .memo hfrozen
  · exact .stack (Array.mem_of_getElem? hnode)

/-- **A node that is taken off was held**, and all that are held afterwards were. -/
theorem has_of_pop (h : m.pop = .ok (n, m')) : m.Has n ∧ ∀ k, m'.Has k → m.Has k := by
  obtain ⟨below, ids, hstack, rfl⟩ := pop_eq_ok_iff.mp h
  have htop : m.Has n := .stack (hstack ▸ Array.mem_push_self)
  refine ⟨htop, ?_⟩
  rintro k (hmem | @⟨id, hfrozen⟩)
  · exact .stack (hstack ▸ Array.mem_push_of_mem _ hmem)
  · rw [show (m.without below n ids).memo = ids.foldl (Memo.freeze below.size n) m.memo from rfl,
      Memo.getElem?_freezeAll] at hfrozen
    -- an entry that changed holds the node that was taken off
    split at hfrozen
    · obtain ⟨e, he, hsettle⟩ := Option.map_eq_some_iff.mp hfrozen
      cases e with
      | frozen n' =>
        obtain rfl := Entry.frozen.inj hsettle
        exact .memo he
      | live height =>
        rw [Entry.settle] at hsettle
        split at hsettle
        · obtain rfl := Entry.frozen.inj hsettle
          exact htop
        · cases hsettle
    · exact .memo hfrozen

/-- What is taken off was held, and nothing else comes to be held. -/
theorem has_of_takes (h : Takes m items m') :
    (∀ n ∈ items, m.Has n) ∧ ∀ k, m'.Has k → m.Has k := by
  induction h with
  | nil => exact ⟨nofun, fun _ hk => hk⟩
  | snoc hpop _ ih =>
    obtain ⟨hn, hkept⟩ := has_of_pop hpop
    refine ⟨?_, fun k hk => hkept k (ih.2 k hk)⟩
    intro k hk
    rcases List.mem_append.mp hk with hk | hk
    · exact hkept k (ih.1 k hk)
    · rwa [List.mem_singleton.mp hk]

theorem has_of_popToMark (h : m.popToMark = .ok (items, m')) :
    (∀ n ∈ items, m.Has n) ∧ ∀ k, m'.Has k → m.Has k := by
  obtain ⟨m₁, below, htakes, hmark, rfl⟩ := popToMark_eq_ok_iff.mp h
  obtain ⟨hitems, hkept⟩ := has_of_takes htakes
  refine ⟨hitems, fun k hk => hkept k ?_⟩
  rcases hk with hmem | hfrozen
  · exact .stack (hmark ▸ Array.mem_push_of_mem _ hmem)
  · exact .memo hfrozen

theorem has_of_popOnto {count : Nat} (h : m.popOnto count [] = .ok (items, m')) :
    (∀ n ∈ items, m.Has n) ∧ ∀ k, m'.Has k → m.Has k := by
  obtain ⟨ns, -, rfl, htakes⟩ := popOnto_eq_ok_iff.mp h
  rw [List.append_nil]
  exact has_of_takes htakes

theorem Has.of_popItem (h : m.popItem = .ok m') (hk : m'.Has k) : m.Has k := by
  rcases popItem_eq_ok_iff.mp h with ⟨below, hmark, rfl⟩ | ⟨n, hpop⟩
  · rcases hk with hmem | hfrozen
    · exact .stack (hmark ▸ Array.mem_push_of_mem _ hmem)
    · exact .memo hfrozen
  · exact (has_of_pop hpop).2 k hk

/-- A push brings in the node that is pushed. -/
theorem Has.of_push (h : (m.push n).Has k) : m.Has k ∨ k = n := by
  rcases h with hmem | hfrozen
  · rcases Array.mem_push.mp hmem with hmem | heq
    · exact .inl (.stack hmem)
    · exact .inr (Item.node.inj heq).1
  · exact .inl (.memo hfrozen)

theorem Has.of_pushMark (h : m.pushMark.Has k) : m.Has k := by
  rcases h with hmem | hfrozen
  · rcases Array.mem_push.mp hmem with hmem | heq
    · exact .stack hmem
    · nomatch heq
  · exact .memo hfrozen

/-- A copy is no other node. -/
theorem Has.of_copy {size : Nat} (hn : m.Has n) (hcharge : m.charge size = .ok m')
    (hk : (m'.push n).Has k) : m.Has k := by
  obtain ⟨-, rfl⟩ := charge_eq_ok_iff.mp hcharge
  rcases hk.of_push with (hmem | hfrozen) | rfl
  · exact .stack hmem
  · exact .memo hfrozen
  · exact hn

/-- A change of the top brings in what the change makes, and nothing else. -/
theorem has_of_replaceTop {change : Node → Except Cause Node}
    (h : m.replaceTop change = .ok m') :
    ∃ n n', m.top = .ok n ∧ change n = .ok n' ∧ ∀ k, m'.Has k → m.Has k ∨ k = n' := by
  obtain ⟨below, n, n', ids, hstack, hchange, rfl⟩ := replaceTop_eq_ok_iff.mp h
  refine ⟨n, n', top_eq_ok_iff.mpr ⟨below, ids, hstack⟩, hchange, ?_⟩
  rintro k (hmem | hfrozen)
  · rcases Array.mem_push.mp hmem with hmem | heq
    · exact .inl (.stack (hstack ▸ Array.mem_push_of_mem _ hmem))
    · exact .inr (Item.node.inj heq).1
  · exact .inl (.memo hfrozen)

/-- What is remembered is the top. -/
theorem Has.of_remember {id : Nat} (h : m.remember id = .ok m') (hk : m'.Has k) : m.Has k := by
  obtain ⟨below, n, ids, hstack⟩ := exists_top_of_remember h
  have htop : m.Has n := has_of_top (top_eq_ok_iff.mpr ⟨below, ids, hstack⟩)
  by_cases hfixed : ∃ v, n.content = .fixed v
  · obtain ⟨v, hv⟩ := hfixed
    obtain rfl := Except.ok.inj ((remember_of_fixed hstack hv id).symm.trans h)
    rcases hk with hmem | hfrozen
    · exact .stack hmem
    · rw [Memo.getElem?_insert] at hfrozen
      split at hfrozen
      · obtain rfl := Entry.frozen.inj (Option.some.inj hfrozen)
        exact htop
      · exact .memo hfrozen
  · have hopen : ∀ v, n.content ≠ .fixed v := fun v hv => hfixed ⟨v, hv⟩
    obtain rfl := Except.ok.inj ((remember_of_open hstack hopen id).symm.trans h)
    rcases hk with hmem | hfrozen
    · rcases Array.mem_push.mp hmem with hmem | heq
      · exact .stack (hstack ▸ Array.mem_push_of_mem _ hmem)
      · obtain ⟨rfl, -⟩ := Item.node.inj heq
        exact htop
    · rw [Memo.getElem?_insert] at hfrozen
      split at hfrozen
      · nomatch hfrozen
      · exact .memo hfrozen

end SealedStore.Pickle.Machine
