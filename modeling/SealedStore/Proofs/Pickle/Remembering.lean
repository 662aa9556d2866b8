/-
  What the ids of a stream stand for.

  An id stands for the value that lay on top of the stack when the id was last stored.  If it is a
  list or a dictionary, that is what it has become since, as long as it lies there, and what it was
  when it was taken off, from then on; any other value does not change.  The memo says this at any
  time without knowing what went before (`recalls_of_reaches`), whatever was taken off, put in its
  place and stored anew in the meantime.

  So the statement is about the opcodes that were run and the machines before them (`Step`), and
  the proof carries along what the entry of an id is since the id was stored (`Kept`).
-/
import SealedStore.Proofs.Pickle.Linked
import SealedStore.Proofs.Pickle.Run

namespace SealedStore.Pickle

/-! ## What went before -/

/-- An opcode that was run, and the machine before it. -/
structure Step where
  before : Machine
  op : Opcode

namespace Step

/-- The opcode remembers the top under the id. -/
def Stores (s : Step) (id : Nat) : Prop := s.before.stores s.op = some id

/-- The height at which the top lies. -/
def topHeight (s : Step) : Nat := s.before.stack.size - 1

/-- The opcode takes off what lies at the height. -/
def pops (s : Step) (height : Nat) : Bool := s.before.stack.size - s.before.taken s.op ≤ height

end Step

/-- A machine stands between two opcodes of an input, after these steps, the first of them first. -/
inductive Reaches (start : Input) : List Step → Machine → Input → Prop
  | first {op : Opcode} {i : Input} : header start = .ok (op, i) → Reaches start [] .start i
  | next {past : List Step} {m m' : Machine} {op : Opcode} {i j : Input} :
      Reaches start past m i → Opcode.read i = .ok (op, j) → step m i = .ok (.running m', j) →
      Reaches start (past ++ [⟨m, op⟩]) m' j

/-- The id was last stored by a step, after which came others. -/
structure Since (id : Nat) (past : List Step) (s : Step) (after : List Step) : Prop where
  split : ∃ before, past = before ++ s :: after
  stores : s.Stores id
  last : ∀ t ∈ after, ¬ t.Stores id

namespace Machine

/-- A value lies at a height of the stack. -/
def Holds (m : Machine) (height : Nat) (n : Node) : Prop :=
  ∃ ids, m.stack[height]? = some (.node n ids)

/-- Every id stands for what was last stored under it. -/
structure Recalls (past : List Step) (m : Machine) : Prop where
  /-- A place in the memo is one of the stack, where a list or a dictionary lies. -/
  live : ∀ id height : Nat, m.memo[id]? = some (.live height) →
    ∃ n, m.Holds height n ∧ n.IsOpen
  /-- The ids in the memo are those that were stored. -/
  stored : ∀ id, id ∈ m.memo ↔ ∃ s after, Since id past s after
  /-- They are always found. -/
  found : ∀ id, id ∈ m.memo → ∃ n, m.lookup id = .ok n
  /-- There was a value to store. -/
  top : ∀ {id s after}, Since id past s after → ∃ n, s.before.top = .ok n
  /-- What is no list or dictionary is found as it was stored. -/
  fixed : ∀ {id s after n}, Since id past s after → s.before.top = .ok n → ¬ n.IsOpen →
    m.lookup id = .ok n
  /-- A list or a dictionary that was not taken off since is found as it is now. -/
  current : ∀ {id s after n}, Since id past s after → s.before.top = .ok n → n.IsOpen →
    after.find? (·.pops s.topHeight) = none →
    ∃ k, m.Holds s.topHeight k ∧ m.lookup id = .ok k
  /-- One that was is found as it was right before the first step that took it off. -/
  popped : ∀ {id s after n t}, Since id past s after → s.before.top = .ok n → n.IsOpen →
    after.find? (·.pops s.topHeight) = some t →
    ∃ k, t.before.Holds s.topHeight k ∧ m.lookup id = .ok k

end Machine

/-! ## One more step -/

section
variable {id : Nat} {past after : List Step} {s t : Step}

/-- A step that does not store under an id comes after the one that did. -/
theorem Since.concat (h : Since id past s after) (ht : ¬ t.Stores id) :
    Since id (past ++ [t]) s (after ++ [t]) where
  split := by
    obtain ⟨before, rfl⟩ := h.split
    exact ⟨before, List.append_assoc _ _ _⟩
  stores := h.stores
  last := by
    intro u hu
    rcases List.mem_append.mp hu with hu | hu
    · exact h.last u hu
    · rwa [List.mem_singleton.mp hu]

theorem since_stored (ht : t.Stores id) : Since id (past ++ [t]) t [] where
  split := ⟨past, rfl⟩
  stores := ht
  last _ hu := nomatch hu

/-- The last step stored the id, or an earlier one and the last one did not. -/
theorem Since.of_concat (h : Since id (past ++ [t]) s after) :
    (after = [] ∧ s = t ∧ t.Stores id) ∨
      ∃ after', after = after' ++ [t] ∧ Since id past s after' ∧ ¬ t.Stores id := by
  obtain ⟨before, hsplit⟩ := h.split
  rcases List.eq_nil_or_concat after with rfl | ⟨after', u, rfl⟩
  · obtain ⟨-, heq⟩ := List.append_inj' hsplit rfl
    obtain rfl := List.singleton_inj.mp heq
    exact .inl ⟨rfl, rfl, h.stores⟩
  · rw [List.concat_eq_append] at hsplit h ⊢
    have hsplit' : past ++ [t] = (before ++ s :: after') ++ [u] := by
      rw [hsplit, List.append_assoc, List.cons_append]
    obtain ⟨rfl, heq⟩ := List.append_inj' hsplit' rfl
    obtain rfl := List.singleton_inj.mp heq
    refine .inr ⟨after', rfl, ⟨⟨before, rfl⟩, h.stores, fun u hu => ?_⟩, ?_⟩
    · exact h.last u (List.mem_append_left _ hu)
    · exact h.last t (List.mem_append_right _ List.mem_cons_self)

end

namespace Machine

/-- The entry of an id under which a list or a dictionary was stored, after further steps. -/
def Traces (m : Machine) (id height : Nat) (after : List Step) : Prop :=
  match after.find? (·.pops height) with
  | none => m.memo[id]? = some (.live height)
  | some t => ∃ n, t.before.Holds height n ∧ m.memo[id]? = some (.frozen n)

/-- The ids are linked, and the entry of each is what became of the value stored. -/
structure Kept (past : List Step) (m : Machine) : Prop where
  linked : m.Linked
  stored : ∀ id : Nat, m.memo[id]? ≠ none → ∃ s after, Since id past s after
  since : ∀ {id s after}, Since id past s after → ∃ n, s.before.top = .ok n ∧
    (¬ n.IsOpen → m.memo[id]? = some (.frozen n)) ∧ (n.IsOpen → m.Traces id s.topHeight after)

variable {m m' : Machine} {op : Opcode} {past after : List Step} {id height : Nat}

theorem kept_start : Kept [] start where
  linked := linked_start
  stored id h := absurd Std.TreeMap.getElem?_emptyc h
  since h := by
    obtain ⟨before, hsplit⟩ := h.split
    nomatch List.append_ne_nil_of_right_ne_nil _ (List.cons_ne_nil _ _) hsplit.symm

/-- **A step settles what it takes off**, and nothing else changes. -/
theorem Traces.concat (h : m.Traces id height after) (hlinked : m.Linked) (hop : op ≠ .stop)
    (hexec : m.exec op = .ok m') (hid : ¬ (Step.mk m op).Stores id) :
    m'.Traces id height (after ++ [⟨m, op⟩]) := by
  have hmemo := hlinked.memo_exec hop hexec hid
  unfold Traces at h ⊢
  rw [List.find?_append]
  split at h
  · next hlies =>
    rw [hlies, Option.none_or, List.find?_singleton]
    rw [h, Option.map_some] at hmemo
    by_cases hpops : (Step.mk m op).pops height
    · obtain ⟨n, ids, hnode, -⟩ := hlinked.live id height h
      rw [if_pos hpops]
      rw [Entry.cut_of_node (of_decide_eq_true hpops) hnode] at hmemo
      exact ⟨n, ⟨ids, hnode⟩, hmemo⟩
    · rw [if_neg hpops]
      rw [Entry.cut_of_lt (Nat.not_le.mp fun hle => hpops (decide_eq_true hle))] at hmemo
      exact hmemo
  · next t hpopped =>
    obtain ⟨n, hholds, hfrozen⟩ := h
    rw [hfrozen] at hmemo
    rw [hpopped, Option.some_or]
    exact ⟨n, hholds, hmemo⟩

/-- **Every step keeps what the ids stand for.** -/
theorem Kept.concat (h : Kept past m) (hop : op ≠ .stop) (hexec : m.exec op = .ok m') :
    Kept (past ++ [⟨m, op⟩]) m' where
  linked := h.linked.exec hop hexec
  stored id hdefined := by
    by_cases hid : (Step.mk m op).Stores id
    · exact ⟨_, [], since_stored hid⟩
    · rw [h.linked.memo_exec hop hexec hid] at hdefined
      obtain ⟨s, after, hsince⟩ := h.stored id fun hnone => hdefined (by rw [hnone]; rfl)
      exact ⟨s, after ++ [_], hsince.concat hid⟩
  since {id s after} hsince := by
    rcases hsince.of_concat with ⟨rfl, rfl, hid⟩ | ⟨after', rfl, hsince', hid⟩
    · exact h.linked.memo_stored hop hexec hid
    · obtain ⟨n, htop, hfixed, hopen⟩ := h.since hsince'
      refine ⟨n, htop, fun hn => ?_, fun hn => (hopen hn).concat h.linked hop hexec hid⟩
      rw [h.linked.memo_exec hop hexec hid, hfixed hn]
      rfl

/-! ## All steps -/

/-- Between two opcodes the ids are kept, by induction over the steps. -/
theorem kept_of_reaches {start i : Input} (h : Reaches start past m i) : Kept past m := by
  induction h with
  | first => exact kept_start
  | @next past m m' op i j _ hread hstep ih =>
    obtain ⟨op', hread', happly⟩ := step_eq_ok_iff.mp hstep
    obtain ⟨rfl, -⟩ := Prod.mk.inj (Except.ok.inj (hread'.symm.trans hread))
    obtain ⟨hop, hexec⟩ := apply_running_iff.mp happly
    exact ih.concat hop hexec

theorem lookup_of_live {n : Node} (h : m.memo[id]? = some (.live height)) (hn : m.Holds height n) :
    m.lookup id = .ok n := by
  obtain ⟨ids, hnode⟩ := hn
  exact lookup_eq_ok_iff.mpr (.inr ⟨height, ids, h, hnode⟩)

/-- An id that stands for anything can be looked up. -/
theorem Linked.found (h : m.Linked) (hid : m.memo[id]? ≠ none) : ∃ n, m.lookup id = .ok n := by
  obtain ⟨e, he⟩ := Option.ne_none_iff_exists'.mp hid
  cases e with
  | frozen n => exact ⟨n, lookup_eq_ok_iff.mpr (.inl he)⟩
  | live height =>
    obtain ⟨n, ids, hnode, -⟩ := h.live id height he
    exact ⟨n, lookup_of_live he ⟨ids, hnode⟩⟩

/-- An id that was stored stands for something ever after. -/
theorem Kept.defined (h : Kept past m) {s : Step} (hsince : Since id past s after) :
    m.memo[id]? ≠ none := by
  obtain ⟨n, -, hfixed, hopen⟩ := h.since hsince
  by_cases hn : n.IsOpen
  · have htraces := hopen hn
    unfold Traces at htraces
    split at htraces
    · rw [htraces]
      exact Option.some_ne_none _
    · obtain ⟨k, -, hfrozen⟩ := htraces
      rw [hfrozen]
      exact Option.some_ne_none _
  · rw [hfixed hn]
    exact Option.some_ne_none _

/-- **Every id stands for what was last stored under it**, whenever the machine stands between
    two opcodes. -/
theorem recalls_of_reaches {start i : Input} (h : Reaches start past m i) : Recalls past m := by
  have hkept := kept_of_reaches h
  have hmem : ∀ id : Nat, id ∈ m.memo ↔ m.memo[id]? ≠ none := fun id => by
    rw [Std.TreeMap.mem_iff_isSome_getElem?, Option.isSome_iff_ne_none]
  have htop : ∀ {id s after n}, Since id past s after → s.before.top = .ok n →
      (¬ n.IsOpen → m.memo[id]? = some (.frozen n)) ∧
        (n.IsOpen → m.Traces id s.topHeight after) := by
    intro id s after n hsince hn
    obtain ⟨n', hn', hentry⟩ := hkept.since hsince
    obtain rfl := Except.ok.inj (hn.symm.trans hn')
    exact hentry
  constructor
  · intro id height hlive
    obtain ⟨n, ids, hnode, hopen, -⟩ := hkept.linked.live id height hlive
    exact ⟨n, ⟨ids, hnode⟩, hopen⟩
  · intro id
    rw [hmem]
    exact ⟨hkept.stored id, fun ⟨_, _, hsince⟩ => hkept.defined hsince⟩
  · intro id hid
    exact hkept.linked.found ((hmem id).mp hid)
  · intro id s after hsince
    obtain ⟨n, hn, -⟩ := hkept.since hsince
    exact ⟨n, hn⟩
  · intro id s after n hsince hn hfixed
    exact lookup_eq_ok_iff.mpr (.inl ((htop hsince hn).1 hfixed))
  · intro id s after n hsince hn hopen hlies
    have hlive := (htop hsince hn).2 hopen
    rw [Traces, hlies] at hlive
    obtain ⟨k, ids, hnode, -⟩ := hkept.linked.live id _ hlive
    exact ⟨k, ⟨ids, hnode⟩, lookup_of_live hlive ⟨ids, hnode⟩⟩
  · intro id s after n t hsince hn hopen hpopped
    have htraces := (htop hsince hn).2 hopen
    rw [Traces, hpopped] at htraces
    obtain ⟨k, hholds, hfrozen⟩ := htraces
    exact ⟨k, hholds, lookup_eq_ok_iff.mpr (.inl hfrozen)⟩

/-- A list is stored and filled and taken off, and in its place comes a dictionary, which is stored
    and filled as well.  Its key is stored too. -/
def reused : Bytes :=
  [0x80, 4, 0x5D, 0x71, 0, 0x4B, 1, 0x61, 0x30, 0x7D, 0x71, 1, 0x4B, 7, 0x71, 2, 0x4B, 8, 0x73]

/-- The list is recalled as it was when it was taken off, and the dictionary as it is now. -/
theorem reused_recalls :
    ∃ past m, Reaches ⟨0, reused⟩ past m ⟨19, []⟩ ∧ Recalls past m ∧
      (m.lookup 0).map Node.value = .ok (.list [.int 1]) ∧
      (m.lookup 1).map Node.value = .ok (.dict [(.int 7, .int 8)]) ∧
      (m.lookup 2).map Node.value = .ok (.int 7) := by
  have hfirst : Reaches ⟨0, reused⟩ [] .start ⟨2, reused.drop 2⟩ := .first rfl
  have hlist := ((hfirst.next rfl rfl).next rfl rfl).next rfl rfl
  have hgone := (hlist.next rfl rfl).next rfl rfl
  have hdict := ((hgone.next rfl rfl).next rfl rfl).next rfl rfl
  have hfilled := ((hdict.next rfl rfl).next rfl rfl).next rfl rfl
  exact ⟨_, _, hfilled, recalls_of_reaches hfilled, rfl, rfl, rfl⟩

end Machine

end SealedStore.Pickle
