/-
  Putting entries into dictionaries.

  `equals` is symmetric, though a NaN keeps it from being reflexive, so it does not matter which
  of two keys is looked up and which is there.  `insert` keeps keys apart, makes no entry of
  anything but the old keys and values and the new ones, and adds no more values than it is given.
-/
import SealedStore.Proofs.Value.Equality
import SealedStore.Proofs.Value.WellFormed

namespace SealedStore.Value

/-! ## Insertion -/

variable {key value : Value} {entries : List (Value × Value)}

/-- Every key is old or the new one, and so is every value. -/
theorem of_mem_insert {e : Value × Value} (h : e ∈ insert key value entries) :
    (e.1 = key ∨ ∃ f ∈ entries, e.1 = f.1) ∧ (e.2 = value ∨ ∃ f ∈ entries, e.2 = f.2) := by
  induction entries with
  | nil =>
    obtain rfl := List.mem_singleton.mp h
    exact ⟨.inl rfl, .inl rfl⟩
  | cons f entries ih =>
    rw [insert] at h
    split at h
    · rcases List.mem_cons.mp h with rfl | h
      · exact ⟨.inr ⟨f, List.mem_cons_self, rfl⟩, .inl rfl⟩
      · exact ⟨.inr ⟨e, List.mem_cons_of_mem _ h, rfl⟩, .inr ⟨e, List.mem_cons_of_mem _ h, rfl⟩⟩
    · rcases List.mem_cons.mp h with rfl | h
      · exact ⟨.inr ⟨_, List.mem_cons_self, rfl⟩, .inr ⟨_, List.mem_cons_self, rfl⟩⟩
      · refine ⟨(ih h).1.imp_right ?_, (ih h).2.imp_right ?_⟩
        · rintro ⟨g, hg, heq⟩
          exact ⟨g, List.mem_cons_of_mem _ hg, heq⟩
        · rintro ⟨g, hg, heq⟩
          exact ⟨g, List.mem_cons_of_mem _ hg, heq⟩

/-- What holds of all members and of the new key and value holds of all members afterwards. -/
theorem forall_members_insert {P : Value → Prop} (h : ∀ w ∈ members (dict entries), P w)
    (hkey : P key) (hvalue : P value) : ∀ w ∈ members (dict (insert key value entries)), P w := by
  intro w hw
  obtain ⟨e, he, hw⟩ := mem_members_dict.mp hw
  obtain ⟨hk, hv⟩ := of_mem_insert he
  rcases hw with rfl | rfl
  · rcases hk with heq | ⟨f, hf, heq⟩
    · rwa [heq]
    · rw [heq]
      exact h _ (mem_members_dict.mpr ⟨f, hf, .inl rfl⟩)
  · rcases hv with heq | ⟨f, hf, heq⟩
    · rwa [heq]
    · rw [heq]
      exact h _ (mem_members_dict.mpr ⟨f, hf, .inr rfl⟩)

/-- Where an equal key is there, the keys stay as they are. -/
theorem map_fst_insert (h : ∃ e ∈ entries, equals e.1 key = true) :
    (insert key value entries).map (·.1) = entries.map (·.1) := by
  induction entries with
  | nil =>
    obtain ⟨e, he, -⟩ := h
    nomatch he
  | cons f entries ih =>
    rw [insert]
    split
    · rfl
    · next hne =>
      obtain ⟨e, he, heq⟩ := h
      rcases List.mem_cons.mp he with rfl | he
      · exact absurd heq hne
      · rw [List.map_cons, List.map_cons, ih ⟨e, he, heq⟩]

/-- No two keys are equal, whichever of them comes first. -/
theorem keysApart_iff :
    KeysApart (dict entries) ↔
      (entries.map (·.1)).Pairwise fun k l => equals k l = false ∧ equals l k = false := by
  rw [List.pairwise_map]
  exact Iff.rfl

/-- **Insertion keeps keys apart.** -/
theorem keysApart_insert (h : KeysApart (dict entries)) :
    KeysApart (dict (insert key value entries)) := by
  rw [keysApart_iff] at h ⊢
  -- either the keys stay as they are or the new one is put behind them
  by_cases hthere : ∃ e ∈ entries, equals e.1 key = true
  · rwa [map_fst_insert hthere]
  · have hne : ∀ e ∈ entries, equals e.1 key = false := by
      intro e he
      exact Bool.not_eq_true _ ▸ fun heq => hthere ⟨e, he, heq⟩
    rw [insert_of_forall_ne hne, List.map_append, List.pairwise_append]
    refine ⟨h, List.pairwise_singleton _ _, ?_⟩
    intro k hk l hl
    obtain ⟨e, he, rfl⟩ := List.mem_map.mp hk
    obtain rfl := List.mem_singleton.mp hl
    exact ⟨hne e he, by rw [equals_comm]; exact hne e he⟩

theorem weight_members_cons (k v : Value) :
    weight (members (dict ((k, v) :: entries))) =
      k.nodes.length + v.nodes.length + weight (members (dict entries)) := by
  rw [members, members, List.flatMap_cons, weight_append]
  rfl

/-- A value that is replaced leaves, so no more values are added than are given. -/
theorem weight_insert_le :
    weight (members (dict (insert key value entries))) ≤
      weight (members (dict entries)) + (key.nodes.length + value.nodes.length) := by
  induction entries with
  | nil =>
    rw [insert, weight_members_cons]
    omega
  | cons f entries ih =>
    obtain ⟨k, v⟩ := f
    rw [insert]
    split
    · rw [weight_members_cons, weight_members_cons]
      omega
    · rw [weight_members_cons, weight_members_cons]
      omega

theorem keysHashable_insert (h : KeysHashable (dict entries)) (hkey : key.isHashable = true) :
    KeysHashable (dict (insert key value entries)) := by
  intro e he
  rcases (of_mem_insert he).1 with heq | ⟨f, hf, heq⟩
  · rwa [heq]
  · rw [heq]
    exact h f hf

/-! ## One insertion after another -/

/-- Puts pairs into entries, the first pair first. -/
def insertEach (entries pairs : List (Value × Value)) : List (Value × Value) :=
  pairs.foldl (fun entries p => insert p.1 p.2 entries) entries

variable {pairs : List (Value × Value)}

/-- Insertions bring in no members but those that are inserted. -/
theorem forall_members_insertEach {P : Value → Prop} (h : ∀ w ∈ members (dict entries), P w)
    (hpairs : ∀ w ∈ members (dict pairs), P w) :
    ∀ w ∈ members (dict (insertEach entries pairs)), P w := by
  induction pairs generalizing entries with
  | nil => exact h
  | cons p pairs ih =>
    have hp : ∀ w, w = p.1 ∨ w = p.2 → P w := fun w hw =>
      hpairs w (mem_members_dict.mpr ⟨p, List.mem_cons_self, hw⟩)
    refine ih (forall_members_insert h (hp _ (.inl rfl)) (hp _ (.inr rfl))) fun w hw => ?_
    obtain ⟨e, he, hw⟩ := mem_members_dict.mp hw
    exact hpairs w (mem_members_dict.mpr ⟨e, List.mem_cons_of_mem _ he, hw⟩)

/-- Insertions keep the keys apart. -/
theorem keysApart_insertEach (h : KeysApart (dict entries)) :
    KeysApart (dict (insertEach entries pairs)) := by
  induction pairs generalizing entries with
  | nil => exact h
  | cons p pairs ih => exact ih (keysApart_insert h)

/-- Insertions of keys that may be keys leave none that may not. -/
theorem keysHashable_insertEach (h : KeysHashable (dict entries))
    (hpairs : KeysHashable (dict pairs)) : KeysHashable (dict (insertEach entries pairs)) := by
  induction pairs generalizing entries with
  | nil => exact h
  | cons p pairs ih =>
    exact ih (keysHashable_insert h (hpairs p List.mem_cons_self))
      fun e he => hpairs e (List.mem_cons_of_mem _ he)

/-- Insertions add no more values than are inserted. -/
theorem weight_insertEach_le :
    weight (members (dict (insertEach entries pairs))) ≤
      weight (members (dict entries)) + weight (members (dict pairs)) := by
  induction pairs generalizing entries with
  | nil => exact Nat.le_add_right _ _
  | cons p pairs ih =>
    have hrest : weight (members (dict (insertEach entries (p :: pairs)))) ≤
        weight (members (dict (insert p.1 p.2 entries))) + weight (members (dict pairs)) := ih
    have hone : weight (members (dict (insert p.1 p.2 entries))) ≤
        weight (members (dict entries)) + (p.1.nodes.length + p.2.nodes.length) := weight_insert_le
    have hcons : weight (members (dict (p :: pairs))) =
        p.1.nodes.length + p.2.nodes.length + weight (members (dict pairs)) :=
      weight_members_cons p.1 p.2
    omega

/-- **Keys that are apart are put one behind the other.** -/
theorem insertEach_of_keysApart (h : KeysApart (dict (entries ++ pairs))) :
    insertEach entries pairs = entries ++ pairs := by
  induction pairs generalizing entries with
  | nil => exact (List.append_nil _).symm
  | cons p pairs ih =>
    -- the first pair goes behind the entries, and the rest behind it
    have hne : ∀ e ∈ entries, equals e.1 p.1 = false := by
      intro e he
      exact ((List.pairwise_append.mp h).2.2 e he p List.mem_cons_self).1
    show insertEach (insert p.1 p.2 entries) pairs = _
    rw [insert_of_forall_ne hne, ih (by rwa [← List.append_cons]), ← List.append_cons]

end SealedStore.Value
