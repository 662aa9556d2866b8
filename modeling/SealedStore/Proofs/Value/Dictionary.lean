/-
  What a dictionary holds that is built of pairs.

  Of all the pairs it holds, in their order, those whose key equals no key before (`firsts`), each
  with the value of the last pair with that key (`lastWith`), which is also what is found under the
  key.  Both are carried from one pair to the next: an insertion changes what is found under the
  keys that equal the new one, and under no other (`lookup_insert`).  This needs `equals` to be
  transitive but not to be reflexive: a NaN is a key of its own every time, and is never found.
-/
import Mathlib.Data.List.Induction
import SealedStore.Proofs.Value.Build

namespace SealedStore.Value

variable {key value : Value} {entries pairs : List (Value × Value)} {p : Value × Value}

/-! ## First places and last values -/

/-- The pairs whose key equals no key before, where other pairs come before them all. -/
def firsts (before : List (Value × Value)) : List (Value × Value) → List (Value × Value)
  | [] => []
  | p :: pairs =>
    if before.any fun q => q.1.equals p.1 then firsts (before ++ [p]) pairs
    else p :: firsts (before ++ [p]) pairs

/-- The value of the last pair whose key equals a given one. -/
def lastWith (key : Value) (pairs : List (Value × Value)) : Option Value :=
  (pairs.filter fun q => q.1.equals key).getLast?.map (·.2)

/-- A pair at the end is given first if its key equals no key before it. -/
theorem firsts_concat (before pairs : List (Value × Value)) (p : Value × Value) :
    firsts before (pairs ++ [p]) =
      firsts before pairs ++
        if (before ++ pairs).any fun q => q.1.equals p.1 then [] else [p] := by
  induction pairs generalizing before with
  | nil => rw [List.nil_append, firsts, firsts, firsts, List.append_nil, List.nil_append]
  | cons q pairs ih =>
    rw [List.cons_append, firsts, firsts, ih, ← List.append_cons]
    split
    · rfl
    · rw [List.cons_append]

theorem mem_of_mem_firsts {before : List (Value × Value)} (h : p ∈ firsts before pairs) :
    p ∈ pairs := by
  induction pairs generalizing before with
  | nil => nomatch h
  | cons q pairs ih =>
    rw [firsts] at h
    split at h
    · exact List.mem_cons_of_mem _ (ih h)
    · rcases List.mem_cons.mp h with rfl | h
      · exact List.mem_cons_self
      · exact List.mem_cons_of_mem _ (ih h)

/-- A key that is given is equal to one that is given first. -/
theorem exists_mem_firsts (h : ∃ q ∈ pairs, q.1.equals key = true) :
    ∃ q ∈ firsts [] pairs, q.1.equals key = true := by
  induction pairs using List.reverseRecOn generalizing key with
  | nil => exact h
  | append_singleton pairs p ih =>
    have hold : ∀ {k : Value}, (∃ q ∈ pairs, q.1.equals k = true) →
        ∃ q ∈ firsts [] (pairs ++ [p]), q.1.equals k = true := by
      intro k hk
      obtain ⟨q, hq, heq⟩ := ih hk
      rw [firsts_concat]
      exact ⟨q, List.mem_append_left _ hq, heq⟩
    obtain ⟨q, hq, heq⟩ := h
    rcases List.mem_append.mp hq with hq | hq
    · exact hold ⟨q, hq, heq⟩
    · obtain rfl := List.mem_singleton.mp hq
      -- either the new key is a first one, or it equals one before it
      by_cases hthere : ∃ r ∈ pairs, r.1.equals q.1 = true
      · obtain ⟨r, hr, hrq⟩ := hthere
        exact hold ⟨r, hr, equals_trans hrq heq⟩
      · refine ⟨q, ?_, heq⟩
        rw [firsts_concat, List.nil_append, if_neg (by rwa [List.any_eq_true])]
        exact List.mem_append_right _ List.mem_cons_self

/-- The last pair with the key is the one at the end, if its key equals that. -/
theorem lastWith_concat (key : Value) (pairs : List (Value × Value)) (p : Value × Value) :
    lastWith key (pairs ++ [p]) = if p.1.equals key then some p.2 else lastWith key pairs := by
  unfold lastWith
  rw [List.filter_append, List.filter_cons, List.filter_nil]
  split
  · rw [List.getLast?_concat, Option.map_some]
  · rw [List.append_nil]

/-! ## One more pair -/

theorem insertEach_concat (entries pairs : List (Value × Value)) (p : Value × Value) :
    insertEach entries (pairs ++ [p]) = insert p.1 p.2 (insertEach entries pairs) :=
  List.foldl_concat ..

/-- Where the keys are apart, one entry at most takes the value. -/
theorem insert_eq_map (h : KeysApart (dict entries))
    (hthere : ∃ e ∈ entries, equals e.1 key = true) :
    insert key value entries =
      entries.map fun e => (e.1, if e.1.equals key then value else e.2) := by
  induction entries with
  | nil =>
    obtain ⟨e, he, -⟩ := hthere
    nomatch he
  | cons e entries ih =>
    obtain ⟨hne, hapart⟩ := List.pairwise_cons.mp h
    rw [insert, List.map_cons]
    split
    · next heq =>
      have hothers : ∀ f ∈ entries, (f.1, if f.1.equals key then value else f.2) = f := by
        intro f hf
        -- an entry behind with the same key would have a key equal to this one
        rw [if_neg]
        intro hfkey
        have hef : equals e.1 f.1 = true := equals_trans heq (equals_symm hfkey)
        rw [(hne f hf).1] at hef
        exact Bool.false_ne_true hef
      rw [List.map_congr_left hothers, List.map_id']
    · next hnot =>
      obtain ⟨f, hf, hfkey⟩ := hthere
      rcases List.mem_cons.mp hf with rfl | hf
      · exact absurd hfkey hnot
      · rw [ih hapart ⟨f, hf, hfkey⟩]

/-- **What is found after an insertion**: the new value under every key that equals the new one,
    and what was found before under every other. -/
theorem lookup_insert (k key value : Value) (entries : List (Value × Value)) :
    lookup k (insert key value entries) =
      if key.equals k then some value else lookup k entries := by
  induction entries with
  | nil => rfl
  | cons e entries ih =>
    rw [insert]
    by_cases hkey : equals e.1 key = true
    · have hsame : equals e.1 k = equals key k :=
        Bool.eq_iff_iff.mpr ⟨equals_trans (equals_symm hkey), equals_trans hkey⟩
      rw [if_pos hkey, lookup, lookup, hsame]
      split <;> rfl
    · rw [if_neg hkey, lookup, lookup, ih]
      split
      · next hk =>
        rw [if_neg fun hkeyk => hkey (equals_trans hk (equals_symm hkeyk))]
      · rfl

/-! ## All pairs -/

/-- **What is found under a key is the last value given for it.** -/
theorem lookup_insertEach (k : Value) (pairs : List (Value × Value)) :
    lookup k (insertEach [] pairs) = lastWith k pairs := by
  induction pairs using List.reverseRecOn with
  | nil => rfl
  | append_singleton pairs p ih => rw [insertEach_concat, lookup_insert, lastWith_concat, ih]

theorem keysApart_built (pairs : List (Value × Value)) : KeysApart (dict (insertEach [] pairs)) :=
  keysApart_insertEach List.Pairwise.nil

/-- **The entries are the first pairs with their keys and the last values.** -/
theorem insertEach_eq_firsts (pairs : List (Value × Value)) :
    insertEach [] pairs =
      (firsts [] pairs).map fun q => (q.1, (lastWith q.1 pairs).getD q.2) := by
  induction pairs using List.reverseRecOn with
  | nil => rfl
  | append_singleton pairs p ih =>
    rw [insertEach_concat, firsts_concat, List.nil_append]
    by_cases hthere : ∃ q ∈ pairs, q.1.equals p.1 = true
    · -- the pair gives its value to the entry that is there
      have hentry : ∃ e ∈ insertEach [] pairs, equals e.1 p.1 = true := by
        obtain ⟨q, hq, heq⟩ := exists_mem_firsts hthere
        rw [ih]
        exact ⟨_, List.mem_map_of_mem hq, heq⟩
      rw [if_pos (by rwa [List.any_eq_true]), List.append_nil,
        insert_eq_map (keysApart_built pairs) hentry, ih, List.map_map]
      refine List.map_congr_left fun q _ => ?_
      rw [Function.comp_apply, lastWith_concat, equals_comm p.1]
      split <;> rfl
    · -- the pair becomes an entry behind the others, whose values stay
      have hne : ∀ q ∈ pairs, equals q.1 p.1 = false := fun q hq =>
        Bool.eq_false_iff.mpr fun heq => hthere ⟨q, hq, heq⟩
      have hnone : lastWith p.1 pairs = Option.none := by
        have hfilter : (pairs.filter fun q => q.1.equals p.1) = [] :=
          List.filter_eq_nil_iff.mpr fun q hq heq => hthere ⟨q, hq, heq⟩
        rw [lastWith, hfilter]
        rfl
      have hentries : ∀ e ∈ insertEach [] pairs, equals e.1 p.1 = false := by
        rw [ih, List.forall_mem_map]
        exact fun q hq => hne q (mem_of_mem_firsts hq)
      rw [if_neg (by rwa [List.any_eq_true]), insert_of_forall_ne hentries, ih, List.map_append,
        List.map_singleton, lastWith_concat, hnone]
      congr 1
      · refine List.map_congr_left fun q hq => ?_
        rw [lastWith_concat, if_neg]
        rw [equals_comm, hne q (mem_of_mem_firsts hq)]
        exact Bool.false_ne_true
      · split <;> rfl

/-! ## Building -/

/-- The first key that may not be one is the fault. -/
theorem insertAll_eq_error_iff {e : ValueError} :
    insertAll entries pairs = .error e ↔
      ∃ p, pairs.find? (fun q => !q.1.isHashable) = some p ∧ e = .unhashableKey p.1.kind := by
  induction pairs generalizing entries with
  | nil => simp [insertAll]
  | cons q pairs ih =>
    rw [insertAll, List.find?_cons]
    cases q.1.isHashable with
    | true => exact ih
    | false => simp [eq_comm]

/-- The entries of a dictionary that is built of pairs. -/
structure BuiltOf (pairs entries : List (Value × Value)) : Prop where
  /-- Each key stands at its first place and has its last value, or its own if it equals no key. -/
  entries_eq : entries = (firsts [] pairs).map fun q => (q.1, (lastWith q.1 pairs).getD q.2)
  keysApart : (dict entries).KeysApart
  get?_eq : ∀ key, (dict entries).get? key = lastWith key pairs
  /-- Built once more they are the same. -/
  ofPairs_eq : ofPairs entries = .ok (dict entries)

/-- A dictionary that is built by insertions has the entries that are described. -/
theorem builtOf_insertEach (hkeys : (dict pairs).KeysHashable) :
    BuiltOf pairs (insertEach [] pairs) where
  entries_eq := insertEach_eq_firsts pairs
  keysApart := keysApart_built pairs
  get?_eq key := lookup_insertEach key pairs
  ofPairs_eq := by
    have hbuilt : insertEach [] (insertEach [] pairs) = insertEach [] pairs :=
      insertEach_of_keysApart (keysApart_built pairs)
    refine ofPairs_eq_ok_iff.mpr ⟨keysHashable_insertEach nofun hkeys, ?_⟩
    rw [hbuilt]

/-- **Dictionaries of pairs**: the first key that may not be one is the fault; without one there is
    a dictionary, whatever the keys are equal to. -/
theorem ofPairs_built (pairs : List (Value × Value)) :
    (∀ e, ofPairs pairs = .error e ↔
      ∃ p, pairs.find? (fun q => !q.1.isHashable) = some p ∧ e = .unhashableKey p.1.kind) ∧
    ((∀ p ∈ pairs, p.1.isHashable = true) →
      ∃ entries, ofPairs pairs = .ok (dict entries) ∧ BuiltOf pairs entries) := by
  refine ⟨fun e => ?_, fun hkeys => ?_⟩
  · have hall : insertAll [] pairs = .error e ↔ _ := insertAll_eq_error_iff
    rw [← hall, ofPairs]
    cases insertAll [] pairs with
    | error _ => rw [Except.map, Except.error.injEq, Except.error.injEq]
    | ok _ => exact ⟨nofun, nofun⟩
  · exact ⟨_, ofPairs_eq_ok_iff.mpr ⟨hkeys, rfl⟩, builtOf_insertEach hkeys⟩

/-- A zero, a NaN, the other zero, and the NaN again. -/
def zerosAndNaNs : List (Value × Value) :=
  [(float 0, int 1), (float 0x7FF8000000000000, int 2), (float 0x8000000000000000, int 3),
    (float 0x7FF8000000000000, int 4)]

/-- The zeros share an entry, and the NaNs have one each, though nothing is found under them. -/
theorem zerosAndNaNs_built :
    (∀ p ∈ zerosAndNaNs, p.1.isHashable = true) ∧
    ∃ entries, ofPairs zerosAndNaNs = .ok (dict entries) ∧ entries.length = 3 ∧
      (dict entries).get? (float 0x8000000000000000) = some (int 3) ∧
      (dict entries).get? (float 0x7FF8000000000000) = Option.none := by
  have hkeys : ∀ p ∈ zerosAndNaNs, p.1.isHashable = true := by decide
  obtain ⟨entries, hbuilt, hentries⟩ := (ofPairs_built zerosAndNaNs).2 hkeys
  have hzero := hentries.get?_eq (float 0x8000000000000000)
  have hnan := hentries.get?_eq (float 0x7FF8000000000000)
  refine ⟨hkeys, entries, hbuilt, ?_, hzero.trans rfl, hnan.trans rfl⟩
  rw [hentries.entries_eq, List.length_map]
  rfl

end SealedStore.Value
