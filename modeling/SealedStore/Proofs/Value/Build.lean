/-
  Dictionaries that are built of pairs.

  Pairs are inserted one after the other.  An entry that is there keeps its place and takes the
  value of every later pair with an equal key, so in the end it has the last of them, and those
  pairs make no entries of their own (`insertEach_cons_left`).  Hence what is built can be said
  without insertion (`settled`).
-/
import SealedStore.Proofs.Value.Insert
import SealedStore.Value.Build

namespace SealedStore.Value

variable {entries pairs entries' : List (Value × Value)}

/-! ## What can be built -/

/-- Inserting pairs one after the other, if all keys may be keys. -/
theorem insertAll_eq_ok_iff :
    insertAll entries pairs = .ok entries' ↔
      (dict pairs).KeysHashable ∧ entries' = insertEach entries pairs := by
  induction pairs generalizing entries with
  | nil =>
    constructor
    · intro h
      obtain rfl := Except.ok.inj h
      exact ⟨nofun, rfl⟩
    · rintro ⟨-, rfl⟩
      rfl
  | cons p pairs ih =>
    rw [insertAll, KeysHashable, List.forall_mem_cons]
    split
    · next hkey => exact ih.trans (and_congr_left' (and_iff_right hkey).symm)
    · next hkey =>
      constructor
      · intro h
        nomatch h
      · rintro ⟨⟨hhashable, -⟩, -⟩
        exact absurd hhashable hkey

/-- A dictionary is built of pairs when all keys may be keys, by inserting them in order. -/
theorem ofPairs_eq_ok_iff {v : Value} :
    ofPairs pairs = .ok v ↔ (dict pairs).KeysHashable ∧ v = dict (insertEach [] pairs) := by
  unfold ofPairs
  cases hall : insertAll [] pairs with
  | error e =>
    constructor
    · intro h
      nomatch h
    · rintro ⟨hkeys, -⟩
      have hok : insertAll [] pairs = .ok _ := insertAll_eq_ok_iff.mpr ⟨hkeys, rfl⟩
      nomatch hall.symm.trans hok
  | ok entries =>
    obtain ⟨hkeys, rfl⟩ := insertAll_eq_ok_iff.mp hall
    rw [and_iff_right hkeys]
    exact ⟨fun h => (Except.ok.inj h).symm, fun h => congrArg Except.ok h.symm⟩

/-! ## What is built -/

/-- The value of an entry once more pairs are inserted: that of the last one with its key. -/
def lastValue (e : Value × Value) (pairs : List (Value × Value)) : Value :=
  (pairs.filter fun q => e.1.equals q.1).getLast?.elim e.2 (·.2)

/-- The pairs with other keys than an entry. -/
def others (e : Value × Value) (pairs : List (Value × Value)) : List (Value × Value) :=
  pairs.filter fun q => !e.1.equals q.1

/-- Of pairs with equal keys one entry, at the first place and with the last value. -/
def settled : List (Value × Value) → List (Value × Value)
  | [] => []
  | p :: pairs => (p.1, lastValue p pairs) :: settled (others p pairs)
termination_by pairs => pairs.length
decreasing_by exact Nat.lt_succ_of_le (List.length_filter_le _ _)

variable {e p : Value × Value}

/-- A later pair with an equal key has the value; the first key stays. -/
theorem lastValue_cons_of_equals (h : e.1.equals p.1 = true) :
    lastValue e (p :: pairs) = lastValue (e.1, p.2) pairs := by
  unfold lastValue
  rw [List.filter_cons, if_pos h, List.getLast?_cons]
  cases (pairs.filter fun q => e.1.equals q.1).getLast? with
  | none => rfl
  | some q => rfl

theorem lastValue_cons_of_not_equals (h : ¬ e.1.equals p.1 = true) :
    lastValue e (p :: pairs) = lastValue e pairs := by
  unfold lastValue
  rw [List.filter_cons, if_neg h]

theorem others_cons_of_equals (h : e.1.equals p.1 = true) :
    others e (p :: pairs) = others e pairs := by
  unfold others
  rw [List.filter_cons, h]
  rfl

theorem others_cons_of_not_equals (h : ¬ e.1.equals p.1 = true) :
    others e (p :: pairs) = p :: others e pairs := by
  unfold others
  rw [List.filter_cons, Bool.eq_false_of_not_eq_true h]
  rfl

/-- **An entry takes up all later pairs with its key**, and the others go behind it. -/
theorem insertEach_cons_left (e : Value × Value) (entries pairs : List (Value × Value)) :
    insertEach (e :: entries) pairs =
      (e.1, lastValue e pairs) :: insertEach entries (others e pairs) := by
  induction pairs generalizing e entries with
  | nil => rfl
  | cons p pairs ih =>
    show insertEach (insert p.1 p.2 (e :: entries)) pairs = _
    by_cases heq : e.1.equals p.1 = true
    · have hinsert : insert p.1 p.2 (e :: entries) = (e.1, p.2) :: entries := by
        rw [insert, if_pos heq]
      rw [hinsert, ih, lastValue_cons_of_equals heq, others_cons_of_equals heq]
      rfl
    · have hinsert : insert p.1 p.2 (e :: entries) = e :: insert p.1 p.2 entries := by
        rw [insert, if_neg heq]
      rw [hinsert, ih, lastValue_cons_of_not_equals heq, others_cons_of_not_equals heq]
      rfl

/-- Pairs that are inserted into an empty dictionary are settled. -/
theorem insertEach_nil_left (pairs : List (Value × Value)) :
    insertEach [] pairs = settled pairs := by
  induction pairs using settled.induct with
  | case1 =>
    rw [settled]
    rfl
  | case2 p pairs ih =>
    show insertEach [p] pairs = _
    rw [insertEach_cons_left, ih, settled]

/-- **A dictionary is built of pairs** whose keys may all be keys, and it is these as settled. -/
theorem ofPairs_eq_ok_iff_settled {v : Value} :
    ofPairs pairs = .ok v ↔ (dict pairs).KeysHashable ∧ v = dict (settled pairs) := by
  rw [ofPairs_eq_ok_iff, insertEach_nil_left]

end SealedStore.Value
