/-
  What readers read, and where they fail.

  `Recognises read R` says that a reader takes off the front of its input exactly the byte
  strings that `R` relates to some result, and gives that result; the rest of the input has no
  say in it.  `Ends n` says that an outcome leaves the end of the input at position `n`, and
  that a fault is corruption at an offset up to there.  Readers are put together from smaller
  ones by binds, and each of the two has one lemma about binds that all readers share.

  `InOrder` and `Run` are the relations of two things in order and of any number of them; `Run`
  is what `Payload.times` recognises.
-/
import SealedStore.Codec.Payload
import SealedStore.Proofs.Codec.Varint
import SealedStore.Proofs.Text.Utf8

namespace SealedStore

/-- Two steps in a row give a result when the first gives something of which the second gives it. -/
theorem except_bind_eq_ok {ε α β : Type} {x : Except ε α} {f : α → Except ε β} {b : β} :
    (x >>= f) = .ok b ↔ ∃ a, x = .ok a ∧ f a = .ok b := by
  cases x with
  | error e =>
    constructor
    · intro h; nomatch h
    · rintro ⟨a, h, -⟩; nomatch h
  | ok a =>
    constructor
    · intro h; exact ⟨a, rfl, h⟩
    · rintro ⟨a', h, hf⟩
      obtain rfl := Except.ok.inj h
      exact hf

theorem except_ok_bind {ε α β : Type} (a : α) (f : α → Except ε β) :
    (Except.ok a >>= f) = f a := rfl

namespace Reader

variable {α β : Type}

/-! ## Relations between bytes and what they stand for -/

/-- One thing and then another. -/
def InOrder (R : Bytes → α → Prop) (S : Bytes → β → Prop) (raw : Bytes) (p : α × β) : Prop :=
  ∃ front back, raw = front ++ back ∧ R front p.1 ∧ S back p.2

/-- Any number of things, one after the other. -/
inductive Run (R : Bytes → α → Prop) : Bytes → List α → Prop where
  | nil : Run R [] []
  | cons {front back : Bytes} {x : α} {xs : List α} :
      R front x → Run R back xs → Run R (front ++ back) (x :: xs)

theorem run_nil_iff {R : Bytes → α → Prop} {raw : Bytes} : Run R raw [] ↔ raw = [] := by
  constructor
  · intro h
    cases h
    rfl
  · rintro rfl
    exact .nil

theorem run_cons_iff {R : Bytes → α → Prop} {raw : Bytes} {x : α} {xs : List α} :
    Run R raw (x :: xs) ↔ ∃ front back, raw = front ++ back ∧ R front x ∧ Run R back xs := by
  constructor
  · intro h
    cases h with
    | cons hx hxs => exact ⟨_, _, rfl, hx, hxs⟩
  · rintro ⟨front, back, rfl, hx, hxs⟩
    exact .cons hx hxs

/-- Things that can each be given some bytes can be given bytes together. -/
theorem exists_run {R : Bytes → α → Prop} {xs : List α} (h : ∀ x ∈ xs, ∃ raw, R raw x) :
    ∃ raw, Run R raw xs := by
  induction xs with
  | nil => exact ⟨[], .nil⟩
  | cons x xs ih =>
    obtain ⟨front, hx⟩ := h x List.mem_cons_self
    obtain ⟨back, hxs⟩ := ih fun y hy => h y (List.mem_cons_of_mem _ hy)
    exact ⟨front ++ back, .cons hx hxs⟩

/-- A row of what is so is a row of what follows from it. -/
theorem Run.imp {R S : Bytes → α → Prop} {raw : Bytes} {xs : List α} (h : Run R raw xs)
    (himp : ∀ x ∈ xs, ∀ raw, R raw x → S raw x) : Run S raw xs := by
  induction h with
  | nil => exact .nil
  | cons hx _ ih =>
    exact .cons (himp _ List.mem_cons_self _ hx)
      (ih fun x hx => himp x (List.mem_cons_of_mem _ hx))

/-- Every member of a row stands for a part of the bytes. -/
theorem Run.exists_of_mem {R : Bytes → α → Prop} {raw : Bytes} {xs : List α} (h : Run R raw xs)
    {x : α} (hx : x ∈ xs) : ∃ part, R part x ∧ part.length ≤ raw.length := by
  induction h with
  | nil => nomatch hx
  | cons hy _ ih =>
    rw [List.length_append]
    rcases List.mem_cons.mp hx with rfl | hx
    · exact ⟨_, hy, Nat.le_add_right _ _⟩
    · obtain ⟨part, hpart, hlen⟩ := ih hx
      exact ⟨part, hpart, Nat.le_trans hlen (Nat.le_add_left _ _)⟩

/-- What holds of each thing can be told apart from the bytes. -/
theorem run_and_iff {R : Bytes → α → Prop} {q : α → Prop} {raw : Bytes} {xs : List α} :
    Run (fun raw x => R raw x ∧ q x) raw xs ↔ Run R raw xs ∧ ∀ x ∈ xs, q x := by
  constructor
  · intro h
    refine ⟨h.imp fun x _ raw hx => hx.1, ?_⟩
    induction h with
    | nil => intro x hx; nomatch hx
    | cons hx _ ih => exact List.forall_mem_cons.mpr ⟨hx.2, ih⟩
  · rintro ⟨h, hq⟩
    exact h.imp fun x hx raw hR => ⟨hR, hq x hx⟩

/-- Things of at least so many bytes each take that many together. -/
theorem Run.le_length {R : Bytes → α → Prop} {least : Nat}
    (hleast : ∀ raw x, R raw x → least ≤ raw.length) {raw : Bytes} {xs : List α}
    (h : Run R raw xs) : xs.length * least ≤ raw.length := by
  induction h with
  | nil => rw [List.length_nil, Nat.zero_mul]; exact Nat.zero_le _
  | cons hx _ ih =>
    have := hleast _ _ hx
    rw [List.length_cons, List.length_append, Nat.succ_mul]
    omega

/-- Things no larger than their bytes are together no larger than all the bytes. -/
theorem Run.sum_le {R : Bytes → α → Prop} {raw : Bytes} {xs : List α} (h : Run R raw xs)
    {size : α → Nat} (hsize : ∀ x ∈ xs, ∀ raw, R raw x → size x ≤ raw.length) :
    (xs.map size).sum ≤ raw.length := by
  induction h with
  | nil => exact Nat.le_refl 0
  | cons hx _ ih =>
    have hfront := hsize _ List.mem_cons_self _ hx
    have hback := ih fun y hy => hsize y (List.mem_cons_of_mem _ hy)
    rw [List.map_cons, List.sum_cons, List.length_append]
    omega

/-! ## Recognition -/

/-- A reader gives `x` just when its input begins with bytes that `R` relates to `x`, and it
    takes off these bytes. -/
def Recognises (read : Reader α) (R : Bytes → α → Prop) : Prop :=
  ∀ i x j, read i = .ok (x, j) ↔
    ∃ front, R front x ∧ i.rest = front ++ j.rest ∧ j.pos = i.pos + front.length

theorem Recognises.congr {read : Reader α} {R S : Bytes → α → Prop} (h : Recognises read R)
    (hiff : ∀ raw x, R raw x ↔ S raw x) : Recognises read S := by
  obtain rfl : R = S := funext fun raw => funext fun x => propext (hiff raw x)
  exact h

/-- A reader applied to an input that it recognises. -/
theorem Recognises.read_append {read : Reader α} {R : Bytes → α → Prop} (h : Recognises read R)
    {raw : Bytes} {x : α} (hx : R raw x) (pos : Nat) (back : Bytes) :
    read ⟨pos, raw ++ back⟩ = .ok (x, ⟨pos + raw.length, back⟩) :=
  (h _ _ _).mpr ⟨raw, hx, rfl, rfl⟩

/-- No two byte strings that `R` relates to something begin each other, and each is related to
    one thing. -/
def Unambiguous (R : Bytes → α → Prop) : Prop :=
  ∀ ⦃a b x y⦄, R a x → R b y → ∀ t u, a ++ t = b ++ u → a = b ∧ x = y

/-- **What is recognised is unambiguous**, since a reader gives one result. -/
theorem Recognises.unambiguous {read : Reader α} {R : Bytes → α → Prop} (h : Recognises read R) :
    Unambiguous R := by
  intro a b x y ha hb t u heq
  have hread := h.read_append ha 0 t
  rw [heq, h.read_append hb 0 u] at hread
  obtain ⟨rfl, hj⟩ := Prod.mk.inj (Except.ok.inj hread)
  obtain ⟨-, rfl⟩ := Input.mk.inj hj
  exact ⟨List.append_cancel_right heq, rfl⟩

/-- A result without reading. -/
theorem recognises_pure (x : α) :
    Recognises (fun i => .ok (x, i)) (fun raw y => raw = [] ∧ y = x) := by
  intro i y j
  constructor
  · intro h
    obtain ⟨rfl, rfl⟩ := Prod.mk.inj (Except.ok.inj h)
    exact ⟨[], ⟨rfl, rfl⟩, rfl, rfl⟩
  · rintro ⟨front, ⟨rfl, rfl⟩, hrest, hpos⟩
    exact congrArg (fun j => Except.ok (y, j)) (by cases i; cases j; simp_all)

/-- **One reader after another.**  The second may depend on the result of the first, and on the
    first input, which only its faults can tell. -/
theorem Recognises.bind {read : Reader α} {next : Input → α → Reader β} {R : Bytes → α → Prop}
    {S : α → Bytes → β → Prop} (h : Recognises read R)
    (hnext : ∀ i x, Recognises (next i x) (S x)) :
    Recognises (fun i => do let (x, j) ← read i; next i x j)
      (fun raw y => ∃ x front back, raw = front ++ back ∧ R front x ∧ S x back y) := by
  intro i y k
  rw [except_bind_eq_ok]
  constructor
  · rintro ⟨⟨x, j⟩, hx, hy⟩
    obtain ⟨front, hR, hrest, hpos⟩ := (h i x j).mp hx
    obtain ⟨back, hS, hrest', hpos'⟩ := (hnext i x j y k).mp hy
    refine ⟨front ++ back, ⟨x, front, back, rfl, hR, hS⟩, ?_, ?_⟩
    · rw [hrest, hrest', List.append_assoc]
    · rw [hpos', hpos, List.length_append, Nat.add_assoc]
  · rintro ⟨raw, ⟨x, front, back, rfl, hR, hS⟩, hrest, hpos⟩
    refine ⟨(x, ⟨i.pos + front.length, back ++ k.rest⟩), ?_, ?_⟩
    · exact (h i x _).mpr ⟨front, hR, by rw [hrest, List.append_assoc], rfl⟩
    · refine (hnext i x _ y k).mpr ⟨back, hS, rfl, ?_⟩
      rw [hpos, List.length_append, Nat.add_assoc]

/-- A function of what is read. -/
theorem Recognises.map {read : Reader α} {R : Bytes → α → Prop} (h : Recognises read R)
    (f : α → β) :
    Recognises (fun i => do let (x, j) ← read i; .ok (f x, j))
      (fun raw y => ∃ x, R raw x ∧ y = f x) := by
  refine (h.bind fun _ x => recognises_pure (f x)).congr fun raw y => ?_
  constructor
  · rintro ⟨x, front, back, rfl, hR, rfl, rfl⟩
    exact ⟨x, by rwa [List.append_nil], rfl⟩
  · rintro ⟨x, hR, rfl⟩
    exact ⟨x, raw, [], (List.append_nil raw).symm, hR, rfl, rfl⟩

/-- One reader after another, when the second depends on a function of the first result. -/
theorem Recognises.bindMap {γ : Type} {read : Reader γ} {f : γ → α} {next : Input → α → Reader β}
    {R : Bytes → α → Prop} {S : α → Bytes → β → Prop}
    (h : Recognises (fun i => do let (z, j) ← read i; .ok (f z, j)) R)
    (hnext : ∀ i x, Recognises (next i x) (S x)) :
    Recognises (fun i => do let (z, j) ← read i; next i (f z) j)
      (fun raw y => ∃ x front back, raw = front ++ back ∧ R front x ∧ S x back y) := by
  intro i y k
  rw [← h.bind hnext i y k]
  dsimp only
  cases read i with
  | error e => exact Iff.rfl
  | ok found => exact Iff.rfl

/-- A reader behind a condition. -/
theorem recognises_guard {c : Prop} [Decidable c] {read : Reader α} {R : Bytes → α → Prop}
    (h : c → Recognises read R) (fault : CodecError) :
    Recognises (fun i => if c then read i else .error fault) (fun raw x => c ∧ R raw x) := by
  intro i x j
  by_cases hc : c
  · simp only [hc, true_and, if_true]
    exact h hc i x j
  · simp only [hc, false_and, exists_false, iff_false]
    intro h'
    nomatch h'

/-- A reader in front of which something is ruled out. -/
theorem recognises_unless {c : Prop} [Decidable c] {read : Reader α} {R : Bytes → α → Prop}
    (h : ¬ c → Recognises read R) (fault : CodecError) :
    Recognises (fun i => if c then .error fault else read i) (fun raw x => ¬ c ∧ R raw x) := by
  intro i x j
  by_cases hc : c
  · simp only [hc, not_true, false_and, exists_false, iff_false]
    intro h'
    nomatch h'
  · simp only [hc, not_false_iff, true_and, if_false]
    exact h hc i x j

/-- A reader that always fails. -/
theorem recognises_error (fault : Input → CodecError) :
    Recognises (fun i => (.error (fault i) : Except CodecError (α × Input)))
      (fun _ _ => False) := by
  intro i x j
  constructor
  · intro h; nomatch h
  · rintro ⟨front, hfalse, -⟩; exact hfalse.elim

/-- A byte is taken off wherever there is one. -/
theorem recognises_byte (atEnd : Cause) :
    Recognises (byte atEnd) (fun raw b => raw = [b]) := by
  rintro ⟨pos, rest⟩ b ⟨pos', rest'⟩
  cases rest with
  | nil =>
    constructor
    · intro h; nomatch h
    · rintro ⟨front, rfl, hrest, -⟩; nomatch hrest
  | cons c rest =>
    constructor
    · intro h
      obtain ⟨rfl, hj⟩ := Prod.mk.inj (Except.ok.inj h)
      obtain ⟨rfl, rfl⟩ := Input.mk.inj hj
      exact ⟨[c], rfl, rfl, rfl⟩
    · rintro ⟨front, rfl, hrest, hpos⟩
      obtain ⟨rfl, rfl⟩ := List.cons.inj hrest
      obtain rfl : pos' = pos + 1 := hpos
      rfl

/-- So many bytes are taken off as they are, where there are so many. -/
theorem recognises_take (n : Nat) :
    Recognises (take n) (fun raw b => raw = b ∧ raw.length = n) := by
  rintro i b ⟨pos', rest'⟩
  rw [take]
  constructor
  · intro h
    split at h
    · next front back hsplit =>
      obtain ⟨rfl, hj⟩ := Prod.mk.inj (Except.ok.inj h)
      obtain ⟨rfl, rfl⟩ := Input.mk.inj hj
      obtain ⟨hrest, hlen⟩ := Bytes.append_of_splitExact hsplit
      exact ⟨front, ⟨rfl, hlen⟩, hrest, by rw [hlen]⟩
    · nomatch h
  · rintro ⟨front, ⟨rfl, rfl⟩, hrest, hpos⟩
    rw [hrest, Bytes.splitExact_append]
    exact congrArg (fun p => Except.ok (front, Input.mk p rest')) hpos.symm

/-- Eight bytes are the bits of a float, and no two floats have the same. -/
theorem recognises_bits (make : UInt64 → β) :
    Recognises (fun i => do
        let (raw, j) ← take 8 i
        .ok (make (Bytes.ofBigEndian raw).toUInt64, j))
      (fun raw y => ∃ bits : UInt64, raw = Bytes.bigEndian 8 bits.toNat ∧ y = make bits) := by
  refine ((recognises_take 8).map fun raw => make (Bytes.ofBigEndian raw).toUInt64).congr
    fun raw v => ?_
  constructor
  · rintro ⟨_, ⟨rfl, hlen⟩, rfl⟩
    have hsmall : Bytes.ofBigEndian raw < 2 ^ 64 := by
      have := Bytes.ofBigEndian_lt raw
      rw [hlen] at this
      exact this
    refine ⟨_, ?_, rfl⟩
    rw [Nat.toUInt64, UInt64.toNat_ofNat', Nat.mod_eq_of_lt hsmall, ← hlen,
      Bytes.bigEndian_ofBigEndian]
  · rintro ⟨bits, rfl, rfl⟩
    refine ⟨_, ⟨rfl, Bytes.length_bigEndian 8 _⟩, ?_⟩
    rw [Bytes.ofBigEndian_bigEndian bits.toNat_lt]
    exact congrArg make (UInt64.toNat_inj.mp (UInt64.toNat_ofNat_of_lt bits.toNat_lt).symm)

/-- What is made of the text that bytes are, which were read before. -/
theorem recognises_utf8 (pos : Nat) (raw : Bytes) (make : String → β) :
    Recognises (fun i => do let s ← utf8 pos raw; .ok (make s, i))
      (fun front y => front = [] ∧ ∃ s, raw = Utf8.encode s ∧ y = make s) := by
  intro i y j
  rw [except_bind_eq_ok]
  constructor
  · rintro ⟨s, hdecode, h⟩
    obtain ⟨rfl, rfl⟩ := Prod.mk.inj (Except.ok.inj h)
    refine ⟨[], ⟨rfl, s, Utf8.decode_eq_ok_iff.mp ?_, rfl⟩, rfl, rfl⟩
    unfold utf8 at hdecode
    split at hdecode
    · next s' hs =>
      obtain rfl := Except.ok.inj hdecode
      exact hs
    · nomatch hdecode
  · rintro ⟨_, ⟨rfl, s, hraw, rfl⟩, hrest, hpos⟩
    refine ⟨s, by simp only [utf8, Utf8.decode_eq_ok_iff.mpr hraw], ?_⟩
    cases i
    cases j
    simp_all

/-! ## Ambiguity -/

/-- Two things one after the other can be told apart when each can. -/
theorem Unambiguous.inOrder {R : Bytes → α → Prop} {S : Bytes → β → Prop} (hR : Unambiguous R)
    (hS : Unambiguous S) : Unambiguous (InOrder R S) := by
  rintro _ _ ⟨x, y⟩ ⟨x', y'⟩ ⟨a, b, rfl, ha, hb⟩ ⟨a', b', rfl, ha', hb'⟩ t u heq
  rw [List.append_assoc, List.append_assoc] at heq
  obtain ⟨rfl, rfl⟩ : a = a' ∧ x = x' := hR ha ha' _ _ heq
  obtain ⟨rfl, rfl⟩ : b = b' ∧ y = y' := hS hb hb' _ _ (List.append_cancel_left heq)
  exact ⟨rfl, rfl⟩

/-- Runs of one length are as unambiguous as the things that they consist of. -/
theorem Unambiguous.run {R : Bytes → α → Prop} (hR : Unambiguous R) {a b : Bytes}
    {xs ys : List α} (ha : Run R a xs) (hb : Run R b ys) (hlen : xs.length = ys.length)
    {t u : Bytes} (heq : a ++ t = b ++ u) : a = b ∧ xs = ys := by
  induction ha generalizing b ys with
  | nil =>
    cases hb with
    | nil => exact ⟨rfl, rfl⟩
    | cons _ _ => nomatch hlen
  | cons hx _ ih =>
    cases hb with
    | nil => nomatch hlen
    | cons hy hys =>
      rw [List.append_assoc, List.append_assoc] at heq
      obtain ⟨rfl, rfl⟩ := hR hx hy _ _ heq
      obtain ⟨rfl, rfl⟩ := ih hys (Nat.succ.inj hlen) (List.append_cancel_left heq)
      exact ⟨rfl, rfl⟩

/-! ## Ends and faults -/

end Reader

/-- The position at which an input ends. -/
def Input.endPos (i : Input) : Nat := i.pos + i.rest.length

namespace Reader

variable {α β : Type}

/-- What is left ends at `n`, or a fault lies no further than `n` and is corruption. -/
def Ends (n : Nat) : Except CodecError (α × Input) → Prop
  | .ok (_, j) => j.endPos = n
  | .error e => ∃ offset cause, e = .corrupt offset cause ∧ offset ≤ n

/-- A reader keeps to its input: it leaves the end where it is, and finds faults before it. -/
def KeepsEnd (read : Reader α) : Prop := ∀ i, Ends i.endPos (read i)

theorem pos_le_endPos (i : Input) : i.pos ≤ i.endPos := Nat.le_add_right _ _

theorem ends_corrupt {n offset : Nat} (h : offset ≤ n) (cause : Cause) :
    Ends (α := α) n (.error (.corrupt offset cause)) := ⟨offset, cause, rfl, h⟩

/-- **Faults of one reader after another** are those of either. -/
theorem Ends.bind {n : Nat} {r : Except CodecError (α × Input)}
    {next : α × Input → Except CodecError (β × Input)} (h : Ends n r)
    (hnext : ∀ x j, j.endPos = n → Ends n (next (x, j))) : Ends n (r >>= next) := by
  cases r with
  | error e => exact h
  | ok found => exact hnext found.1 found.2 h

theorem KeepsEnd.ends {read : Reader α} (h : KeepsEnd read) {i : Input} {n : Nat}
    (hn : i.endPos = n) : Ends n (read i) := by
  subst hn
  exact h i

theorem keepsEnd_byte (atEnd : Cause) : KeepsEnd (byte atEnd) := by
  rintro ⟨pos, rest⟩
  cases rest with
  | nil => exact ends_corrupt (pos_le_endPos _) _
  | cons b rest =>
    show pos + 1 + rest.length = pos + (rest.length + 1)
    omega

theorem keepsEnd_take (n : Nat) : KeepsEnd (take n) := by
  intro i
  rw [take]
  split
  · next front back hsplit =>
    obtain ⟨hrest, hlen⟩ := Bytes.append_of_splitExact hsplit
    show i.pos + n + back.length = i.pos + i.rest.length
    rw [hrest, List.length_append, hlen, Nat.add_assoc]
  · exact ends_corrupt (pos_le_endPos i) _

end Reader

end SealedStore
