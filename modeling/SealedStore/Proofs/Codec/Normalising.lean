/-
  Writing again what was read.

  A payload may spell its numbers with more bytes than they need, so many payloads have one value.
  Whatever was read can be written, since the reader has checked all that the writer checks.  What
  is written is the one spelling in which every varint is as short as can be (`Normal`), and any
  other spelling of the value is longer (`Shortens`): layouts are compared piece by piece, and only
  their varints can differ.
-/
import SealedStore.Proofs.Codec.RoundTrip

namespace SealedStore.Payload

open Reader

/-! ## Longer spellings of one thing -/

/-- The first byte string is the second or has fewer bytes. -/
def NoLonger (short long : Bytes) : Prop := short = long ∨ short.length < long.length

/-- What `S` allows for a thing is no longer than anything that `R` allows for it. -/
def Shortens {α : Type} (S R : Bytes → α → Prop) (x : α) : Prop :=
  ∀ short long, S short x → R long x → NoLonger short long

namespace NoLonger

theorem refl (b : Bytes) : NoLonger b b := .inl rfl

/-- Two parts that are no longer are no longer together, and the same only if both are. -/
theorem append {a a' b b' : Bytes} (ha : NoLonger a a') (hb : NoLonger b b') :
    NoLonger (a ++ b) (a' ++ b') := by
  unfold NoLonger
  rw [List.length_append, List.length_append]
  rcases ha with rfl | ha
  · rcases hb with rfl | hb
    · exact .inl rfl
    · exact .inr (by omega)
  · rcases hb with rfl | hb
    · exact .inr (by omega)
    · exact .inr (by omega)

theorem cons {b b' : Bytes} (x : UInt8) (h : NoLonger b b') : NoLonger (x :: b) (x :: b') :=
  append (refl [x]) h

theorem length_le {short long : Bytes} (h : NoLonger short long) : short.length ≤ long.length := by
  rcases h with rfl | hlt
  · exact Nat.le_refl _
  · exact Nat.le_of_lt hlt

theorem eq_iff {short long : Bytes} (h : NoLonger short long) :
    short = long ↔ short.length = long.length := by
  constructor
  · rintro rfl
    rfl
  · intro hlen
    rcases h with heq | hlt
    · exact heq
    · exact absurd hlen (Nat.ne_of_lt hlt)

/-- Byte strings of which neither is longer are the same. -/
theorem antisymm {a b : Bytes} (h : NoLonger a b) (h' : NoLonger b a) : a = b :=
  h.eq_iff.mpr (Nat.le_antisymm h.length_le h'.length_le)

end NoLonger

theorem shortens_varint (n : Nat) : Shortens Varint.Minimal Varint.Denotes n := by
  intro short long hshort hlong
  obtain ⟨rfl, -⟩ := Varint.minimal_iff.mp hshort
  exact hlong.eq_or_lt

section
variable {α β : Type} {R R' : Bytes → α → Prop} {S S' : Bytes → β → Prop}

theorem Shortens.inOrder {p : α × β} (hR : Shortens R R' p.1) (hS : Shortens S S' p.2) :
    Shortens (InOrder R S) (InOrder R' S') p := by
  rintro _ _ ⟨a, b, rfl, ha, hb⟩ ⟨a', b', rfl, ha', hb'⟩
  exact (hR a a' ha ha').append (hS b b' hb hb')

/-- A row is shortest when each of its members is. -/
theorem Shortens.run {xs : List α} (h : ∀ x ∈ xs, Shortens R R' x) :
    Shortens (Run R) (Run R') xs := by
  induction xs with
  | nil =>
    intro short long hshort hlong
    rw [run_nil_iff.mp hshort, run_nil_iff.mp hlong]
    exact .refl []
  | cons x xs ih =>
    obtain ⟨hx, hxs⟩ := List.forall_mem_cons.mp h
    intro short long hshort hlong
    obtain ⟨a, b, rfl, ha, hb⟩ := run_cons_iff.mp hshort
    obtain ⟨a', b', rfl, ha', hb'⟩ := run_cons_iff.mp hlong
    exact (hx a a' ha ha').append (ih hxs b b' hb hb')

theorem shortens_sized (b : Bytes) : Shortens (Sized Varint.Minimal) (Sized Varint.Denotes) b := by
  rintro _ _ ⟨a, rfl, ha⟩ ⟨a', rfl, ha'⟩
  exact (shortens_varint _ a a' ha ha').append (.refl b)

theorem shortens_sizedText (s : String) :
    Shortens (SizedText Varint.Minimal) (SizedText Varint.Denotes) s :=
  shortens_sized _

theorem Shortens.counted {xs : List α} (h : ∀ x ∈ xs, Shortens R R' x) :
    Shortens (Counted Varint.Minimal R) (Counted Varint.Denotes R') xs := by
  rintro _ _ ⟨a, b, rfl, ha, hb⟩ ⟨a', b', rfl, ha', hb'⟩
  exact (shortens_varint _ a a' ha ha').append (Shortens.run h b b' hb hb')

end

/-- Layouts of one value differ in their varints alone, and in their members. -/
theorem Shortens.layout {M M' : Bytes → Value → Prop} {v : Value}
    (h : ∀ w ∈ v.members, Shortens M M' w) :
    Shortens (Layout Varint.Minimal M) (Layout Varint.Denotes M') v := by
  rintro _ _ ⟨short, rfl, hshort⟩ ⟨long, rfl, hlong⟩
  refine .cons (tag v) ?_
  cases v with
  | none =>
    obtain rfl : short = [] := hshort
    obtain rfl : long = [] := hlong
    exact .refl []
  | bool b =>
    obtain rfl : short = [] := hshort
    obtain rfl : long = [] := hlong
    exact .refl []
  | int n =>
    obtain ⟨z, hz, rfl⟩ := hshort
    obtain ⟨z', hz', heq⟩ := hlong
    -- numbers of 64 bits are the same when they stand for the same integer
    obtain rfl : z = z' := by
      rw [← Varint.zigzag_unzigzag hz.1.small, ← Varint.zigzag_unzigzag hz'.small, heq]
    exact shortens_varint z _ _ hz hz'
  | float bits =>
    obtain rfl : short = Bytes.bigEndian 8 bits.toNat := hshort
    obtain rfl : long = Bytes.bigEndian 8 bits.toNat := hlong
    exact .refl _
  | str s => exact shortens_sizedText s _ _ hshort hlong
  | bytes b => exact shortens_sized b _ _ hshort hlong
  | tuple items => exact Shortens.counted h _ _ hshort hlong
  | list items => exact Shortens.counted h _ _ hshort hlong
  | dict entries =>
    refine Shortens.counted (fun e he => ?_) _ _ hshort hlong
    have hkey := h e.1 (Value.mem_members_dict.mpr ⟨e, he, .inl rfl⟩)
    have hvalue := h e.2 (Value.mem_members_dict.mpr ⟨e, he, .inr rfl⟩)
    exact hkey.inOrder hvalue
  | record cls fields =>
    refine Shortens.inOrder (shortens_sizedText cls) (Shortens.counted fun f hf => ?_) _ _ hshort
      hlong
    exact (shortens_sizedText f.1).inOrder (h f.2 (Value.mem_members_record.mpr ⟨f, hf, rfl⟩))

/-- **No spelling of a value is shorter than that with minimal varints**, and none as short. -/
theorem shortens_spells (L L' : Value → Prop) (room room' : Nat) (v : Value) :
    Shortens (Spells Varint.Minimal L room) (Spells Varint.Denotes L' room') v := by
  induction v using Value.byMembers generalizing room room' with
  | step v ih =>
    intro short long hshort hlong
    cases room with
    | zero => exact hshort.elim
    | succ room =>
      cases room' with
      | zero => exact hlong.elim
      | succ room' =>
        exact Shortens.layout (fun w hw => ih w hw room room') _ _ hshort.2 hlong.2

/-! ## What was read can be written -/

section
variable {Number : Bytes → Nat → Prop} {L : Value → Prop} {M : Bytes → Value → Prop} {raw : Bytes}
  {v : Value}

/-- A value that is spelled within so many levels is less deep. -/
theorem level_lt_of_spells {room : Nat} (h : Spells Number L room raw v) : v.level < room := by
  induction room generalizing raw v with
  | zero => exact h.elim
  | succ room ih =>
    refine Nat.lt_succ_of_le (Value.level_le_iff.mpr fun w hw => ?_)
    obtain ⟨part, hpart, -⟩ := h.2.member hw
    exact ih hpart

/-- The extents of a value are spelled in its layout. -/
theorem Layout.exists_extent (h : Layout Number M raw v) :
    ∀ n ∈ extents v, ∃ part, Number part n := by
  obtain ⟨body, -, hbody⟩ := h
  cases v with
  | str s =>
    obtain ⟨len, -, hlen⟩ := hbody
    exact List.forall_mem_singleton.mpr ⟨len, hlen⟩
  | bytes b =>
    obtain ⟨len, -, hlen⟩ := hbody
    exact List.forall_mem_singleton.mpr ⟨len, hlen⟩
  | tuple items =>
    obtain ⟨count, -, -, hcount, -⟩ := hbody
    exact List.forall_mem_singleton.mpr ⟨count, hcount⟩
  | list items =>
    obtain ⟨count, -, -, hcount, -⟩ := hbody
    exact List.forall_mem_singleton.mpr ⟨count, hcount⟩
  | dict entries =>
    obtain ⟨count, -, -, hcount, -⟩ := hbody
    exact List.forall_mem_singleton.mpr ⟨count, hcount⟩
  | record cls fields =>
    obtain ⟨-, -, -, ⟨len, -, hcls⟩, count, body, -, hcount, hrun⟩ := hbody
    refine List.forall_mem_cons.mpr ⟨⟨len, hcls⟩, List.forall_mem_cons.mpr ⟨⟨count, hcount⟩, ?_⟩⟩
    intro n hn
    obtain ⟨f, hf, rfl⟩ := List.mem_map.mp hn
    obtain ⟨-, ⟨-, -, -, ⟨len, -, hname⟩, -⟩, -⟩ := hrun.exists_of_mem hf
    exact ⟨len, hname⟩
  | _ =>
    intro n hn
    nomatch hn

/-- What is spelled has lengths and counts of 64 bits, as a varint can be no other. -/
theorem addressable_of_spells {room : Nat} (h : Spells Varint.Denotes L room raw v) :
    v.Everywhere Addressable := by
  induction room generalizing raw v with
  | zero => exact h.elim
  | succ room ih =>
    refine Value.everywhere_iff.mpr ⟨fun n hn => ?_, fun w hw => ?_⟩
    · obtain ⟨part, hpart⟩ := h.2.exists_extent n hn
      exact hpart.small
    · obtain ⟨part, hpart, -⟩ := h.2.member hw
      exact ih hpart

/-- Members that have no more values than bytes are together so few. -/
theorem Layout.weight_lt
    (hM : ∀ w ∈ v.members, ∀ raw, M raw w → w.nodes.length ≤ raw.length)
    (h : Layout Number M raw v) : Value.weight v.members < raw.length := by
  obtain ⟨body, rfl, hbody⟩ := h
  suffices Value.weight v.members ≤ body.length from Nat.lt_succ_of_le this
  cases v with
  | tuple items =>
    obtain ⟨count, run, rfl, -, hrun⟩ := hbody
    have hle : Value.weight items ≤ run.length := hrun.sum_le hM
    rw [List.length_append]
    exact Nat.le_trans hle (Nat.le_add_left _ _)
  | list items =>
    obtain ⟨count, run, rfl, -, hrun⟩ := hbody
    have hle : Value.weight items ≤ run.length := hrun.sum_le hM
    rw [List.length_append]
    exact Nat.le_trans hle (Nat.le_add_left _ _)
  | dict entries =>
    obtain ⟨count, run, rfl, -, hrun⟩ := hbody
    have hle : Value.weight (Value.dict entries).members ≤ run.length := by
      rw [Value.members, Value.weight_flatMap]
      refine hrun.sum_le ?_
      rintro e he _ ⟨front, back, rfl, hk, hv⟩
      have hkey := hM e.1 (Value.mem_members_dict.mpr ⟨e, he, .inl rfl⟩) front hk
      have hvalue := hM e.2 (Value.mem_members_dict.mpr ⟨e, he, .inr rfl⟩) back hv
      show e.1.nodes.length + (e.2.nodes.length + 0) ≤ _
      rw [List.length_append]
      omega
    rw [List.length_append]
    exact Nat.le_trans hle (Nat.le_add_left _ _)
  | record cls fields =>
    obtain ⟨front, _, rfl, -, count, run, rfl, -, hrun⟩ := hbody
    have hle : Value.weight (Value.record cls fields).members ≤ run.length := by
      rw [Value.members, Value.weight, List.map_map]
      refine hrun.sum_le ?_
      rintro f hf _ ⟨name, back, rfl, -, hv⟩
      have hvalue := hM f.2 (Value.mem_members_record.mpr ⟨f, hf, rfl⟩) back hv
      show f.2.nodes.length ≤ _
      rw [List.length_append]
      omega
    rw [List.length_append, List.length_append]
    omega
  | _ => exact Nat.zero_le _

/-- **No value has more nodes than bytes that spell it**, since each node has its tag. -/
theorem nodes_le_of_spells {room : Nat} (h : Spells Number L room raw v) :
    v.nodes.length ≤ raw.length := by
  induction room generalizing raw v with
  | zero => exact h.elim
  | succ room ih =>
    rw [Value.length_nodes, Nat.add_comm]
    exact Layout.weight_lt (fun w _ raw hw => ih hw) h.2

end

/-! ## Normal payloads -/

/-- The payloads of the grammar in which every varint has the fewest bytes that it can have. -/
def Normal : Bytes → Value → Prop := Spells Varint.Minimal Lawful (maxDepth + 1)

theorem grammar_of_normal {b : Bytes} {v : Value} (h : Normal b v) : Grammar b v :=
  h.imp (fun _ _ hn => hn.1) fun _ _ hlawful => hlawful

/-- **What was read can be written**, and is so with minimal varints. -/
theorem exists_encode_of_grammar {b : Bytes} {v : Value} (h : Grammar b v) :
    ∃ b', encode v = .ok b' ∧ Normal b' v := by
  have hlawful : v.Everywhere Lawful := (spells_iff.mp h).2
  have hlevel : v.level ≤ maxDepth := Nat.le_of_lt_succ (level_lt_of_spells h)
  have haddr := addressable_of_spells h
  obtain ⟨b', hb'⟩ : ∃ b', encode v = .ok b' := by
    refine exists_encodeAt_iff.mpr ⟨?_, hlawful.imp fun w hw => hw.1⟩
    rwa [Nat.zero_add]
  have hminimal : ∀ n < 2 ^ 64, Varint.Minimal (Varint.encode n) n := fun n hn =>
    Varint.minimal_iff.mpr ⟨rfl, hn⟩
  have hspells := spells_of_encodeAt hminimal hb' (haddr.imp fun w hw n hn => hminimal n (hw n hn))
  exact ⟨b', hb', spells_iff.mpr ⟨(spells_iff.mp hspells).1, hlawful⟩⟩

/-- A value has one normal payload, and that is shorter than all others. -/
theorem noLonger_of_normal {b b' : Bytes} {v : Value} (h : Normal b' v) (h' : Grammar b v) :
    NoLonger b' b :=
  shortens_spells _ _ _ _ v b' b h h'

/-- **Reading and writing again normalises a payload.**  The value has no more nodes than the
    payload bytes.  It can be written, in no more bytes, and what is written is read as the same
    value and then written as it is.  It is the payload itself just when all varints in that are
    minimal, and just when it is as long. -/
theorem reencoding_normalises {b : Bytes} {v : Value} (h : decode b = .ok v) :
    v.nodes.length ≤ b.length ∧ ∃ b', encode v = .ok b' ∧ b'.length ≤ b.length ∧ Normal b' v ∧
      (∃ w, decode b' = .ok w ∧ w.sameAs v = true ∧ encode w = .ok b') ∧
      (b' = b ↔ Normal b v) ∧ (b' = b ↔ b'.length = b.length) := by
  have hgrammar := grammar_of_decode h
  obtain ⟨b', hb', hnormal⟩ := exists_encode_of_grammar hgrammar
  have hshort := noLonger_of_normal hnormal hgrammar
  refine ⟨nodes_le_of_spells hgrammar, b', hb', hshort.length_le, hnormal, ?_, ?_, hshort.eq_iff⟩
  · have hback := decode_of_grammar (grammar_of_normal hnormal)
    exact ⟨v, hback, (Value.sameAs_iff_eq v v).mpr rfl, hb'⟩
  · constructor
    · rintro rfl
      exact hnormal
    · intro hb
      exact hshort.antisymm (noLonger_of_normal hb (grammar_of_normal hnormal))

/-- A list of the integer -1 and a dictionary, with a count of two bytes and an integer of three. -/
def padded : Bytes := [0x08, 0x82, 0x00, 0x03, 0x81, 0x80, 0x00, 0x09, 1, 0x05, 1, 0x61, 0x02]

/-- Five values in 13 bytes are written again in ten, and the ten are in normal form. -/
theorem padded_normalises :
    ∃ v b', decode padded = .ok v ∧ encode v = .ok b' ∧ v.nodes.length = 5 ∧ b'.length = 10 ∧
      b' ≠ padded ∧ ¬ Normal padded v ∧ Normal b' v := by
  have hdecode : decode padded = .ok (.list [.int (-1), .dict [(.str "a", .bool true)]]) := rfl
  obtain ⟨-, b', hb', -, hnormal, -, hiff, -⟩ := reencoding_normalises hdecode
  have hwritten : encode (.list [.int (-1), .dict [(.str "a", .bool true)]]) =
      .ok [0x08, 2, 0x03, 1, 0x09, 1, 0x05, 1, 0x61, 0x02] := rfl
  obtain rfl := Except.ok.inj (hb'.symm.trans hwritten)
  have hne : ([0x08, 2, 0x03, 1, 0x09, 1, 0x05, 1, 0x61, 0x02] : Bytes) ≠ padded := by decide
  exact ⟨_, _, hdecode, hwritten, rfl, rfl, hne, fun h => hne (hiff.mpr h), hnormal⟩

end SealedStore.Payload
