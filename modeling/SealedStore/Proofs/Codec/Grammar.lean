/-
  The grammar of payloads.

  A value is one tag byte and a body, and the body is made of numbers, sized byte strings and
  counted runs of members (`Layout`).  `Spells` puts layouts inside layouts: `Spells N L room b v`
  says that `b` spells `v`, that every value in it obeys `L`, and that no value lies inside `room`
  containers or more.  How a number is spelled is the parameter `N`: the grammar of readable
  payloads takes every varint that denotes the number.

  No spelling begins another, and a byte string spells one value (`unambiguous_spells`); this
  asks nothing of the values, so it also holds of spellings that no reader takes.
-/
import SealedStore.Proofs.Codec.Reader
import SealedStore.Proofs.Value.WellFormed

namespace SealedStore.Payload

open Reader

/-! ## Layouts -/

section
variable (Number : Bytes → Nat → Prop)

/-- A length, and that many bytes. -/
def Sized (raw b : Bytes) : Prop := ∃ len, raw = len ++ b ∧ Number len b.length

/-- A length, and that many bytes of text. -/
def SizedText (raw : Bytes) (s : String) : Prop := Sized Number raw (Utf8.encode s)

/-- A count, and that many things. -/
def Counted {α : Type} (R : Bytes → α → Prop) (raw : Bytes) (xs : List α) : Prop :=
  ∃ count body, raw = count ++ body ∧ Number count xs.length ∧ Run R body xs

/-- The byte that a value begins with. -/
def tag : Value → UInt8
  | .none => 0x00
  | .bool false => 0x01
  | .bool true => 0x02
  | .int _ => 0x03
  | .float _ => 0x04
  | .str _ => 0x05
  | .bytes _ => 0x06
  | .tuple _ => 0x07
  | .list _ => 0x08
  | .dict _ => 0x09
  | .record _ _ => 0x0A

variable (Member : Bytes → Value → Prop)

/-- What follows the tag byte of a value, by the spelling of its members. -/
def Body (raw : Bytes) : Value → Prop
  | .none => raw = []
  | .bool _ => raw = []
  | .int n => ∃ z, Number raw z ∧ n = Varint.unzigzag z
  | .float bits => raw = Bytes.bigEndian 8 bits.toNat
  | .str s => SizedText Number raw s
  | .bytes b => Sized Number raw b
  | .tuple items => Counted Number Member raw items
  | .list items => Counted Number Member raw items
  | .dict entries => Counted Number (InOrder Member Member) raw entries
  | .record cls fields =>
    InOrder (SizedText Number) (Counted Number (InOrder (SizedText Number) Member)) raw
      (cls, fields)

/-- A tag byte and a body. -/
def Layout (raw : Bytes) (v : Value) : Prop :=
  ∃ body, raw = tag v :: body ∧ Body Number Member body v

variable (Lawful : Value → Prop)

/-- The bytes spell the value, inside which every value is lawful, and none lies inside `room`
    containers or more. -/
def Spells : (room : Nat) → Bytes → Value → Prop
  | 0, _, _ => False
  | room + 1, raw, v => Lawful v ∧ Layout Number (Spells room) raw v

end

/-- What a reader of payloads asks of a value, apart from how deep it lies: the keys of a
    dictionary may be keys, and the fields of a record have valid and distinct names. -/
def Lawful (v : Value) : Prop := v.KeysHashable ∧ v.FieldsNamed

/-- **The grammar of payloads.**  Numbers are varints of one to ten bytes, minimal or not, values
    are lawful, and no value lies inside more than `maxDepth` containers. -/
def Grammar : Bytes → Value → Prop := Spells Varint.Denotes Lawful (maxDepth + 1)

/-! ## Changing the parameters -/

section
variable {Number Number' : Bytes → Nat → Prop}

theorem Sized.imp (hN : ∀ raw n, Number raw n → Number' raw n) {raw b : Bytes}
    (h : Sized Number raw b) : Sized Number' raw b := by
  obtain ⟨len, rfl, hlen⟩ := h
  exact ⟨len, rfl, hN _ _ hlen⟩

theorem Counted.imp (hN : ∀ raw n, Number raw n → Number' raw n) {α : Type}
    {R S : Bytes → α → Prop} {raw : Bytes} {xs : List α} (h : Counted Number R raw xs)
    (hRS : ∀ x ∈ xs, ∀ raw, R raw x → S raw x) : Counted Number' S raw xs := by
  obtain ⟨count, body, rfl, hcount, hrun⟩ := h
  exact ⟨count, body, rfl, hN _ _ hcount, hrun.imp hRS⟩

/-- There are no more things than bytes, as each takes one at least. -/
theorem Counted.length_le {α : Type} {R : Bytes → α → Prop}
    (hleast : ∀ raw x, R raw x → 1 ≤ raw.length) {raw : Bytes} {xs : List α}
    (h : Counted Number R raw xs) : xs.length ≤ raw.length := by
  obtain ⟨count, body, rfl, -, hrun⟩ := h
  have := hrun.le_length hleast
  rw [List.length_append]
  omega

theorem Sized.length_le {raw b : Bytes} (h : Sized Number raw b) :
    b.length ≤ raw.length := by
  obtain ⟨len, rfl, -⟩ := h
  rw [List.length_append]
  omega

/-- A layout stays one when other spellings are allowed for its numbers and its members. -/
theorem Layout.imp (hN : ∀ raw n, Number raw n → Number' raw n) {M M' : Bytes → Value → Prop}
    {raw : Bytes} {v : Value} (h : Layout Number M raw v)
    (hM : ∀ w ∈ v.members, ∀ raw, M raw w → M' raw w) : Layout Number' M' raw v := by
  obtain ⟨body, rfl, hbody⟩ := h
  refine ⟨body, rfl, ?_⟩
  cases v with
  | none => exact hbody
  | bool b => exact hbody
  | int n =>
    obtain ⟨z, hz, rfl⟩ := hbody
    exact ⟨z, hN _ _ hz, rfl⟩
  | float bits => exact hbody
  | str s => exact Sized.imp hN hbody
  | bytes b => exact Sized.imp hN hbody
  | tuple items => exact Counted.imp hN hbody hM
  | list items => exact Counted.imp hN hbody hM
  | dict entries =>
    refine Counted.imp hN hbody ?_
    rintro e he _ ⟨front, back, rfl, hk, hv⟩
    exact ⟨front, back, rfl, hM _ (Value.mem_members_dict.mpr ⟨e, he, .inl rfl⟩) _ hk,
      hM _ (Value.mem_members_dict.mpr ⟨e, he, .inr rfl⟩) _ hv⟩
  | record cls fields =>
    obtain ⟨front, back, rfl, hcls, hfields⟩ := hbody
    refine ⟨front, back, rfl, Sized.imp hN hcls, Counted.imp hN hfields ?_⟩
    rintro f hf _ ⟨name, value, rfl, hname, hvalue⟩
    exact ⟨name, value, rfl, Sized.imp hN hname,
      hM _ (Value.mem_members_record.mpr ⟨f, hf, rfl⟩) _ hvalue⟩

/-- Every layout has its tag byte. -/
theorem Layout.length_pos {M : Bytes → Value → Prop} {raw : Bytes} {v : Value}
    (h : Layout Number M raw v) : 1 ≤ raw.length := by
  obtain ⟨body, rfl, -⟩ := h
  exact Nat.succ_pos _

/-- A value takes a byte at least, for its tag. -/
theorem Spells.length_pos {L : Value → Prop} {room : Nat} {raw : Bytes} {v : Value}
    (h : Spells Number L room raw v) : 1 ≤ raw.length := by
  cases room with
  | zero => exact h.elim
  | succ room => exact h.2.length_pos

theorem Spells.imp (hN : ∀ raw n, Number raw n → Number' raw n) {L L' : Value → Prop} {room : Nat}
    {raw : Bytes} {v : Value} (h : Spells Number L room raw v)
    (hL : v.Everywhere fun w => L w → L' w) :
    Spells Number' L' room raw v := by
  induction room generalizing raw v with
  | zero => exact h
  | succ room ih =>
    exact ⟨hL.self h.1, h.2.imp hN fun w hw raw hraw => ih hraw (hL.member hw)⟩

theorem Counted.exists_of_mem {α : Type} {R : Bytes → α → Prop} {raw : Bytes} {xs : List α}
    (h : Counted Number R raw xs) {x : α} (hx : x ∈ xs) :
    ∃ part, R part x ∧ part.length ≤ raw.length := by
  obtain ⟨count, body, rfl, -, hrun⟩ := h
  obtain ⟨part, hpart, hlen⟩ := hrun.exists_of_mem hx
  exact ⟨part, hpart, by rw [List.length_append]; omega⟩

/-- Every member of a value that is laid out is spelled in less room. -/
theorem Layout.member {M : Bytes → Value → Prop} {raw : Bytes} {v : Value}
    (h : Layout Number M raw v) {w : Value} (hw : w ∈ v.members) :
    ∃ part, M part w ∧ part.length < raw.length := by
  obtain ⟨body, rfl, hbody⟩ := h
  suffices ∃ part, M part w ∧ part.length ≤ body.length by
    obtain ⟨part, hpart, hlen⟩ := this
    exact ⟨part, hpart, Nat.lt_succ_of_le hlen⟩
  cases v with
  | tuple items => exact Counted.exists_of_mem hbody hw
  | list items => exact Counted.exists_of_mem hbody hw
  | dict entries =>
    obtain ⟨e, he, heq⟩ := Value.mem_members_dict.mp hw
    -- key and value share the part of their entry
    obtain ⟨_, ⟨front, back, rfl, hk, hv⟩, hlen⟩ := Counted.exists_of_mem hbody he
    rw [List.length_append] at hlen
    rcases heq with rfl | rfl
    · exact ⟨front, hk, by omega⟩
    · exact ⟨back, hv, by omega⟩
  | record cls fields =>
    obtain ⟨front, back, rfl, -, hfields⟩ := hbody
    obtain ⟨f, hf, rfl⟩ := Value.mem_members_record.mp hw
    obtain ⟨_, ⟨name, value, rfl, -, hvalue⟩, hlen⟩ := Counted.exists_of_mem hfields hf
    rw [List.length_append] at hlen ⊢
    exact ⟨value, hvalue, by omega⟩
  | _ => nomatch hw

/-- The laws of a grammar can be told apart from its layouts. -/
theorem spells_iff {L : Value → Prop} {room : Nat} {raw : Bytes} {v : Value} :
    Spells Number L room raw v ↔ Spells Number (fun _ => True) room raw v ∧ v.Everywhere L := by
  constructor
  · intro h
    refine ⟨h.imp (fun _ _ hn => hn) fun _ _ _ => trivial, ?_⟩
    induction room generalizing raw v with
    | zero => exact h.elim
    | succ room ih =>
      refine Value.everywhere_iff.mpr ⟨h.1, fun w hw => ?_⟩
      -- a member is spelled by some of the bytes, in one less room
      obtain ⟨part, hw', -⟩ := h.2.member hw
      exact ih hw'
  · rintro ⟨h, hL⟩
    exact h.imp (fun _ _ hn => hn) fun w hw _ => hL w hw

end

/-! ## Ambiguity -/

/-- The kind of a value is known from its tag. -/
theorem peekKind_tag (v : Value) (rest : Bytes) : peekKind (tag v :: rest) = some v.kind := by
  cases v with
  | bool b => cases b <;> rfl
  | _ => rfl

theorem kind_eq_of_tag_eq {v w : Value} (h : tag v = tag w) : v.kind = w.kind := by
  have hkind := peekKind_tag v []
  rw [h, peekKind_tag w []] at hkind
  exact (Option.some.inj hkind).symm

section
variable {Number : Bytes → Nat → Prop}

theorem unambiguous_sized (hN : Unambiguous Number) : Unambiguous (Sized Number) := by
  rintro _ _ x y ⟨len, rfl, hlen⟩ ⟨len', rfl, hlen'⟩ t u heq
  rw [List.append_assoc, List.append_assoc] at heq
  obtain ⟨rfl, hsize⟩ := hN hlen hlen' _ _ heq
  obtain ⟨rfl, -⟩ := List.append_inj (List.append_cancel_left heq) hsize
  exact ⟨rfl, rfl⟩

theorem unambiguous_sizedText (hN : Unambiguous Number) : Unambiguous (SizedText Number) := by
  intro a b s s' ha hb t u heq
  obtain ⟨rfl, hraw⟩ := unambiguous_sized hN ha hb t u heq
  exact ⟨rfl, Utf8.encode_inj hraw⟩

/-- The count says where the things end. -/
theorem unambiguous_counted (hN : Unambiguous Number) {α : Type} {R : Bytes → α → Prop}
    (hR : Unambiguous R) : Unambiguous (Counted Number R) := by
  rintro _ _ xs ys ⟨count, body, rfl, hcount, hrun⟩ ⟨count', body', rfl, hcount', hrun'⟩ t u heq
  rw [List.append_assoc, List.append_assoc] at heq
  obtain ⟨rfl, hlen⟩ := hN hcount hcount' _ _ heq
  obtain ⟨rfl, rfl⟩ := hR.run hrun hrun' hlen (List.append_cancel_left heq)
  exact ⟨rfl, rfl⟩

/-- Bodies of values of one kind, truth values apart. -/
theorem unambiguous_body (hN : Unambiguous Number) {M : Bytes → Value → Prop}
    (hM : Unambiguous M) {a b : Bytes} {v w : Value} (ha : Body Number M a v)
    (hb : Body Number M b w) (htag : tag v = tag w) {t u : Bytes} (heq : a ++ t = b ++ u) :
    a = b ∧ v = w := by
  -- equal tags mean equal kinds, so only the diagonal of the case split is left
  have hkind := kind_eq_of_tag_eq htag
  cases v with
  | none =>
    cases w with
    | none => exact ⟨ha.trans (Eq.symm hb), rfl⟩
    | _ => nomatch hkind
  | bool x =>
    cases w with
    | bool y =>
      refine ⟨ha.trans (Eq.symm hb), ?_⟩
      cases x <;> cases y <;> first | rfl | nomatch htag
    | _ => nomatch hkind
  | int n =>
    cases w with
    | int m =>
      obtain ⟨z, hz, rfl⟩ := ha
      obtain ⟨z', hz', rfl⟩ := hb
      obtain ⟨rfl, rfl⟩ := hN hz hz' t u heq
      exact ⟨rfl, rfl⟩
    | _ => nomatch hkind
  | float x =>
    cases w with
    | float y =>
      obtain rfl : a = Bytes.bigEndian 8 x.toNat := ha
      obtain rfl : b = Bytes.bigEndian 8 y.toNat := hb
      obtain ⟨hraw, -⟩ :=
        List.append_inj heq (by rw [Bytes.length_bigEndian, Bytes.length_bigEndian])
      refine ⟨hraw, congrArg Value.float (UInt64.toNat_inj.mp ?_)⟩
      -- the eight bytes give the bits back
      have hn := congrArg Bytes.ofBigEndian hraw
      rwa [Bytes.ofBigEndian_bigEndian x.toNat_lt, Bytes.ofBigEndian_bigEndian y.toNat_lt] at hn
    | _ => nomatch hkind
  | str s =>
    cases w with
    | str s' =>
      obtain ⟨rfl, rfl⟩ := unambiguous_sizedText hN ha hb t u heq
      exact ⟨rfl, rfl⟩
    | _ => nomatch hkind
  | bytes x =>
    cases w with
    | bytes y =>
      obtain ⟨rfl, rfl⟩ := unambiguous_sized hN ha hb t u heq
      exact ⟨rfl, rfl⟩
    | _ => nomatch hkind
  | tuple xs =>
    cases w with
    | tuple ys =>
      obtain ⟨rfl, rfl⟩ := unambiguous_counted hN hM ha hb t u heq
      exact ⟨rfl, rfl⟩
    | _ => nomatch hkind
  | list xs =>
    cases w with
    | list ys =>
      obtain ⟨rfl, rfl⟩ := unambiguous_counted hN hM ha hb t u heq
      exact ⟨rfl, rfl⟩
    | _ => nomatch hkind
  | dict xs =>
    cases w with
    | dict ys =>
      obtain ⟨rfl, rfl⟩ := unambiguous_counted hN (hM.inOrder hM) ha hb t u heq
      exact ⟨rfl, rfl⟩
    | _ => nomatch hkind
  | record c xs =>
    cases w with
    | record d ys =>
      -- a record is its class in order with its counted fields
      have hfield := (unambiguous_sizedText hN).inOrder hM
      have hrecord := (unambiguous_sizedText hN).inOrder (unambiguous_counted hN hfield)
      obtain ⟨rfl, hboth⟩ := hrecord ha hb t u heq
      obtain ⟨rfl, rfl⟩ := Prod.mk.inj hboth
      exact ⟨rfl, rfl⟩
    | _ => nomatch hkind

/-- **No spelling begins another, and what is spelled is known from the bytes**, whatever laws the
    values obey. -/
theorem unambiguous_spells (hN : Unambiguous Number) (L : Value → Prop) (room : Nat) :
    Unambiguous (Spells Number L room) := by
  induction room with
  | zero => intro _ _ _ _ h; exact h.elim
  | succ room ih =>
    rintro _ _ v w ⟨-, body, rfl, hv⟩ ⟨-, body', rfl, hw⟩ t u heq
    obtain ⟨htag, hrest⟩ := List.cons.inj heq
    obtain ⟨rfl, rfl⟩ := unambiguous_body hN ih hv hw htag hrest
    exact ⟨rfl, rfl⟩

end

end SealedStore.Payload
