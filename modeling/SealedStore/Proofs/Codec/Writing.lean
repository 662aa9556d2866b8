/-
  What the writer of payloads writes.

  `encodeAt` lays a value out by its members (`layout_of_encodeAt`), so the payload of a value
  spells it (`spells_of_encodeAt`): for any spelling of numbers, if what `Varint.encode` gives is
  one for the numbers that occur.  These are the zigzag forms of integers, which are always small
  enough to be varints, and the lengths and counts of the value, its `extents`.

  A value is written just when it is nested no deeper than allowed and has keys where keys must
  stand (`exists_encodeAt_iff`).
-/
import SealedStore.Proofs.Codec.Grammar

namespace SealedStore.Payload

open Reader

/-! ## Outcomes in order -/

/-- Bytes are written behind others when they are written at all. -/
theorem after_eq_ok_iff {front b : Bytes} {x : Except CodecError Bytes} :
    after front x = .ok b ↔ ∃ back, x = .ok back ∧ b = front ++ back := by
  cases x with
  | error e =>
    constructor
    · intro h; nomatch h
    · rintro ⟨back, h, -⟩; nomatch h
  | ok back =>
    constructor
    · intro h; exact ⟨back, rfl, (Except.ok.inj h).symm⟩
    · rintro ⟨back', h, rfl⟩
      rw [Except.ok.inj h]
      rfl

/-- Two parts are written one after the other when both are written. -/
theorem andThen_eq_ok_iff {x y : Except CodecError Bytes} {b : Bytes} :
    andThen x y = .ok b ↔ ∃ front back, x = .ok front ∧ y = .ok back ∧ b = front ++ back := by
  cases x with
  | error e =>
    constructor
    · intro h; nomatch h
    · rintro ⟨front, back, h, -⟩; nomatch h
  | ok front =>
    refine (show after front y = .ok b ↔ _ from after_eq_ok_iff).trans ⟨?_, ?_⟩
    · rintro ⟨back, hy, rfl⟩
      exact ⟨front, back, rfl, hy, rfl⟩
    · rintro ⟨front', back, hx, hy, rfl⟩
      obtain rfl := Except.ok.inj hx
      exact ⟨back, hy, rfl⟩

/-! ## Members -/

/-- The bytes are what is written for the value inside `depth` containers. -/
def Writes (depth : Nat) (raw : Bytes) (v : Value) : Prop := encodeAt depth v = .ok raw

/-- The bytes are what is written for the text. -/
def WritesText (raw : Bytes) (s : String) : Prop := raw = sized (Utf8.encode s)

/-- Items are written one after the other. -/
theorem encodeItems_eq_ok_iff {depth : Nat} {items : List Value} {b : Bytes} :
    encodeItems depth items = .ok b ↔ Run (Writes depth) b items := by
  induction items generalizing b with
  | nil =>
    rw [encodeItems, run_nil_iff, Except.ok.injEq, eq_comm]
  | cons v vs ih =>
    rw [encodeItems, andThen_eq_ok_iff, run_cons_iff]
    constructor
    · rintro ⟨front, back, hv, hvs, rfl⟩
      exact ⟨front, back, rfl, hv, ih.mp hvs⟩
    · rintro ⟨front, back, rfl, hv, hvs⟩
      exact ⟨front, back, hv, ih.mpr hvs, rfl⟩

/-- Entries are written one after the other, each as its key and its value, when all keys may be
    keys. -/
theorem encodeEntries_eq_ok_iff {depth : Nat} {entries : List (Value × Value)} {b : Bytes} :
    encodeEntries depth entries = .ok b ↔
      Run (InOrder (Writes depth) (Writes depth)) b entries ∧
        ∀ e ∈ entries, e.1.isHashable = true := by
  rw [← run_and_iff]
  induction entries generalizing b with
  | nil =>
    rw [encodeEntries, run_nil_iff, Except.ok.injEq, eq_comm]
  | cons e es ih =>
    rw [encodeEntries, run_cons_iff]
    split
    · next hkey =>
      rw [andThen_eq_ok_iff]
      constructor
      · rintro ⟨key, back, hk, hrest, rfl⟩
        obtain ⟨value, back, hv, hes, rfl⟩ := andThen_eq_ok_iff.mp hrest
        exact ⟨key ++ value, back, (List.append_assoc _ _ _).symm,
          ⟨⟨key, value, rfl, hk, hv⟩, hkey⟩, ih.mp hes⟩
      · rintro ⟨_, back, rfl, ⟨⟨key, value, rfl, hk, hv⟩, -⟩, hes⟩
        exact ⟨key, value ++ back, hk, andThen_eq_ok_iff.mpr ⟨value, back, hv, ih.mpr hes, rfl⟩,
          List.append_assoc _ _ _⟩
    · next hkey =>
      constructor
      · intro h; nomatch h
      · rintro ⟨_, back, rfl, ⟨-, hhashable⟩, hes⟩
        exact absurd hhashable hkey

/-- Fields are written one after the other, each as its name and its value, whatever the names
    are. -/
theorem encodeFields_eq_ok_iff {depth : Nat} {fields : List (String × Value)} {b : Bytes} :
    encodeFields depth fields = .ok b ↔ Run (InOrder WritesText (Writes depth)) b fields := by
  induction fields generalizing b with
  | nil =>
    rw [encodeFields, run_nil_iff, Except.ok.injEq, eq_comm]
  | cons f fs ih =>
    rw [encodeFields, after_eq_ok_iff, run_cons_iff]
    constructor
    · rintro ⟨back, hrest, rfl⟩
      obtain ⟨value, back, hv, hfs, rfl⟩ := andThen_eq_ok_iff.mp hrest
      exact ⟨_, back, (List.append_assoc _ _ _).symm, ⟨_, value, rfl, rfl, hv⟩, ih.mp hfs⟩
    · rintro ⟨_, back, rfl, ⟨name, value, rfl, hname, hv⟩, hfs⟩
      obtain rfl : name = _ := hname
      exact ⟨value ++ back, andThen_eq_ok_iff.mpr ⟨value, back, hv, ih.mpr hfs, rfl⟩,
        List.append_assoc _ _ _⟩

/-! ## Layouts -/

/-- The lengths and counts that are written for a value itself. -/
def extents : Value → List Nat
  | .str s => [(Utf8.encode s).length]
  | .bytes b => [b.length]
  | .tuple items => [items.length]
  | .list items => [items.length]
  | .dict entries => [entries.length]
  | .record cls fields =>
    (Utf8.encode cls).length :: fields.length :: fields.map fun f => (Utf8.encode f.1).length
  | _ => []

section
variable {Number : Bytes → Nat → Prop} (hsmall : ∀ z < 2 ^ 64, Number (Varint.encode z) z)
include hsmall

/-- What is written for a value lays it out, if what is written for its extents are numbers. -/
theorem layout_of_encodeAt {depth : Nat} {v : Value} {b : Bytes} (h : encodeAt depth v = .ok b)
    (hext : ∀ n ∈ extents v, Number (Varint.encode n) n) :
    depth ≤ maxDepth ∧ v.KeysHashable ∧ Layout Number (Writes (depth + 1)) b v := by
  unfold encodeAt at h
  split at h
  · nomatch h
  -- one case for each kind, a truth value being two
  refine ⟨by omega, ?_⟩
  split at h
  · exact ⟨trivial, [], (Except.ok.inj h).symm, rfl⟩
  · exact ⟨trivial, [], (Except.ok.inj h).symm, rfl⟩
  · exact ⟨trivial, [], (Except.ok.inj h).symm, rfl⟩
  · next n =>
    obtain rfl := Except.ok.inj h
    exact ⟨trivial, _, rfl, _, hsmall _ (Varint.zigzag_lt n), (Varint.unzigzag_zigzag n).symm⟩
  · exact ⟨trivial, _, (Except.ok.inj h).symm, rfl⟩
  · obtain rfl := Except.ok.inj h
    exact ⟨trivial, _, rfl, _, rfl, hext _ List.mem_cons_self⟩
  · obtain rfl := Except.ok.inj h
    exact ⟨trivial, _, rfl, _, rfl, hext _ List.mem_cons_self⟩
  · obtain ⟨body, hbody, rfl⟩ := after_eq_ok_iff.mp h
    exact ⟨trivial, _, rfl, _, body, rfl, hext _ List.mem_cons_self,
      encodeItems_eq_ok_iff.mp hbody⟩
  · obtain ⟨body, hbody, rfl⟩ := after_eq_ok_iff.mp h
    exact ⟨trivial, _, rfl, _, body, rfl, hext _ List.mem_cons_self,
      encodeItems_eq_ok_iff.mp hbody⟩
  · obtain ⟨body, hbody, rfl⟩ := after_eq_ok_iff.mp h
    obtain ⟨hrun, hkeys⟩ := encodeEntries_eq_ok_iff.mp hbody
    exact ⟨hkeys, _, rfl, _, body, rfl, hext _ List.mem_cons_self, hrun⟩
  · next cls fields =>
    obtain ⟨body, hbody, rfl⟩ := after_eq_ok_iff.mp h
    rw [encodeFields_eq_ok_iff] at hbody
    refine ⟨trivial, _, rfl, sized (Utf8.encode cls), Varint.encode fields.length ++ body,
      List.append_assoc _ _ _, ⟨_, rfl, hext _ List.mem_cons_self⟩, _, body, rfl,
      hext _ (List.mem_cons_of_mem _ List.mem_cons_self), hbody.imp ?_⟩
    rintro f hf _ ⟨name, value, rfl, hname, hvalue⟩
    refine ⟨name, value, rfl, ⟨_, hname, hext _ ?_⟩, hvalue⟩
    exact List.mem_cons_of_mem _ (List.mem_cons_of_mem _ (List.mem_map.mpr ⟨f, hf, rfl⟩))

/-- **What is written for a value spells it**, in the room that is left inside `depth`
    containers. -/
theorem spells_of_encodeAt {depth : Nat} {v : Value} {b : Bytes} (h : encodeAt depth v = .ok b)
    (hext : v.Everywhere fun w => ∀ n ∈ extents w, Number (Varint.encode n) n) :
    Spells Number Value.KeysHashable (maxDepth + 1 - depth) b v := by
  induction v using Value.byMembers generalizing depth b with
  | step v ih =>
    obtain ⟨hdepth, hkeys, hlayout⟩ := layout_of_encodeAt hsmall h hext.self
    -- members lie inside one more container, so there is one less room for them
    rw [Nat.sub_add_comm hdepth]
    refine ⟨hkeys, hlayout.imp (fun _ _ hn => hn) fun w hw raw hraw => ?_⟩
    have hspells := ih w hw hraw (hext.member hw)
    rwa [Nat.add_sub_add_right] at hspells

end

/-! ## What is written -/

/-- A value is written when it is not too deep, has keys where they must stand, and its members
    are written. -/
theorem exists_encodeAt {depth : Nat} {v : Value} (hdepth : depth ≤ maxDepth)
    (hkeys : v.KeysHashable) (h : ∀ w ∈ v.members, ∃ raw, Writes (depth + 1) raw w) :
    ∃ b, encodeAt depth v = .ok b := by
  unfold encodeAt
  rw [if_neg (by omega)]
  cases v with
  | bool x => cases x <;> exact ⟨_, rfl⟩
  | tuple items =>
    obtain ⟨body, hbody⟩ := exists_run h
    exact ⟨_, after_eq_ok_iff.mpr ⟨body, encodeItems_eq_ok_iff.mpr hbody, rfl⟩⟩
  | list items =>
    obtain ⟨body, hbody⟩ := exists_run h
    exact ⟨_, after_eq_ok_iff.mpr ⟨body, encodeItems_eq_ok_iff.mpr hbody, rfl⟩⟩
  | dict entries =>
    have hentry :
        ∀ e ∈ entries, ∃ raw, InOrder (Writes (depth + 1)) (Writes (depth + 1)) raw e := by
      intro e he
      obtain ⟨front, hk⟩ := h e.1 (Value.mem_members_dict.mpr ⟨e, he, .inl rfl⟩)
      obtain ⟨back, hv⟩ := h e.2 (Value.mem_members_dict.mpr ⟨e, he, .inr rfl⟩)
      exact ⟨front ++ back, front, back, rfl, hk, hv⟩
    obtain ⟨body, hbody⟩ := exists_run hentry
    exact ⟨_, after_eq_ok_iff.mpr ⟨body, encodeEntries_eq_ok_iff.mpr ⟨hbody, hkeys⟩, rfl⟩⟩
  | record cls fields =>
    have hfield : ∀ f ∈ fields, ∃ raw, InOrder WritesText (Writes (depth + 1)) raw f := by
      intro f hf
      obtain ⟨back, hv⟩ := h f.2 (Value.mem_members_record.mpr ⟨f, hf, rfl⟩)
      exact ⟨_, _, back, rfl, rfl, hv⟩
    obtain ⟨body, hbody⟩ := exists_run hfield
    exact ⟨_, after_eq_ok_iff.mpr ⟨body, encodeFields_eq_ok_iff.mpr hbody, rfl⟩⟩
  | _ => exact ⟨_, rfl⟩

/-- **A value is written just when** it fits under the limit of nesting and its dictionaries have
    keys that may be keys. -/
theorem exists_encodeAt_iff {depth : Nat} {v : Value} :
    (∃ b, encodeAt depth v = .ok b) ↔
      depth + v.level ≤ maxDepth ∧ v.Everywhere Value.KeysHashable := by
  induction v using Value.byMembers generalizing depth with
  | step v ih =>
    -- the limit is a limit for the members, inside one more container
    have hlevel : depth + v.level ≤ maxDepth ↔
        depth ≤ maxDepth ∧ ∀ w ∈ v.members, depth + 1 + w.level ≤ maxDepth := by
      rcases Nat.lt_or_ge maxDepth depth with hlt | hge
      · exact ⟨fun h => by omega, fun h => by omega⟩
      · obtain ⟨n, hn⟩ : ∃ n, maxDepth = depth + n := ⟨maxDepth - depth, by omega⟩
        rw [hn, Nat.add_le_add_iff_left, Value.level_le_iff]
        refine ⟨fun h => ⟨by omega, fun w hw => ?_⟩, fun h w hw => ?_⟩
        · have := h w hw
          omega
        · have := h.2 w hw
          omega
    rw [hlevel, Value.everywhere_iff]
    constructor
    · rintro ⟨b, h⟩
      obtain ⟨hdepth, hkeys, hlayout⟩ :=
        layout_of_encodeAt (fun z _ => Varint.writes_encode z) h fun n _ => Varint.writes_encode n
      have hmember : ∀ w ∈ v.members, depth + 1 + w.level ≤ maxDepth ∧
          w.Everywhere Value.KeysHashable := by
        intro w hw
        obtain ⟨part, hpart, -⟩ := hlayout.member hw
        exact (ih w hw).mp ⟨part, hpart⟩
      exact ⟨⟨hdepth, fun w hw => (hmember w hw).1⟩, hkeys, fun w hw => (hmember w hw).2⟩
    · rintro ⟨⟨hdepth, hlevels⟩, hkeys, hmembers⟩
      exact exists_encodeAt hdepth hkeys fun w hw => (ih w hw).mpr ⟨hlevels w hw, hmembers w hw⟩

/-! ## Extents -/

/-- No extent of a value is larger than its bytes. -/
theorem Layout.extents_le {Number : Bytes → Nat → Prop} {M : Bytes → Value → Prop}
    (hleast : ∀ raw w, M raw w → 1 ≤ raw.length) {raw : Bytes} {v : Value}
    (h : Layout Number M raw v) : ∀ n ∈ extents v, n ≤ raw.length := by
  obtain ⟨body, rfl, hbody⟩ := h
  rw [List.length_cons]
  intro n hn
  cases v with
  | str s =>
    obtain rfl := List.mem_singleton.mp hn
    exact Nat.le_succ_of_le (Sized.length_le hbody)
  | bytes b =>
    obtain rfl := List.mem_singleton.mp hn
    exact Nat.le_succ_of_le (Sized.length_le hbody)
  | tuple items =>
    obtain rfl := List.mem_singleton.mp hn
    exact Nat.le_succ_of_le (Counted.length_le hleast hbody)
  | list items =>
    obtain rfl := List.mem_singleton.mp hn
    exact Nat.le_succ_of_le (Counted.length_le hleast hbody)
  | dict entries =>
    obtain rfl := List.mem_singleton.mp hn
    refine Nat.le_succ_of_le (Counted.length_le ?_ hbody)
    rintro _ e ⟨front, back, rfl, hk, -⟩
    have := hleast _ _ hk
    rw [List.length_append]
    omega
  | record cls fields =>
    obtain ⟨front, back, rfl, hcls, hfields⟩ := hbody
    have hfield : ∀ raw f, InOrder (SizedText Number) M raw f → 1 ≤ raw.length := by
      rintro _ f ⟨name, value, rfl, -, hvalue⟩
      have := hleast _ _ hvalue
      rw [List.length_append]
      omega
    -- the extents are the class, the number of fields and then each name
    have hback : back.length ≤ (front ++ back).length + 1 := by
      rw [List.length_append]
      omega
    rcases List.mem_cons.mp hn with rfl | hn
    · have hle : (Utf8.encode cls).length ≤ front.length := Sized.length_le hcls
      rw [List.length_append]
      omega
    rcases List.mem_cons.mp hn with rfl | hn
    · exact Nat.le_trans (Counted.length_le hfield hfields) hback
    · obtain ⟨f, hf, rfl⟩ := List.mem_map.mp hn
      obtain ⟨_, ⟨name, value, rfl, hname, -⟩, hlen⟩ := hfields.exists_of_mem hf
      have := Sized.length_le hname
      rw [List.length_append] at hlen
      omega
  | _ => nomatch hn

/-- No length and no count in what is spelled is greater than the bytes. -/
theorem extents_le_of_spells {Number : Bytes → Nat → Prop} {L : Value → Prop} {room : Nat}
    {raw : Bytes} {v : Value} (h : Spells Number L room raw v) :
    v.Everywhere fun w => ∀ n ∈ extents w, n ≤ raw.length := by
  induction room generalizing raw v with
  | zero => exact h.elim
  | succ room ih =>
    refine Value.everywhere_iff.mpr ⟨h.2.extents_le fun raw w hw => hw.length_pos, fun w hw => ?_⟩
    obtain ⟨part, hpart, hlt⟩ := h.2.member hw
    exact (ih hpart).imp fun x hx n hn => Nat.le_trans (hx n hn) (Nat.le_of_lt hlt)

/-! ## Payloads -/

/-- Every length and count is a number of 64 bits, as it is of all values that fit in memory. -/
def Addressable (v : Value) : Prop := ∀ n ∈ extents v, n < 2 ^ 64

/-- Where the payload has a length of 64 bits, so has all that is in it. -/
theorem addressable_of_encode {v : Value} {b : Bytes} (h : encode v = .ok b)
    (hlen : b.length < 2 ^ 64) : v.Everywhere Addressable := by
  have hspells := spells_of_encodeAt (fun z _ => Varint.writes_encode z) h
    fun _ _ n _ => Varint.writes_encode n
  exact (extents_le_of_spells hspells).imp fun w hw n hn => Nat.lt_of_le_of_lt (hw n hn) hlen

/-- **A payload spells its value**, with varints for numbers. -/
theorem spells_of_encode {v : Value} {b : Bytes} (h : encode v = .ok b)
    (haddr : v.Everywhere Addressable) :
    Spells Varint.Denotes Value.KeysHashable (maxDepth + 1) b v :=
  spells_of_encodeAt (fun _ hz => Varint.denotes_encode hz) h
    (haddr.imp fun _ hw n hn => Varint.denotes_encode (hw n hn))

end SealedStore.Payload
