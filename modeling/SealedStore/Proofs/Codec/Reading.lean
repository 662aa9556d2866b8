/-
  What the reader of payloads reads: exactly the payloads of the grammar.

  Every reader of `Payload` is shown to recognise the part of the grammar that it is written for.
  The early check of a count is the one step that looks at bytes which the reader does not take
  off; it refuses nothing, since every member takes at least as many bytes as are asked for it
  (`recognises_counted`).
-/
import SealedStore.Proofs.Codec.Grammar

namespace SealedStore.Payload

open Reader

/-! ## Numbers, byte strings and texts -/

/-- A varint is read where the bytes in front denote a number, in the fewest groups or in more. -/
theorem recognises_varint : Recognises varint Varint.Denotes := by
  rintro ⟨pos, rest⟩ n ⟨pos', rest'⟩
  unfold varint
  constructor
  · intro h
    cases hdecode : Varint.decode rest with
    | error e => simp only [hdecode] at h; nomatch h
    | ok found =>
      obtain ⟨m, k⟩ := found
      simp only [hdecode] at h
      obtain ⟨rfl, hj⟩ := Prod.mk.inj (Except.ok.inj h)
      obtain ⟨rfl, rfl⟩ := Input.mk.inj hj
      obtain ⟨front, back, rfl, rfl, hdenotes⟩ := Varint.decode_eq_ok_iff.mp hdecode
      exact ⟨front, hdenotes, by rw [List.drop_left], rfl⟩
  · rintro ⟨front, hdenotes, hrest, hpos⟩
    obtain rfl : rest = front ++ rest' := hrest
    obtain rfl : pos' = pos + front.length := hpos
    have hdecode := Varint.decode_eq_ok_iff.mpr ⟨front, rest', rfl, rfl, hdenotes⟩
    simp only [hdecode, List.drop_left]

theorem recognises_sizedBytes : Recognises sizedBytes (Sized Varint.Denotes) := by
  refine (recognises_varint.bind fun _ n => recognises_take n).congr fun raw b => ?_
  constructor
  · rintro ⟨n, len, back, rfl, hlen, rfl, rfl⟩
    exact ⟨len, rfl, hlen⟩
  · rintro ⟨len, rfl, hlen⟩
    exact ⟨b.length, len, b, rfl, hlen, rfl, rfl⟩

/-- A text is its length and bytes that are UTF-8. -/
theorem recognises_text : Recognises text (SizedText Varint.Denotes) := by
  refine (recognises_sizedBytes.bind fun i raw => recognises_utf8 i.pos raw fun s => s).congr
    fun raw s => ?_
  constructor
  · rintro ⟨_, front, _, rfl, hsized, rfl, s, rfl, rfl⟩
    rwa [List.append_nil]
  · intro h
    exact ⟨_, raw, [], (List.append_nil raw).symm, h, rfl, s, rfl, rfl⟩

/-! ## Counted runs -/

/-- Reading so many times in a row takes off a row of that length. -/
theorem recognises_times {α : Type} {read : Reader α} {R : Bytes → α → Prop}
    (h : Recognises read R) (n : Nat) :
    Recognises (times read n) (fun raw xs => xs.length = n ∧ Run R raw xs) := by
  induction n with
  | zero =>
    refine (recognises_pure []).congr fun raw xs => ?_
    constructor
    · rintro ⟨rfl, rfl⟩
      exact ⟨rfl, .nil⟩
    · rintro ⟨hlen, hrun⟩
      obtain rfl := List.eq_nil_of_length_eq_zero hlen
      cases hrun
      exact ⟨rfl, rfl⟩
  | succ n ih =>
    refine (h.bind fun _ x => ih.map fun xs => x :: xs).congr fun raw ys => ?_
    constructor
    · rintro ⟨x, front, back, rfl, hx, xs, ⟨rfl, hrun⟩, rfl⟩
      exact ⟨rfl, .cons hx hrun⟩
    · rintro ⟨hlen, hrun⟩
      cases hrun with
      | nil => nomatch hlen
      | cons hx hrun => exact ⟨_, _, _, rfl, hx, _, ⟨Nat.succ.inj hlen, hrun⟩, rfl⟩

/-- A count is a varint, and one that the remaining bytes can satisfy. -/
theorem count_eq_ok_iff {least : Nat} {i : Input} {n : Nat} {j : Input} :
    count least i = .ok (n, j) ↔ varint i = .ok (n, j) ∧ n * least ≤ j.rest.length := by
  unfold count
  rw [except_bind_eq_ok]
  constructor
  · rintro ⟨⟨m, k⟩, hvarint, h⟩
    dsimp only at h
    split at h
    · next hleast =>
      obtain ⟨rfl, rfl⟩ := Prod.mk.inj (Except.ok.inj h)
      exact ⟨hvarint, Bytes.hasAtLeast_iff.mp hleast⟩
    · nomatch h
  · rintro ⟨hvarint, hleast⟩
    exact ⟨(n, j), hvarint, if_pos (Bytes.hasAtLeast_iff.mpr hleast)⟩

/-- **A count and its members.**  Members of at least `least` bytes never fail the early check, so
    it may be left out of what is recognised. -/
theorem recognises_counted {α β : Type} {least : Nat} {R : Bytes → α → Prop}
    (hleast : ∀ raw x, R raw x → least ≤ raw.length) {run : Nat → Reader (List α)}
    {Q : List α → Prop}
    (hrun : ∀ n, Recognises (run n) (fun raw xs => (xs.length = n ∧ Run R raw xs) ∧ Q xs))
    (make : List α → β) :
    Recognises (fun i => do
        let (n, j) ← count least i
        let (xs, j) ← run n j
        .ok (make xs, j))
      (fun raw y => ∃ xs, (Counted Varint.Denotes R raw xs ∧ Q xs) ∧ y = make xs) := by
  have hunchecked : Recognises (fun i => do
        let (n, j) ← varint i
        let (xs, j) ← run n j
        .ok (make xs, j))
      (fun raw y => ∃ xs, (Counted Varint.Denotes R raw xs ∧ Q xs) ∧ y = make xs) := by
    refine (recognises_varint.bind fun _ n => (hrun n).map make).congr fun raw y => ?_
    constructor
    · rintro ⟨n, count, body, rfl, hcount, xs, ⟨⟨rfl, hxs⟩, hQ⟩, rfl⟩
      exact ⟨xs, ⟨⟨count, body, rfl, hcount, hxs⟩, hQ⟩, rfl⟩
    · rintro ⟨xs, ⟨⟨count, body, rfl, hcount, hxs⟩, hQ⟩, rfl⟩
      exact ⟨xs.length, count, body, rfl, hcount, xs, ⟨⟨rfl, hxs⟩, hQ⟩, rfl⟩
  intro i y k
  rw [← hunchecked i y k, except_bind_eq_ok, except_bind_eq_ok]
  refine exists_congr fun found => ?_
  rw [count_eq_ok_iff, and_assoc, and_congr_right_iff, and_iff_right_iff_imp]
  -- the members that were read are still there when their number is checked
  intro _ hread
  obtain ⟨front, ⟨xs, ⟨⟨hlen, hxs⟩, -⟩, -⟩, heq, -⟩ := ((hrun _).map make _ y k).mp hread
  have hbytes := hxs.le_length hleast
  rw [hlen] at hbytes
  rw [heq, List.length_append]
  omega

/-! ## Members of containers -/

/-- Every sized byte string has at least one byte of its length. -/
theorem Sized.length_pos {raw b : Bytes} (h : Sized Varint.Denotes raw b) : 1 ≤ raw.length := by
  obtain ⟨len, rfl, hlen⟩ := h
  have := hlen.groups.length_pos
  rw [List.length_append]
  omega

section
variable {member : Reader Value} {M : Bytes → Value → Prop}

/-- Behind a key that may be one stands the value; any other key is refused first. -/
theorem recognises_keyed (hM : Recognises member M) (pos : Nat) (k : Value) :
    Recognises (fun j =>
        if k.isHashable then do
          let (v, j) ← member j
          .ok ((k, v), j)
        else .error (.corrupt pos (.unhashableMappingKey k.kind)))
      (fun raw e => k.isHashable = true ∧ ∃ v, M raw v ∧ e = (k, v)) :=
  recognises_guard (fun _ => hM.map fun v => (k, v)) _

/-- An entry is a key that may be one, and a value. -/
theorem recognises_entry (hM : Recognises member M) :
    Recognises (entry member) (fun raw e => InOrder M M raw e ∧ e.1.isHashable = true) := by
  refine (hM.bind fun i k => recognises_keyed hM i.pos k).congr fun raw e => ?_
  constructor
  · rintro ⟨k, front, back, rfl, hk, hkey, v, hv, rfl⟩
    exact ⟨⟨front, back, rfl, hk, hv⟩, hkey⟩
  · rintro ⟨⟨front, back, rfl, hk, hv⟩, hkey⟩
    exact ⟨e.1, front, back, rfl, hk, hkey, e.2, hv, rfl⟩

/-- What follows a name that is valid. -/
theorem recognises_valid {α : Type} {next : Reader α} {R : Bytes → α → Prop}
    (h : Recognises next R) (pos : Nat) (name : String) :
    Recognises (fun j =>
        match FieldName.fault? name.toList with
        | none => next j
        | some fault => .error (.corrupt pos (.invalidField (.invalidFieldName name fault))))
      (fun raw y => FieldName.isValid name = true ∧ R raw y) := by
  rw [show FieldName.isValid name = (FieldName.fault? name.toList).isNone from rfl]
  cases FieldName.fault? name.toList with
  | none => simpa only [Option.isNone_none, true_and] using h
  | some fault =>
    simpa only [Option.isNone_some, Bool.false_eq_true, false_and] using recognises_error _

/-- A value under a name that earlier fields do not have. -/
theorem recognises_named {α : Type} {next : Value → Reader α} {R : Value → Bytes → α → Prop}
    (hM : Recognises member M) {before : List (String × Value)} {name : String}
    (hnext : name ∉ before.map (·.1) → ∀ v, Recognises (next v) (R v)) (pos : Nat) :
    Recognises (fun j =>
        if (Assoc.find name before).isSome then .error (.corrupt pos (.duplicateField name))
        else do
          let (v, j) ← member j
          match FieldName.fault? name.toList with
          | none => next v j
          | some fault => .error (.corrupt pos (.invalidField (.invalidFieldName name fault))))
      (fun raw y => name ∉ before.map (·.1) ∧ ∃ v front back, raw = front ++ back ∧ M front v ∧
        FieldName.isValid name = true ∧ R v back y) := by
  have hnew : ¬ (Assoc.find name before).isSome = true ↔ name ∉ before.map (·.1) :=
    not_congr Assoc.isSome_find_iff
  refine (recognises_unless (fun h => hM.bind fun _ v =>
    recognises_valid (hnext (hnew.mp h) v) pos name) _).congr fun raw y => ?_
  rw [hnew]

/-- The fields after those already read, whose names are distinct: names are checked against all
    earlier ones, so no name of the whole occurs twice. -/
theorem recognises_fields (hM : Recognises member M) (n : Nat) (before : List (String × Value))
    (hbefore : (before.map (·.1)).Nodup) :
    Recognises (fields member n before) (fun raw all => ∃ fs, all = before ++ fs ∧
      (fs.length = n ∧ Run (InOrder (SizedText Varint.Denotes) M) raw fs) ∧
        (∀ f ∈ fs, FieldName.isValid f.1 = true) ∧ (all.map (·.1)).Nodup) := by
  induction n generalizing before with
  | zero =>
    refine (recognises_pure before).congr fun raw all => ?_
    constructor
    · rintro ⟨rfl, rfl⟩
      refine ⟨[], (List.append_nil _).symm, ⟨rfl, .nil⟩, ?_, hbefore⟩
      intro f hf
      nomatch hf
    · rintro ⟨fs, rfl, ⟨hlen, hrun⟩, -⟩
      obtain rfl := List.eq_nil_of_length_eq_zero hlen
      cases hrun
      exact ⟨rfl, List.append_nil _⟩
  | succ n ih =>
    -- the names stay distinct, which is what the induction carries along
    have hnodup : ∀ (name : String) (v : Value), name ∉ before.map (·.1) →
        ((before ++ [(name, v)]).map (·.1)).Nodup := by
      intro name v hnew
      rw [List.map_append, List.nodup_append]
      refine ⟨hbefore, List.pairwise_singleton _ _, ?_⟩
      intro a ha b hb
      obtain rfl := List.mem_singleton.mp hb
      exact fun heq => hnew (heq ▸ ha)
    refine (recognises_text.bind fun i name => recognises_named hM
      (fun hnew v => ih _ (hnodup name v hnew)) i.pos).congr fun raw all => ?_
    constructor
    · rintro ⟨name, front, _, rfl, hname, hnew, v, value, back, rfl, hv, hvalid, fs, rfl,
        ⟨rfl, hrun⟩, hnames, hnodup⟩
      refine ⟨(name, v) :: fs, by rw [List.append_assoc]; rfl, ⟨rfl, ?_⟩,
        List.forall_mem_cons.mpr ⟨hvalid, hnames⟩, hnodup⟩
      rw [← List.append_assoc]
      exact .cons ⟨front, value, rfl, hname, hv⟩ hrun
    · rintro ⟨fs, rfl, ⟨hlen, hrun⟩, hnames, hnodup⟩
      cases hrun with
      | nil => exact absurd hlen.symm (Nat.succ_ne_zero n)
      | @cons _ back f fs hf hrun =>
        obtain ⟨front, value, rfl, hname, hv⟩ := hf
        obtain ⟨hvalid, hnames⟩ := List.forall_mem_cons.mp hnames
        refine ⟨f.1, front, value ++ back, List.append_assoc _ _ _, hname, ?_, f.2, value, back,
          rfl, hv, hvalid, fs, by rw [List.append_assoc]; rfl, ⟨Nat.succ.inj hlen, hrun⟩, hnames,
          hnodup⟩
        rw [List.map_append, List.nodup_append] at hnodup
        exact fun hmem => hnodup.2.2 _ hmem _ List.mem_cons_self rfl

end

/-! ## Values -/

/-- Two bytes or more for two things of a byte or more. -/
theorem two_le_length {α β : Type} {R : Bytes → α → Prop} {S : Bytes → β → Prop}
    (hR : ∀ raw x, R raw x → 1 ≤ raw.length) (hS : ∀ raw y, S raw y → 1 ≤ raw.length) (raw : Bytes)
    (p : α × β) (h : InOrder R S raw p) : 2 ≤ raw.length := by
  obtain ⟨front, back, rfl, hfront, hback⟩ := h
  have := hR _ _ hfront
  have := hS _ _ hback
  rw [List.length_append]
  omega

section
variable {member : Reader Value} {M : Bytes → Value → Prop} (hM : Recognises member M)
  (hleast : ∀ raw v, M raw v → 1 ≤ raw.length)
include hM hleast

/-- What follows the tag of a tuple or a list: a count, and so many values. -/
theorem recognises_items (make : List Value → Value) :
    Recognises (fun i => do
        let (n, j) ← count 1 i
        let (items, j) ← times member n j
        .ok (make items, j))
      (fun raw v => ∃ items, (Counted Varint.Denotes M raw items ∧ True) ∧ v = make items) := by
  have htimes : ∀ n, Recognises (times member n)
      (fun raw items => (items.length = n ∧ Run M raw items) ∧ True) :=
    fun n => (recognises_times hM n).congr fun raw items => ⟨fun h => ⟨h, trivial⟩, And.left⟩
  exact recognises_counted hleast htimes make

/-- What follows the tag of a dictionary: a count, and keys and values by turns of which the keys
    may be keys. -/
theorem recognises_dict :
    Recognises (fun i => do
        let (n, j) ← count 2 i
        let (entries, j) ← times (entry member) n j
        .ok (Value.dict entries, j))
      (fun raw v => ∃ entries, (Counted Varint.Denotes (InOrder M M) raw entries ∧
        ∀ e ∈ entries, e.1.isHashable = true) ∧ v = Value.dict entries) := by
  have htimes : ∀ n, Recognises (times (entry member) n) (fun raw entries =>
      (entries.length = n ∧ Run (InOrder M M) raw entries) ∧
        ∀ e ∈ entries, e.1.isHashable = true) := by
    intro n
    refine (recognises_times (recognises_entry hM) n).congr fun raw entries => ?_
    rw [run_and_iff, and_assoc]
  exact recognises_counted (two_le_length hleast hleast) htimes Value.dict

/-- What follows the tag of a record: the class, a count, and fields with valid names, no two the
    same. -/
theorem recognises_record :
    Recognises (fun i => do
        let (cls, j) ← text i
        let (n, j) ← count 2 j
        let (fs, j) ← fields member n [] j
        .ok (Value.record cls fs, j))
      (fun raw v => ∃ cls fields, v = .record cls fields ∧ v.FieldsNamed ∧
        Body Varint.Denotes M raw v) := by
  have hfields : ∀ n, Recognises (fields member n []) (fun raw fs =>
      (fs.length = n ∧ Run (InOrder (SizedText Varint.Denotes) M) raw fs) ∧
        (∀ f ∈ fs, FieldName.isValid f.1 = true) ∧ (fs.map (·.1)).Nodup) := by
    intro n
    refine (recognises_fields hM n [] List.nodup_nil).congr fun raw fs => ?_
    constructor
    · rintro ⟨fs', rfl, h⟩
      exact h
    · intro h
      exact ⟨fs, rfl, h⟩
  have hsized : ∀ raw s, SizedText Varint.Denotes raw s → 1 ≤ raw.length :=
    fun raw s h => h.length_pos
  refine (recognises_text.bind fun _ cls => recognises_counted (two_le_length hsized hleast) hfields
    (Value.record cls)).congr fun raw v => ?_
  constructor
  · rintro ⟨cls, front, back, rfl, hcls, fs, ⟨hcounted, hnamed⟩, rfl⟩
    exact ⟨cls, fs, rfl, hnamed, front, back, rfl, hcls, hcounted⟩
  · rintro ⟨cls, fs, rfl, hnamed, front, back, rfl, hcls, hcounted⟩
    exact ⟨cls, front, back, rfl, hcls, fs, ⟨hcounted, hnamed⟩, rfl⟩

/-- What follows a tag byte is read when it is the body of a lawful value with that tag. -/
theorem recognises_content (pos : Nat) (t : UInt8) :
    Recognises (content member pos t)
      (fun raw v => tag v = t ∧ Lawful v ∧ Body Varint.Denotes M raw v) := by
  intro i v j
  constructor
  · intro h
    unfold content at h
    split at h
    · obtain ⟨front, ⟨rfl, rfl⟩, hinput⟩ := (recognises_pure _ i v j).mp h
      exact ⟨[], ⟨rfl, ⟨trivial, trivial⟩, rfl⟩, hinput⟩
    · obtain ⟨front, ⟨rfl, rfl⟩, hinput⟩ := (recognises_pure _ i v j).mp h
      exact ⟨[], ⟨rfl, ⟨trivial, trivial⟩, rfl⟩, hinput⟩
    · obtain ⟨front, ⟨rfl, rfl⟩, hinput⟩ := (recognises_pure _ i v j).mp h
      exact ⟨[], ⟨rfl, ⟨trivial, trivial⟩, rfl⟩, hinput⟩
    · obtain ⟨front, ⟨z, hz, rfl⟩, hinput⟩ :=
        (recognises_varint.map (fun z => Value.int (Varint.unzigzag z)) i v j).mp h
      exact ⟨front, ⟨rfl, ⟨trivial, trivial⟩, z, hz, rfl⟩, hinput⟩
    · obtain ⟨front, ⟨bits, hbits, rfl⟩, hinput⟩ := (recognises_bits Value.float i v j).mp h
      exact ⟨front, ⟨rfl, ⟨trivial, trivial⟩, hbits⟩, hinput⟩
    · obtain ⟨front, ⟨s, hs, rfl⟩, hinput⟩ := (recognises_text.map Value.str i v j).mp h
      exact ⟨front, ⟨rfl, ⟨trivial, trivial⟩, hs⟩, hinput⟩
    · obtain ⟨front, ⟨b, hb, rfl⟩, hinput⟩ := (recognises_sizedBytes.map Value.bytes i v j).mp h
      exact ⟨front, ⟨rfl, ⟨trivial, trivial⟩, hb⟩, hinput⟩
    · obtain ⟨front, ⟨items, ⟨hitems, -⟩, rfl⟩, hinput⟩ :=
        (recognises_items hM hleast .tuple i v j).mp h
      exact ⟨front, ⟨rfl, ⟨trivial, trivial⟩, hitems⟩, hinput⟩
    · obtain ⟨front, ⟨items, ⟨hitems, -⟩, rfl⟩, hinput⟩ :=
        (recognises_items hM hleast .list i v j).mp h
      exact ⟨front, ⟨rfl, ⟨trivial, trivial⟩, hitems⟩, hinput⟩
    · obtain ⟨front, ⟨entries, ⟨hentries, hkeys⟩, rfl⟩, hinput⟩ :=
        (recognises_dict hM hleast i v j).mp h
      exact ⟨front, ⟨rfl, ⟨hkeys, trivial⟩, hentries⟩, hinput⟩
    · obtain ⟨front, ⟨cls, fs, rfl, hnamed, hbody⟩, hinput⟩ :=
        (recognises_record hM hleast i v j).mp h
      exact ⟨front, ⟨rfl, ⟨trivial, hnamed⟩, hbody⟩, hinput⟩
    · nomatch h
  · rintro ⟨front, ⟨rfl, ⟨hkeys, hnamed⟩, hbody⟩, hinput⟩
    cases v with
    | none => exact (recognises_pure _ i _ j).mpr ⟨front, ⟨hbody, rfl⟩, hinput⟩
    | bool b =>
      cases b with
      | false => exact (recognises_pure _ i _ j).mpr ⟨front, ⟨hbody, rfl⟩, hinput⟩
      | true => exact (recognises_pure _ i _ j).mpr ⟨front, ⟨hbody, rfl⟩, hinput⟩
    | int n =>
      obtain ⟨z, hz, rfl⟩ := hbody
      exact (recognises_varint.map (fun z => Value.int (Varint.unzigzag z)) i _ j).mpr
        ⟨front, ⟨z, hz, rfl⟩, hinput⟩
    | float bits =>
      exact (recognises_bits Value.float i _ j).mpr ⟨front, ⟨bits, hbody, rfl⟩, hinput⟩
    | str s => exact (recognises_text.map Value.str i _ j).mpr ⟨front, ⟨s, hbody, rfl⟩, hinput⟩
    | bytes b =>
      exact (recognises_sizedBytes.map Value.bytes i _ j).mpr ⟨front, ⟨b, hbody, rfl⟩, hinput⟩
    | tuple items =>
      exact (recognises_items hM hleast .tuple i _ j).mpr
        ⟨front, ⟨items, ⟨hbody, trivial⟩, rfl⟩, hinput⟩
    | list items =>
      exact (recognises_items hM hleast .list i _ j).mpr
        ⟨front, ⟨items, ⟨hbody, trivial⟩, rfl⟩, hinput⟩
    | dict entries =>
      exact (recognises_dict hM hleast i _ j).mpr ⟨front, ⟨entries, ⟨hbody, hkeys⟩, rfl⟩, hinput⟩
    | record cls fs =>
      exact (recognises_record hM hleast i _ j).mpr ⟨front, ⟨cls, fs, rfl, hnamed, hbody⟩, hinput⟩

end

/-- **The reader of values** takes off exactly what spells a lawful value within its room. -/
theorem recognises_value (room : Nat) :
    Recognises (value room) (Spells Varint.Denotes Lawful room) := by
  induction room with
  | zero => exact recognises_error _
  | succ room ih =>
    have hleast : ∀ raw v, Spells Varint.Denotes Lawful room raw v → 1 ≤ raw.length :=
      fun raw v h => h.length_pos
    refine ((recognises_byte .endOfPayload).bind fun i t =>
      recognises_content ih hleast i.pos t).congr fun raw v => ?_
    constructor
    · rintro ⟨t, _, body, rfl, rfl, rfl, hlawful, hbody⟩
      exact ⟨hlawful, body, rfl, hbody⟩
    · rintro ⟨hlawful, body, rfl, hbody⟩
      exact ⟨tag v, [tag v], body, rfl, rfl, rfl, hlawful, hbody⟩

/-- What is decoded is spelled by all of the bytes, as nothing may be left behind them. -/
theorem grammar_of_decode {b : Bytes} {v : Value} (h : decode b = .ok v) : Grammar b v := by
  unfold decode at h
  obtain ⟨⟨w, i⟩, hvalue, h⟩ := except_bind_eq_ok.mp h
  obtain ⟨front, hspells, hrest, -⟩ := (recognises_value _ _ _ _).mp hvalue
  dsimp only at h
  split at h
  · next hempty =>
    obtain rfl := Except.ok.inj h
    obtain rfl : b = front := by
      rw [show b = front ++ i.rest from hrest, List.isEmpty_iff.mp hempty, List.append_nil]
    exact hspells
  · nomatch h

theorem decode_of_grammar {b : Bytes} {v : Value} (h : Grammar b v) : decode b = .ok v := by
  have hvalue : value (maxDepth + 1) ⟨0, b⟩ = .ok (v, ⟨b.length, []⟩) :=
    (recognises_value _ _ _ _).mpr ⟨b, h, (List.append_nil b).symm, (Nat.zero_add _).symm⟩
  exact except_bind_eq_ok.mpr ⟨_, hvalue, rfl⟩

/-- **`decode` accepts exactly the payload grammar**, and gives the value that is spelled. -/
theorem decode_eq_ok_iff_grammar (b : Bytes) (v : Value) : decode b = .ok v ↔ Grammar b v :=
  ⟨grammar_of_decode, decode_of_grammar⟩

end SealedStore.Payload
