/-
  A value is read back from its JSON.

  The JSON of a value is made of texts and numbers only, so its text gives the tree back
  (`read?_write`), and the tree gives the value: by induction on members, with one lemma for each
  way in which a kind holds them.  The reader counts the brackets that lie around what it reads, so
  the induction asks of the room that is left what `nesting` says a tree needs.

  A float may come back as another one, and a NaN or an infinity does not come back at all.  Nothing
  else is asked of a value, neither of its keys nor of the names of its fields.
-/
import SealedStore.Proofs.Json.RoundTrip
import SealedStore.Proofs.Value.Members
import SealedStore.Value.Json

namespace SealedStore

/-! ## Nested brackets -/

namespace Json

mutual

/-- How many brackets are nested in a tree at most. -/
def nesting : Json → Nat
  | array items => 1 + nestingItems items
  | object members => 1 + nestingMembers members
  | _ => 0

/-- The greatest nesting among items. -/
def nestingItems : List Json → Nat
  | [] => 0
  | j :: js => max (nesting j) (nestingItems js)

/-- The greatest nesting among the values of members. -/
def nestingMembers : List (List Unit × Json) → Nat
  | [] => 0
  | (_, j) :: ms => max (nesting j) (nestingMembers ms)

end

end Json

namespace Value

open Json (IsNumber Textual units)

/-- No node of a value is a float. -/
def FloatFree (v : Value) : Prop := v.Everywhere fun w => w.kind ≠ .float

instance : DecidablePred FloatFree := fun v =>
  inferInstanceAs (Decidable (v.Everywhere fun w => w.kind ≠ .float))

/-! ## Numbers -/

theorem isNumber_intText (n : Int) : IsNumber (intText n) := by
  rw [intText]
  split
  · exact Json.isNumber_negative n.natAbs
  · exact Json.isNumber_toDigits n.natAbs

/-- Every number of 64 bits is read back. -/
theorem int64?_intText (n : Int64) : Json.int64? (intText n.toInt) = some n := by
  have hlow : -2 ^ 63 ≤ n.toInt := n.le_toInt
  have hhigh : n.toInt < 2 ^ 63 := n.toInt_lt
  rw [intText, Json.int64?]
  split
  · next hneg =>
    have habs : (-(n.toInt.natAbs : Int)) = n.toInt := by omega
    have hrange : 0 < n.toInt.natAbs ∧ n.toInt.natAbs ≤ Nat.pow 2 63 := by
      show 0 < n.toInt.natAbs ∧ n.toInt.natAbs ≤ 2 ^ 63
      omega
    simp only [Json.ofLexeme_negative, Json.natOf_toDigits]
    rw [habs, Int64.ofInt_toInt]
    simp [hrange]
  · next hpos =>
    have habs : (n.toInt.natAbs : Int) = n.toInt := by omega
    have hrange : n.toInt.natAbs < Nat.pow 2 63 := by
      show n.toInt.natAbs < 2 ^ 63
      omega
    simp only [Json.ofLexeme_toDigits, Json.natOf_toDigits]
    rw [← Int64.ofInt_eq_ofNat, habs, Int64.ofInt_toInt]
    simp [hrange]

theorem intText_natCast (n : Nat) : intText n = Nat.toDigits 10 n := if_neg (by omega)

/-! ## The JSON of a value as a tree -/

theorem toJsonItems_eq (items : List Value) : toJsonItems items = items.map toJson := by
  induction items with
  | nil => rfl
  | cons v vs ih => rw [toJsonItems, ih, List.map_cons]

theorem toJsonEntries_eq (entries : List (Value × Value)) :
    toJsonEntries entries = entries.map fun e => .array [toJson e.1, toJson e.2] := by
  induction entries with
  | nil => rfl
  | cons e es ih => rw [toJsonEntries, ih, List.map_cons]

theorem toJsonFields_eq (fields : List (String × Value)) :
    toJsonFields fields = fields.map fun f => .array [.ofString f.1, toJson f.2] := by
  induction fields with
  | nil => rfl
  | cons f fs ih => rw [toJsonFields, ih, List.map_cons]

section
variable {N : List Char → Prop}

theorem textual_ofString (s : String) : Textual N (.ofString s) := .string s.toList

theorem textual_pair {j k : Json} (hj : Textual N j) (hk : Textual N k) :
    Textual N (.array [j, k]) := by
  refine .array fun i hi => ?_
  rcases List.mem_pair.mp hi with rfl | rfl
  · exact hj
  · exact hk

theorem textual_map {α : Type} {xs : List α} {f : α → Json} (h : ∀ x ∈ xs, Textual N (f x)) :
    Textual N (.array (xs.map f)) :=
  .array (List.forall_mem_map.mpr h)

theorem textual_tagged (kind : Kind) {content : Json} (h : Textual N content) :
    Textual N (tagged kind content) := by
  refine .object ?_ ?_
  · intro m hm
    obtain rfl := List.mem_singleton.mp hm
    exact ⟨_, rfl⟩
  · intro m hm
    obtain rfl := List.mem_singleton.mp hm
    exact h

theorem textual_twoMembers {name name' : List Char} {j k : Json} (hj : Textual N j)
    (hk : Textual N k) : Textual N (.object [(units name, j), (units name', k)]) := by
  refine .object ?_ ?_
  · intro m hm
    rcases List.mem_pair.mp hm with rfl | rfl
    · exact ⟨name, rfl⟩
    · exact ⟨name', rfl⟩
  · intro m hm
    rcases List.mem_pair.mp hm with rfl | rfl
    · exact hj
    · exact hk

/-- What must hold of a value for its JSON to be `Textual N`, if `N` holds of all integers. -/
def FloatIn (N : List Char → Prop) : Value → Prop
  | float bits => Textual N (floatJson bits)
  | _ => True

/-- **The JSON of a value is made of texts and numbers only.** -/
theorem textual_toJson (hint : ∀ n, N (intText n)) {v : Value} (hfloat : v.Everywhere (FloatIn N)) :
    Textual N v.toJson := by
  induction v using byMembers with
  | step v ih =>
    have hmember : ∀ w ∈ v.members, Textual N w.toJson := fun w hw => ih w hw (hfloat.member hw)
    cases v with
    | none => exact textual_ofString _
    | bool b => exact textual_tagged _ (.bool b)
    | int n => exact textual_tagged _ (.number (hint n.toInt))
    | float bits => exact textual_tagged _ hfloat.self
    | str s => exact textual_tagged _ (textual_ofString s)
    | bytes b =>
      refine textual_tagged _ (textual_map fun x _ => .number ?_)
      rw [← intText_natCast]
      exact hint x.toNat
    | tuple items | list items =>
      rw [toJson, toJsonItems_eq]
      exact textual_tagged _ (textual_map hmember)
    | dict entries =>
      rw [toJson, toJsonEntries_eq]
      refine textual_tagged _ (textual_map fun e he => textual_pair ?_ ?_)
      · exact hmember e.1 (mem_members_dict.mpr ⟨e, he, .inl rfl⟩)
      · exact hmember e.2 (mem_members_dict.mpr ⟨e, he, .inr rfl⟩)
    | record cls fields =>
      have hfields : Textual N (.array (toJsonFields fields)) := by
        rw [toJsonFields_eq]
        refine textual_map fun f hf => textual_pair (textual_ofString f.1) ?_
        exact hmember f.2 (mem_members_record.mpr ⟨f, hf, rfl⟩)
      rw [toJson]
      exact textual_tagged _ (textual_twoMembers (textual_ofString cls) hfields)

end

theorem FloatFree.floatIn {v : Value} (h : v.FloatFree) (N : List Char → Prop) :
    v.Everywhere (FloatIn N) := by
  refine Everywhere.imp (fun w hw => ?_) h
  cases w with
  | float bits => exact absurd rfl hw
  | _ => trivial

/-! ## The value of the tree -/

theorem nesting_tagged (kind : Kind) (content : Json) :
    (tagged kind content).nesting = content.nesting + 1 := by
  rw [tagged, Json.nesting, Json.nestingMembers, Json.nestingMembers]
  omega

theorem ofJson?_tagged (room : Nat) (kind : Kind) (content : Json) :
    ofJson? (room + 1) (tagged kind content) = ofContent? room (some kind.tag) content := by
  rw [tagged, ofJson?, Json.textOf?_units, Option.map_some, String.ofList_toList]

theorem textOf?_ofString (s : String) : textOf? (.ofString s) = some s := by
  rw [Json.ofString, textOf?, Json.textOf?_units, Option.map_some, String.ofList_toList]

/-- The JSON of a value gives it back where there is room for its brackets. -/
def Restores (v : Value) : Prop :=
  ∀ room, v.toJson.nesting ≤ room → ofJson? room v.toJson = some v

variable {room : Nat}

/-- Bytes are read back from their numbers. -/
theorem bytesOf?_ofNat (b : Bytes) : bytesOf? (b.map fun x => .ofNat x.toNat) = some b := by
  induction b with
  | nil => rfl
  | cons x b ih =>
    rw [List.map_cons, Json.ofNat, bytesOf?, Json.byte?_toDigits, ih]
    rfl

/-- Items are read back when each of them is. -/
theorem ofItems?_toJsonItems {items : List Value} (h : ∀ v ∈ items, v.Restores)
    (hroom : Json.nestingItems (toJsonItems items) ≤ room) :
    ofItems? room (toJsonItems items) = some items := by
  induction items with
  | nil => rfl
  | cons v vs ih =>
    obtain ⟨hv, hvs⟩ := List.forall_mem_cons.mp h
    obtain ⟨hfirst, hrest⟩ := Nat.max_le.mp hroom
    rw [toJsonItems, ofItems?, hv room hfirst, ih hvs hrest]
    rfl

/-- A pair of trees takes one bracket more than they do. -/
theorem nesting_pair_le {j k : Json} (h : (Json.array [j, k]).nesting ≤ room) :
    ∃ inner, room = inner + 1 ∧ j.nesting ≤ inner ∧ k.nesting ≤ inner := by
  simp only [Json.nesting, Json.nestingItems] at h
  exact ⟨room - 1, by omega, by omega, by omega⟩

/-- Entries are read back from pairs of a key and a value, when their members are. -/
theorem ofEntries?_toJsonEntries {entries : List (Value × Value)}
    (h : ∀ v ∈ members (dict entries), v.Restores)
    (hroom : Json.nestingItems (toJsonEntries entries) ≤ room) :
    ofEntries? room (toJsonEntries entries) = some entries := by
  induction entries with
  | nil => rfl
  | cons e es ih =>
    have hkey := h e.1 (mem_members_dict.mpr ⟨e, List.mem_cons_self, .inl rfl⟩)
    have hvalue := h e.2 (mem_members_dict.mpr ⟨e, List.mem_cons_self, .inr rfl⟩)
    have hrest : ∀ v ∈ members (dict es), v.Restores := by
      intro v hv
      obtain ⟨f, hf, hv⟩ := mem_members_dict.mp hv
      exact h v (mem_members_dict.mpr ⟨f, List.mem_cons_of_mem e hf, hv⟩)
    obtain ⟨hentry, hentries⟩ := Nat.max_le.mp hroom
    obtain ⟨inner, rfl, hk, hv⟩ := nesting_pair_le hentry
    rw [toJsonEntries, ofEntries?, hkey inner hk, hvalue inner hv, ih hrest hentries]
    rfl

/-- Fields are read back from pairs of a name and a value, when their values are. -/
theorem ofFields?_toJsonFields {fields : List (String × Value)}
    (h : ∀ f ∈ fields, Restores f.2)
    (hroom : Json.nestingItems (toJsonFields fields) ≤ room) :
    ofFields? room (toJsonFields fields) = some fields := by
  induction fields with
  | nil => rfl
  | cons f fs ih =>
    obtain ⟨hf, hfs⟩ := List.forall_mem_cons.mp h
    obtain ⟨hfield, hfields⟩ := Nat.max_le.mp hroom
    obtain ⟨inner, rfl, -, hv⟩ := nesting_pair_le hfield
    rw [toJsonFields, ofFields?, textOf?_ofString, hf inner hv, ih hfs hfields]
    rfl

/-- A value that is an object of one member is read back when the content under its tag is, within
    one bracket less. -/
theorem restores_tagged {v : Value} {kind : Kind} {content : Json}
    (hv : v.toJson = tagged kind content)
    (h : ∀ room, content.nesting ≤ room → ofContent? room (some kind.tag) content = some v) :
    v.Restores := by
  intro room hroom
  rw [hv, nesting_tagged] at hroom
  rw [hv]
  cases room with
  | zero => omega
  | succ room =>
    rw [ofJson?_tagged]
    exact h room (by omega)

/-- What a kind holds in an array has room for one bracket less. -/
theorem restores_array {v : Value} {kind : Kind} {js : List Json}
    (hv : v.toJson = tagged kind (.array js))
    (h : ∀ room, Json.nestingItems js ≤ room →
      ofContent? (room + 1) (some kind.tag) (.array js) = some v) :
    v.Restores := by
  refine restores_tagged hv fun room hroom => ?_
  rw [Json.nesting] at hroom
  cases room with
  | zero => omega
  | succ room => exact h room (by omega)

/-- A record has its class and its fields under their names. -/
theorem ofMembers?_record (room : Nat) (cls : String) (js : List Json) :
    ofMembers? (room + 1) ⟨Option.none, Option.none⟩
        [(units "class".toList, .ofString cls), (units "fields".toList, .array js)] =
      (ofFields? room js).map fun fields => ⟨some cls, some fields⟩ := by
  simp only [ofMembers?, Json.textOf?_units, textOf?_ofString, ofFieldArray?]
  cases ofFields? room js <;> simp

/-- A record is read back when its fields are, whatever its class and its names. -/
theorem restores_record {cls : String} {fields : List (String × Value)}
    (h : ∀ f ∈ fields, Restores f.2) : (record cls fields).Restores := by
  refine restores_tagged rfl fun room hroom => ?_
  simp only [Json.nesting, Json.nestingMembers] at hroom
  obtain ⟨room, rfl⟩ : ∃ inner, room = inner + 2 := ⟨room - 2, by omega⟩
  have hfields : ofFields? room (toJsonFields fields) = some fields :=
    ofFields?_toJsonFields h (by omega)
  rw [ofContent?, ofMembers?_record, hfields]
  rfl

/-- **A value without floats is restored from its JSON**, by induction on members. -/
theorem restores_of_floatFree {v : Value} (h : v.FloatFree) : v.Restores := by
  induction v using byMembers with
  | step v ih =>
    have hmember : ∀ w ∈ v.members, w.Restores := fun w hw => ih w hw (h.member hw)
    cases v with
    | none =>
      intro room _
      rfl
    | bool b =>
      refine restores_tagged rfl fun room _ => ?_
      simp [ofContent?]
    | int n =>
      refine restores_tagged rfl fun room _ => ?_
      simp [ofContent?, int64?_intText]
    | float bits => exact absurd rfl h.self
    | str s =>
      refine restores_tagged rfl fun room _ => ?_
      simp [Json.ofString, ofContent?, Json.textOf?_units]
    | bytes b =>
      refine restores_array rfl fun room _ => ?_
      simp [ofContent?, bytesOf?_ofNat]
    | tuple items =>
      refine restores_array rfl fun room hroom => ?_
      have hitems : ofItems? room (toJsonItems items) = some items :=
        ofItems?_toJsonItems hmember hroom
      simp [ofContent?, Kind.tag, hitems]
    | list items =>
      refine restores_array rfl fun room hroom => ?_
      have hitems : ofItems? room (toJsonItems items) = some items :=
        ofItems?_toJsonItems hmember hroom
      simp [ofContent?, Kind.tag, hitems]
    | dict entries =>
      refine restores_array rfl fun room hroom => ?_
      simp [ofContent?, Kind.tag, ofEntries?_toJsonEntries hmember hroom]
    | record cls fields =>
      refine restores_record fun f hf => ?_
      exact hmember f.2 (mem_members_record.mpr ⟨f, hf, rfl⟩)

/-- **A value without floats is read back from its text**, if the brackets in there are not too
    many. -/
theorem ofJsonText?_jsonText {v : Value} (h : v.FloatFree)
    (hroom : v.toJson.nesting ≤ maxBrackets) :
    ofJsonText? v.jsonText = some v := by
  have htext := textual_toJson isNumber_intText (h.floatIn IsNumber)
  rw [ofJsonText?, jsonText, Json.read?_write htext]
  exact restores_of_floatFree h maxBrackets hroom

end Value

end SealedStore
