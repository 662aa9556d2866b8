/-
  The printed form tells values apart.

  A value without floats, in whose records all names are valid, begins with a word or a sign that
  tells its kind (`kindAt_textOnto`).  What ends it is told by what may follow a member: a comma, a
  closing bracket or a colon (`Ends`).  So one printed form with such a rest behind it is only one
  value with only that rest (`apart_textOnto`), by induction on members: members in a row stand
  between commas, and the rows of all four containers are taken apart by one lemma
  (`rowOnto_inj`).
-/
import SealedStore.Proofs.Text.Literal
import SealedStore.Proofs.Value.Json
import SealedStore.Proofs.Value.LineBreaks

namespace SealedStore

/-! ## Words -/

namespace FieldName

/-- A text of parts of a name, at least one. -/
def isWord (cs : List Char) : Bool := !cs.isEmpty && cs.all isPart

theorem isWord_iff {cs : List Char} :
    isWord cs = true ↔ cs ≠ [] ∧ ∀ c ∈ cs, isPart c = true := by
  rw [isWord, Bool.and_eq_true, List.all_eq_true, Bool.not_eq_true', List.isEmpty_eq_false_iff]

/-- A text that begins with no part of a name. -/
def Stops (cs : List Char) : Prop := ∀ c ∈ cs.head?, isPart c = false

theorem stops_cons {c : Char} {cs : List Char} (h : isPart c = false) : Stops (c :: cs) := by
  intro d hd
  obtain rfl := Option.some.inj hd
  exact h

variable {word word' rest rest' : List Char}

theorem takeWhile_isPart (hword : ∀ c ∈ word, isPart c = true) (hrest : Stops rest) :
    (word ++ rest).takeWhile isPart = word := by
  rw [List.takeWhile_append_of_pos hword]
  cases rest with
  | nil => exact List.append_nil word
  | cons c rest => rw [List.takeWhile_cons_of_neg (by simp [hrest c rfl]), List.append_nil]

theorem dropWhile_isPart (hword : ∀ c ∈ word, isPart c = true) (hrest : Stops rest) :
    (word ++ rest).dropWhile isPart = rest := by
  rw [List.dropWhile_append_of_pos hword]
  cases rest with
  | nil => rfl
  | cons c rest => rw [List.dropWhile_cons_of_neg (by simp [hrest c rfl])]

/-- A word ends where no part of a name follows. -/
theorem word_append_inj (hword : isWord word = true) (hword' : isWord word' = true)
    (hrest : Stops rest) (hrest' : Stops rest') (h : word ++ rest = word' ++ rest') :
    word = word' ∧ rest = rest' := by
  have hparts := (isWord_iff.mp hword).2
  have hparts' := (isWord_iff.mp hword').2
  constructor
  · rw [← takeWhile_isPart hparts hrest, h, takeWhile_isPart hparts' hrest']
  · rw [← dropWhile_isPart hparts hrest, h, dropWhile_isPart hparts' hrest']

theorem isPart_of_isStart {c : Char} (h : isStart c = true) : isPart c = true := by
  rw [isStart, Bool.or_eq_true] at h
  rw [isPart, Bool.or_eq_true, Bool.or_eq_true]
  exact h.imp_left .inl

theorem isPart_of_isDigit {c : Char} (h : c.isDigit = true) : isPart c = true := by
  have hc : c.toNat < 0x80 := by
    rw [Char.isDigit, Bool.and_eq_true, decide_eq_true_iff, decide_eq_true_iff,
      UInt32.le_iff_toNat_le] at h
    exact Nat.lt_of_le_of_lt h.2 (by decide)
  simp [isPart, isDigit, hc, h]

theorem isWord_toDigits (n : Nat) : isWord (Nat.toDigits 10 n) = true :=
  isWord_iff.mpr ⟨Nat.toDigits_ne_nil, fun _ hc =>
    isPart_of_isDigit (Json.isDigit_of_mem_toDigits hc)⟩

/-- A valid name is a word. -/
theorem isWord_of_isValid {name : String} (h : isValid name = true) :
    isWord name.toList = true := by
  rw [isValid, Option.isNone_iff_eq_none] at h
  rw [isWord_iff]
  cases hname : name.toList with
  | nil =>
    rw [hname] at h
    nomatch h
  | cons c cs =>
    rw [hname, fault?] at h
    split at h
    · next hstart =>
      rw [Option.map_eq_none_iff, List.find?_eq_none] at h
      refine ⟨List.cons_ne_nil c cs, ?_⟩
      refine List.forall_mem_cons.mpr ⟨isPart_of_isStart hstart, fun d hd => ?_⟩
      simpa using h d hd
    · nomatch h

end FieldName

namespace Value

/-! ## The front of a value -/

/-- The characters that may follow a member. -/
def enders : List Char := [',', ')', ']', Char.ofNat 0x7D, ':']

/-- A text that may follow a member. -/
def Ends (cs : List Char) : Prop := ∀ c ∈ cs.head?, c ∈ enders

/-- The kind of a value that is printed as a word: a constant or a number. -/
def kindOfWord : List Char → Kind
  | 'N' :: _ => .none
  | 'T' :: _ => .bool
  | 'F' :: _ => .bool
  | _ => .int

/-- The kind of a value that is printed as a word and what stands behind it. -/
def kindOf : (word behind : List Char) → Kind
  | [], '(' :: _ => .tuple
  | [], '[' :: _ => .list
  | [], '\'' :: _ => .str
  | [], '"' :: _ => .str
  | [], '-' :: _ => .int
  | [], _ => .dict
  | _ :: _, '(' :: _ => .record
  | _ :: _, '\'' :: _ => .bytes
  | c :: word, _ => kindOfWord (c :: word)

/-- The kind of a value that is printed in front of a text. -/
def kindAt (cs : List Char) : Kind :=
  kindOf (cs.takeWhile FieldName.isPart) (cs.dropWhile FieldName.isPart)

theorem kindAt_append (word : List Char) {behind : List Char}
    (hword : ∀ c ∈ word, FieldName.isPart c = true) (hbehind : FieldName.Stops behind) :
    kindAt (word ++ behind) = kindOf word behind := by
  rw [kindAt, FieldName.takeWhile_isPart hword hbehind, FieldName.dropWhile_isPart hword hbehind]

section
variable {rest : List Char}

theorem Ends.stops (h : Ends rest) : FieldName.Stops rest := by
  have hstop : enders.all (fun c => !FieldName.isPart c) = true := by decide
  intro c hc
  simpa using List.all_eq_true.mp hstop c (h c hc)

theorem Ends.number_stops (h : Ends rest) : Json.Stops rest := by
  have hstop : enders.all (fun c => !c.isDigit && c != '.' && c != 'e' && c != 'E') = true := by
    decide
  intro c hc
  simpa [and_assoc] using List.all_eq_true.mp hstop c (h c hc)

theorem ends_nil : Ends [] := nofun

theorem ends_cons_iff {c : Char} {cs : List Char} : Ends (c :: cs) ↔ c ∈ enders := by
  simp [Ends]

theorem Ends.ne_cons (h : Ends rest) {c : Char} (hc : c ∉ enders) (cs : List Char) :
    rest ≠ c :: cs := by
  rintro rfl
  exact hc (ends_cons_iff.mp h)

/-- A word is not what follows a member. -/
theorem not_ends_word {word behind : List Char} (hword : FieldName.isWord word = true) :
    ¬ Ends (word ++ behind) := by
  obtain ⟨hne, hparts⟩ := FieldName.isWord_iff.mp hword
  obtain ⟨c, cs, rfl⟩ := List.exists_cons_of_ne_nil hne
  intro hends
  have hstop := hends.stops c rfl
  rw [hparts c List.mem_cons_self] at hstop
  nomatch hstop

/-- A word that ends a member stands alone. -/
theorem kindOf_of_ends {word : List Char} (hword : FieldName.isWord word = true)
    (hrest : Ends rest) : kindOf word rest = kindOfWord word := by
  obtain ⟨c, cs, rfl⟩ := List.exists_cons_of_ne_nil (FieldName.isWord_iff.mp hword).1
  rw [kindOf]
  · exact hrest.ne_cons (by decide)
  · exact hrest.ne_cons (by decide)

/-- A digit is no letter that a constant begins with. -/
theorem kindOfWord_toDigits (n : Nat) : kindOfWord (Nat.toDigits 10 n) = .int := by
  obtain ⟨c, cs, h⟩ := List.exists_cons_of_ne_nil (Nat.toDigits_ne_nil (n := n) (b := 10))
  have hdigit : c.isDigit = true :=
    Json.isDigit_of_mem_toDigits (h ▸ List.mem_cons_self)
  rw [h, kindOfWord]
  · rintro _ ⟨⟩
    nomatch hdigit
  · rintro _ ⟨⟩
    nomatch hdigit
  · rintro _ ⟨⟩
    nomatch hdigit

end

/-- The names of a record are valid. -/
def NamesValid (v : Value) : Prop := ∀ name ∈ v.rawNames, FieldName.isValid name = true

instance : DecidablePred NamesValid := fun v =>
  inferInstanceAs (Decidable (∀ name ∈ v.rawNames, FieldName.isValid name = true))

/-- A value begins with a word or a sign that tells its kind, and that cannot follow a member. -/
structure Begins (kind : Kind) (cs : List Char) : Prop where
  kindAt_eq : kindAt cs = kind
  not_ends : ¬ Ends cs

theorem begins_word {kind : Kind} (word : List Char) {behind : List Char}
    (hword : FieldName.isWord word = true) (hbehind : FieldName.Stops behind)
    (hkind : kindOf word behind = kind) : Begins kind (word ++ behind) :=
  ⟨(kindAt_append word (FieldName.isWord_iff.mp hword).2 hbehind).trans hkind, not_ends_word hword⟩

theorem begins_sign {kind : Kind} {c : Char} {cs : List Char} (hpart : FieldName.isPart c = false)
    (hc : c ∉ enders) (hkind : kindOf [] (c :: cs) = kind) : Begins kind (c :: cs) :=
  ⟨(kindAt_append [] nofun (FieldName.stops_cons hpart)).trans hkind,
    fun h => hc (ends_cons_iff.mp h)⟩

/-- The printed form of every value begins in a way that tells its kind.  Of floats this does not
    hold, nor of records whose class could be anything. -/
theorem begins_textOnto {v : Value} (hfloat : v.kind ≠ .float) (hnames : v.NamesValid)
    {rest : List Char} (hrest : Ends rest) : Begins v.kind (textOnto v rest) := by
  have halone : ∀ word, FieldName.isWord word = true → kindOfWord word = v.kind →
      Begins v.kind (word ++ rest) := fun word hword hkind =>
    begins_word word hword hrest.stops ((kindOf_of_ends hword hrest).trans hkind)
  cases v with
  | none => exact halone ['N', 'o', 'n', 'e'] (by decide) rfl
  | bool b =>
    cases b with
    | true => exact halone ['T', 'r', 'u', 'e'] (by decide) rfl
    | false => exact halone ['F', 'a', 'l', 's', 'e'] (by decide) rfl
  | int n =>
    rw [textOnto, intText]
    split
    · exact begins_sign (by decide) (by decide) rfl
    · exact halone _ (FieldName.isWord_toDigits _) (kindOfWord_toDigits _)
  | float bits => exact absurd rfl hfloat
  | str s =>
    obtain ⟨body, hstr, -⟩ := Literal.exists_reads_str s
    rw [textOnto, hstr]
    rcases Literal.quoteOf_eq_or s.toList with hquote | hquote
    · rw [hquote]
      exact begins_sign (by decide) (by decide) rfl
    · rw [hquote]
      exact begins_sign (by decide) (by decide) rfl
  | bytes b =>
    obtain ⟨body, hbytes, -⟩ := Literal.exists_reads_bytes b
    rw [textOnto, hbytes]
    exact begins_word ['b'] (by decide) (FieldName.stops_cons (by decide)) rfl
  | tuple items => exact begins_sign (by decide) (by decide) rfl
  | list items => exact begins_sign (by decide) (by decide) rfl
  | dict entries => exact begins_sign (by decide) (by decide) rfl
  | record cls fields =>
    have hword := FieldName.isWord_of_isValid (hnames cls List.mem_cons_self)
    obtain ⟨c, cs, hcls⟩ := List.exists_cons_of_ne_nil (FieldName.isWord_iff.mp hword).1
    refine begins_word _ hword (FieldName.stops_cons (by decide)) ?_
    rw [hcls, kindOf]
    rfl

/-! ## Rows -/

/-- What is printed in front of a text, for one of `x` and `y`, tells which of them it is. -/
def Apart {α : Type} (cell : α → List Char → List Char) (x y : α) : Prop :=
  ∀ r s, Ends r → Ends s → cell x r = cell y s → x = y ∧ r = s

/-- Members in a row, with commas between. -/
def rowOnto {α : Type} (cell : α → List Char → List Char) : List α → List Char → List Char
  | [], rest => rest
  | x :: xs, rest => cell x (comma xs (rowOnto cell xs rest))

/-- A text that may follow a row, which has no next member. -/
structure Shuts (cs : List Char) : Prop where
  ends : Ends cs
  no_comma : ∀ tail, cs ≠ ',' :: ' ' :: tail

theorem shuts_cons {c : Char} (hc : c ∈ enders) (hcomma : c ≠ ',') (cs : List Char) :
    Shuts (c :: cs) :=
  ⟨ends_cons_iff.mpr hc, fun _ h => hcomma (List.cons.inj h).1⟩

theorem shuts_closeTuple {α : Type} (xs : List α) (rest : List Char) :
    Shuts (closeTuple xs rest) := by
  match xs with
  | [] => exact shuts_cons (by decide) (by decide) rest
  | [_] => exact ⟨ends_cons_iff.mpr (by decide), fun _ h => nomatch h⟩
  | _ :: _ :: _ => exact shuts_cons (by decide) (by decide) rest

section
variable {α : Type} {cell : α → List Char → List Char} {xs ys : List α} {r s : List Char}

theorem ends_comma (hr : Shuts r) : Ends (comma xs (rowOnto cell xs r)) := by
  cases xs with
  | nil => exact hr.ends
  | cons x xs => exact ends_cons_iff.mpr (by decide)

/-- **A row tells its members and what follows it.** -/
theorem rowOnto_inj (hbegin : ∀ x ∈ xs ++ ys, ∀ r, Ends r → ¬ Ends (cell x r))
    (hcell : ∀ x ∈ xs, ∀ y ∈ ys, Apart cell x y) (hr : Shuts r) (hs : Shuts s)
    (h : rowOnto cell xs r = rowOnto cell ys s) : xs = ys ∧ r = s := by
  induction xs generalizing ys with
  | nil =>
    cases ys with
    | nil => exact ⟨rfl, h⟩
    | cons y ys =>
      have hends : Ends (rowOnto cell (y :: ys) s) := h ▸ hr.ends
      exact absurd hends (hbegin y List.mem_cons_self _ (ends_comma hs))
  | cons x xs ih =>
    cases ys with
    | nil =>
      have hends : Ends (rowOnto cell (x :: xs) r) := h ▸ hs.ends
      exact absurd hends (hbegin x List.mem_cons_self _ (ends_comma hr))
    | cons y ys =>
      obtain ⟨rfl, htail⟩ := hcell x List.mem_cons_self y List.mem_cons_self _ _ (ends_comma hr)
        (ends_comma hs) h
      -- a comma says that there is a next member, in both rows or in none
      cases xs with
      | nil =>
        cases ys with
        | nil => exact ⟨rfl, htail⟩
        | cons y ys => exact absurd htail (hr.no_comma _)
      | cons z xs =>
        cases ys with
        | nil => exact absurd htail.symm (hs.no_comma _)
        | cons y ys =>
          have hbegin' : ∀ w ∈ z :: xs ++ y :: ys, ∀ r, Ends r → ¬ Ends (cell w r) := by
            intro w hw
            refine hbegin w ?_
            rw [List.mem_append] at hw ⊢
            exact hw.imp (List.mem_cons_of_mem _) (List.mem_cons_of_mem _)
          have hcell' : ∀ w ∈ z :: xs, ∀ w' ∈ y :: ys, Apart cell w w' := fun w hw w' hw' =>
            hcell w (List.mem_cons_of_mem _ hw) w' (List.mem_cons_of_mem _ hw')
          obtain ⟨hxs, hrest⟩ := ih hbegin' hcell' (List.cons.inj (List.cons.inj htail).2).2
          exact ⟨congrArg _ hxs, hrest⟩

end

/-! ## Members -/

/-- How an entry is printed. -/
def entryOnto (e : Value × Value) (rest : List Char) : List Char :=
  textOnto e.1 (':' :: ' ' :: textOnto e.2 rest)

/-- How a field is printed. -/
def fieldOnto (f : String × Value) (rest : List Char) : List Char :=
  f.1.toList ++ '=' :: textOnto f.2 rest

theorem itemsOnto_eq (items : List Value) (rest : List Char) :
    itemsOnto items rest = rowOnto textOnto items rest := by
  induction items with
  | nil => rfl
  | cons v vs ih => rw [itemsOnto, rowOnto, ih]

theorem entriesOnto_eq (entries : List (Value × Value)) (rest : List Char) :
    entriesOnto entries rest = rowOnto entryOnto entries rest := by
  induction entries with
  | nil => rfl
  | cons e es ih => rw [entriesOnto, rowOnto, entryOnto, ih]

theorem fieldsOnto_eq (fields : List (String × Value)) (rest : List Char) :
    fieldsOnto fields rest = rowOnto fieldOnto fields rest := by
  induction fields with
  | nil => rfl
  | cons f fs ih => rw [fieldsOnto, rowOnto, fieldOnto, ih]

/-- A value that can be read off its printed form. -/
def Legible (v : Value) : Prop := v.Everywhere fun w => w.kind ≠ .float ∧ w.NamesValid

theorem Legible.not_ends {v : Value} (h : v.Legible) {rest : List Char} (hrest : Ends rest) :
    ¬ Ends (textOnto v rest) :=
  (begins_textOnto h.self.1 h.self.2 hrest).not_ends

/-- An entry can be told from its printed form, as its key and its value can. -/
theorem apart_entryOnto {e f : Value × Value} (hkey : Apart textOnto e.1 f.1)
    (hvalue : Apart textOnto e.2 f.2) : Apart entryOnto e f := by
  intro r s hr hs h
  have hcolon : ∀ cs, Ends (':' :: cs) := fun _ => ends_cons_iff.mpr (by decide)
  obtain ⟨hfst, htail⟩ := hkey _ _ (hcolon _) (hcolon _) h
  obtain ⟨hsnd, hrest⟩ := hvalue r s hr hs (List.cons.inj (List.cons.inj htail).2).2
  exact ⟨Prod.ext hfst hsnd, hrest⟩

/-- A field can be told from its printed form: its name is a word, which ends at the sign behind
    it. -/
theorem apart_fieldOnto {f g : String × Value} (hf : FieldName.isValid f.1 = true)
    (hg : FieldName.isValid g.1 = true) (hvalue : Apart textOnto f.2 g.2) :
    Apart fieldOnto f g := by
  intro r s hr hs h
  have hmark : ∀ cs, FieldName.Stops ('=' :: cs) := fun _ => FieldName.stops_cons (by decide)
  obtain ⟨hname, htail⟩ := FieldName.word_append_inj (FieldName.isWord_of_isValid hf)
    (FieldName.isWord_of_isValid hg) (hmark _) (hmark _) h
  obtain ⟨hsnd, hrest⟩ := hvalue r s hr hs (List.cons.inj htail).2
  exact ⟨Prod.ext (String.toList_inj.mp hname) hsnd, hrest⟩

/-- The digits of a number are told apart from what follows them. -/
theorem intText_append_inj {m n : Int64} {r s : List Char} (hr : Ends r) (hs : Ends s)
    (h : intText m.toInt ++ r = intText n.toInt ++ s) : m = n ∧ r = s := by
  have hread := (isNumber_intText m.toInt).number? r hr.number_stops
  rw [h, (isNumber_intText n.toInt).number? s hs.number_stops, Option.some.injEq,
    Prod.mk.injEq] at hread
  obtain ⟨htext, hrest⟩ := hread
  have hint := int64?_intText m
  rw [← htext, int64?_intText, Option.some.injEq] at hint
  exact ⟨hint.symm, hrest.symm⟩

/-- The end of a tuple and what follows it can be told apart. -/
theorem closeTuple_inj {α : Type} {xs : List α} {r s : List Char}
    (h : closeTuple xs r = closeTuple xs s) : r = s := by
  match xs with
  | [] => exact (List.cons.inj h).2
  | [_] => exact (List.cons.inj (List.cons.inj h).2).2
  | _ :: _ :: _ => exact (List.cons.inj h).2

section
variable {r s : List Char}

/-- Items and what follows them can be told from their printed form, when this holds of each. -/
theorem itemsOnto_inj {xs ys : List Value} (hxs : ∀ v ∈ xs, v.Legible) (hys : ∀ v ∈ ys, v.Legible)
    (hapart : ∀ v ∈ xs, ∀ w ∈ ys, Apart textOnto v w) (hr : Shuts r) (hs : Shuts s)
    (h : itemsOnto xs r = itemsOnto ys s) : xs = ys ∧ r = s := by
  rw [itemsOnto_eq, itemsOnto_eq] at h
  refine rowOnto_inj (fun v hv rest => ?_) hapart hr hs h
  exact ((List.mem_append.mp hv).elim (hxs v) (hys v)).not_ends

/-- Entries and what follows them can be told from their printed form, when this holds of the keys
    and values. -/
theorem entriesOnto_inj {es fs : List (Value × Value)} (hes : ∀ v ∈ members (dict es), v.Legible)
    (hfs : ∀ v ∈ members (dict fs), v.Legible)
    (hapart : ∀ v ∈ members (dict es), ∀ w ∈ members (dict fs), Apart textOnto v w)
    (hr : Shuts r) (hs : Shuts s) (h : entriesOnto es r = entriesOnto fs s) :
    es = fs ∧ r = s := by
  rw [entriesOnto_eq, entriesOnto_eq] at h
  have hkey : ∀ {gs : List (Value × Value)} {e}, e ∈ gs → e.1 ∈ members (dict gs) := fun he =>
    mem_members_dict.mpr ⟨_, he, .inl rfl⟩
  have hvalue : ∀ {gs : List (Value × Value)} {e}, e ∈ gs → e.2 ∈ members (dict gs) := fun he =>
    mem_members_dict.mpr ⟨_, he, .inr rfl⟩
  refine rowOnto_inj (fun e he rest _ => ?_) (fun e he f hf => ?_) hr hs h
  · have hlegible : e.1.Legible :=
      (List.mem_append.mp he).elim (fun he => hes _ (hkey he)) fun he => hfs _ (hkey he)
    exact hlegible.not_ends (ends_cons_iff.mpr (by decide))
  · exact apart_entryOnto (hapart _ (hkey he) _ (hkey hf)) (hapart _ (hvalue he) _ (hvalue hf))

/-- Fields and what follows them can be told from their printed form, when this holds of their
    values. -/
theorem fieldsOnto_inj {fs gs : List (String × Value)}
    (hfs : ∀ f ∈ fs, FieldName.isValid f.1 = true) (hgs : ∀ g ∈ gs, FieldName.isValid g.1 = true)
    (hapart : ∀ f ∈ fs, ∀ g ∈ gs, Apart textOnto f.2 g.2) (hr : Shuts r) (hs : Shuts s)
    (h : fieldsOnto fs r = fieldsOnto gs s) : fs = gs ∧ r = s := by
  rw [fieldsOnto_eq, fieldsOnto_eq] at h
  refine rowOnto_inj (fun f hf rest _ => ?_) (fun f hf g hg => ?_) hr hs h
  · have hvalid : FieldName.isValid f.1 = true := (List.mem_append.mp hf).elim (hfs f) (hgs f)
    exact not_ends_word (FieldName.isWord_of_isValid hvalid)
  · exact apart_fieldOnto (hfs f hf) (hgs g hg) (hapart f hf g hg)

end

/-! ## Values -/

theorem NamesValid.field {cls : String} {fields : List (String × Value)}
    (h : (record cls fields).NamesValid) : ∀ f ∈ fields, FieldName.isValid f.1 = true :=
  fun _ hf => h _ (List.mem_cons_of_mem _ (List.mem_map_of_mem hf))

/-- **The printed form of a value, with a rest behind it, tells both.** -/
theorem apart_textOnto {a b : Value} (ha : a.Legible) (hb : b.Legible) : Apart textOnto a b := by
  induction a using byMembers generalizing b with
  | step a ih =>
    intro r s hr hs h
    have hkind : a.kind = b.kind := by
      rw [← (begins_textOnto ha.self.1 ha.self.2 hr).kindAt_eq, h,
        (begins_textOnto hb.self.1 hb.self.2 hs).kindAt_eq]
    have hmember : ∀ v ∈ a.members, ∀ w ∈ b.members, Apart textOnto v w := fun v hv w hw =>
      ih v hv (ha.member hv) (hb.member hw)
    cases a with
    | none =>
      cases b with
      | none => exact ⟨rfl, by simpa [textOnto] using h⟩
      | _ => nomatch hkind
    | bool x =>
      cases b with
      | bool y =>
        -- different constants differ in their first letters
        cases x <;> cases y <;> simp [textOnto] at h
        · exact ⟨rfl, h⟩
        · exact ⟨rfl, h⟩
      | _ => nomatch hkind
    | int m =>
      cases b with
      | int n =>
        obtain ⟨rfl, hrest⟩ := intText_append_inj hr hs h
        exact ⟨rfl, hrest⟩
      | _ => nomatch hkind
    | float bits => exact absurd rfl ha.self.1
    | str x =>
      cases b with
      | str y =>
        obtain ⟨rfl, hrest⟩ := Literal.str_append_inj h
        exact ⟨rfl, hrest⟩
      | _ => nomatch hkind
    | bytes x =>
      cases b with
      | bytes y =>
        obtain ⟨rfl, hrest⟩ := Literal.bytes_append_inj h
        exact ⟨rfl, hrest⟩
      | _ => nomatch hkind
    | tuple xs =>
      cases b with
      | tuple ys =>
        obtain ⟨rfl, hclose⟩ := itemsOnto_inj (fun _ => ha.member) (fun _ => hb.member) hmember
          (shuts_closeTuple xs r) (shuts_closeTuple ys s) (List.cons.inj h).2
        exact ⟨rfl, closeTuple_inj hclose⟩
      | _ => nomatch hkind
    | list xs =>
      cases b with
      | list ys =>
        obtain ⟨rfl, hclose⟩ := itemsOnto_inj (fun _ => ha.member) (fun _ => hb.member) hmember
          (shuts_cons (by decide) (by decide) r) (shuts_cons (by decide) (by decide) s)
          (List.cons.inj h).2
        exact ⟨rfl, (List.cons.inj hclose).2⟩
      | _ => nomatch hkind
    | dict es =>
      cases b with
      | dict fs =>
        obtain ⟨rfl, hclose⟩ := entriesOnto_inj (fun _ => ha.member) (fun _ => hb.member) hmember
          (shuts_cons (by decide) (by decide) r) (shuts_cons (by decide) (by decide) s)
          (List.cons.inj h).2
        exact ⟨rfl, (List.cons.inj hclose).2⟩
      | _ => nomatch hkind
    | record c fs =>
      cases b with
      | record d gs =>
        have hopen : ∀ cs, FieldName.Stops ('(' :: cs) := fun _ => FieldName.stops_cons (by decide)
        have hcls : FieldName.isValid c = true := ha.self.2 c List.mem_cons_self
        have hcls' : FieldName.isValid d = true := hb.self.2 d List.mem_cons_self
        obtain ⟨hname, htail⟩ := FieldName.word_append_inj (FieldName.isWord_of_isValid hcls)
          (FieldName.isWord_of_isValid hcls') (hopen _) (hopen _) h
        obtain ⟨rfl, hclose⟩ := fieldsOnto_inj ha.self.2.field hb.self.2.field
          (fun f hf g hg => hmember f.2 (List.mem_map_of_mem hf) g.2 (List.mem_map_of_mem hg))
          (shuts_cons (by decide) (by decide) r) (shuts_cons (by decide) (by decide) s)
          (List.cons.inj htail).2
        exact ⟨congrArg (record · fs) (String.toList_inj.mp hname), (List.cons.inj hclose).2⟩
      | _ => nomatch hkind

/-- **The printed form tells values apart** that hold no float and in whose records all names are
    valid: two of them are printed alike just when they are one value. -/
theorem display_eq_iff {a b : Value} (ha : a.FloatFree) (hnames : a.Everywhere NamesValid)
    (hb : b.FloatFree) (hnames' : b.Everywhere NamesValid) : a.display = b.display ↔ a = b := by
  constructor
  · intro h
    have htext : textOnto a [] = textOnto b [] := String.ofList_inj.mp h
    exact (apart_textOnto (fun w hw => ⟨ha w hw, hnames w hw⟩) (fun w hw => ⟨hb w hw, hnames' w hw⟩)
      [] [] ends_nil ends_nil htext).1
  · rintro rfl
    rfl

/-- A byte string in a tuple, under a key that is a constant. -/
def lookalike : Value := dict [(none, tuple [bytes [0x78]])]

/-- Records that are named for the same things. -/
def lookalike' : Value := dict [(none, tuple [record "b" [("x", record "None" [])]])]

/-- The two are printed differently, though both with the words `None` and `b`. -/
theorem lookalikes_apart :
    lookalike.FloatFree ∧ lookalike.Everywhere NamesValid ∧ lookalike'.FloatFree ∧
      lookalike'.Everywhere NamesValid ∧ lookalike.display ≠ lookalike'.display := by
  have hfree : lookalike.FloatFree := by decide
  have hnames : lookalike.Everywhere NamesValid := by decide
  have hfree' : lookalike'.FloatFree := by decide
  have hnames' : lookalike'.Everywhere NamesValid := by decide
  refine ⟨hfree, hnames, hfree', hnames', fun h => ?_⟩
  nomatch (display_eq_iff hfree hnames hfree' hnames').mp h

end Value

end SealedStore
