/-
  A tree is read back from its text.

  `Textual` says which trees are texts throughout: their strings have no half of a surrogate pair
  alone, and their numbers are written as numbers.  Such a tree is read back in front of any text
  in which its last number does not go on (`Reads`).  That is shown by induction on the tree, with
  one lemma for each step of the reader; a step takes at most half of the fuel that a character
  brings, so the reader does not run out.
-/
import SealedStore.Proofs.Json.Tokens

namespace SealedStore.Json

/-- All strings of a tree are texts, and `N` holds of all its numbers. -/
inductive Textual (N : List Char → Prop) : Json → Prop where
  | null : Textual N .null
  | bool (b : Bool) : Textual N (.bool b)
  | number {lexeme : List Char} (h : N lexeme) : Textual N (.number lexeme)
  | string (cs : List Char) : Textual N (.string (units cs))
  | array {items : List Json} (h : ∀ j ∈ items, Textual N j) : Textual N (.array items)
  | object {members : List (List Unit × Json)} (names : ∀ m ∈ members, ∃ cs, m.1 = units cs)
    (h : ∀ m ∈ members, Textual N m.2) : Textual N (.object members)

/-! ## What is written -/

theorem itemsOnto_cons (j : Json) (js : List Json) (rest : List Char) :
    itemsOnto (j :: js) rest = write j ++ comma js (itemsOnto js rest) := by
  rw [itemsOnto, writeOnto_eq]

theorem membersOnto_cons (name : List Unit) (j : Json) (ms : List (List Unit × Json))
    (rest : List Char) :
    membersOnto ((name, j) :: ms) rest =
      writeString name ++ ':' :: (write j ++ comma ms (membersOnto ms rest)) := by
  rw [membersOnto, writeOnto_eq]

theorem write_array (items : List Json) : write (.array items) = '[' :: itemsOnto items [']'] := by
  rw [write, writeOnto]

theorem write_object (members : List (List Unit × Json)) :
    write (.object members) = Char.ofNat 0x7B :: membersOnto members [Char.ofNat 0x7D] := by
  rw [write, writeOnto]

/-- A tree begins with a character that is neither a space nor the end of an array. -/
theorem write_begins {j : Json} (h : Textual IsNumber j) :
    ∃ c cs, write j = c :: cs ∧ isSpace c = false ∧ c ≠ ']' := by
  cases h with
  | null => exact ⟨_, _, rfl, by decide, by decide⟩
  | bool b => cases b <;> exact ⟨_, _, rfl, by decide, by decide⟩
  | number h =>
    obtain ⟨c, cs, rfl, hc⟩ := h.opens
    refine ⟨c, cs, ?_, hc.isSpace_eq, hc.ne (by decide)⟩
    rw [write, writeOnto, List.append_nil]
  | string cs => exact ⟨_, _, rfl, by decide, by decide⟩
  | array h => exact ⟨_, _, write_array _, by decide, by decide⟩
  | object names h => exact ⟨_, _, write_object _, by decide, by decide⟩

/-! ## Steps of the reader -/

theorem skip_cons {c : Char} (h : isSpace c = false) (cs : List Char) :
    skip (c :: cs) = c :: cs := by
  rw [skip, List.dropWhile_cons_of_neg (by rw [h]; decide)]

section
variable {fuel : Nat} {c : Char} {cs rest : List Char}

theorem value?_string {us : List Unit} (h : string? cs = some (us, rest)) :
    value? (fuel + 1) ('"' :: cs) = some (.string us, rest) := by
  rw [value?, skip_cons (by decide)]
  simp [h]

/-- A value that begins like a number is read as one: none of the other forms begins like that. -/
theorem value?_number {lexeme : List Char} (hc : Opens c)
    (h : number? (c :: cs) = some (lexeme, rest)) :
    value? (fuel + 1) (c :: cs) = some (.number lexeme, rest) := by
  rw [value?, skip_cons hc.isSpace_eq]
  split
  · next h' => nomatch h'
  · next h' => exact absurd (List.cons.inj h').1 (hc.ne (by decide))
  · next h' => exact absurd (List.cons.inj h').1 (hc.ne (by decide))
  · next h' => exact absurd (List.cons.inj h').1 (hc.ne (by decide))
  · next h' => exact absurd (List.cons.inj h').1 (hc.ne (by decide))
  · next h' =>
    obtain ⟨rfl, rfl⟩ := List.cons.inj h'
    have hbracket : (c == '[') = false := beq_false_of_ne (hc.ne (by decide))
    have hbrace : (c.toNat == 0x7B) = false :=
      beq_false_of_ne fun h => hc.ne (d := Char.ofNat 0x7B) (by decide) (Char.toNat_inj.mp h)
    simp [hbracket, hbrace, h]

/-- An array that does not end at once is read by its items. -/
theorem value?_array {items : List Json} (hspace : isSpace c = false) (hc : c ≠ ']')
    (h : items? fuel (c :: cs) = some (items, rest)) :
    value? (fuel + 1) ('[' :: c :: cs) = some (.array items, rest) := by
  rw [value?, skip_cons (by decide)]
  split
  · next h' => nomatch h'
  · next h' => nomatch h'
  · next h' => nomatch h'
  · next h' => nomatch h'
  · next h' => nomatch h'
  · next h' =>
    obtain ⟨rfl, rfl⟩ := List.cons.inj h'
    rw [if_pos (beq_self_eq_true '['), skip_cons hspace, h]
    split
    · next hend => exact absurd (List.cons.inj hend).1 hc
    · rfl

/-- An object that does not end at once is read by its members. -/
theorem value?_object {members : List (List Unit × Json)}
    (h : members? fuel ('"' :: cs) = some (members, rest)) :
    value? (fuel + 1) (Char.ofNat 0x7B :: '"' :: cs) = some (.object members, rest) := by
  show (members? fuel ('"' :: cs)).map _ = _
  rw [h]
  rfl

/-- The last item of an array. -/
theorem items?_last {j : Json} (h : value? fuel cs = some (j, ']' :: rest)) :
    items? (fuel + 1) cs = some ([j], rest) := by
  rw [items?, h]
  rfl

/-- An item with others behind it. -/
theorem items?_cons {j : Json} {js : List Json} {behind : List Char}
    (h : value? fuel cs = some (j, ',' :: behind)) (hjs : items? fuel behind = some (js, rest)) :
    items? (fuel + 1) cs = some (j :: js, rest) := by
  rw [items?, h]
  show (items? fuel behind).bind _ = _
  rw [hjs]
  rfl

/-- The last member of an object. -/
theorem members?_last {name : List Unit} {j : Json} {content : List Char}
    (hname : string? cs = some (name, ':' :: content))
    (h : value? fuel content = some (j, Char.ofNat 0x7D :: rest)) :
    members? (fuel + 1) ('"' :: cs) = some ([(name, j)], rest) := by
  show (string? cs).bind _ = _
  rw [hname]
  show (value? fuel content).bind _ = _
  rw [h]
  rfl

/-- A member with others behind it. -/
theorem members?_cons {name : List Unit} {j : Json} {ms : List (List Unit × Json)}
    {content behind : List Char} (hname : string? cs = some (name, ':' :: content))
    (h : value? fuel content = some (j, ',' :: behind))
    (hms : members? fuel behind = some (ms, rest)) :
    members? (fuel + 1) ('"' :: cs) = some ((name, j) :: ms, rest) := by
  show (string? cs).bind _ = _
  rw [hname]
  show (value? fuel content).bind _ = _
  rw [h]
  show (members? fuel behind).bind _ = _
  rw [hms]
  rfl

end

/-! ## Trees -/

/-- A tree is read back with two steps of fuel for each character of its text. -/
def Reads (j : Json) : Prop :=
  ∀ fuel rest, 2 * (write j).length ≤ fuel → Stops rest →
    value? fuel (write j ++ rest) = some (j, rest)

/-- A number stops at a character that does not go on with it. -/
theorem stops_cons {c : Char} (hc : ¬ Opens c) (h : c ≠ '.' ∧ c ≠ 'e' ∧ c ≠ 'E')
    (rest : List Char) : Stops (c :: rest) := by
  intro d hd
  obtain rfl := Option.some.inj hd
  exact ⟨Bool.eq_false_iff.mpr fun hdigit => hc (.inr hdigit), h⟩

/-- Items with commas between are read back one by one up to the bracket, with fuel for their
    characters. -/
theorem items?_itemsOnto {items : List Json} (hne : items ≠ []) (h : ∀ j ∈ items, Reads j)
    (fuel : Nat) (rest : List Char) (hfuel : 2 * (itemsOnto items []).length + 1 ≤ fuel) :
    items? fuel (itemsOnto items (']' :: rest)) = some (items, rest) := by
  induction items generalizing fuel with
  | nil => exact absurd rfl hne
  | cons j js ih =>
    obtain ⟨hj, hjs⟩ := List.forall_mem_cons.mp h
    cases fuel with
    | zero => omega
    | succ fuel =>
      rw [itemsOnto_cons, List.length_append] at hfuel
      rw [itemsOnto_cons]
      cases js with
      | nil => exact items?_last (hj fuel _ (by omega) (stops_cons (by decide) (by decide) rest))
      | cons k ks =>
        have hcomma : (comma (k :: ks) (itemsOnto (k :: ks) [])).length =
            (itemsOnto (k :: ks) []).length + 1 := rfl
        refine items?_cons (hj fuel _ (by omega) (stops_cons (by decide) (by decide) _)) ?_
        exact ih (List.cons_ne_nil k ks) hjs fuel (by omega)

/-- Members with commas between are read back one by one up to the brace, each by its name, a colon
    and its tree. -/
theorem members?_membersOnto {members : List (List Unit × Json)} (hne : members ≠ [])
    (names : ∀ m ∈ members, ∃ cs, m.1 = units cs) (h : ∀ m ∈ members, Reads m.2)
    (fuel : Nat) (rest : List Char) (hfuel : 2 * (membersOnto members []).length + 1 ≤ fuel) :
    members? fuel (membersOnto members (Char.ofNat 0x7D :: rest)) = some (members, rest) := by
  induction members generalizing fuel with
  | nil => exact absurd rfl hne
  | cons m ms ih =>
    obtain ⟨hm, hms⟩ := List.forall_mem_cons.mp h
    obtain ⟨⟨cs, hname⟩, hnames⟩ := List.forall_mem_cons.mp names
    obtain ⟨name, j⟩ := m
    obtain rfl : name = units cs := hname
    have hm : Reads j := hm
    cases fuel with
    | zero => omega
    | succ fuel =>
      rw [membersOnto_cons, List.length_append, List.length_cons, List.length_append] at hfuel
      rw [membersOnto_cons, writeString, List.cons_append, List.cons_append, List.append_assoc]
      have hstring := string?_units cs
      cases ms with
      | nil =>
        exact members?_last (hstring _)
          (hm fuel _ (by omega) (stops_cons (by decide) (by decide) rest))
      | cons n ns =>
        have hcomma : (comma (n :: ns) (membersOnto (n :: ns) [])).length =
            (membersOnto (n :: ns) []).length + 1 := rfl
        refine members?_cons (hstring _)
          (hm fuel _ (by omega) (stops_cons (by decide) (by decide) _)) ?_
        exact ih (List.cons_ne_nil n ns) hnames hms fuel (by omega)

/-- An array is read back when its items are.  None of them begins with the bracket that would end
    it at once. -/
theorem reads_array {items : List Json} (htext : ∀ j ∈ items, Textual IsNumber j)
    (h : ∀ j ∈ items, Reads j) : Reads (.array items) := by
  intro fuel rest hfuel _
  rw [write_array, show [']'] = [] ++ [']'] from rfl, itemsOnto_append, List.length_cons,
    List.length_append, List.length_singleton] at hfuel
  rw [write_array, List.cons_append, ← itemsOnto_append]
  cases fuel with
  | zero => omega
  | succ fuel =>
    cases items with
    | nil => rfl
    | cons j js =>
      -- the first item shows that the array is not empty
      obtain ⟨c, cs, hwrite, hspace, hc⟩ := write_begins (htext j List.mem_cons_self)
      have hitems := items?_itemsOnto (List.cons_ne_nil j js) h fuel rest (by omega)
      rw [itemsOnto_cons, hwrite, List.cons_append] at hitems
      rw [itemsOnto_cons, hwrite, List.cons_append]
      exact value?_array hspace hc hitems

/-- An object is read back when its members are; it ends at once or goes on with the quote of a
    name. -/
theorem reads_object {members : List (List Unit × Json)}
    (names : ∀ m ∈ members, ∃ cs, m.1 = units cs) (h : ∀ m ∈ members, Reads m.2) :
    Reads (.object members) := by
  intro fuel rest hfuel _
  rw [write_object, show [Char.ofNat 0x7D] = [] ++ [Char.ofNat 0x7D] from rfl, membersOnto_append,
    List.length_cons, List.length_append, List.length_singleton] at hfuel
  rw [write_object, List.cons_append, ← membersOnto_append]
  cases fuel with
  | zero => omega
  | succ fuel =>
    cases members with
    | nil => rfl
    | cons m ms =>
      have hmembers := members?_membersOnto (List.cons_ne_nil m ms) names h fuel rest (by omega)
      exact value?_object hmembers

/-- **A tree of texts and numbers is read back**, whatever follows it that does not go on with a
    number. -/
theorem reads_of_textual {j : Json} (h : Textual IsNumber j) : Reads j := by
  induction h with
  | null =>
    intro fuel rest hfuel _
    cases fuel with
    | zero => nomatch hfuel
    | succ fuel => rfl
  | bool b =>
    intro fuel rest hfuel _
    cases fuel with
    | zero => cases b <;> nomatch hfuel
    | succ fuel => cases b <;> rfl
  | number h =>
    intro fuel rest hfuel hrest
    obtain ⟨c, cs, rfl, hc⟩ := h.opens
    rw [write, writeOnto, List.append_nil] at hfuel ⊢
    cases fuel with
    | zero => nomatch hfuel
    | succ fuel => exact value?_number hc (h.number? rest hrest)
  | string cs =>
    intro fuel rest hfuel _
    rw [write, writeOnto, List.append_nil, writeString] at hfuel ⊢
    cases fuel with
    | zero => nomatch hfuel
    | succ fuel =>
      rw [List.cons_append, List.cons_append, List.append_assoc]
      exact value?_string (string?_units cs rest)
  | array h ih => exact reads_array h ih
  | object names _ ih => exact reads_object names ih

/-- **What is written is read back.** -/
theorem read?_write {j : Json} (h : Textual IsNumber j) : read? (write j) = some j := by
  have hread := reads_of_textual h (2 * (write j).length + 2) [] (by omega) stops_nil
  rw [List.append_nil] at hread
  rw [read?, hread]
  rfl

end SealedStore.Json
