/-
  The line breaks in the printed form of a value.

  Texts and byte strings are printed as literals, which escape a line break, and there is none in
  numbers and brackets.  But a record prints its class and the names of its fields as they are.  So
  the line breaks in the printed form are those in the names of records, at every level
  (`count_text`): by induction on members, with one lemma for each way of printing them in a row.
-/
import Mathlib.Algebra.BigOperators.Group.List.Basic
import SealedStore.Proofs.Text.Controls
import SealedStore.Proofs.Value.Members

namespace SealedStore.Value

/-- The names that a record prints as they are: its class and its fields. -/
def rawNames : Value → List String
  | record cls fields => cls :: fields.map (·.1)
  | _ => []

/-- How many line breaks a name has. -/
def nameBreaks (name : String) : Nat := name.toList.count '\n'

/-- How many line breaks there are in the names of a value and of all that lies in it. -/
def breaks (v : Value) : Nat := ((v.nodes.flatMap rawNames).map nameBreaks).sum

/-- None of the names of a record has a line break. -/
def NamesUnbroken (v : Value) : Prop := ∀ name ∈ v.rawNames, '\n' ∉ name.toList

instance : DecidablePred NamesUnbroken := fun v =>
  inferInstanceAs (Decidable (∀ name ∈ v.rawNames, '\n' ∉ name.toList))

theorem nameBreaks_eq_zero_iff {name : String} : nameBreaks name = 0 ↔ '\n' ∉ name.toList :=
  List.count_eq_zero

/-- The breaks of a value are those of its own names and those of its members. -/
theorem breaks_eq (v : Value) :
    v.breaks = (v.rawNames.map nameBreaks).sum + (v.members.map breaks).sum := by
  have hmembers : ∀ vs : List Value,
      (((vs.flatMap nodes).flatMap rawNames).map nameBreaks).sum = (vs.map breaks).sum := by
    intro vs
    induction vs with
    | nil => rfl
    | cons w ws ih =>
      rw [List.flatMap_cons, List.flatMap_append, List.map_append, List.sum_append, ih,
        List.map_cons, List.sum_cons, breaks]
  rw [breaks, nodes_eq, List.flatMap_cons, List.map_append, List.sum_append, hmembers]

theorem breaks_tuple (items : List Value) : (tuple items).breaks = (items.map breaks).sum :=
  (breaks_eq _).trans (Nat.zero_add _)

theorem breaks_list (items : List Value) : (list items).breaks = (items.map breaks).sum :=
  (breaks_eq _).trans (Nat.zero_add _)

theorem breaks_dict (entries : List (Value × Value)) :
    (dict entries).breaks = ((dict entries).members.map breaks).sum :=
  (breaks_eq _).trans (Nat.zero_add _)

theorem breaks_record (cls : String) (fields : List (String × Value)) :
    (record cls fields).breaks = nameBreaks cls +
      (((fields.map (·.1)).map nameBreaks).sum + ((fields.map (·.2)).map breaks).sum) := by
  rw [breaks_eq, rawNames, List.map_cons, List.sum_cons, members, Nat.add_assoc]

theorem breaks_eq_zero_iff {v : Value} : v.breaks = 0 ↔ v.Everywhere NamesUnbroken := by
  rw [breaks, List.sum_eq_zero_iff_forall_eq_nat, List.forall_mem_map]
  constructor
  · intro h w hw name hname
    exact nameBreaks_eq_zero_iff.mp (h name (List.mem_flatMap.mpr ⟨w, hw, hname⟩))
  · intro h name hname
    obtain ⟨w, hw, hname⟩ := List.mem_flatMap.mp hname
    exact nameBreaks_eq_zero_iff.mpr (h w hw name hname)

/-! ## Members in a row -/

theorem count_comma {α : Type} (xs : List α) (rest : List Char) :
    (comma xs rest).count '\n' = rest.count '\n' := by
  cases xs <;> rfl

/-- The end of a tuple, with or without a comma, has no line break. -/
theorem count_closeTuple {α : Type} (xs : List α) (rest : List Char) :
    (closeTuple xs rest).count '\n' = rest.count '\n' := by
  match xs with
  | [] => rfl
  | [_] => rfl
  | _ :: _ :: _ => rfl

/-- What stands in front of a text adds the line breaks of its own. -/
theorem count_textOnto {v : Value} (h : v.text.count '\n' = v.breaks) (rest : List Char) :
    (textOnto v rest).count '\n' = v.breaks + rest.count '\n' := by
  rw [textOnto_eq, List.count_append, h]

/-- Printed items have the line breaks of each, and none of their own. -/
theorem count_itemsOnto {items : List Value} (h : ∀ w ∈ items, w.text.count '\n' = w.breaks)
    (rest : List Char) :
    (itemsOnto items rest).count '\n' = (items.map breaks).sum + rest.count '\n' := by
  induction items with
  | nil =>
    rw [itemsOnto, List.map_nil, List.sum_nil, Nat.zero_add]
  | cons v vs ih =>
    obtain ⟨hv, hvs⟩ := List.forall_mem_cons.mp h
    rw [itemsOnto, count_textOnto hv, count_comma, ih hvs, List.map_cons, List.sum_cons,
      Nat.add_assoc]

/-- Printed entries have the line breaks of their keys and values, and none of their own. -/
theorem count_entriesOnto {entries : List (Value × Value)}
    (h : ∀ w ∈ (dict entries).members, w.text.count '\n' = w.breaks) (rest : List Char) :
    (entriesOnto entries rest).count '\n' =
      ((dict entries).members.map breaks).sum + rest.count '\n' := by
  induction entries with
  | nil =>
    rw [entriesOnto, members, List.flatMap_nil, List.map_nil, List.sum_nil, Nat.zero_add]
  | cons e es ih =>
    obtain ⟨key, value⟩ := e
    rw [members_dict_cons] at h ⊢
    obtain ⟨hkey, hentries⟩ := List.forall_mem_cons.mp h
    obtain ⟨hvalue, hes⟩ := List.forall_mem_cons.mp hentries
    rw [entriesOnto, count_textOnto hkey, List.count_cons_of_ne (show ':' ≠ '\n' by decide),
      List.count_cons_of_ne (show ' ' ≠ '\n' by decide), count_textOnto hvalue, count_comma,
      ih hes, List.map_cons, List.map_cons, List.sum_cons, List.sum_cons]
    omega

/-- Printed fields have the line breaks of their names and of their values. -/
theorem count_fieldsOnto {fields : List (String × Value)}
    (h : ∀ w ∈ fields.map (·.2), w.text.count '\n' = w.breaks) (rest : List Char) :
    (fieldsOnto fields rest).count '\n' =
      ((fields.map (·.1)).map nameBreaks).sum + ((fields.map (·.2)).map breaks).sum +
        rest.count '\n' := by
  induction fields with
  | nil => simp [fieldsOnto]
  | cons f fs ih =>
    obtain ⟨name, value⟩ := f
    rw [List.map_cons] at h
    obtain ⟨hvalue, hfs⟩ := List.forall_mem_cons.mp h
    rw [fieldsOnto, List.count_append, List.count_cons_of_ne (show '=' ≠ '\n' by decide),
      count_textOnto hvalue, count_comma, ih hfs]
    simp only [List.map_cons, List.sum_cons]
    rw [nameBreaks]
    omega

/-! ## The printed form -/

/-- **The printed form has the line breaks of the names of records**, and no other. -/
theorem count_text (v : Value) : v.text.count '\n' = v.breaks := by
  induction v using byMembers with
  | step v ih =>
    rw [text]
    cases v with
    | none => rfl
    | bool b => cases b <;> rfl
    | int n =>
      rw [textOnto, List.append_nil]
      exact (noControls_intText n.toInt).count_newline
    | float bits =>
      rw [textOnto, List.append_nil]
      exact (Layout.noControls_float (by decide) (by decide) (by decide) bits).count_newline
    | str s =>
      rw [textOnto, List.append_nil]
      exact (Literal.noControls_str s).count_newline
    | bytes b =>
      rw [textOnto, List.append_nil]
      exact (Literal.noControls_bytes b).count_newline
    | tuple items =>
      have hitems : ∀ w ∈ items, w.text.count '\n' = w.breaks := ih
      rw [textOnto, List.count_cons_of_ne (show '(' ≠ '\n' by decide), count_itemsOnto hitems,
        count_closeTuple, breaks_tuple]
      rfl
    | list items =>
      have hitems : ∀ w ∈ items, w.text.count '\n' = w.breaks := ih
      rw [textOnto, List.count_cons_of_ne (show '[' ≠ '\n' by decide), count_itemsOnto hitems,
        breaks_list]
      rfl
    | dict entries =>
      rw [textOnto, List.count_cons_of_ne (show Char.ofNat 0x7B ≠ '\n' by decide),
        count_entriesOnto ih, breaks_dict]
      rfl
    | record cls fields =>
      rw [textOnto, List.count_append, List.count_cons_of_ne (show '(' ≠ '\n' by decide),
        count_fieldsOnto ih, breaks_record, nameBreaks]
      rfl

end SealedStore.Value
