/-
  The rules that a stored value obeys beyond its shape.

  Each rule is about one value: the keys of a dictionary may be keys and differ from each other,
  and the fields of a record have valid names and no name twice.  A value obeys a rule throughout
  when the rule holds `Everywhere` in it.
-/
import SealedStore.Proofs.Value.Members

namespace SealedStore.Value

/-- The keys of a dictionary may be keys. -/
def KeysHashable : Value → Prop
  | dict entries => ∀ e ∈ entries, e.1.isHashable = true
  | _ => True

/-- No two keys of a dictionary are equal. -/
def KeysApart : Value → Prop
  | dict entries => entries.Pairwise fun e f => equals e.1 f.1 = false ∧ equals f.1 e.1 = false
  | _ => True

/-- The fields of a record have valid names, no two the same. -/
def FieldsNamed : Value → Prop
  | record _ fields =>
    (∀ f ∈ fields, FieldName.isValid f.1 = true) ∧ (fields.map (·.1)).Nodup
  | _ => True

/-- Plain data: no record, and a dictionary only with keys that may be keys and differ. -/
def Plain (v : Value) : Prop := v.kind ≠ .record ∧ v.KeysHashable ∧ v.KeysApart

theorem plain_tuple (items : List Value) : (tuple items).Plain := ⟨nofun, trivial, trivial⟩

theorem plain_list (items : List Value) : (list items).Plain := ⟨nofun, trivial, trivial⟩

theorem plain_dict {entries : List (Value × Value)} (hkeys : (dict entries).KeysHashable)
    (hapart : (dict entries).KeysApart) : (dict entries).Plain :=
  ⟨nofun, hkeys, hapart⟩

theorem plain_emptyDict : (dict []).Plain :=
  plain_dict (fun _ he => (nomatch he)) List.Pairwise.nil

instance : DecidablePred KeysHashable
  | dict entries => inferInstanceAs (Decidable (∀ e ∈ entries, e.1.isHashable = true))
  | none | bool _ | int _ | float _ | str _ | bytes _ | tuple _ | list _ | record _ _ =>
    inferInstanceAs (Decidable True)

instance : DecidablePred FieldsNamed
  | record _ fields => inferInstanceAs (Decidable
      ((∀ f ∈ fields, FieldName.isValid f.1 = true) ∧ (fields.map (·.1)).Nodup))
  | none | bool _ | int _ | float _ | str _ | bytes _ | tuple _ | list _ | dict _ =>
    inferInstanceAs (Decidable True)

end SealedStore.Value
