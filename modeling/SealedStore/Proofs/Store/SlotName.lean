/-
  What a slot name is made of.

  A name without a fault is a plain file name: one byte for every character, none of them a slash
  or a zero, and not one of the names that stay in a directory or lead out of it.  The order of
  slots is that of these bytes, and an ascending list of slots is told by what is in it.
-/
import Mathlib.Data.List.Sort
import SealedStore.Proofs.Files.Tree
import SealedStore.Store.SlotName

namespace SealedStore.SlotName

/-- A name has no fault when it is not empty, not too long, does not begin with a dot and has none
    but the allowed characters. -/
theorem fault?_eq_none_iff {name : String} :
    fault? name = none ↔ name.toList ≠ [] ∧ name.utf8ByteSize ≤ maxLength ∧
      name.toList.head? ≠ some '.' ∧ ∀ c ∈ name.toList, isPart c = true := by
  unfold fault?
  by_cases hnil : name.toList = []
  · simp [hnil]
  by_cases hlong : maxLength < name.utf8ByteSize
  · simp [hnil, hlong]
  by_cases hdot : name.toList.head? = some '.'
  · simp [hnil, hlong, hdot]
  · simp [hnil, hlong, hdot, Nat.le_of_not_lt hlong]

/-- A name that has no fault is that of one slot. -/
theorem ofString_eq_ok_iff {name : String} {slot : SlotName} :
    ofString name = .ok slot ↔ name = slot.name := by
  unfold ofString
  constructor
  · intro h
    split at h
    · exact congrArg SlotName.name (Except.ok.inj h)
    · nomatch h
  · rintro rfl
    split
    · rfl
    · next fault hfault =>
      rw [slot.valid] at hfault
      nomatch hfault

section
variable (slot : SlotName)

theorem name_ne_nil : slot.name.toList ≠ [] := (fault?_eq_none_iff.mp slot.valid).1

theorem utf8ByteSize_name_le : slot.name.utf8ByteSize ≤ maxLength :=
  (fault?_eq_none_iff.mp slot.valid).2.1

theorem head?_name_ne : slot.name.toList.head? ≠ some '.' :=
  (fault?_eq_none_iff.mp slot.valid).2.2.1

theorem isPart_of_mem_name {c : Char} (h : c ∈ slot.name.toList) : isPart c = true :=
  (fault?_eq_none_iff.mp slot.valid).2.2.2 c h

end

/-! ## Bytes -/

/-- The characters of a name are ASCII. -/
theorem toNat_lt_of_isPart {c : Char} (h : isPart c = true) : c.toNat < 0x80 := by
  simp only [isPart, Bool.or_eq_true, beq_iff_eq] at h
  rcases h with ((halphanum | rfl) | rfl) | rfl
  · -- letters and digits lie in ranges that end at `Z`, `z` and `9`
    have hranges : (decide ('A'.val ≤ c.val ∧ c.val ≤ 'Z'.val) ||
        'a'.val ≤ c.val && c.val ≤ 'z'.val || '0'.val ≤ c.val && c.val ≤ '9'.val) = true :=
      halphanum
    simp only [Bool.or_eq_true, Bool.and_eq_true, decide_eq_true_eq,
      UInt32.le_iff_toNat_le] at hranges
    have hupper : ('Z' : Char).val.toNat = 0x5A := rfl
    have hlower : ('z' : Char).val.toNat = 0x7A := rfl
    have hdigit : ('9' : Char).val.toNat = 0x39 := rfl
    show c.val.toNat < 0x80
    omega
  · decide
  · decide
  · decide

/-- An ASCII character is one byte, and the greater character the greater byte. -/
theorem toNat_toUInt8_of_isPart {c : Char} (h : isPart c = true) :
    c.toNat.toUInt8.toNat = c.toNat :=
  UInt8.toNat_ofNat_of_lt (Nat.lt_trans (toNat_lt_of_isPart h) (by decide))

theorem encodeChar_of_isPart {c : Char} (h : isPart c = true) :
    Utf8.encodeChar c = [c.toNat.toUInt8] := by
  rw [Utf8.encodeChar, if_pos (toNat_lt_of_isPart h)]

/-- The order of ASCII texts is that of their bytes. -/
theorem lt_iff_encodeChars_lt {cs ds : List Char} (hcs : ∀ c ∈ cs, isPart c = true)
    (hds : ∀ d ∈ ds, isPart d = true) :
    cs < ds ↔ Utf8.encodeChars cs < Utf8.encodeChars ds := by
  induction cs generalizing ds with
  | nil =>
    cases ds with
    | nil => simp [Utf8.encodeChars]
    | cons d ds =>
      have hd := encodeChar_of_isPart (hds d List.mem_cons_self)
      simp [Utf8.encodeChars, hd]
  | cons c cs ih =>
    have hc := hcs c List.mem_cons_self
    cases ds with
    | nil => simp [Utf8.encodeChars]
    | cons d ds =>
      have hd := hds d List.mem_cons_self
      have htail := @ih ds (fun x hx => hcs x (List.mem_cons_of_mem _ hx))
        (fun x hx => hds x (List.mem_cons_of_mem _ hx))
      have hfirst : c < d ↔ c.toNat.toUInt8 < d.toNat.toUInt8 := by
        rw [UInt8.lt_iff_toNat_lt, toNat_toUInt8_of_isPart hc, toNat_toUInt8_of_isPart hd]
        exact Iff.rfl
      have hsame : c = d ↔ c.toNat.toUInt8 = d.toNat.toUInt8 := by
        rw [← UInt8.toNat_inj, toNat_toUInt8_of_isPart hc, toNat_toUInt8_of_isPart hd,
          Char.toNat_inj]
      simp only [Utf8.encodeChars, List.flatMap_cons, encodeChar_of_isPart hc,
        encodeChar_of_isPart hd, List.singleton_append, List.cons_lt_cons_iff] at htail ⊢
      rw [hfirst, hsame, htail]

/-- **Slots are in the order of the bytes of their names.** -/
theorem lt_iff_encode_lt {a b : SlotName} : a < b ↔ Utf8.encode a.name < Utf8.encode b.name :=
  lt_iff_encodeChars_lt (fun _ => a.isPart_of_mem_name) (fun _ => b.isPart_of_mem_name)

/-! ## Files -/

/-- The name of the file of a slot. -/
def fileName (slot : SlotName) : FileName := Utf8.encode slot.name

theorem fileName_inj {a b : SlotName} (h : a.fileName = b.fileName) : a = b :=
  eq_of_name_eq (Utf8.encode_inj h)

/-- The name of a slot is a plain name of a file. -/
theorem isPlain_name (slot : SlotName) : FileTree.IsPlain slot.name where
  nonempty := slot.name_ne_nil
  slashless h := absurd (slot.isPart_of_mem_name h) (by decide)
  zeroless h := absurd (slot.isPart_of_mem_name h) (by decide)
  notHere h := slot.head?_name_ne (by rw [Utf8.encode_inj h]; rfl)
  notUp h := slot.head?_name_ne (by rw [Utf8.encode_inj h]; rfl)
  short := by
    rw [Utf8.encode_eq_toByteArray]
    exact slot.utf8ByteSize_name_le

/-- A file of a slot lies at no place that is always a directory. -/
theorem isFixed_concat_fileName (place : Place) (slot : SlotName) :
    FileTree.isFixed (place ++ [slot.fileName]) = false := by
  refine FileTree.isFixed_concat (fun h => ?_) slot.isPlain_name.notUp
  refine slot.isPlain_name.slashless ?_
  rw [Utf8.encode_inj h]
  decide

/-! ## Ascending lists -/

instance : Std.Irrefl fun a b : SlotName => a < b := ⟨lt_irrefl⟩

instance : Std.Antisymm fun a b : SlotName => a < b :=
  ⟨fun a _ hab hba => absurd (lt_trans hab hba) (lt_irrefl a)⟩

/-- Inserting a slot adds it and loses none. -/
theorem mem_insertSorted_iff {slot s : SlotName} {slots : List SlotName} :
    s ∈ insertSorted slot slots ↔ s = slot ∨ s ∈ slots := by
  induction slots with
  | nil => simp [insertSorted]
  | cons first rest ih =>
    rw [insertSorted]
    split
    · simp
    split
    · next heq => simp [heq]
    · rw [List.mem_cons, ih, List.mem_cons]
      exact or_left_comm

/-- Slots that ascend do so with one more among them. -/
theorem pairwise_insertSorted (slot : SlotName) {slots : List SlotName}
    (h : slots.Pairwise (· < ·)) : (insertSorted slot slots).Pairwise (· < ·) := by
  induction slots with
  | nil => simp [insertSorted]
  | cons first rest ih =>
    obtain ⟨hfirst, hrest⟩ := List.pairwise_cons.mp h
    rw [insertSorted]
    split
    · next hlt =>
      refine List.pairwise_cons.mpr ⟨fun s hs => ?_, h⟩
      rcases List.mem_cons.mp hs with rfl | hs
      · exact hlt
      · exact lt_trans hlt (hfirst s hs)
    split
    · exact h
    · next hnlt hne =>
      refine List.pairwise_cons.mpr ⟨fun s hs => ?_, ih hrest⟩
      rcases mem_insertSorted_iff.mp hs with rfl | hs
      · exact lt_of_ne hne hnlt
      · exact hfirst s hs

theorem mem_sorted_iff {s : SlotName} {slots : List SlotName} : s ∈ sorted slots ↔ s ∈ slots := by
  induction slots with
  | nil => rfl
  | cons first rest ih =>
    rw [sorted, List.foldr_cons, mem_insertSorted_iff, ← sorted, ih, List.mem_cons]

theorem pairwise_sorted (slots : List SlotName) : (sorted slots).Pairwise (· < ·) := by
  induction slots with
  | nil => exact List.Pairwise.nil
  | cons first rest ih => exact pairwise_insertSorted first ih

/-- **Sorting gives the one ascending list** of the same slots. -/
theorem sorted_eq {slots ascending : List SlotName} (hascending : ascending.Pairwise (· < ·))
    (hmem : ∀ s, s ∈ slots ↔ s ∈ ascending) : sorted slots = ascending :=
  (pairwise_sorted slots).eq_of_mem_iff hascending fun s => mem_sorted_iff.trans (hmem s)

/-- Sorting slots that differ only brings them into another order. -/
theorem perm_sorted {slots : List SlotName} (h : slots.Nodup) : (sorted slots).Perm slots := by
  have hsorted : (sorted slots).Nodup := by
    refine (pairwise_sorted slots).imp ?_
    rintro a b hlt rfl
    exact lt_irrefl a hlt
  exact (List.perm_ext_iff_of_nodup hsorted h).mpr fun _ => mem_sorted_iff

end SealedStore.SlotName
