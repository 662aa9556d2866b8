/-
  The lines of values in their printed form.

  Before the printed form there may be a label, which is the name of a slot, in a color or not: no
  line break is in either.  So the line breaks of an output are the ends of its lines and, besides,
  those in the names of records, which are printed as they are.  A value is on one line just when
  none of these names has a line break, and there are as many lines as values just when this holds
  of all values.
-/
import SealedStore.Proofs.Harness.Lines
import SealedStore.Proofs.Store.SlotName
import SealedStore.Proofs.Value.LineBreaks

namespace SealedStore

/-- Colors add no line breaks. -/
theorem Style.count_paint (on : Bool) (style : Style) (text : List Char) :
    (paint on style text).count '\n' = text.count '\n' := by
  have hcodes : style.codes.count '\n' = 0 := by
    rcases style with ⟨_ | _, _ | _ | _ | _ | _⟩ <;> rfl
  cases on with
  | false => rfl
  | true =>
    have hend : [escape, '[', '0', 'm'].count '\n' = 0 := rfl
    have hstart : [escape, '['].count '\n' = 0 := rfl
    rw [paint, if_pos rfl, List.count_append, List.count_append, List.count_append, hstart, hcodes,
      hend, List.count_cons_of_ne (show 'm' ≠ '\n' by decide)]
    omega

theorem SlotName.newline_not_mem (slot : SlotName) : '\n' ∉ slot.name.toList :=
  fun h => absurd (slot.isPart_of_mem_name h) (by decide)

/-- The line of a printed value. -/
structure IsLineOf (format : LineFormat) (x : SlotName × Value) (line : Bytes) : Prop where
  /-- It ends in a line break, -/
  ended : line = Utf8.encodeChars (format.content x.1 x.2) ++ [0x0A]
  /-- and those before it are in the names of records. -/
  breaks : (Utf8.encodeChars (format.content x.1 x.2)).count 0x0A = x.2.breaks
  oneLine_iff : OneLine line ↔ x.2.Everywhere Value.NamesUnbroken

namespace LineFormat

/-- What a line shows has the line breaks of the value. -/
theorem count_content {format : LineFormat} (h : format ≠ .json) (slot : SlotName) (v : Value) :
    (format.content slot v).count '\n' = v.breaks := by
  cases format with
  | text => exact v.count_text
  | json => exact absurd rfl h
  | labelled colored =>
    have hlabel : (slot.name.toList ++ [':']).count '\n' = 0 := by
      rw [List.count_append, List.count_eq_zero.mpr slot.newline_not_mem]
      rfl
    rw [content, List.count_append, Style.count_paint, hlabel,
      List.count_cons_of_ne (show ' ' ≠ '\n' by decide), v.count_text, Nat.zero_add]

/-- A line has the line breaks of its value and one at the end, so it is a single line when the
    names in the value have none. -/
theorem isLineOf_line {format : LineFormat} (h : format ≠ .json) (x : SlotName × Value) :
    IsLineOf format x (format.line x.1 x.2) := by
  have hline : format.line x.1 x.2 = Utf8.encodeChars (format.content x.1 x.2) ++ [0x0A] :=
    List.flatMap_append
  have hcount : (Utf8.encodeChars (format.content x.1 x.2)).count 0x0A = x.2.breaks := by
    rw [Utf8.count_encodeChars, count_content h]
  refine ⟨hline, hcount, ?_⟩
  rw [← Value.breaks_eq_zero_iff]
  constructor
  · intro hone
    have hcount_eq := hone.count_eq
    rw [hline, List.count_append, hcount, List.count_singleton_self] at hcount_eq
    omega
  · intro hzero
    rw [hzero] at hcount
    exact ⟨_, hline, List.count_eq_zero.mp hcount⟩

end LineFormat

/-- The line breaks of lines are one for each value, and those in names. -/
theorem count_flatten_of_isLineOf {format : LineFormat} {items : List (SlotName × Value)}
    {lines : List Bytes} (h : List.Forall₂ (IsLineOf format) items lines) :
    lines.flatten.count 0x0A = items.length + (items.map fun x => x.2.breaks).sum := by
  induction h with
  | nil => rfl
  | cons hline _ ih =>
    rw [List.flatten_cons, List.count_append, hline.ended, List.count_append, hline.breaks,
      List.count_singleton_self, ih, List.length_cons, List.map_cons, List.sum_cons]
    omega

namespace LinePrinter

/-- **Printed values have a line each, unless a name in a record has a line break.** -/
theorem renderAll_printed {format : LineFormat} (hprinted : format ≠ .json) (before : Bytes)
    (items : List (SlotName × Value)) :
    ∃ lines : List Bytes,
      Renderer.renderAll (LinePrinter.mk format ⟨none, before⟩) items =
        (.ok (), ⟨format, ⟨none, before ++ lines.flatten⟩⟩) ∧
      List.Forall₂ (IsLineOf format) items lines ∧
      lines.flatten.count 0x0A = items.length + (items.map fun x => x.2.breaks).sum ∧
      (lines.flatten.count 0x0A = items.length ↔
        ∀ x ∈ items, x.2.Everywhere Value.NamesUnbroken) := by
  have hlines : List.Forall₂ (IsLineOf format) items
      (items.map fun x => format.line x.1 x.2) := by
    rw [List.forall₂_map_right_iff, List.forall₂_same]
    intro x _
    exact LineFormat.isLineOf_line hprinted x
  have hcount := count_flatten_of_isLineOf hlines
  refine ⟨_, renderAll_eq format before items, hlines, hcount, ?_⟩
  rw [hcount, Nat.add_eq_left, List.sum_eq_zero_iff_forall_eq_nat, List.forall_mem_map]
  exact forall₂_congr fun x _ => Value.breaks_eq_zero_iff

/-- A text with a line break, and a record whose class has one. -/
def broken : List (SlotName × Value) :=
  [(⟨"text", by decide⟩, .str "a\nb"), (⟨"class", by decide⟩, (Record.new "a\nb").toValue)]

/-- The text is on one line, the record on two. -/
theorem renderAll_broken :
    LineFormat.labelled true ≠ .json ∧
    ∃ written, Renderer.renderAll (LinePrinter.mk (.labelled true) .unlimited) broken =
        (.ok (), ⟨.labelled true, ⟨none, written⟩⟩) ∧ written.count 0x0A = 3 := by
  have hprinted : LineFormat.labelled true ≠ .json := nofun
  have hbreaks : broken.length + (broken.map fun x => x.2.breaks).sum = 3 := by decide
  obtain ⟨lines, hrun, -, hcount, -⟩ := renderAll_printed hprinted [] broken
  exact ⟨hprinted, lines.flatten, hrun, hcount.trans hbreaks⟩

/-- **The class of a record is printed as it is**: one that has a line break makes two lines. -/
theorem broken_class_two_lines :
    ∃ written, Renderer.renderAll (LinePrinter.mk .text .unlimited)
        [(⟨"s", by decide⟩, (Record.new "a\nb").toValue)] =
        (.ok (), ⟨.text, ⟨none, written⟩⟩) ∧
      written = Utf8.encode "a\nb()\n" ∧ written.count 0x0A = 2 ∧ ¬ OneLine written := by
  have hcount : (Utf8.encode "a\nb()\n").count 0x0A = 2 := by decide
  refine ⟨Utf8.encode "a\nb()\n", rfl, rfl, hcount, fun h => ?_⟩
  rw [h.count_eq] at hcount
  exact absurd hcount (by decide)

end LinePrinter

end SealedStore
