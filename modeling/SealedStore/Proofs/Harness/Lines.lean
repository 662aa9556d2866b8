/-
  One line for each value.

  A printer writes what its format makes of a value, and a line break.  If there is no line break
  within, the lines are told apart by theirs, and there are as many as values.  In JSON there is
  none, since strings are written without controls and so are numbers: this holds of every value.
-/
import SealedStore.Harness.Renderer
import SealedStore.Proofs.Harness.Passes
import SealedStore.Proofs.Text.Controls
import SealedStore.Proofs.Value.Json

namespace SealedStore

/-! ## Lines -/

/-- A line break at the end, and none before it. -/
def OneLine (line : Bytes) : Prop := ∃ text, line = text ++ [0x0A] ∧ 0x0A ∉ text

theorem OneLine.count_eq {line : Bytes} (h : OneLine line) : line.count 0x0A = 1 := by
  obtain ⟨text, rfl, htext⟩ := h
  rw [List.count_append, List.count_eq_zero.mpr htext, List.count_singleton_self]

/-- Lines have as many line breaks as they are. -/
theorem count_flatten_of_oneLine {lines : List Bytes} (h : ∀ line ∈ lines, OneLine line) :
    lines.flatten.count 0x0A = lines.length := by
  induction lines with
  | nil => rfl
  | cons line lines ih =>
    obtain ⟨hline, hlines⟩ := List.forall_mem_cons.mp h
    rw [List.flatten_cons, List.count_append, hline.count_eq, ih hlines, List.length_cons,
      Nat.add_comm]

theorem LineFormat.oneLine {format : LineFormat} {slot : SlotName} {v : Value}
    (h : '\n' ∉ format.content slot v) : OneLine (format.line slot v) := by
  refine ⟨Utf8.encodeChars (format.content slot v), List.flatMap_append, ?_⟩
  rwa [Utf8.newline_mem_encodeChars]

/-- A printer with room for everything writes the lines of the values, in order. -/
theorem LinePrinter.renderAll_eq (format : LineFormat) (before : Bytes)
    (items : List (SlotName × Value)) :
    Renderer.renderAll (LinePrinter.mk format ⟨none, before⟩) items =
      (.ok (), ⟨format, ⟨none, before ++ (items.map fun x => format.line x.1 x.2).flatten⟩⟩) := by
  induction items generalizing before with
  | nil => rw [List.map_nil, List.flatten_nil, List.append_nil, Renderer.renderAll]
  | cons x items ih =>
    obtain ⟨slot, v⟩ := x
    have hshow : Renderer.render (LinePrinter.mk format ⟨none, before⟩) slot v =
        (.ok (), ⟨format, ⟨none, before ++ format.line slot v⟩⟩) := rfl
    rw [Renderer.renderAll_cons hshow, ih, List.map_cons, List.flatten_cons, List.append_assoc]

/-! ## JSON texts -/

namespace Json

/-- A unit is written without controls: each of them has an escape, of one letter or of four
    digits. -/
theorem noControls_writeUnit (u : Unit) : NoControls (writeUnit u) := by
  have hcode : ∀ code, NoControls (writeCode code) := fun code =>
    noControls_cons_iff.mpr ⟨by decide,
      noControls_cons_iff.mpr ⟨by decide, noControls_hexFixed 4 code⟩⟩
  cases u with
  | half code => exact hcode code
  | char c =>
    rw [writeUnit]
    -- the escapes of one letter come first
    iterate 7
      split
      · decide
    split
    · exact hcode c.toNat
    · next hlow => exact noControls_cons_iff.mpr ⟨Nat.le_of_not_lt hlow, noControls_nil⟩

theorem noControls_writeString (us : List Unit) : NoControls (writeString us) := by
  have hus : NoControls (us.flatMap writeUnit) := by
    intro c hc
    obtain ⟨u, -, hc⟩ := List.mem_flatMap.mp hc
    exact noControls_writeUnit u c hc
  exact noControls_cons_iff.mpr ⟨by decide, hus.append (by decide)⟩

theorem noControls_comma {α : Type} (xs : List α) {rest : List Char} (h : NoControls rest) :
    NoControls (comma xs rest) := by
  cases xs with
  | nil => exact h
  | cons x xs => exact noControls_cons_iff.mpr ⟨by decide, h⟩

theorem noControls_itemsOnto {items : List Json} (h : ∀ j ∈ items, NoControls (write j))
    {rest : List Char} (hrest : NoControls rest) : NoControls (itemsOnto items rest) := by
  induction items with
  | nil => exact hrest
  | cons j js ih =>
    obtain ⟨hj, hjs⟩ := List.forall_mem_cons.mp h
    rw [itemsOnto_cons]
    exact hj.append (noControls_comma js (ih hjs))

theorem noControls_membersOnto {members : List (List Unit × Json)}
    (h : ∀ m ∈ members, NoControls (write m.2)) {rest : List Char} (hrest : NoControls rest) :
    NoControls (membersOnto members rest) := by
  induction members with
  | nil => exact hrest
  | cons m ms ih =>
    obtain ⟨hm, hms⟩ := List.forall_mem_cons.mp h
    rw [membersOnto_cons]
    refine (noControls_writeString m.1).append (noControls_cons_iff.mpr ⟨by decide, ?_⟩)
    exact NoControls.append hm (noControls_comma ms (ih hms))

/-- **There is a control in a JSON text only if there is one in a number.** -/
theorem noControls_write {j : Json} (h : Textual NoControls j) : NoControls (write j) := by
  induction h with
  | null => decide
  | bool b => cases b <;> decide
  | number h =>
    rw [write, writeOnto, List.append_nil]
    exact h
  | string cs =>
    rw [write, writeOnto, List.append_nil]
    exact noControls_writeString (units cs)
  | array _ ih =>
    rw [write_array]
    exact noControls_cons_iff.mpr ⟨by decide, noControls_itemsOnto ih (by decide)⟩
  | object _ _ ih =>
    rw [write_object]
    exact noControls_cons_iff.mpr ⟨by decide, noControls_membersOnto ih (by decide)⟩

end Json

namespace Value

/-- Floats are written without controls, as decimal numbers or as `null`. -/
theorem floatIn_noControls (v : Value) : v.FloatIn NoControls := by
  cases v with
  | float bits =>
    show Json.Textual NoControls (floatJson bits)
    rw [floatJson]
    split
    · exact .null
    · exact .number (Layout.noControls_float (by decide) (by decide) (by decide) bits)
  | _ => trivial

theorem textual_noControls (v : Value) : Json.Textual NoControls v.toJson :=
  textual_toJson noControls_intText fun w _ => floatIn_noControls w

theorem noControls_jsonText (v : Value) : NoControls v.jsonText :=
  Json.noControls_write (textual_noControls v)

/-- So the line of a value is one line. -/
theorem noControls_jsonOf (slot : SlotName) (v : Value) :
    NoControls (LineFormat.jsonOf slot v).write :=
  Json.noControls_write (textual_twoMembers (textual_ofString slot.name) (textual_noControls v))

/-- **Values without floats are read back from their JSON**, whatever their keys, classes and
    fields are, when the reader takes that many brackets; and every value is one line of JSON, so
    that a printer writes as many lines as values. -/
theorem json_lines_read_back :
    (∀ v : Value, v.FloatFree → v.toJson.nesting ≤ maxBrackets →
      ofJsonText? v.jsonText = some v) ∧
    (∀ v : Value, NoControls v.jsonText) ∧
    ∀ (before : Bytes) (items : List (SlotName × Value)), ∃ lines : List Bytes,
      Renderer.renderAll (LinePrinter.mk .json ⟨Option.none, before⟩) items =
        (.ok (), ⟨.json, ⟨Option.none, before ++ lines.flatten⟩⟩) ∧
      lines = items.map (fun x => Utf8.encodeChars (LineFormat.jsonOf x.1 x.2).write ++ [0x0A]) ∧
      (∀ line ∈ lines, OneLine line) ∧ lines.flatten.count 0x0A = items.length := by
  refine ⟨fun v => ofJsonText?_jsonText, noControls_jsonText, fun before items => ?_⟩
  have hlines : ∀ line ∈ items.map fun x => LineFormat.line .json x.1 x.2, OneLine line := by
    intro line hline
    obtain ⟨x, -, rfl⟩ := List.mem_map.mp hline
    exact LineFormat.oneLine (noControls_jsonOf x.1 x.2).newline_not_mem
  refine ⟨_, LinePrinter.renderAll_eq .json before items, ?_, hlines, ?_⟩
  · exact List.map_congr_left fun x _ => List.flatMap_append
  · rw [count_flatten_of_oneLine hlines, List.length_map]

/-- A list twice as a key, the least number, two bytes, and a record without a name whose
    fields have none either; in there a text of a quote and a line break. -/
def unkeyed : Value :=
  .tuple [.dict [(.list [], .int Int64.minValue), (.list [], .bytes [0x00, 0xFF])],
    .record "" [("", .str "\"\n"), ("", .bool true)]]

/-- A value that no reader of payloads takes is read back from JSON, and together with a NaN it
    makes two lines. -/
theorem unkeyed_lines_read_back :
    (unkeyed.FloatFree ∧ unkeyed.toJson.nesting ≤ maxBrackets ∧
      ofJsonText? unkeyed.jsonText = some unkeyed) ∧
    ∃ written, Renderer.renderAll (LinePrinter.mk .json .unlimited)
        [(⟨"a", by decide⟩, unkeyed), (⟨"b", by decide⟩, .float 0x7FF8000000000001)] =
        (.ok (), ⟨.json, ⟨Option.none, written⟩⟩) ∧
      written.count 0x0A = 2 := by
  have hfree : unkeyed.FloatFree := by decide
  have hroom : unkeyed.toJson.nesting ≤ maxBrackets := by decide
  obtain ⟨hread, -, hlines⟩ := json_lines_read_back
  refine ⟨⟨hfree, hroom, hread unkeyed hfree hroom⟩, ?_⟩
  obtain ⟨lines, hwritten, -, -, hcount⟩ := hlines [] [_, _]
  exact ⟨lines.flatten, hwritten, hcount⟩

end Value

end SealedStore
