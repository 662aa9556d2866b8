/-
  A run into a sink that has room for so many bytes.

  A sink keeps what fits, in order, and where one piece ends and the next begins makes no
  difference to it (`writeAll_eq_write`).  So a printer may write a line in any number of pieces,
  brackets, signs and the line break each by itself: it does what one does that writes the line at
  once (`run_mapRenderer`).  Over samples for different slots the second pass reads the samples
  themselves, and shows their lines up to the first that does not fit behind the others.  What the
  sink has by then are the first bytes of all lines together, as many as there was room for.
-/
import SealedStore.Proofs.Harness.Lines
import SealedStore.Proofs.Harness.RoundTrip

namespace SealedStore

/-! ## Pieces -/

namespace Sink

variable {room : Nat} {piece : Bytes} (before rest : Bytes)

theorem write_of_fits (h : piece.length ≤ room) :
    write ⟨some room, before⟩ piece =
      (.ok (), ⟨some (room - piece.length), before ++ piece⟩) := by
  simp only [write, if_pos h, List.take_of_length_le h]

theorem write_of_full (h : room < piece.length) :
    write ⟨some room, before⟩ piece =
      (.error .sinkClosed, ⟨some 0, before ++ piece.take room⟩) := by
  simp only [write, if_neg (Nat.not_le_of_lt h), Nat.sub_eq_zero_of_le (Nat.le_of_lt h)]

/-- Behind a piece that fits there is room for the rest. -/
theorem write_append_of_fits (h : piece.length ≤ room) :
    write ⟨some room, before⟩ (piece ++ rest) =
      write ⟨some (room - piece.length), before ++ piece⟩ rest := by
  have htake : (piece ++ rest).take room = piece ++ rest.take (room - piece.length) := by
    rw [List.take_append, List.take_of_length_le h]
  have hroom : room - (piece.length + rest.length) = room - piece.length - rest.length := by omega
  have hfits : piece.length + rest.length ≤ room ↔ rest.length ≤ room - piece.length := by omega
  simp only [write, htake, List.length_append, hroom, hfits, List.append_assoc]

/-- Nothing behind a piece that does not fit is kept. -/
theorem write_append_of_full (h : room < piece.length) :
    write ⟨some room, before⟩ (piece ++ rest) =
      (.error .sinkClosed, ⟨some 0, before ++ piece.take room⟩) := by
  have hfull : room < (piece ++ rest).length := by
    rw [List.length_append]
    omega
  rw [write_of_full before hfull, List.take_append_of_le_length (Nat.le_of_lt h)]

/-- Writes pieces in order, up to the first that does not fit. -/
def writeAll (sink : Sink) : List Bytes → Except RenderFault Unit × Sink
  | [] => (.ok (), sink)
  | piece :: pieces =>
    match sink.write piece with
    | (.error fault, sink) => (.error fault, sink)
    | (.ok (), sink) => sink.writeAll pieces

theorem write_nil (sink : Sink) : sink.write [] = (.ok (), sink) := by
  obtain ⟨room | room, before⟩ := sink
  · simp [write]
  · simp [write]

/-- **Pieces are kept as if they were one.** -/
theorem writeAll_eq_write (sink : Sink) (pieces : List Bytes) :
    sink.writeAll pieces = sink.write pieces.flatten := by
  induction pieces generalizing sink with
  | nil => exact sink.write_nil.symm
  | cons piece pieces ih =>
    obtain ⟨_ | room, before⟩ := sink
    · have hpiece : write ⟨none, before⟩ piece = (.ok (), ⟨none, before ++ piece⟩) := rfl
      rw [writeAll, hpiece, List.flatten_cons]
      simp only [ih, write, List.append_assoc]
    · rw [List.flatten_cons]
      by_cases hfits : piece.length ≤ room
      · rw [write_append_of_fits _ _ hfits, writeAll, write_of_fits _ hfits]
        exact ih _
      · have hfull := Nat.lt_of_not_le hfits
        rw [write_append_of_full _ _ hfull, writeAll, write_of_full _ hfull]

end Sink

/-- A way to cut the lines of a format into pieces. -/
structure Cut (format : LineFormat) where
  pieces : SlotName → Value → List Bytes
  flatten : ∀ slot v, (pieces slot v).flatten = format.line slot v

/-- The text of a line in one piece and its line break in another. -/
def Cut.lineEndApart (format : LineFormat) : Cut format where
  pieces slot v := [Utf8.encodeChars (format.content slot v), Utf8.encodeChars ['\n']]
  flatten slot v := by
    rw [List.flatten_cons, List.flatten_cons, List.flatten_nil, List.append_nil]
    exact List.flatMap_append.symm

/-- Writes the line of every value piece by piece. -/
structure PiecePrinter (format : LineFormat) where
  cut : Cut format
  sink : Sink

instance (format : LineFormat) : Renderer (PiecePrinter format) where
  render printer slot v :=
    match printer.sink.writeAll (printer.cut.pieces slot v) with
    | (result, sink) => (result, { printer with sink })

/-- The printer that writes the same lines at once. -/
def PiecePrinter.whole {format : LineFormat} (printer : PiecePrinter format) : LinePrinter :=
  ⟨format, printer.sink⟩

/-- **A line is shown in pieces as it is at once.** -/
theorem PiecePrinter.render_whole {format : LineFormat} (printer : PiecePrinter format)
    (slot : SlotName) (v : Value) :
    Renderer.render printer.whole slot v =
      (Renderer.render printer slot v).map id PiecePrinter.whole := by
  have hpieces := printer.sink.writeAll_eq_write (printer.cut.pieces slot v)
  rw [printer.cut.flatten] at hpieces
  simp only [Renderer.render, hpieces]
  rfl

/-! ## Lines behind each other -/

namespace LinePrinter

variable {format : LineFormat} {room : Nat} {slot : SlotName} {v : Value} (before : Bytes)

/-- A line for which there is room is shown. -/
theorem render_of_fits (h : (format.line slot v).length ≤ room) :
    Renderer.render (LinePrinter.mk format ⟨some room, before⟩) slot v =
      (.ok (), ⟨format, ⟨some (room - (format.line slot v).length),
        before ++ format.line slot v⟩⟩) := by
  simp only [Renderer.render, Sink.write_of_fits before h]

/-- Of another line there is as much as there is room for. -/
theorem render_of_full (h : room < (format.line slot v).length) :
    Renderer.render (LinePrinter.mk format ⟨some room, before⟩) slot v =
      (.error .sinkClosed, ⟨format, ⟨some 0, before ++ (format.line slot v).take room⟩⟩) := by
  simp only [Renderer.render, Sink.write_of_full before h]

end LinePrinter

/-- The lines of samples. -/
def LineFormat.output (format : LineFormat) (samples : List Sample) : Bytes :=
  (samples.map fun sample => format.line sample.slot sample.value).flatten

theorem LineFormat.output_cons (format : LineFormat) (sample : Sample) (samples : List Sample) :
    format.output (sample :: samples) =
      format.line sample.slot sample.value ++ format.output samples := rfl

theorem LineFormat.length_output_cons (format : LineFormat) (sample : Sample)
    (samples : List Sample) :
    (format.output (sample :: samples)).length =
      (format.line sample.slot sample.value).length + (format.output samples).length :=
  List.length_append

/-! ## Samples for different slots -/

/-- Each of them is the last for its slot. -/
theorem lastFor_of_nodup {samples : List Sample} (h : (samples.map Sample.slot).Nodup)
    {sample : Sample} (hmem : sample ∈ samples) : lastFor sample.slot samples = some sample := by
  obtain ⟨before, after, rfl⟩ := List.append_of_mem hmem
  refine lastFor_eq_some_iff.mpr ⟨rfl, before, after, rfl, ?_⟩
  intro other hother heq
  rw [List.map_append, List.map_cons, List.nodup_append, List.nodup_cons] at h
  obtain ⟨-, ⟨hnot, -⟩, -⟩ := h
  exact hnot (heq ▸ List.mem_map_of_mem hother)

section
variable (store : MemoryStore) {samples : List Sample} (hslots : (samples.map Sample.slot).Nodup)
  {sample : Sample} (hmem : sample ∈ samples) (hpack : ∃ blob, Frame.pack sample.value = .ok blob)
include hslots hmem hpack

/-- So its blob is there after all puts, -/
theorem MemoryStore.get?_puts_of_nodup : ∃ blob, Frame.pack sample.value = .ok blob ∧
    (Store.after store (samples.map Sample.put)).get? sample.slot = some blob := by
  obtain ⟨blob, hblob⟩ := hpack
  exact ⟨blob, hblob, store.get?_puts_of_lastFor (lastFor_of_nodup hslots hmem) hblob⟩

/-- and it is read back as it is. -/
theorem MemoryStore.get_puts_of_nodup (hnamed : sample.value.Everywhere Value.FieldsNamed) :
    Store.get (Store.after store (samples.map Sample.put)) sample.slot = .ok sample.value := by
  obtain ⟨v, hv, hsame⟩ := store.get_puts_of_lastFor (lastFor_of_nodup hslots hmem) hpack hnamed
  rw [hv, (Value.sameAs_iff_eq _ _).mp hsame]

end

namespace Harness

/-! ## The second pass -/

section
variable {σ : Type} [Store σ] {store : σ} {format : LineFormat} {xs : List (Sample × Nat)}
  {room : Nat} (verify : Bool)

/-- Samples that are read as they were written are all shown if there is room for their lines. -/
theorem readAll_of_fits (before : Bytes)
    (hget : ∀ x ∈ xs, Store.get store x.1.slot = .ok x.1.value)
    (hroom : (format.output (xs.map Prod.fst)).length ≤ room) :
    ∃ entries rest, readAll ⟨store, LinePrinter.mk format ⟨some room, before⟩, verify⟩ xs =
      (.ok entries,
        ⟨store, ⟨format, ⟨some rest, before ++ format.output (xs.map Prod.fst)⟩⟩, verify⟩) := by
  induction xs generalizing room before with
  | nil =>
    refine ⟨[], room, ?_⟩
    rw [List.map_nil, LineFormat.output, List.map_nil, List.flatten_nil, List.append_nil]
    rfl
  | cons x xs ih =>
    obtain ⟨sample, bytes⟩ := x
    obtain ⟨hv, hrest⟩ := List.forall_mem_cons.mp hget
    rw [List.map_cons, LineFormat.length_output_cons] at hroom
    have hline : (format.line sample.slot sample.value).length ≤ room :=
      Nat.le_trans (Nat.le_add_right _ _) hroom
    have hshow := LinePrinter.render_of_fits before hline
    have hsame : verify = true → sample.value.sameAs sample.value = true := fun _ =>
      (Value.sameAs_iff_eq _ _).mpr rfl
    obtain ⟨entries, left, hread⟩ := ih (before ++ format.line sample.slot sample.value) hrest
      (Nat.le_sub_of_add_le' hroom)
    refine ⟨⟨sample.slot, bytes, sample.value, sample.value.sameAs sample.value⟩ :: entries, left,
      ?_⟩
    rw [readAll_of_render bytes xs hv hshow hsame, hread, List.map_cons, LineFormat.output_cons,
      List.append_assoc]
    rfl

/-- Otherwise the first whose line does not fit behind the others ends the pass. -/
theorem readAll_of_full (before : Bytes)
    (hget : ∀ x ∈ xs, Store.get store x.1.slot = .ok x.1.value)
    (hroom : room < (format.output (xs.map Prod.fst)).length) :
    ∃ shown sample behind, xs.map Prod.fst = shown ++ sample :: behind ∧
      (format.output shown).length ≤ room ∧ room < (format.output (shown ++ [sample])).length ∧
      readAll ⟨store, LinePrinter.mk format ⟨some room, before⟩, verify⟩ xs =
        (.error (.render sample.slot .sinkClosed), ⟨store,
          ⟨format, ⟨some 0, before ++ (format.output (xs.map Prod.fst)).take room⟩⟩, verify⟩) := by
  induction xs generalizing room before with
  | nil => nomatch hroom
  | cons x xs ih =>
    obtain ⟨sample, bytes⟩ := x
    obtain ⟨hv, hrest⟩ := List.forall_mem_cons.mp hget
    rw [List.map_cons, LineFormat.length_output_cons] at hroom
    rw [List.map_cons, LineFormat.output_cons]
    by_cases hline : (format.line sample.slot sample.value).length ≤ room
    · have hshow := LinePrinter.render_of_fits before hline
      have hsame : verify = true → sample.value.sameAs sample.value = true := fun _ =>
        (Value.sameAs_iff_eq _ _).mpr rfl
      obtain ⟨shown, last, behind, hsplit, hshown, hlast, hread⟩ :=
        ih (before ++ format.line sample.slot sample.value) hrest
          (Nat.sub_lt_left_of_lt_add hline hroom)
      refine ⟨sample :: shown, last, behind, ?_, ?_, ?_, ?_⟩
      · rw [hsplit, List.cons_append]
      · rw [LineFormat.length_output_cons]
        omega
      · rw [List.cons_append, LineFormat.length_output_cons]
        omega
      · rw [readAll_of_render bytes xs hv hshow hsame, hread, List.take_append,
          List.take_of_length_le hline, List.append_assoc]
        rfl
    · have hfull := Nat.lt_of_not_le hline
      have hshow := LinePrinter.render_of_full before hfull
      refine ⟨[], sample, xs.map Prod.fst, rfl, Nat.zero_le _, ?_, ?_⟩
      · rw [List.nil_append, LineFormat.length_output_cons]
        omega
      · rw [readAll_of_render_error bytes xs hv hshow,
          List.take_append_of_le_length (Nat.le_of_lt hfull)]

end

/-! ## A whole run -/

/-- What a run over samples gives and leaves behind when the sink for their lines has room for so
    many bytes. -/
structure FillsSink {ρ : Type} (format : LineFormat) (samples : List Sample) (room : Nat)
    (sinkOf : ρ → Sink) (r : Except HarnessError RunReport × Harness MemoryStore ρ) : Prop where
  /-- It succeeds just when there is room for all lines. -/
  ok : (∃ report, r.1 = .ok report) ↔ (format.output samples).length ≤ room
  /-- Otherwise it fails over the first sample whose line does not fit behind the others. -/
  error : room < (format.output samples).length →
    ∃ shown sample behind, samples = shown ++ sample :: behind ∧
      (format.output shown).length ≤ room ∧ room < (format.output (shown ++ [sample])).length ∧
      r.1 = .error (.render sample.slot .sinkClosed)
  /-- The sink has all of the lines if there is room for them, and as many bytes as fit if not. -/
  written : (sinkOf r.2.renderer).written = (format.output samples).take room
  /-- Either way all samples are in the store. -/
  stored : ∀ sample ∈ samples,
    ∃ blob, Frame.pack sample.value = .ok blob ∧ r.2.store.get? sample.slot = some blob

/-- A printer that writes its lines at once fills its sink.  All samples are put first, so each is
    in the store however far the second pass comes, and what that reads are the samples
    themselves. -/
theorem fillsSink_linePrinter (format : LineFormat) (store : MemoryStore) (verify : Bool)
    (room : Nat) {samples : List Sample} (hslots : (samples.map Sample.slot).Nodup)
    (hsamples : ∀ sample ∈ samples, (∃ blob, Frame.pack sample.value = .ok blob) ∧
      sample.value.Everywhere Value.FieldsNamed) :
    FillsSink format samples room LinePrinter.sink
      (run ⟨store, LinePrinter.mk format (.limited room), verify⟩ samples) := by
  obtain ⟨sizes, hput, hsizes⟩ := store.exists_putAll_eq fun sample hmem => (hsamples sample hmem).1
  have hfst : (samples.zip sizes).map Prod.fst = samples :=
    List.map_fst_zip (Nat.le_of_eq hsizes.length_eq)
  have hget : ∀ x ∈ samples.zip sizes,
      Store.get (Store.after store (samples.map Sample.put)) x.1.slot = .ok x.1.value := by
    intro x hx
    have hmem := (List.of_mem_zip hx).1
    obtain ⟨hpack, hnamed⟩ := hsamples x.1 hmem
    exact store.get_puts_of_nodup hslots hmem hpack hnamed
  have hstored : ∀ sample ∈ samples, ∃ blob, Frame.pack sample.value = .ok blob ∧
      (Store.after store (samples.map Sample.put)).get? sample.slot = some blob := by
    intro sample hmem
    exact store.get?_puts_of_nodup hslots hmem (hsamples sample hmem).1
  rw [run_of_putAll hput, Sink.limited]
  by_cases hroom : (format.output samples).length ≤ room
  · have hfits : (format.output ((samples.zip sizes).map Prod.fst)).length ≤ room := by rwa [hfst]
    obtain ⟨entries, rest, hread⟩ := readAll_of_fits verify [] hget hfits
    rw [hfst] at hread
    rw [hread]
    refine ⟨⟨fun _ => hroom, fun _ => ⟨_, rfl⟩⟩, ?_, ?_, hstored⟩
    · intro hfull
      omega
    · exact (List.take_of_length_le hroom).symm
  · have hfull : room < (format.output ((samples.zip sizes).map Prod.fst)).length := by
      rw [hfst]
      exact Nat.lt_of_not_le hroom
    obtain ⟨shown, sample, behind, hsplit, hshown, hlast, hread⟩ :=
      readAll_of_full verify [] hget hfull
    rw [hfst] at hsplit hread
    rw [hread]
    refine ⟨⟨?_, fun hle => absurd hle hroom⟩, ?_, rfl, hstored⟩
    · rintro ⟨report, hreport⟩
      nomatch hreport
    · intro _
      exact ⟨shown, sample, behind, hsplit, hshown, hlast, rfl⟩

/-- **A run fills its sink with the lines of its samples**, in order and byte by byte, and fails
    over the sample whose line is cut off.  It does not matter in what pieces the lines come. -/
theorem run_fillsSink (format : LineFormat) (store : MemoryStore) (verify : Bool) (room : Nat)
    {samples : List Sample} (hslots : (samples.map Sample.slot).Nodup)
    (hsamples : ∀ sample ∈ samples, (∃ blob, Frame.pack sample.value = .ok blob) ∧
      sample.value.Everywhere Value.FieldsNamed) :
    Renderer.renderAll (LinePrinter.mk format .unlimited)
        (samples.map fun sample => (sample.slot, sample.value)) =
      (.ok (), ⟨format, ⟨none, format.output samples⟩⟩) ∧
    FillsSink format samples room LinePrinter.sink
      (run ⟨store, LinePrinter.mk format (.limited room), verify⟩ samples) ∧
    ∀ cut : Cut format, FillsSink format samples room PiecePrinter.sink
      (run ⟨store, PiecePrinter.mk cut (.limited room), verify⟩ samples) := by
  have hwhole := fillsSink_linePrinter format store verify room hslots hsamples
  refine ⟨?_, hwhole, fun cut => ?_⟩
  · rw [Sink.unlimited, LinePrinter.renderAll_eq, List.map_map]
    rfl
  · have hmap := run_mapRenderer PiecePrinter.render_whole store
      (PiecePrinter.mk cut (.limited room)) verify samples
    rw [PiecePrinter.whole] at hmap
    rw [hmap] at hwhole
    exact ⟨hwhole.ok, hwhole.error, hwhole.written, hwhole.stored⟩

/-- Room for the line of one of two samples and for a part of the other, whether the lines are
    written at once or their line breaks by themselves. -/
theorem run_cutShort :
    let samples : List Sample := [⟨⟨"a", by decide⟩, .tuple [.int 1, .str "it's"]⟩,
      ⟨⟨"b", by decide⟩, .record "P" [("x", .float 0x7FF8000000000001)]⟩]
    (samples.map Sample.slot).Nodup ∧
      (∀ sample ∈ samples, (∃ blob, Frame.pack sample.value = .ok blob) ∧
        sample.value.Everywhere Value.FieldsNamed) ∧
      FillsSink (.labelled true) samples 40 LinePrinter.sink
        (run ⟨MemoryStore.empty, LinePrinter.mk (.labelled true) (.limited 40), true⟩ samples) ∧
      FillsSink (.labelled true) samples 40 PiecePrinter.sink
        (run ⟨MemoryStore.empty,
          PiecePrinter.mk (.lineEndApart (.labelled true)) (.limited 40), true⟩ samples) := by
  intro samples
  have hslots : (samples.map Sample.slot).Nodup := by decide
  have hsamples : ∀ sample ∈ samples, (∃ blob, Frame.pack sample.value = .ok blob) ∧
      sample.value.Everywhere Value.FieldsNamed := by
    simp only [samples, List.forall_mem_cons]
    exact ⟨⟨⟨_, rfl⟩, by decide⟩, ⟨⟨_, rfl⟩, by decide⟩, List.forall_mem_nil _⟩
  obtain ⟨-, hwhole, hpieces⟩ :=
    run_fillsSink (.labelled true) MemoryStore.empty true 40 hslots hsamples
  exact ⟨hslots, hsamples, hwhole, hpieces _⟩

end Harness

end SealedStore
