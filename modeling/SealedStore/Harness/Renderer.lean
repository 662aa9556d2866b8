/-
  Where values that were read back go: lines into a sink, or a list in memory.

  A sink may have room for a limited number of bytes.  It keeps of a longer write what fits and
  refuses from then on.
-/
import SealedStore.Console.Style
import SealedStore.Store.SlotName
import SealedStore.Text.Utf8
import SealedStore.Value.Json
import SealedStore.Value.Printed

namespace SealedStore

/-- Why a value is not shown. -/
inductive RenderFault where
  | sinkClosed
  deriving DecidableEq, Repr

/-- The text of the fault. -/
def RenderFault.message : RenderFault → String
  | .sinkClosed => "sink closed"

/-- What takes the values of slots, one after the other. -/
class Renderer (ρ : Type) where
  render : ρ → SlotName → Value → Except RenderFault Unit × ρ

/-- What takes bytes: those written so far, and how many more there is room for. -/
structure Sink where
  /-- Without a number there is always room. -/
  room : Option Nat
  written : Bytes
  deriving DecidableEq, Repr

namespace Sink

/-- The sink that takes everything. -/
def unlimited : Sink := ⟨none, []⟩

/-- The sink that takes so many bytes. -/
def limited (room : Nat) : Sink := ⟨some room, []⟩

/-- Writes bytes, as many of them as fit. -/
def write (sink : Sink) (bytes : Bytes) : Except RenderFault Unit × Sink :=
  match sink.room with
  | none => (.ok (), { sink with written := sink.written ++ bytes })
  | some room =>
    (if bytes.length ≤ room then .ok () else .error .sinkClosed,
      ⟨some (room - bytes.length), sink.written ++ bytes.take room⟩)

end Sink

/-- The forms of a line. -/
inductive LineFormat where
  /-- The printed form of the value. -/
  | text
  /-- An object of the slot and the value. -/
  | json
  /-- The slot as a label, colored or not, and the printed form. -/
  | labelled (colored : Bool)
  deriving DecidableEq, Repr

namespace LineFormat

/-- The object of a slot and its value. -/
def jsonOf (slot : SlotName) (v : Value) : Json :=
  .object [(Json.units "slot".toList, .ofString slot.name),
    (Json.units "value".toList, v.toJson)]

/-- What stands in a line for a value. -/
def content : LineFormat → SlotName → Value → List Char
  | text, _, v => v.text
  | json, slot, v => (jsonOf slot v).write
  | labelled colored, slot, v =>
    Style.paint colored (.of .yellow) (slot.name.toList ++ [':']) ++ ' ' :: v.text

/-- The line of a value, with its end. -/
def line (format : LineFormat) (slot : SlotName) (v : Value) : Bytes :=
  Utf8.encodeChars (format.content slot v ++ ['\n'])

end LineFormat

/-- Writes a line for every value. -/
structure LinePrinter where
  format : LineFormat
  sink : Sink

instance : Renderer LinePrinter where
  render printer slot v :=
    match printer.sink.write (printer.format.line slot v) with
    | (result, sink) => (result, { printer with sink })

/-- Keeps slots and values. -/
structure Collector where
  rendered : List (SlotName × Value)

instance : Renderer Collector where
  render collector slot v := (.ok (), ⟨collector.rendered ++ [(slot, v)]⟩)

end SealedStore
