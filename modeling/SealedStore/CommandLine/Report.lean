/-
  What the commands tell about slots and blobs, line by line.
-/
import SealedStore.Console.HexDump
import SealedStore.Console.Style
import SealedStore.Harness.Run

namespace SealedStore.Report

/-- A text in a style, if styles are on. -/
def painted (colors : Bool) (style : Style) (text : String) : String :=
  String.ofList (Style.paint colors style text.toList)

/-- The text filled up with spaces at its end. -/
def padRight (width : Nat) (text : String) : String :=
  text ++ String.ofList (List.replicate (width - text.length) ' ')

/-- The text filled up with spaces in front of it. -/
def padLeft (width : Nat) (text : String) : String :=
  String.ofList (List.replicate (width - text.length) ' ') ++ text

/-- How a run went, after its values. -/
def runLines (colors : Bool) (report : RunReport) : List String :=
  let done := painted colors (.boldOf .green) "✓"
  let warning := painted colors (.boldOf .yellow) "!"
  s!"{done} {report.size} slots round-tripped ({report.totalBytes} bytes)" ::
    if report.mismatches = 0 then []
    else [s!"{warning} {report.mismatches} slots read back different from what was written"]

/-- What the header of a blob says, or why it says nothing. -/
def headerLine (colors : Bool) (blob : Bytes) : String :=
  match Frame.inspect blob with
  | .ok h =>
    let kind := match Payload.peekKind (Frame.payload blob) with
      | some kind => kind.name
      | none => "?"
    s!"  format v{h.version.toNat}, payload {h.payloadLength.toNat} bytes, " ++
      s!"crc32 {checksumText h.crc}, outer kind {painted colors (.of .cyan) kind}"
  | .error e => "  " ++ painted colors (.of .red) "invalid header:" ++ s!" {e.message}"

/-- Whether a blob can be read, and why not. -/
def statusLine (colors : Bool) (blob : Bytes) : String :=
  match Frame.unpack blob with
  | .ok _ => "  " ++ painted colors (.of .green) "checksum and payload ok"
  | .error (.checksumMismatch stored computed) =>
    "  " ++ painted colors (.of .red) "checksum mismatch:" ++
      s!" stored {checksumText stored}, computed {checksumText computed}"
  | .error e => "  " ++ painted colors (.of .red) "unreadable:" ++ s!" {e.message}"

/-- All about the blob in a slot. -/
def dumpLines (colors : Bool) (slot : SlotName) (blob : Bytes) : List String :=
  let title := painted colors .strong "slot"
  let name := painted colors (.of .yellow) slot.name
  s!"{title} {name} ({blob.length} bytes)" :: headerLine colors blob ::
    statusLine colors blob :: (HexDump.lines blob).map String.ofList

/-- A slot, the size of its blob, and whether the blob can be read. -/
structure SlotSummary where
  slot : SlotName
  bytes : Nat
  intact : Bool

/-- A blob can be read. -/
def isIntact (blob : Bytes) : Bool :=
  match Frame.unpack blob with
  | .ok _ => true
  | .error _ => false

/-- The summary of a slot. -/
def summaryLine (colors : Bool) (summary : SlotSummary) : String :=
  let name := painted colors (.of .yellow) (padRight 16 summary.slot.name)
  let status := if summary.intact then painted colors (.of .green) "ok"
    else painted colors (.of .red) "corrupt"
  s!"{name} {padLeft 8 (toString summary.bytes)} bytes  {status}"

/-- The summaries of the slots in a directory. -/
def listLines (colors : Bool) (dir : String) (summaries : List SlotSummary) : List String :=
  if summaries.isEmpty then [s!"No slots in {dir}."] else summaries.map (summaryLine colors)

/-- The object of a value and its number. -/
def numberedJson (index : Nat) (v : Value) : Json :=
  .object [(Json.units "index".toList, .ofNat index), (Json.units "value".toList, v.toJson)]

end SealedStore.Report
