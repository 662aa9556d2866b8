/-
  Paths as texts, with `/` between the names.

  Putting paths together and taking them apart looks at the text alone, never at the files.
-/
import SealedStore.Bytes

namespace SealedStore.Path

/-- One part of a path, between two slashes. -/
abbrev Segment := List Char

/-- The parts of a text between its slashes, empty ones included. -/
def segments : List Char → List Segment
  | [] => [[]]
  | c :: cs =>
    if c = '/' then [] :: segments cs
    else match segments cs with
      | [] => [[c]]
      | seg :: segs => (c :: seg) :: segs

/-- Segments as a text. -/
def text : List Segment → List Char
  | [] => []
  | [seg] => seg
  | seg :: segs => seg ++ '/' :: text segs

/-- Starts at the root, not at the working directory. -/
def isAbsolute (path : String) : Bool := path.toList.head? == some '/'

/-- A path inside a directory.  An absolute path stands for itself. -/
def join (dir path : String) : String :=
  if isAbsolute path || dir.isEmpty then path
  else if dir.toList.getLast? == some '/' then dir ++ path
  else dir ++ "/" ++ path

/-- A segment that leads nowhere: empty, or a single dot. -/
def isTrivial (seg : Segment) : Bool := seg.isEmpty || seg == ['.']

/-- What a path begins with before its names. -/
inductive Start where
  | plain
  /-- The working directory by name: `.` or `./`. -/
  | dot
  | root
  deriving DecidableEq, Repr

/-- The text of a start. -/
def Start.text : Start → List Char
  | plain => []
  | dot => ['.']
  | root => ['/']

/-- Tells the start of a path from the rest of its text. -/
def start : List Char → Start × List Char
  | '/' :: rest => (.root, rest)
  | ['.'] => (.dot, [])
  | '.' :: '/' :: rest => (.dot, '/' :: rest)
  | rest => (.plain, rest)

/-- What remains of reversed segments when one name after the other is taken away. -/
def shorter : List Segment → List (List Segment)
  | [] => []
  | seg :: segs =>
    if isTrivial seg then shorter segs else segs.dropWhile isTrivial :: shorter segs

/-- The directories that a path lies in, the nearest first.  Slashes and dots that lead nowhere are
    skipped at the end of each. -/
def above (path : String) : List String :=
  let (start, rest) := start path.toList
  let shown (segs : List Segment) := String.ofList (start.text ++ text segs.reverse)
  (shorter (segments rest).reverse).map shown ++ if start = .dot then [""] else []

/-- The directory that a path lies in, if it has one. -/
def parent? (path : String) : Option String := (above path).head?

end SealedStore.Path
