import Unawait.Text.Lines
import Unawait.Edit.Rendering
import Unawait.Sorting
import Unawait.SourceMap.Vlq
import Unawait.Json.Quoted

/-!
# Source maps of version 3

A source map relates places of a generated text to places of its one source. Its
segments are ordered by generated place; where several segments have the same
generated place only the least one is written. Each field of a segment is written
as the difference to the segment before it, and the generated column starts anew
on each line.
-/

namespace Unawait

/-- A generated place and the place of the source that it comes from. Lines and
columns count from 0, columns in UTF-16 units. -/
structure Segment where
  line : Nat
  column : Nat
  sourceLine : Nat
  sourceColumn : Nat
deriving DecidableEq

namespace Segment

/-- The order of segments: by generated place, then by place in the source. -/
def precedes (a b : Segment) : Bool :=
  a.line < b.line || a.line == b.line && (a.column < b.column || a.column == b.column &&
    (a.sourceLine < b.sourceLine || a.sourceLine == b.sourceLine &&
      a.sourceColumn ≤ b.sourceColumn))

/-- The generated place of a segment. -/
def place (segment : Segment) : Nat × Nat := (segment.line, segment.column)

end Segment

/-- A source with its lines and the segments collected for it. -/
structure SourceMap where
  name : Text
  source : Text
  lines : Lines
  segments : List Segment := []

namespace SourceMap

/-- A map without segments. -/
def ofSource (name source : Text) : SourceMap := { name, source, lines := Lines.ofText source }

/-- Line and UTF-16 column of an offset of the source. Where the offset does not
cut the text the column counts bytes. -/
def sourcePlace (map : SourceMap) (offset : Nat) : Nat × Nat :=
  let line := map.lines.line offset
  let start := map.lines.lineStart line
  match map.source.slice? start offset with
  | some before => (line, before.units)
  | none => (line, offset - start)

/-- The segment of a mapping. -/
def segment (map : SourceMap) (mapping : Edit.Mapping) : Segment :=
  let (line, column) := map.sourcePlace mapping.origin
  ⟨mapping.line, mapping.column, line, column⟩

/-- Add mappings in their order. -/
def addAll (map : SourceMap) (mappings : List Edit.Mapping) : SourceMap :=
  { map with segments := map.segments ++ mappings.map map.segment }

/-- The segments as they are written: in order, the least one of each generated
place. -/
def ordered (map : SourceMap) : List Segment :=
  Sorting.firstOfEach Segment.place (Sorting.sort Segment.precedes map.segments)

/-- What the fields of the next segment are written relative to. -/
structure Pen where
  line : Nat := 0
  column : Nat := 0
  sourceLine : Nat := 0
  sourceColumn : Nat := 0
  /-- Nothing was written on the line so far. -/
  fresh : Bool := true

/-- The difference of two numbers. -/
def difference (a b : Nat) : Int := (a : Int) - (b : Int)

/-- The segments from a pen position on. -/
def encodeFrom : Pen → List Segment → Text
  | _, [] => []
  | pen, segment :: rest =>
    let feeds := List.replicate (segment.line - pen.line) ';'
    let moved := pen.line < segment.line
    let column := if moved then 0 else pen.column
    let comma : Text := if pen.fresh || moved then [] else [',']
    let fields :=
      Vlq.encode (difference segment.column column) ++ Vlq.encode 0
        ++ Vlq.encode (difference segment.sourceLine pen.sourceLine)
        ++ Vlq.encode (difference segment.sourceColumn pen.sourceColumn)
    let next : Pen :=
      { line := max pen.line segment.line, column := segment.column,
        sourceLine := segment.sourceLine, sourceColumn := segment.sourceColumn, fresh := false }
    feeds ++ comma ++ fields ++ encodeFrom next rest

/-- The `mappings` text of the map. -/
def encode (map : SourceMap) : Text := encodeFrom {} map.ordered

/-- The map as a document. -/
def document (map : SourceMap) (file : Text) : Text :=
  "\x7b\"version\":3,\"file\":".toList ++ Json.quoted file
    ++ ",\"sources\":[".toList ++ Json.quoted map.name
    ++ "],\"sourcesContent\":[".toList ++ Json.quoted map.source
    ++ "],\"names\":[],\"mappings\":".toList ++ Json.quoted map.encode ++ ['\x7d']

end SourceMap

end Unawait
