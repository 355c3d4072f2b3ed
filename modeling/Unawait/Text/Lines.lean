import Unawait.Text.Basic
import Unawait.Search

/-!
# Lines of a text

A line ends with a line feed and nothing else: a carriage return is an ordinary
byte. The first line starts at offset 0, every other one right after a line
feed. Lines and columns count from 0 here, columns in bytes; offsets past the
end belong to the last line.
-/

namespace Unawait

/-- The offsets at which the lines of a text start, in order. -/
structure Lines where
  starts : Array Nat
deriving Inhabited

namespace Lines

/-- The offsets after the line feeds of a text whose first byte has the given
offset. -/
def startsAfterFeeds : Nat → Text → List Nat
  | _, [] => []
  | offset, c :: rest =>
    if c = '\n' then (offset + 1) :: startsAfterFeeds (offset + 1) rest
    else startsAfterFeeds (offset + c.utf8Size) rest

/-- The lines of a text. -/
def ofText (text : Text) : Lines := ⟨(0 :: startsAfterFeeds 0 text).toArray⟩

/-- The number of lines. -/
def count (lines : Lines) : Nat := lines.starts.size

/-- The line of an offset: the last one that starts at or before it. -/
def line (lines : Lines) (offset : Nat) : Nat :=
  Search.partitionPoint (fun i => lines.starts.getD i 0 ≤ offset) lines.count - 1

/-- The offset at which a line starts. Past the last line it is the last line's. -/
def lineStart (lines : Lines) (line : Nat) : Nat :=
  lines.starts.getD line (lines.starts.getD (lines.count - 1) 0)

/-- Line and column of an offset. -/
def position (lines : Lines) (offset : Nat) : Nat × Nat :=
  let line := lines.line offset
  (line, offset - lines.starts.getD line 0)

/-- Whether two offsets are on different lines. -/
def crosses (lines : Lines) (a b : Nat) : Bool := lines.line a != lines.line b

end Lines

end Unawait
