import Unawait.Text.Basic

/-!
# Editing a text by ranges of its offsets

A buffer collects edits of one source text. Every offset refers to the source as
it was given: an edit never renumbers the ones after it. The source is cut into
chunks where edits need it. A chunk keeps the source text of its range or holds a
replacement, and text may be attached in front of it and behind it. Ranges may be
moved to another offset; what is attached inside a range travels with it.

Edits that contradict earlier ones are refused: an offset past the end, a cut
inside a range that was replaced, a second replacement of the same bytes, and
moves that are empty, overlap, or go into themselves.
-/

namespace Unawait.Edit

/-- Why an edit is refused. -/
inductive Refusal where
  | pastEnd (offset length : Nat)
  | insideReplaced (offset : Nat)
  | emptyOverwrite (start stop : Nat)
  | overlappingOverwrite (chunkStart chunkStop start stop : Nat)
  | emptyMove (start stop : Nat)
  | moveIntoItself (destination start stop : Nat)
  | overlappingMove (start stop : Nat)
deriving DecidableEq

/-- The wording of a refusal. -/
def Refusal.message : Refusal → String
  | pastEnd offset length => s!"edit offset {offset} past end of source ({length})"
  | insideReplaced offset => s!"cannot split an already edited span at offset {offset}"
  | emptyOverwrite start stop => s!"empty overwrite range {start}..{stop}"
  | overlappingOverwrite chunkStart chunkStop start stop =>
    s!"overlapping edit at {chunkStart}..{chunkStop} (requested {start}..{stop})"
  | emptyMove start stop => s!"empty move range {start}..{stop}"
  | moveIntoItself destination start stop =>
    s!"move destination {destination} inside moved range {start}..{stop}"
  | overlappingMove start stop => s!"overlapping move of {start}..{stop}"

/-- A range of the source between two cuts. -/
structure Chunk where
  start : Nat
  stop : Nat
  /-- The replacement; nothing while the source text stays. -/
  content : Option Text := none
  /-- Text in front of the chunk. -/
  intro : Text := []
  /-- Text behind the chunk. -/
  outro : Text := []
deriving DecidableEq

/-- A range of the source and the offset to which it goes. -/
structure Move where
  start : Nat
  stop : Nat
  destination : Nat
deriving DecidableEq

/-- A source text with the edits made so far. -/
structure Buffer where
  source : Text
  /-- The number of bytes of the source. -/
  length : Nat
  /-- The chunks from the start of the source to its end. -/
  chunks : List Chunk
  /-- Text before everything else. -/
  intro : Text := []
  /-- Text after everything else. -/
  outro : Text := []
  /-- The moves in the order in which they were made. -/
  moves : List Move := []
  /-- The offsets whose place in the result is asked for, in increasing order. -/
  marks : List Nat := []
  edited : Bool := false

namespace Buffer

/-- A buffer without edits. An empty source has no chunk. -/
def ofText (source : Text) : Buffer :=
  let length := source.bytes
  { source, length, chunks := if length = 0 then [] else [{ start := 0, stop := length }] }

/-- Cut the chunk around an offset in two. What was attached behind it goes to
the second part. -/
def cut (offset : Nat) : List Chunk → Except Refusal (List Chunk)
  | [] => .ok []
  | chunk :: rest =>
    if offset ≤ chunk.start then .ok (chunk :: rest)
    else if chunk.stop ≤ offset then (cut offset rest).map (chunk :: ·)
    else if chunk.content.isSome then .error (.insideReplaced offset)
    else
      .ok ({ chunk with stop := offset, outro := [] }
        :: { chunk with start := offset, intro := [] } :: rest)

/-- Make an offset the boundary of a chunk. -/
def split (buffer : Buffer) (offset : Nat) : Except Refusal Buffer :=
  if offset ≤ buffer.length then
    (cut offset buffer.chunks).map fun chunks => { buffer with chunks }
  else .error (.pastEnd offset buffer.length)

/-- Replace the chunks that start in a range: the first one by the text, the
others by nothing. None of them may have been replaced before. -/
def fill (start stop : Nat) : Text → List Chunk → Except Refusal (List Chunk)
  | _, [] => .ok []
  | text, chunk :: rest =>
    if chunk.start < start then (fill start stop text rest).map (chunk :: ·)
    else if chunk.start < stop then
      if chunk.content.isSome then
        .error (.overlappingOverwrite chunk.start chunk.stop start stop)
      else (fill start stop [] rest).map ({ chunk with content := some text } :: ·)
    else .ok (chunk :: rest)

/-- Replace a range by a text. Text attached at its ends stays. -/
def overwrite (buffer : Buffer) (start stop : Nat) (text : Text) : Except Refusal Buffer :=
  if start < stop then do
    let buffer ← buffer.split start
    let buffer ← buffer.split stop
    let chunks ← fill start stop text buffer.chunks
    pure { buffer with chunks, edited := true }
  else .error (.emptyOverwrite start stop)

/-- Replace a range by nothing. -/
def remove (buffer : Buffer) (start stop : Nat) : Except Refusal Buffer :=
  buffer.overwrite start stop []

/-- Attach a text to what ends at an offset. Texts attached there later follow. -/
def insertBefore (buffer : Buffer) (offset : Nat) (text : Text) : Except Refusal Buffer := do
  let buffer ← buffer.split offset
  if offset = 0 then
    pure { buffer with intro := buffer.intro ++ text, edited := true }
  else
    let attach (chunk : Chunk) : Chunk :=
      if chunk.stop = offset then { chunk with outro := chunk.outro ++ text } else chunk
    pure { buffer with chunks := buffer.chunks.map attach, edited := true }

/-- Attach a text to what starts at an offset. Texts attached there later come
first. At the end of the source nothing starts, so the text goes to the end. -/
def insertAfter (buffer : Buffer) (offset : Nat) (text : Text) : Except Refusal Buffer := do
  let buffer ← buffer.split offset
  if buffer.chunks.any (fun chunk => chunk.start == offset) then
    let attach (chunk : Chunk) : Chunk :=
      if chunk.start = offset then { chunk with intro := text ++ chunk.intro } else chunk
    pure { buffer with chunks := buffer.chunks.map attach, edited := true }
  else
    pure { buffer with outro := text ++ buffer.outro, edited := true }

/-- Take a range from its place to another offset. It lands after what was
attached to the text that ends there, and before what starts there. -/
def moveRange (buffer : Buffer) (start stop destination : Nat) : Except Refusal Buffer :=
  if ¬ start < stop then .error (.emptyMove start stop)
  else if start < destination ∧ destination < stop then
    .error (.moveIntoItself destination start stop)
  else if buffer.moves.any (fun move => start < move.stop && move.start < stop) then
    .error (.overlappingMove start stop)
  else do
    let buffer ← buffer.split start
    let buffer ← buffer.split stop
    let buffer ← buffer.split destination
    pure { buffer with moves := buffer.moves ++ [⟨start, stop, destination⟩], edited := true }

/-- Put a text after everything else. -/
def append (buffer : Buffer) (text : Text) : Buffer :=
  { buffer with outro := buffer.outro ++ text, edited := true }

/-- Put an offset among offsets in increasing order, unless it is there. -/
def insertMark (offset : Nat) : List Nat → List Nat
  | [] => [offset]
  | mark :: rest =>
    if offset < mark then offset :: mark :: rest
    else if offset = mark then mark :: rest
    else mark :: insertMark offset rest

/-- Ask for the place of an offset in the result. Offsets past the end are
ignored. This is no edit. -/
def mark (buffer : Buffer) (offset : Nat) : Buffer :=
  if offset ≤ buffer.length then { buffer with marks := insertMark offset buffer.marks }
  else buffer

end Buffer

end Unawait.Edit
