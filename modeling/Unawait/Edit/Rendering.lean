import Unawait.Edit.Buffer

/-!
# The edited text

The result of a buffer is the sequence of its pieces: texts, and marks for the
offsets whose place is asked for. A chunk that was moved is given at its
destination instead of its own place; ranges with the same destination come in
the order in which they were moved. A mark inside a replaced range has no place.

The place of a mark is the number of line feeds before it and the number of
UTF-16 units after the last of them.
-/

namespace Unawait.Edit

/-- A part of the result: a text, or the place of an offset of the source. -/
inductive Piece where
  | text (text : Text)
  | mark (offset : Nat)
deriving DecidableEq

/-- A place in the result, with the offset of the source that it comes from. -/
structure Mapping where
  line : Nat
  /-- The column in UTF-16 units. -/
  column : Nat
  origin : Nat
deriving DecidableEq

/-- A place in a text: a line, and a column in UTF-16 units. -/
structure Place where
  line : Nat := 0
  column : Nat := 0
deriving DecidableEq

/-- The place after a further text. -/
def Place.advance (place : Place) : Text → Place
  | [] => place
  | c :: rest =>
    if c = '\n' then Place.advance ⟨place.line + 1, 0⟩ rest
    else Place.advance ⟨place.line, place.column + Text.unitsOf c⟩ rest

namespace Piece

/-- The text of pieces. -/
def code : List Piece → Text
  | [] => []
  | text piece :: rest => piece ++ code rest
  | mark _ :: rest => code rest

/-- The places of the marks among pieces that begin at a place. -/
def mappings : Place → List Piece → List Mapping
  | _, [] => []
  | place, text piece :: rest => mappings (place.advance piece) rest
  | place, mark offset :: rest => ⟨place.line, place.column, offset⟩ :: mappings place rest

end Piece

namespace Buffer

/-- The source text of a range with marks at the given offsets, which are inside
it and in increasing order. -/
def marked (source : Text) (start stop : Nat) : List Nat → List Piece
  | [] => [.text (source.slice start stop)]
  | offset :: rest =>
    .text (source.slice start offset) :: .mark offset :: marked source offset stop rest

/-- The pieces of a chunk with what is attached to it. -/
def chunkPieces (buffer : Buffer) (chunk : Chunk) : List Piece :=
  let body :=
    match chunk.content with
    | some text => [.text text]
    | none =>
      let inside := buffer.marks.filter fun offset => chunk.start ≤ offset && offset < chunk.stop
      marked buffer.source chunk.start chunk.stop inside
  .text chunk.intro :: body ++ [.text chunk.outro]

/-- The pieces of the ranges that were moved to an offset. -/
def movedTo (buffer : Buffer) (destination : Nat) : List Piece :=
  (buffer.moves.filter fun move => move.destination == destination).flatMap fun move =>
    (buffer.chunks.filter fun chunk => move.start ≤ chunk.start && chunk.start < move.stop).flatMap
      buffer.chunkPieces

/-- Whether an offset is in a range that was moved. -/
def isMoved (buffer : Buffer) (offset : Nat) : Bool :=
  buffer.moves.any fun move => move.start ≤ offset && offset < move.stop

/-- The pieces of the whole result. -/
def pieces (buffer : Buffer) : List Piece :=
  .text buffer.intro
    :: buffer.chunks.flatMap (fun chunk =>
        buffer.movedTo chunk.start
          ++ if buffer.isMoved chunk.start then [] else buffer.chunkPieces chunk)
    ++ buffer.movedTo buffer.length
    ++ [.text buffer.outro]

/-- The edited text. -/
def code (buffer : Buffer) : Text := Piece.code buffer.pieces

/-- The places of the marked offsets in the edited text, in its order. -/
def mappings (buffer : Buffer) : List Mapping := Piece.mappings {} buffer.pieces

end Buffer

end Unawait.Edit
