import Mathlib
import Unawait.Proofs.MarkPlacement

/-!
# Where the bytes of a source come out

Every byte of a result is either a copy of one byte of the source or belongs to a text
that a call has brought in. A traced rendering says which: it is the rendering of a
history with the offset of the copied byte next to each byte. Each byte of the source
that is not in a replaced range is copied once. What stands in front of the copy is all
that the rendering gives at earlier places, the ranges that were moved to the same place
before, the cells of its own range in front of it, and the texts attached to its offset.

The mappings of a buffer are about these copies. A mark is put into the chunk around its
offset, and the pieces in front of it are exactly what stands in front of the copy. So the
place of a mapping is the place behind that text.
-/

namespace Unawait.Edit

/-- A byte of a result, with the offset of the source that it is a copy of. -/
abbrev Traced := Option Nat × UInt8

/-- The bytes of a text that is not from the source. -/
def foreign (text : Text) : List Traced := text.encode.map fun byte => (none, byte)

namespace History

/-- What stands for a byte of the source. -/
def tracedBody (source : Text) (history : History) (index : Nat) : List Traced :=
  match history.replacementAt? index with
  | some (range, text) => if index = range.start then foreign text else []
  | none => source.encode[index]?.toList.map fun byte => (some index, byte)

/-- A byte of the source with all that is attached to it. -/
def tracedCell (source : Text) (history : History) (index : Nat) : List Traced :=
  foreign (history.textAfter index) ++ history.tracedBody source index
    ++ foreign (history.textBefore (index + 1))

/-- The cells of a range. -/
def tracedCells (source : Text) (history : History) (start stop : Nat) : List Traced :=
  (List.range' start (stop - start)).flatMap (history.tracedCell source)

/-- The cells of the ranges that were moved to an offset. -/
def tracedArriving (source : Text) (history : History) (destination : Nat) : List Traced :=
  (history.moves.filter fun move => move.destination == destination).flatMap fun move =>
    history.tracedCells source move.start move.stop

/-- The cell of a byte, unless the byte went elsewhere. -/
def tracedStay (source : Text) (history : History) (index : Nat) : List Traced :=
  if history.isMoved index then [] else history.tracedCell source index

/-- What is given at the place of a byte. -/
def tracedPlace (source : Text) (history : History) (index : Nat) : List Traced :=
  history.tracedArriving source index ++ history.tracedStay source index

/-- The whole result, with the offset of the copied byte next to each byte. -/
def traced (source : Text) (history : History) : List Traced :=
  foreign (history.textBefore 0)
    ++ (List.range source.bytes).flatMap (history.tracedPlace source)
    ++ history.tracedArriving source source.bytes
    ++ foreign (history.textAfter source.bytes)
    ++ foreign history.appended

/-! ### The bytes of a traced rendering -/

section Bytes

variable (source : Text) (history : History)

@[simp] theorem map_foreign (text : Text) : (foreign text).map Prod.snd = text.encode := by
  simp [foreign]

@[simp] theorem map_tracedCell (index : Nat) :
    (history.tracedCell source index).map Prod.snd = history.cell source index := by
  have body : (history.tracedBody source index).map Prod.snd = history.body source index := by
    unfold tracedBody History.body
    cases history.replacementAt? index with
    | none => simp
    | some replacement =>
      dsimp only
      split <;> simp
  simp [tracedCell, cell, body]

@[simp] theorem map_tracedCells (start stop : Nat) :
    (history.tracedCells source start stop).map Prod.snd = history.cells source start stop := by
  simp [tracedCells, cells, List.map_flatMap]

theorem map_moves (moves : List Move) :
    (moves.flatMap fun move => history.tracedCells source move.start move.stop).map Prod.snd =
      moves.flatMap fun move => history.cells source move.start move.stop := by
  simp [List.map_flatMap]

@[simp] theorem map_tracedArriving (destination : Nat) :
    (history.tracedArriving source destination).map Prod.snd =
      history.arriving source destination :=
  map_moves source history _

@[simp] theorem map_tracedPlace (index : Nat) :
    (history.tracedPlace source index).map Prod.snd = history.place source index := by
  rw [tracedPlace, List.map_append, map_tracedArriving, History.place, tracedStay]
  split <;> simp

theorem map_places (indices : List Nat) :
    (indices.flatMap (history.tracedPlace source)).map Prod.snd =
      indices.flatMap (history.place source) := by
  simp [List.map_flatMap]

theorem map_traced : (history.traced source).map Prod.snd = history.rendering source := by
  simp only [traced, List.map_append, map_foreign, map_places, map_tracedArriving, rendering]

end Bytes

/-! ### Bytes that are no copy of an offset -/

/-- None of the bytes is a copy of an offset. -/
def Lacks (offset : Nat) (bytes : List Traced) : Prop := ∀ byte ∈ bytes, byte.1 ≠ some offset

section Lacks

variable {source : Text} {history : History} {offset : Nat}

theorem Lacks.append {first second : List Traced} (here : Lacks offset first)
    (after : Lacks offset second) : Lacks offset (first ++ second) := by
  intro byte member
  rcases List.mem_append.mp member with earlier | later
  · exact here byte earlier
  · exact after byte later

theorem Lacks.flatMap {α : Type} {entries : List α} {bytes : α → List Traced}
    (each : ∀ entry ∈ entries, Lacks offset (bytes entry)) :
    Lacks offset (entries.flatMap bytes) := by
  intro byte member
  obtain ⟨entry, inside, own⟩ := List.mem_flatMap.mp member
  exact each entry inside byte own

theorem lacks_foreign (text : Text) : Lacks offset (foreign text) := by
  intro byte member
  obtain ⟨plain, -, rfl⟩ := List.mem_map.mp member
  simp

theorem lacks_tracedCell {index : Nat} (other : index ≠ offset) :
    Lacks offset (history.tracedCell source index) := by
  have body : Lacks offset (history.tracedBody source index) := by
    unfold tracedBody
    split
    · split
      · exact lacks_foreign _
      · exact fun _ none => absurd none (by simp)
    · intro byte member
      obtain ⟨plain, -, rfl⟩ := List.mem_map.mp member
      simpa using other
  exact ((lacks_foreign _).append body).append (lacks_foreign _)

theorem lacks_tracedCells {start stop : Nat} (outside : offset < start ∨ stop ≤ offset) :
    Lacks offset (history.tracedCells source start stop) := by
  refine Lacks.flatMap fun index member => lacks_tracedCell ?_
  obtain ⟨above, below⟩ := List.mem_range'_1.mp member
  omega

theorem lacks_moves {moves : List Move}
    (outside : ∀ move ∈ moves, offset < move.start ∨ move.stop ≤ offset) :
    Lacks offset (moves.flatMap fun move => history.tracedCells source move.start move.stop) :=
  Lacks.flatMap fun move member => lacks_tracedCells (outside move member)

theorem lacks_tracedStay {index : Nat} (other : index ≠ offset ∨ history.isMoved offset = true) :
    Lacks offset (history.tracedStay source index) := by
  unfold tracedStay
  split
  · exact fun _ none => absurd none (by simp)
  next stays =>
    refine lacks_tracedCell ?_
    rintro rfl
    rcases other with differs | moved
    · exact differs rfl
    · exact stays moved

end Lacks

/-! ### Where a byte comes out -/

/-- The place at which a byte of the source comes out, the ranges that arrive there in front of
it, and the start of its own range. -/
inductive ComesOut (history : History) (offset : Nat) : Nat → List Move → Nat → Prop
  | stays (still : history.isMoved offset = false) :
      ComesOut history offset offset
        (history.moves.filter fun move => move.destination == offset) offset
  | moves {earlier later : List Move} {move : Move}
      (split : history.moves = earlier ++ move :: later) (first : move.start ≤ offset)
      (last : offset < move.stop) :
      ComesOut history offset move.destination
        (earlier.filter fun other => other.destination == move.destination) move.start

/-- What stands in front of the copy of a byte. -/
def leading (source : Text) (history : History) (offset stop : Nat) (arrived : List Move)
    (start : Nat) : Bytes :=
  (history.textBefore 0).encode ++ (List.range stop).flatMap (history.place source)
    ++ (arrived.flatMap fun move => history.cells source move.start move.stop)
    ++ history.cells source start offset ++ (history.textAfter offset).encode

theorem cells_self (source : Text) (history : History) (offset : Nat) :
    history.cells source offset offset = [] := by
  simp [cells]

theorem cells_join (source : Text) (history : History) {start middle stop : Nat}
    (first : start ≤ middle) (last : middle ≤ stop) :
    history.cells source start middle ++ history.cells source middle stop =
      history.cells source start stop := by
  rw [cells, cells, cells, ← List.flatMap_append, ← range_split first last]

section ComesOut

variable {source : Text} {history : History} {offset stop start : Nat} {arrived : List Move}

theorem exists_comesOut (history : History) (offset : Nat) :
    ∃ stop arrived start, history.ComesOut offset stop arrived start := by
  cases still : history.isMoved offset with
  | false => exact ⟨_, _, _, .stays still⟩
  | true =>
    obtain ⟨move, made, inside⟩ := List.any_eq_true.mp still
    obtain ⟨earlier, later, split⟩ := List.append_of_mem made
    simp only [Bool.and_eq_true, decide_eq_true_eq] at inside
    exact ⟨_, _, _, .moves split inside.1 inside.2⟩

/-- The cell of a byte that is kept has its copy between attached texts. -/
theorem tracedCell_kept (kept : history.replacementAt? offset = none)
    (inside : offset < source.bytes) :
    ∃ byte, source.encode[offset]? = some byte ∧
      history.tracedCell source offset = foreign (history.textAfter offset)
        ++ (some offset, byte) :: foreign (history.textBefore (offset + 1)) := by
  have bound : offset < source.encode.length := by rwa [Text.length_encode]
  refine ⟨source.encode[offset], List.getElem?_eq_getElem bound, ?_⟩
  simp [tracedCell, tracedBody, kept, List.getElem?_eq_getElem bound]

theorem range_parts {low high : Nat} (ordered : low ≤ high) :
    List.range high = List.range low ++ List.range' low (high - low) := by
  have split := range_split (Nat.zero_le low) ordered
  rwa [Nat.sub_zero, Nat.sub_zero, ← List.range_eq_range', ← List.range_eq_range'] at split

/-- The traced rendering around a place outside of which there is no copy of an offset. -/
theorem traced_at (within : stop < source.bytes)
    (arriving : ∀ index, index ≠ stop → Lacks offset (history.tracedArriving source index))
    (stay : ∀ index, index ≠ stop → Lacks offset (history.tracedStay source index)) :
    ∃ behind, history.traced source =
        (foreign (history.textBefore 0) ++ (List.range stop).flatMap (history.tracedPlace source))
          ++ (history.tracedArriving source stop ++ (history.tracedStay source stop ++ behind)) ∧
      Lacks offset (foreign (history.textBefore 0)
        ++ (List.range stop).flatMap (history.tracedPlace source)) ∧
      Lacks offset behind := by
  have places {indices : List Nat} (others : ∀ index ∈ indices, index ≠ stop) :
      Lacks offset (indices.flatMap (history.tracedPlace source)) :=
    Lacks.flatMap fun index member =>
      (arriving index (others index member)).append (stay index (others index member))
  refine ⟨(List.range' (stop + 1) (source.bytes - (stop + 1))).flatMap (history.tracedPlace source)
    ++ (history.tracedArriving source source.bytes
      ++ (foreign (history.textAfter source.bytes) ++ foreign history.appended)), ?_, ?_, ?_⟩
  · rw [traced, range_parts within.le,
      show source.bytes - stop = (source.bytes - (stop + 1)) + 1 by omega, List.range'_succ]
    simp only [List.flatMap_append, List.flatMap_cons, tracedPlace, List.append_assoc]
  · exact (lacks_foreign _).append (places fun index member => (List.mem_range.mp member).ne)
  · refine (places fun index member => ?_).append ((arriving _ within.ne').append
      ((lacks_foreign _).append (lacks_foreign _)))
    have above := (List.mem_range'_1.mp member).1
    omega

/-- The copy of a byte that stays where it is. -/
theorem traced_of_still (still : history.isMoved offset = false)
    (kept : history.replacementAt? offset = none) (inside : offset < source.bytes) :
    ∃ byte before after, source.encode[offset]? = some byte ∧
      history.traced source = before ++ (some offset, byte) :: after ∧
      before = (foreign (history.textBefore 0)
        ++ (List.range offset).flatMap (history.tracedPlace source))
        ++ (history.tracedArriving source offset ++ foreign (history.textAfter offset)) ∧
      Lacks offset (before ++ after) := by
  obtain ⟨byte, same, cell⟩ := tracedCell_kept kept inside
  have arriving (index : Nat) : Lacks offset (history.tracedArriving source index) :=
    lacks_moves fun move arrived =>
      History.isMoved_eq_false.mp still move (List.mem_of_mem_filter arrived)
  obtain ⟨behind, whole, front, back⟩ := traced_at inside (fun index _ => arriving index)
    fun index other => lacks_tracedStay (.inl other)
  refine ⟨byte, _, foreign (history.textBefore (offset + 1)) ++ behind, same, ?_, rfl, ?_⟩
  · simp only [whole, tracedStay, still, cell, List.append_assoc, List.cons_append,
      Bool.false_eq_true, if_false]
  · exact (front.append ((arriving _).append (lacks_foreign _))).append
      ((lacks_foreign _).append back)

theorem outside_of_moved {earlier later : List Move} {move : Move}
    (split : history.moves = earlier ++ move :: later) (first : move.start ≤ offset)
    (last : offset < move.stop)
    (apart : history.moves.Pairwise fun first second =>
      first.stop ≤ second.start ∨ second.stop ≤ first.start) :
    ∀ other, other ∈ earlier ∨ other ∈ later → offset < other.start ∨ other.stop ≤ offset := by
  rw [split] at apart
  obtain ⟨-, behind, before⟩ := List.pairwise_append.mp apart
  rintro other (ahead | later)
  · have disjoint := before other ahead move (by simp)
    omega
  · have disjoint := (List.pairwise_cons.mp behind).1 other later
    omega

/-- The traced rendering around a place at which all copies of a moved byte arrive. -/
theorem traced_around (within : stop ≤ source.bytes) (moved : history.isMoved offset = true)
    (elsewhere : ∀ index, index ≠ stop → Lacks offset (history.tracedArriving source index)) :
    ∃ behind, history.traced source =
        (foreign (history.textBefore 0) ++ (List.range stop).flatMap (history.tracedPlace source))
          ++ (history.tracedArriving source stop ++ behind) ∧
      Lacks offset (foreign (history.textBefore 0)
        ++ (List.range stop).flatMap (history.tracedPlace source)) ∧
      Lacks offset behind := by
  have stay (index : Nat) : Lacks offset (history.tracedStay source index) :=
    lacks_tracedStay (.inr moved)
  rcases within.lt_or_eq with before | rfl
  · obtain ⟨behind, whole, front, back⟩ := traced_at before elsewhere fun index _ => stay index
    exact ⟨_, whole, front, (stay stop).append back⟩
  · refine ⟨foreign (history.textAfter source.bytes) ++ foreign history.appended, ?_, ?_,
      (lacks_foreign _).append (lacks_foreign _)⟩
    · simp only [traced, List.append_assoc]
    · refine (lacks_foreign _).append (Lacks.flatMap fun index member => ?_)
      exact (elsewhere index (List.mem_range.mp member).ne).append (stay index)

/-- The copy of a byte that was moved. -/
theorem traced_of_moved {earlier later : List Move} {move : Move}
    (split : history.moves = earlier ++ move :: later) (first : move.start ≤ offset)
    (last : offset < move.stop) (kept : history.replacementAt? offset = none)
    (inside : offset < source.bytes) (within : move.destination ≤ source.bytes)
    (apart : history.moves.Pairwise fun first second =>
      first.stop ≤ second.start ∨ second.stop ≤ first.start) :
    ∃ byte before after, source.encode[offset]? = some byte ∧
      history.traced source = before ++ (some offset, byte) :: after ∧
      before = (foreign (history.textBefore 0)
        ++ (List.range move.destination).flatMap (history.tracedPlace source))
        ++ ((earlier.filter fun other => other.destination == move.destination).flatMap
          (fun other => history.tracedCells source other.start other.stop)
        ++ (history.tracedCells source move.start offset ++ foreign (history.textAfter offset))) ∧
      Lacks offset (before ++ after) := by
  obtain ⟨byte, same, cell⟩ := tracedCell_kept kept inside
  have outside := outside_of_moved split first last apart
  have moved : history.isMoved offset = true := by
    simp [isMoved, split, first, last]
  have elsewhere (index : Nat) (other : index ≠ move.destination) :
      Lacks offset (history.tracedArriving source index) := by
    refine lacks_moves fun arrived member => ?_
    obtain ⟨made, there⟩ := List.mem_filter.mp member
    simp only [beq_iff_eq] at there
    rw [split, List.mem_append, List.mem_cons] at made
    rcases made with ahead | rfl | later
    · exact outside arrived (.inl ahead)
    · exact absurd there.symm other
    · exact outside arrived (.inr later)
  obtain ⟨behind, whole, frontLacks, behindLacks⟩ := traced_around within moved elsewhere
  have cells : history.tracedCells source move.start move.stop =
      history.tracedCells source move.start offset ++ (history.tracedCell source offset
        ++ history.tracedCells source (offset + 1) move.stop) := by
    rw [tracedCells, range_split first last.le,
      show move.stop - offset = (move.stop - (offset + 1)) + 1 by omega, List.range'_succ]
    simp [tracedCells]
  refine ⟨byte, _, foreign (history.textBefore (offset + 1))
    ++ (history.tracedCells source (offset + 1) move.stop
      ++ ((later.filter fun other => other.destination == move.destination).flatMap
          (fun other => history.tracedCells source other.start other.stop) ++ behind)),
    same, ?_, rfl, ?_⟩
  · rw [whole, tracedArriving, split]
    simp only [List.filter_append, List.filter_cons, beq_self_eq_true, if_true,
      List.flatMap_append, List.flatMap_cons, cells, cell, List.append_assoc, List.cons_append]
  · have ahead : Lacks offset ((earlier.filter fun other =>
        other.destination == move.destination).flatMap
          fun other => history.tracedCells source other.start other.stop) :=
      lacks_moves fun other member => outside other (.inl (List.mem_of_mem_filter member))
    have after : Lacks offset ((later.filter fun other =>
        other.destination == move.destination).flatMap
          fun other => history.tracedCells source other.start other.stop) :=
      lacks_moves fun other member => outside other (.inr (List.mem_of_mem_filter member))
    exact (frontLacks.append (ahead.append ((lacks_tracedCells (.inr le_rfl)).append
      (lacks_foreign _)))).append ((lacks_foreign _).append ((lacks_tracedCells
        (.inl (Nat.lt_succ_self _))).append (after.append behindLacks)))

/-- A byte that is kept has one copy, and in front of it stands what leads to it. -/
theorem exists_copy (comesOut : history.ComesOut offset stop arrived start)
    (kept : history.replacementAt? offset = none) (inside : offset < source.bytes)
    (within : ∀ move ∈ history.moves, move.destination ≤ source.bytes)
    (apart : history.moves.Pairwise fun first second =>
      first.stop ≤ second.start ∨ second.stop ≤ first.start) :
    ∃ byte before after, source.encode[offset]? = some byte ∧
      history.traced source = before ++ (some offset, byte) :: after ∧
      before.map Prod.snd = history.leading source offset stop arrived start ∧
      Lacks offset (before ++ after) := by
  cases comesOut with
  | stays still =>
    obtain ⟨byte, before, after, same, whole, rfl, lacks⟩ := traced_of_still still kept inside
    refine ⟨byte, _, after, same, whole, ?_, lacks⟩
    simp only [List.map_append, map_foreign, map_places, map_tracedArriving, leading, arriving,
      cells_self, List.append_nil, List.append_assoc]
  | moves split first last =>
    obtain ⟨byte, before, after, same, whole, rfl, lacks⟩ :=
      traced_of_moved split first last kept inside (within _ (by simp [split])) apart
    refine ⟨byte, _, after, same, whole, ?_, lacks⟩
    simp only [List.map_append, map_foreign, map_places, map_moves, map_tracedCells, leading,
      List.append_assoc]

end ComesOut

end History

/-! ### Where a mark is put -/

theorem Tiles.front {history : History} {low high : Nat} {front back : List Chunk} {chunk : Chunk}
    (tiles : Tiles history low (front ++ chunk :: back) high) :
    Tiles history low front chunk.start := by
  induction front generalizing low with
  | nil => exact tiles.1.symm
  | cons first rest ih => exact ⟨tiles.1, tiles.2.1, ih tiles.2.2⟩

theorem marked_append (source : Text) (start stop offset : Nat) (front back : List Nat) :
    Buffer.marked source start stop (front ++ offset :: back) =
      Buffer.marked source start offset front
        ++ .mark offset :: Buffer.marked source offset stop back := by
  induction front generalizing start with
  | nil => rfl
  | cons first rest ih => simp [Buffer.marked, ih]

section Buffer

variable {source : Text} {history : History} {buffer : Buffer} {offset : Nat}

/-- Inside a chunk, a mark is behind the cells up to its offset and the texts attached there. -/
theorem exists_mark_in_chunk (reflects : buffer.Reflects source history)
    (aligned : buffer.Aligned source) {chunk : Chunk} (member : chunk ∈ buffer.chunks)
    (above : chunk.start ≤ offset) (below : offset < chunk.stop) (marked : offset ∈ buffer.marks)
    (kept : history.replacementAt? offset = none) :
    ∃ front back, buffer.chunkPieces chunk = front ++ .mark offset :: back ∧
      (Piece.code front).encode =
        history.cells source chunk.start offset ++ (history.textAfter offset).encode := by
  have carried := reflects.tiles.reflects member
  have content : chunk.content = none := by
    cases content : chunk.content with
    | none => rfl
    | some text =>
      obtain ⟨replacement, -, covered⟩ := carried.replaced text content
      simp [covered offset above below] at kept
  have inside : offset ∈ buffer.marks.filter fun mark =>
      chunk.start ≤ mark && mark < chunk.stop := by
    simp [marked, above, below]
  obtain ⟨earlier, later, split⟩ := List.append_of_mem inside
  have sorted := aligned.sorted.filter fun mark => chunk.start ≤ mark && mark < chunk.stop
  rw [split] at sorted
  obtain ⟨earlierSorted, -, increasing⟩ := List.pairwise_append.mp sorted
  have own (mark : Nat) (ahead : mark ∈ earlier) : mark ∈ buffer.marks ∧ chunk.start ≤ mark := by
    have filtered : mark ∈ buffer.marks.filter fun mark =>
        chunk.start ≤ mark && mark < chunk.stop := by
      simp [split, ahead]
    simp only [List.mem_filter, Bool.and_eq_true, decide_eq_true_eq] at filtered
    exact ⟨filtered.1, filtered.2.1⟩
  have text := encode_marked (aligned.chunks chunk member).1 (aligned.marks offset marked) above
    earlierSorted
    (fun mark ahead => ⟨(own mark ahead).2, (increasing mark ahead offset (by simp)).le⟩)
    (fun mark ahead => aligned.marks mark (own mark ahead).1)
  refine ⟨.text chunk.intro :: Buffer.marked source chunk.start offset earlier,
    Buffer.marked source offset chunk.stop later ++ [.text chunk.outro], ?_, ?_⟩
  · simp only [Buffer.chunkPieces, content, split, marked_append, reflects.source_eq,
      List.cons_append, List.append_assoc]
  · rw [Piece.code, Text.encode_append, text, carried.intro_eq]
    rcases above.eq_or_lt with rfl | further
    · simp [History.cells]
    · obtain ⟨noneAfter, noneBefore⟩ := carried.quiet offset further below
      rw [History.cells_of_quiet further fun other first second =>
        carried.quiet other first (second.trans below), carried.bodies_kept content below.le,
        noneAfter, noneBefore]
      simp [Text.encode]

/-- The text in front of the place at which chunks end that begin with the source. -/
theorem encode_front (reflects : buffer.Reflects source history) (aligned : buffer.Aligned source)
    {high : Nat} {chunks : List Chunk} (tiles : Tiles history 0 chunks high)
    (part : ∀ chunk ∈ chunks, chunk ∈ buffer.chunks) :
    (Piece.code (.text buffer.intro :: chunks.flatMap buffer.placePieces)).encode =
      (history.textBefore 0).encode ++ (List.range high).flatMap (history.place source) := by
  rw [Piece.code, Text.encode_append, reflects.intro_eq, encode_places reflects aligned tiles part,
    Nat.sub_zero, List.range_eq_range']

/-- The pieces around the place of a chunk. -/
theorem pieces_at_chunk (reflects : buffer.Reflects source history)
    (aligned : buffer.Aligned source) {chunk : Chunk} (member : chunk ∈ buffer.chunks) :
    ∃ front back, buffer.pieces = front ++ (buffer.placePieces chunk ++ back) ∧
      (Piece.code front).encode = (history.textBefore 0).encode
        ++ (List.range chunk.start).flatMap (history.place source) := by
  obtain ⟨earlier, later, split⟩ := List.append_of_mem member
  have tiles := reflects.tiles
  rw [split] at tiles
  refine ⟨.text buffer.intro :: earlier.flatMap buffer.placePieces,
    later.flatMap buffer.placePieces ++ (buffer.movedTo buffer.length ++ [.text buffer.outro]),
    ?_, ?_⟩
  · simp only [Buffer.pieces_eq, split, List.flatMap_append, List.flatMap_cons, List.cons_append,
      List.append_assoc]
  · exact encode_front reflects aligned tiles.front fun other ahead => by simp [split, ahead]

/-- The pieces around the place at which a moved range arrives. -/
theorem pieces_at_destination (reflects : buffer.Reflects source history)
    (aligned : buffer.Aligned source) {move : Move} (made : move ∈ history.moves)
    (within : move.destination ≤ source.bytes) :
    ∃ front back, buffer.pieces = front ++ (buffer.movedTo move.destination ++ back) ∧
      (Piece.code front).encode = (history.textBefore 0).encode
        ++ (List.range move.destination).flatMap (history.place source) := by
  have stops := destination_mem_stops reflects made (within.trans_eq reflects.length_eq.symm)
  rw [List.mem_append, List.mem_map, List.mem_singleton] at stops
  rcases stops with ⟨chunk, member, start⟩ | ended
  · obtain ⟨front, back, whole, code⟩ := pieces_at_chunk reflects aligned member
    rw [← start]
    exact ⟨front, _, by rw [whole, Buffer.placePieces, List.append_assoc], code⟩
  · rw [ended]
    refine ⟨.text buffer.intro :: buffer.chunks.flatMap buffer.placePieces, [.text buffer.outro],
      ?_, encode_front reflects aligned reflects.tiles fun _ inside => inside⟩
    rw [Buffer.pieces_eq, List.append_assoc]

theorem movedTo_eq (reflects : buffer.Reflects source history) (destination : Nat) :
    buffer.movedTo destination = (history.moves.filter fun move =>
      move.destination == destination).flatMap (buffer.takenPieces buffer.chunks) := by
  rw [← reflects.moves_eq]
  rfl

/-- The chunks in front of one that a move takes give the cells of the moved range up to it. -/
theorem encode_taken_front (reflects : buffer.Reflects source history)
    (aligned : buffer.Aligned source) {move : Move} (made : move ∈ history.moves)
    {ahead behind : List Chunk} {chunk : Chunk} (chunks : buffer.chunks = ahead ++ chunk :: behind)
    (first : move.start ≤ chunk.start) (last : chunk.start < move.stop) :
    (Piece.code (buffer.takenPieces ahead move)).encode =
      history.cells source move.start chunk.start := by
  have tiles := reflects.tiles
  rw [chunks] at tiles
  rw [encode_moved reflects aligned made tiles.front fun other inside => by simp [chunks, inside],
    History.cells, ← flatMap_range_if (Nat.zero_le _) first le_rfl]
  apply List.flatMap_congr
  intro index member
  have below := (List.mem_range'_1.mp member).2
  exact if_congr (by omega) rfl rfl

/-- The pieces of the moved ranges in front of a mark, where the mark is inside one of them. -/
theorem exists_mark_in_move (reflects : buffer.Reflects source history)
    (aligned : buffer.Aligned source) {earlier later : List Move} {move : Move}
    (split : history.moves = earlier ++ move :: later) (first : move.start ≤ offset)
    (last : offset < move.stop) (marked : offset ∈ buffer.marks)
    (kept : history.replacementAt? offset = none) :
    ∃ front back, buffer.movedTo move.destination = front ++ .mark offset :: back ∧
      (Piece.code front).encode =
        ((earlier.filter fun other => other.destination == move.destination).flatMap fun other =>
          history.cells source other.start other.stop)
        ++ history.cells source move.start offset ++ (history.textAfter offset).encode := by
  have made : move ∈ history.moves := by simp [split]
  obtain ⟨cutStart, cutStop, -⟩ := reflects.cuts move made
  obtain ⟨chunk, member, above, below⟩ := reflects.tiles.exists_chunk (Nat.zero_le offset)
    (last.trans_le (reflects.inside move made).2)
  -- the move takes the chunk around the mark as a whole
  have starts : move.start ≤ chunk.start := by
    have apart := cutStart chunk member
    omega
  have taken : chunk.start < move.stop := above.trans_lt last
  obtain ⟨front, back, pieces, code⟩ :=
    exists_mark_in_chunk reflects aligned member above below marked kept
  obtain ⟨ahead, behind, chunks⟩ := List.append_of_mem member
  have own : buffer.takenPieces buffer.chunks move = buffer.takenPieces ahead move
      ++ (front ++ .mark offset :: back) ++ buffer.takenPieces behind move := by
    simp [Buffer.takenPieces, chunks, starts, taken, pieces]
  refine ⟨(earlier.filter fun other => other.destination == move.destination).flatMap
      (buffer.takenPieces buffer.chunks) ++ (buffer.takenPieces ahead move ++ front),
    back ++ (buffer.takenPieces behind move
      ++ (later.filter fun other => other.destination == move.destination).flatMap
        (buffer.takenPieces buffer.chunks)), ?_, ?_⟩
  · simp only [movedTo_eq reflects, split, List.filter_append, List.filter_cons, beq_self_eq_true,
      if_true, List.flatMap_append, List.flatMap_cons, own, List.append_assoc, List.cons_append]
  · have arrived := @encode_moves source history buffer reflects aligned
      (earlier.filter fun other => other.destination == move.destination) fun other inside => by
        simp [split, List.mem_of_mem_filter inside]
    rw [Piece.code_append, Text.encode_append, arrived, Piece.code_append, Text.encode_append,
      encode_taken_front reflects aligned made chunks starts taken, code,
      ← History.cells_join source history starts above]
    simp only [List.append_assoc]

/-- A mark stands behind all that leads to the copy of its byte. -/
theorem exists_mark {stop start : Nat} {arrived : List Move}
    (reflects : buffer.Reflects source history) (aligned : buffer.Aligned source)
    (within : ∀ move ∈ history.moves, move.destination ≤ source.bytes)
    (comesOut : history.ComesOut offset stop arrived start) (inside : offset < source.bytes)
    (marked : offset ∈ buffer.marks) (kept : history.replacementAt? offset = none) :
    ∃ front back, buffer.pieces = front ++ .mark offset :: back ∧
      (Piece.code front).encode = history.leading source offset stop arrived start := by
  cases comesOut with
  | stays still =>
    obtain ⟨chunk, member, above, below⟩ := reflects.tiles.exists_chunk (Nat.zero_le offset)
      (inside.trans_eq reflects.length_eq.symm)
    obtain ⟨front, back, whole, lead⟩ := pieces_at_chunk reflects aligned member
    obtain ⟨ahead, behind, pieces, code⟩ :=
      exists_mark_in_chunk reflects aligned member above below marked kept
    have stays : buffer.isMoved chunk.start = false := by
      rw [Buffer.isMoved, reflects.moves_eq, ← still]
      exact (isMoved_of_chunk reflects member above below).symm
    refine ⟨front ++ (buffer.movedTo chunk.start ++ ahead), behind ++ back, ?_, ?_⟩
    · simp only [whole, Buffer.placePieces, stays, pieces, Bool.false_eq_true, if_false,
        List.append_assoc, List.cons_append]
    · rw [Piece.code_append, Text.encode_append, Piece.code_append, Text.encode_append, lead, code,
        encode_movedTo reflects aligned, History.leading]
      rcases above.eq_or_lt with rfl | further
      · simp only [History.arriving, List.append_assoc]
      · rw [History.cells_self]
        have places := places_of_chunk reflects member further below.le
        have none : (history.moves.filter fun move => move.destination == offset).flatMap
            (fun move => history.cells source move.start move.stop) = [] :=
          arriving_inside reflects member further below
        rw [← isMoved_of_chunk reflects member above below, still] at places
        simp only [History.range_parts further.le, List.flatMap_append, places, none,
          List.append_nil, List.append_assoc, Bool.false_eq_true, if_false]
  | moves split first last =>
    rename_i earlier later move
    have made : move ∈ history.moves := by simp [split]
    obtain ⟨front, back, whole, lead⟩ :=
      pieces_at_destination reflects aligned made (within move made)
    obtain ⟨ahead, behind, pieces, code⟩ :=
      exists_mark_in_move reflects aligned split first last marked kept
    refine ⟨front ++ ahead, behind ++ back, ?_, ?_⟩
    · simp only [whole, pieces, List.append_assoc, List.cons_append]
    · rw [Piece.code_append, Text.encode_append, lead, code, History.leading]
      simp only [List.append_assoc]

theorem mapping_of_pieces {front back : List Piece}
    (pieces : buffer.pieces = front ++ .mark offset :: back) :
    ⟨(Piece.code front).count '\n', (Piece.code front).lastLine.units, offset⟩ ∈
      buffer.mappings := by
  rw [Buffer.mappings, pieces, Piece.mappings_append, Piece.mappings, Place.advance_eq]
  simp

end Buffer

/-- For calls that are all accepted and whose offsets are boundaries, the mappings are those of
the marked offsets inside the source that no replacement covers, each once and in the order of the
result. The place of a mapping is the place behind the text that stands in front of the only copy
of the byte at its offset. -/
theorem mappings_locate_copies (source : Text) (operations : List Operation) (buffer : Buffer)
    (performed : (Buffer.ofText source).perform operations = .ok buffer)
    (aligned : ∀ operation ∈ operations, operation.Aligned source) :
    (History.traced source operations).map Prod.snd = buffer.code.encode ∧
      (buffer.mappings.map Mapping.origin).Nodup ∧
      (∀ offset, offset ∈ buffer.mappings.map Mapping.origin ↔
        .mark offset ∈ operations ∧ offset < source.bytes ∧
          ∀ replacement ∈ History.replacements operations, ¬ replacement.1.contains offset) ∧
      (∀ mapping ∈ buffer.mappings, ∃ byte before after front back,
        source.encode[mapping.origin]? = some byte ∧
          History.traced source operations = before ++ (some mapping.origin, byte) :: after ∧
          History.Lacks mapping.origin (before ++ after) ∧
          buffer.code = front ++ back ∧ front.encode = before.map Prod.snd ∧
          mapping.line = front.count '\n' ∧ mapping.column = front.lastLine.units) ∧
      buffer.mappings.Pairwise fun first second =>
        Place.Before ⟨first.line, first.column⟩ ⟨second.line, second.column⟩ := by
  have reflects := (Buffer.reflects_ofText source).perform operations performed
  have boundaries := (Buffer.aligned_ofText source).perform operations aligned performed
  have apart := (Buffer.reflects_ofText source).moves_pairwise performed (by simp [History.moves])
  have within := destinations_inside (Buffer.reflects_ofText source) performed
  rw [List.nil_append] at reflects apart
  have origins := origins_perm performed
  have once : (buffer.mappings.map Mapping.origin).Nodup :=
    origins.nodup_iff.mpr ((boundaries.sorted.imp Nat.ne_of_lt).filter _)
  refine ⟨?_, once, fun offset => ?_, fun mapping member => ?_,
    (attached_pieces reflects boundaries).increasing _⟩
  · rw [History.map_traced, encode_code reflects boundaries]
  · rw [origins.mem_iff, List.mem_filter, mem_marks_perform (Buffer.reflects_ofText source) performed]
    simp only [Buffer.ofText, List.not_mem_nil, false_or, Bool.and_eq_true, decide_eq_true_eq,
      Option.isNone_iff_eq_none, History.replacementAt?, List.find?_eq_none]
    constructor
    · rintro ⟨⟨-, marked⟩, inside, kept⟩
      exact ⟨marked, inside, kept⟩
    · rintro ⟨marked, inside, kept⟩
      exact ⟨⟨inside.le, marked⟩, inside, kept⟩
  · have own : mapping.origin ∈ buffer.mappings.map Mapping.origin := List.mem_map_of_mem member
    rw [origins.mem_iff, List.mem_filter, Bool.and_eq_true, decide_eq_true_eq,
      Option.isNone_iff_eq_none] at own
    obtain ⟨marked, inside, kept⟩ := own
    obtain ⟨stop, arrived, start, comesOut⟩ :=
      History.exists_comesOut operations mapping.origin
    obtain ⟨byte, before, after, same, traced, lead, lacks⟩ :=
      History.exists_copy comesOut kept inside within apart
    obtain ⟨front, back, pieces, code⟩ :=
      exists_mark reflects boundaries within comesOut inside marked kept
    refine ⟨byte, before, after, Piece.code front, Piece.code back, same, traced, lacks, ?_,
      code.trans lead.symm, ?_⟩
    · rw [Buffer.code, pieces, Piece.code_append]
      rfl
    · have found := List.inj_on_of_nodup_map once member (mapping_of_pieces pieces) rfl
      exact ⟨congrArg Mapping.line found, congrArg Mapping.column found⟩

/-- A marked byte that is moved behind a line feed and a character of two units, between texts
attached to it, and one that stays next to a replaced range with a mark of its own. -/
theorem mappings_locate_copies_moved :
    ∃ buffer, (Buffer.ofText ['a', 'b', '\n', '𝒶', 'c', 'd']).perform
        [.mark 0, .mark 1, .mark 7, .mark 8, .mark 9, .moveRange 0 2 8, .insertAfter 1 ['1'],
          .insertBefore 1 ['2'], .overwrite 7 8 ['3', '\n'], .insertAfter 0 ['4']] = .ok buffer ∧
      buffer.code = ['\n', '𝒶', '3', '\n', '4', 'a', '2', '1', 'b', 'd'] ∧
      buffer.mappings = [⟨2, 1, 0⟩, ⟨2, 4, 1⟩, ⟨2, 5, 8⟩] ∧
      ∃ byte before after front back,
        (Text.encode ['a', 'b', '\n', '𝒶', 'c', 'd'])[1]? = some byte ∧
          History.traced ['a', 'b', '\n', '𝒶', 'c', 'd']
            [.mark 0, .mark 1, .mark 7, .mark 8, .mark 9, .moveRange 0 2 8, .insertAfter 1 ['1'],
              .insertBefore 1 ['2'], .overwrite 7 8 ['3', '\n'], .insertAfter 0 ['4']] =
            before ++ (some 1, byte) :: after ∧
          History.Lacks 1 (before ++ after) ∧ buffer.code = front ++ back ∧
          front.encode = before.map Prod.snd ∧ 2 = front.count '\n' ∧ 4 = front.lastLine.units := by
  refine ⟨_, rfl, by decide, by decide, ?_⟩
  exact (mappings_locate_copies _ _ _ rfl (by decide)).2.2.2.1 ⟨2, 4, 1⟩ (by decide)

end Unawait.Edit
