import Mathlib
import Unawait.Proofs.ChunkTiling

/-!
# The edited text is the rendering of the history

For calls whose offsets are boundaries of the source, the text that a buffer gives
is the rendering of the calls that were made on it, byte by byte. Boundaries matter
in one place only: a chunk that keeps its text gives a slice of the source, and a
slice off the boundaries would be empty.
-/

namespace Unawait.Edit

/-- No offset that the call names is inside a character. Offsets past the end are
refused or, for marks, without effect. -/
def Operation.Aligned (source : Text) (operation : Operation) : Prop :=
  ∀ offset ∈ operation.offsets, offset ≤ source.bytes → source.IsBoundary offset

instance (source : Text) (operation : Operation) : Decidable (operation.Aligned source) :=
  inferInstanceAs (Decidable (∀ offset ∈ _, _ → _))

/-- The source is cut and marked at boundaries only, and the marks are in order. -/
structure Buffer.Aligned (source : Text) (buffer : Buffer) : Prop where
  length_eq : buffer.length = source.bytes
  chunks : ∀ chunk ∈ buffer.chunks, source.IsBoundary chunk.start ∧ source.IsBoundary chunk.stop
  marks : ∀ mark ∈ buffer.marks, source.IsBoundary mark
  sorted : buffer.marks.Pairwise (· < ·)

section Aligned

variable {source : Text} {buffer next : Buffer}

theorem Buffer.aligned_ofText (source : Text) : (Buffer.ofText source).Aligned source := by
  refine ⟨rfl, ?_, by simp [Buffer.ofText], by simp [Buffer.ofText]⟩
  intro chunk member
  by_cases empty : source.bytes = 0
  · simp [Buffer.ofText, empty] at member
  · obtain rfl : chunk = { start := 0, stop := source.bytes } := by
      simpa [Buffer.ofText, empty] using member
    exact ⟨source.isBoundary_zero, source.isBoundary_bytes⟩

/-- Both parts of a chunk cut at a boundary end at boundaries. -/
theorem CutAt.aligned {offset : Nat} {chunks cutChunks : List Chunk}
    (done : CutAt offset chunks cutChunks)
    (aligned : ∀ chunk ∈ chunks, source.IsBoundary chunk.start ∧ source.IsBoundary chunk.stop)
    (boundary : source.IsBoundary offset) :
    ∀ chunk ∈ cutChunks, source.IsBoundary chunk.start ∧ source.IsBoundary chunk.stop := by
  induction done with
  | nil => exact aligned
  | before => exact aligned
  | behind _ _ _ ih =>
    simp only [List.mem_cons, forall_eq_or_imp] at aligned ⊢
    exact ⟨aligned.1, ih aligned.2⟩
  | within =>
    simp only [List.mem_cons, forall_eq_or_imp] at aligned ⊢
    exact ⟨⟨aligned.1.1, boundary⟩, ⟨boundary, aligned.1.2⟩, aligned.2⟩

theorem Buffer.Aligned.split {offset : Nat} (aligned : buffer.Aligned source)
    (boundary : offset ≤ source.bytes → source.IsBoundary offset)
    (done : buffer.split offset = .ok next) : next.Aligned source := by
  obtain ⟨within, chunks, result, rfl⟩ := Buffer.of_split_eq_ok done
  have cut := result.aligned aligned.chunks (boundary (aligned.length_eq ▸ within))
  exact { aligned with chunks := cut }

/-- A new mark is the only new one. -/
theorem mem_insertMark {offset mark : Nat} {marks : List Nat} :
    mark ∈ Buffer.insertMark offset marks ↔ mark = offset ∨ mark ∈ marks := by
  induction marks with
  | nil => simp [Buffer.insertMark]
  | cons first rest ih =>
    rw [Buffer.insertMark]
    split
    next => simp
    next =>
      split
      next same => simp [same]
      next => simp only [List.mem_cons, ih]; tauto

/-- Marks stay in order. -/
theorem insertMark_sorted (offset : Nat) {marks : List Nat} (sorted : marks.Pairwise (· < ·)) :
    (Buffer.insertMark offset marks).Pairwise (· < ·) := by
  induction marks with
  | nil => simp [Buffer.insertMark]
  | cons first rest ih =>
    obtain ⟨least, restSorted⟩ := List.pairwise_cons.mp sorted
    rw [Buffer.insertMark]
    split
    next smaller =>
      refine List.pairwise_cons.mpr ⟨?_, sorted⟩
      intro mark member
      rcases List.mem_cons.mp member with rfl | later
      · exact smaller
      · exact smaller.trans (least mark later)
    next notSmaller =>
      split
      next => exact sorted
      next differs =>
        refine List.pairwise_cons.mpr ⟨?_, ih restSorted⟩
        intro mark member
        rcases mem_insertMark.mp member with rfl | later
        · omega
        · exact least mark later

theorem Buffer.Aligned.overwrite {start stop : Nat} {text : Text} (aligned : buffer.Aligned source)
    (first : start ≤ source.bytes → source.IsBoundary start)
    (second : stop ≤ source.bytes → source.IsBoundary stop)
    (done : buffer.overwrite start stop text = .ok next) : next.Aligned source := by
  obtain ⟨-, one, two, chunks, oneDone, twoDone, filled, rfl⟩ := Buffer.of_overwrite_eq_ok done
  have split := (aligned.split first oneDone).split second twoDone
  have kept := forall_of_ranges (fun start stop => source.IsBoundary start ∧ source.IsBoundary stop)
    split.chunks filled.ranges
  exact { split with chunks := kept }

/-- Every accepted call at boundaries keeps a buffer aligned. -/
theorem Buffer.Aligned.apply (aligned : buffer.Aligned source) (operation : Operation)
    (boundaries : operation.Aligned source) (done : operation.apply buffer = .ok next) :
    next.Aligned source := by
  cases operation with
  | overwrite start stop text =>
    exact aligned.overwrite (boundaries start (by simp [Operation.offsets]))
      (boundaries stop (by simp [Operation.offsets])) done
  | remove start stop =>
    exact aligned.overwrite (boundaries start (by simp [Operation.offsets]))
      (boundaries stop (by simp [Operation.offsets])) done
  | insertBefore offset text =>
    obtain ⟨middle, splitDone, attached⟩ := bind_eq_ok_iff.mp done
    have split := aligned.split (boundaries offset (by simp [Operation.offsets])) splitDone
    split at attached
    next =>
      obtain rfl := Except.ok.inj attached
      exact { split with }
    next =>
      obtain rfl := Except.ok.inj attached
      have kept := forall_of_ranges
        (fun start stop => source.IsBoundary start ∧ source.IsBoundary stop)
        split.chunks (ranges_insertBefore middle.chunks offset text)
      exact { split with chunks := kept }
  | insertAfter offset text =>
    obtain ⟨middle, splitDone, attached⟩ := bind_eq_ok_iff.mp done
    have split := aligned.split (boundaries offset (by simp [Operation.offsets])) splitDone
    split at attached
    next =>
      obtain rfl := Except.ok.inj attached
      have kept := forall_of_ranges
        (fun start stop => source.IsBoundary start ∧ source.IsBoundary stop)
        split.chunks (ranges_insertAfter middle.chunks offset text)
      exact { split with chunks := kept }
    next =>
      obtain rfl := Except.ok.inj attached
      exact { split with }
  | moveRange start stop destination =>
    obtain ⟨-, -, -, one, two, three, oneDone, twoDone, threeDone, rfl⟩ :=
      Buffer.of_moveRange_eq_ok done
    have first := aligned.split (boundaries start (by simp [Operation.offsets])) oneDone
    have second := first.split (boundaries stop (by simp [Operation.offsets])) twoDone
    have third := second.split (boundaries destination (by simp [Operation.offsets])) threeDone
    exact { third with }
  | append text =>
    obtain rfl := Except.ok.inj done
    exact { aligned with }
  | mark offset =>
    obtain rfl := Except.ok.inj done
    simp only [Buffer.mark]
    split
    next within =>
      refine { aligned with marks := ?_, sorted := insertMark_sorted offset aligned.sorted }
      intro mark member
      rcases mem_insertMark.mp member with rfl | old
      · exact boundaries mark (by simp [Operation.offsets]) (aligned.length_eq ▸ within)
      · exact aligned.marks mark old
    next => exact aligned

theorem Buffer.Aligned.perform (aligned : buffer.Aligned source) (operations : List Operation)
    (boundaries : ∀ operation ∈ operations, operation.Aligned source)
    (done : buffer.perform operations = .ok next) : next.Aligned source := by
  induction operations generalizing buffer with
  | nil =>
    obtain rfl := Except.ok.inj done
    exact aligned
  | cons operation rest ih =>
    obtain ⟨middle, made, remaining⟩ := bind_eq_ok_iff.mp done
    simp only [List.mem_cons, forall_eq_or_imp] at boundaries
    exact ih (aligned.apply operation boundaries.1 made) boundaries.2 remaining

end Aligned

/-! ## Sums over ranges of offsets -/

/-- A range of offsets cut in two. -/
theorem range_split {low middle high : Nat} (first : low ≤ middle) (second : middle ≤ high) :
    List.range' low (high - low) =
      List.range' low (middle - low) ++ List.range' middle (high - middle) := by
  have joined := @List.range'_append low (middle - low) (high - middle) 1
  rw [show low + 1 * (middle - low) = middle by omega,
    show middle - low + (high - middle) = high - low by omega] at joined
  exact joined.symm

/-- The bytes of a range, one at a time. -/
theorem flatMap_getElem (bytes : Bytes) (start count : Nat) :
    (List.range' start count).flatMap (fun index => bytes[index]?.toList) =
      (bytes.drop start).take count := by
  induction count generalizing start with
  | zero => simp
  | succ count ih =>
    rw [List.range'_succ, List.flatMap_cons, ih]
    by_cases inside : start < bytes.length
    · rw [List.drop_eq_getElem_cons inside, List.take_succ_cons,
        List.getElem?_eq_getElem inside]
      rfl
    · rw [List.drop_eq_nil_of_le (by omega), List.drop_eq_nil_of_le (by omega)]
      simp [List.getElem?_eq_none (by omega : bytes.length ≤ start)]

/-- A sum over the offsets of a tiling goes chunk by chunk. -/
theorem Tiles.flatMap_eq {history : History} {low high : Nat} {chunks : List Chunk}
    (tiles : Tiles history low chunks high) {ofChunk : Chunk → Bytes} {ofOffset : Nat → Bytes}
    (same : ∀ chunk ∈ chunks, ofChunk chunk =
      (List.range' chunk.start (chunk.stop - chunk.start)).flatMap ofOffset) :
    chunks.flatMap ofChunk = (List.range' low (high - low)).flatMap ofOffset := by
  induction chunks generalizing low with
  | nil =>
    obtain rfl : low = high := tiles
    simp
  | cons chunk rest ih =>
    obtain ⟨rfl, reflects, tail⟩ := tiles
    simp only [List.mem_cons, forall_eq_or_imp] at same
    rw [List.flatMap_cons, same.1, ih tail same.2,
      range_split reflects.nonempty.le tail.le, List.flatMap_append]

/-- A sum that vanishes outside a range is the sum over that range. -/
theorem flatMap_range_if {low high start stop : Nat} (first : low ≤ start) (ordered : start ≤ stop)
    (second : stop ≤ high) (ofOffset : Nat → Bytes) :
    (List.range' low (high - low)).flatMap
        (fun index => if start ≤ index ∧ index < stop then ofOffset index else []) =
      (List.range' start (stop - start)).flatMap ofOffset := by
  have vanishes : ∀ from' count, (∀ index, from' ≤ index → index < from' + count →
      ¬ (start ≤ index ∧ index < stop)) →
      (List.range' from' count).flatMap
        (fun index => if start ≤ index ∧ index < stop then ofOffset index else []) = [] := by
    intro from' count outside
    apply List.flatMap_eq_nil_iff.mpr
    intro index member
    obtain ⟨above, below⟩ := List.mem_range'_1.mp member
    rw [if_neg (outside index above below)]
  have middle : (List.range' start (stop - start)).flatMap
      (fun index => if start ≤ index ∧ index < stop then ofOffset index else []) =
      (List.range' start (stop - start)).flatMap ofOffset := by
    apply List.flatMap_congr
    intro index member
    obtain ⟨above, below⟩ := List.mem_range'_1.mp member
    rw [if_pos ⟨above, by omega⟩]
  rw [range_split first (ordered.trans second), range_split ordered second, List.flatMap_append,
    List.flatMap_append, middle, vanishes low _ (by omega), vanishes stop _ (by omega)]
  simp

theorem flatMap_filter {α : Type} (entries : List α) (holds : α → Bool) (bytes : α → Bytes) :
    (entries.filter holds).flatMap bytes =
      entries.flatMap fun entry => if holds entry then bytes entry else [] := by
  induction entries with
  | nil => rfl
  | cons entry rest ih => cases result : holds entry <;> simp [result, ih]

/-! ## Chunks give the cells of their ranges -/

namespace History

variable {source : Text} {history : History} {start stop : Nat}

/-- Where nothing is attached strictly inside a range, its cells are what stands for its
bytes, between the texts at its ends. -/
theorem cells_of_quiet (ordered : start < stop)
    (quiet : ∀ offset, start < offset → offset < stop →
      history.textAfter offset = [] ∧ history.textBefore offset = []) :
    history.cells source start stop =
      (history.textAfter start).encode
        ++ (List.range' start (stop - start)).flatMap (history.body source)
        ++ (history.textBefore stop).encode := by
  obtain ⟨count, rfl⟩ : ∃ count, stop = start + count + 1 := ⟨stop - start - 1, by omega⟩
  clear ordered
  simp only [cells, show start + count + 1 - start = count + 1 by omega]
  induction count generalizing start with
  | zero => simp [cell]
  | succ count ih =>
    obtain ⟨noneAfter, noneBefore⟩ := quiet (start + 1) (by omega) (by omega)
    have inner : ∀ offset, start + 1 < offset → offset < start + 1 + count + 1 →
        history.textAfter offset = [] ∧ history.textBefore offset = [] := by
      intro offset above below
      exact quiet offset (by omega) (by omega)
    have rest := ih inner
    rw [List.range'_succ, List.flatMap_cons, rest, List.flatMap_cons,
      show start + 1 + count + 1 = start + (count + 1) + 1 by omega]
    simp [cell, noneAfter, noneBefore]

end History

@[simp] theorem Piece.code_append (first second : List Piece) :
    Piece.code (first ++ second) = Piece.code first ++ Piece.code second := by
  induction first with
  | nil => rfl
  | cons piece rest ih => cases piece <;> simp [Piece.code, ih]

theorem Piece.encode_code_flatMap {α : Type} (entries : List α) (pieces : α → List Piece) :
    (Piece.code (entries.flatMap pieces)).encode =
      entries.flatMap fun entry => (Piece.code (pieces entry)).encode := by
  induction entries with
  | nil => rfl
  | cons entry rest ih => simp [ih]

/-- Marks do not change the text of a range. -/
theorem encode_marked {source : Text} {start stop : Nat} {marks : List Nat}
    (first : source.IsBoundary start) (last : source.IsBoundary stop) (ordered : start ≤ stop)
    (sorted : marks.Pairwise (· < ·)) (inside : ∀ mark ∈ marks, start ≤ mark ∧ mark ≤ stop)
    (boundaries : ∀ mark ∈ marks, source.IsBoundary mark) :
    (Piece.code (Buffer.marked source start stop marks)).encode =
      (source.encode.drop start).take (stop - start) := by
  induction marks generalizing start with
  | nil => simp [Buffer.marked, Piece.code, Text.encode_slice first last ordered]
  | cons mark rest ih =>
    obtain ⟨least, restSorted⟩ := List.pairwise_cons.mp sorted
    simp only [List.mem_cons, forall_eq_or_imp] at inside boundaries
    obtain ⟨above, below⟩ := inside.1
    have tail := ih boundaries.1 below restSorted
      (fun later member => ⟨(least later member).le, (inside.2 later member).2⟩) boundaries.2
    simp only [Buffer.marked, Piece.code, Text.encode_append, tail,
      Text.encode_slice first boundaries.1 above]
    rw [show stop - start = (mark - start) + (stop - mark) by omega, List.take_add,
      List.drop_drop, show start + (mark - start) = mark by omega]

/-- What stands for the bytes of a replaced chunk is its content, once. -/
theorem Chunk.Reflects.bodies_replaced {source : Text} {history : History} {chunk : Chunk}
    (reflects : chunk.Reflects history) {text : Text} (content : chunk.content = some text) :
    (List.range' chunk.start (chunk.stop - chunk.start)).flatMap (history.body source) =
      text.encode := by
  obtain ⟨replacement, same, covered⟩ := reflects.replaced text content
  have forward := reflects.nonempty
  have reached : replacement.1.start ≤ chunk.start :=
    (History.replacementAt_eq_some (covered chunk.start (Nat.le_refl _) forward)).2.1
  rw [show chunk.stop - chunk.start = (chunk.stop - chunk.start - 1) + 1 by omega,
    List.range'_succ, List.flatMap_cons]
  have head : history.body source chunk.start = text.encode := by
    simp only [History.body, covered chunk.start (Nat.le_refl _) forward, same]
    split <;> rfl
  have tail : (List.range' (chunk.start + 1) (chunk.stop - chunk.start - 1)).flatMap
      (history.body source) = [] := by
    apply List.flatMap_eq_nil_iff.mpr
    intro index member
    obtain ⟨above, below⟩ := List.mem_range'_1.mp member
    simp only [History.body, covered index (by omega) (by omega)]
    rw [if_neg (by omega)]
  rw [head, tail, List.append_nil]

/-- What stands for the bytes of a chunk that was not replaced, up to an offset in it, are these
bytes. -/
theorem Chunk.Reflects.bodies_kept {source : Text} {history : History} {chunk : Chunk}
    (reflects : chunk.Reflects history) (content : chunk.content = none) {middle : Nat}
    (within : middle ≤ chunk.stop) :
    (List.range' chunk.start (middle - chunk.start)).flatMap (history.body source) =
      (source.encode.drop chunk.start).take (middle - chunk.start) := by
  rw [← flatMap_getElem]
  apply List.flatMap_congr
  intro index member
  obtain ⟨above, below⟩ := List.mem_range'_1.mp member
  simp only [History.body, reflects.kept content index above (by omega)]

/-- A chunk gives the cells of its range. -/
theorem encode_chunkPieces {source : Text} {history : History} {buffer : Buffer} {chunk : Chunk}
    (reflects : buffer.Reflects source history) (aligned : buffer.Aligned source)
    (member : chunk ∈ buffer.chunks) :
    (Piece.code (buffer.chunkPieces chunk)).encode =
      history.cells source chunk.start chunk.stop := by
  have carried := reflects.tiles.reflects member
  have ordered := carried.nonempty
  obtain ⟨startBoundary, stopBoundary⟩ := aligned.chunks chunk member
  rw [History.cells_of_quiet ordered carried.quiet, ← carried.intro_eq, ← carried.outro_eq]
  cases content : chunk.content with
  | some text =>
    simp [Buffer.chunkPieces, content, Piece.code, carried.bodies_replaced content]
  | none =>
    have text := encode_marked startBoundary stopBoundary ordered.le
      (aligned.sorted.filter fun offset => chunk.start ≤ offset && offset < chunk.stop)
      (by
        intro mark marked
        simp only [List.mem_filter, Bool.and_eq_true, decide_eq_true_eq] at marked
        omega)
      (fun mark marked => aligned.marks mark (List.mem_of_mem_filter marked))
    simp [Buffer.chunkPieces, content, Piece.code, carried.bodies_kept content le_rfl,
      reflects.source_eq, text]

/-- The pieces of those chunks that a move takes. -/
def Buffer.takenPieces (buffer : Buffer) (chunks : List Chunk) (move : Move) : List Piece :=
  (chunks.filter fun chunk => move.start ≤ chunk.start && chunk.start < move.stop).flatMap
    buffer.chunkPieces

/-- The chunks of a moved range give the cells of the range. -/
theorem encode_moved {source : Text} {history : History} {buffer : Buffer}
    (reflects : buffer.Reflects source history) (aligned : buffer.Aligned source) {move : Move}
    (made : move ∈ history.moves) {low high : Nat} {chunks : List Chunk}
    (tiles : Tiles history low chunks high) (part : ∀ chunk ∈ chunks, chunk ∈ buffer.chunks) :
    (Piece.code (buffer.takenPieces chunks move)).encode =
      (List.range' low (high - low)).flatMap fun index =>
        if move.start ≤ index ∧ index < move.stop then history.cell source index else [] := by
  obtain ⟨cutStart, cutStop, -⟩ := reflects.cuts move made
  rw [Buffer.takenPieces, Piece.encode_code_flatMap, flatMap_filter]
  apply tiles.flatMap_eq
  intro chunk inside
  have forward := (tiles.reflects inside).nonempty
  have apartStart := cutStart chunk (part chunk inside)
  have apartStop := cutStop chunk (part chunk inside)
  by_cases within : move.start ≤ chunk.start ∧ chunk.start < move.stop
  · rw [if_pos (by simpa using within), encode_chunkPieces reflects aligned (part chunk inside),
      History.cells]
    apply List.flatMap_congr
    intro index indexed
    obtain ⟨above, below⟩ := List.mem_range'_1.mp indexed
    rw [if_pos (by omega)]
  · rw [if_neg (by simpa using within)]
    symm
    apply List.flatMap_eq_nil_iff.mpr
    intro index indexed
    obtain ⟨above, below⟩ := List.mem_range'_1.mp indexed
    rw [if_neg (by omega)]

theorem encode_moves {source : Text} {history : History} {buffer : Buffer}
    (reflects : buffer.Reflects source history) (aligned : buffer.Aligned source)
    {moves : List Move} (made : ∀ move ∈ moves, move ∈ history.moves) :
    (Piece.code (moves.flatMap (buffer.takenPieces buffer.chunks))).encode =
      moves.flatMap fun move => history.cells source move.start move.stop := by
  rw [Piece.encode_code_flatMap]
  apply List.flatMap_congr
  intro move member
  obtain ⟨ordered, bounded⟩ := reflects.inside move (made move member)
  rw [encode_moved reflects aligned (made move member) reflects.tiles fun _ inside => inside,
    History.cells, flatMap_range_if (Nat.zero_le _) ordered.le bounded]

/-- The ranges that a buffer gives at a destination are those that the history moved there. -/
theorem encode_movedTo {source : Text} {history : History} {buffer : Buffer}
    (reflects : buffer.Reflects source history) (aligned : buffer.Aligned source)
    (destination : Nat) :
    (Piece.code (buffer.movedTo destination)).encode = history.arriving source destination := by
  rw [Buffer.movedTo, reflects.moves_eq]
  exact encode_moves reflects aligned fun move member => List.mem_of_mem_filter member

/-- A moved range takes all of a chunk or nothing. -/
theorem isMoved_of_chunk {source : Text} {history : History} {buffer : Buffer} {chunk : Chunk}
    (reflects : buffer.Reflects source history) (member : chunk ∈ buffer.chunks) {index : Nat}
    (above : chunk.start ≤ index) (below : index < chunk.stop) :
    history.isMoved index = history.isMoved chunk.start := by
  rw [History.isMoved, History.isMoved, Bool.eq_iff_iff]
  simp only [List.any_eq_true, Bool.and_eq_true, decide_eq_true_eq]
  refine exists_congr fun move => and_congr_right fun made => ?_
  obtain ⟨cutStart, cutStop, -⟩ := reflects.cuts move made
  have apartStart := cutStart chunk member
  have apartStop := cutStop chunk member
  omega

/-- No move goes strictly inside a chunk. -/
theorem arriving_inside {source : Text} {history : History} {buffer : Buffer} {chunk : Chunk}
    (reflects : buffer.Reflects source history) (member : chunk ∈ buffer.chunks) {index : Nat}
    (above : chunk.start < index) (below : index < chunk.stop) :
    history.arriving source index = [] := by
  refine History.arriving_eq_nil fun move made => ?_
  obtain ⟨-, -, cutDestination⟩ := reflects.cuts move made
  have apart := cutDestination chunk member
  omega

/-- The places of a chunk's bytes up to an offset are what was moved to its start, and its cells
up to there unless it was moved itself. -/
theorem places_of_chunk {source : Text} {history : History} {buffer : Buffer} {chunk : Chunk}
    (reflects : buffer.Reflects source history) (member : chunk ∈ buffer.chunks) {middle : Nat}
    (forward : chunk.start < middle) (within : middle ≤ chunk.stop) :
    (List.range' chunk.start (middle - chunk.start)).flatMap (history.place source) =
      history.arriving source chunk.start
        ++ if history.isMoved chunk.start then [] else history.cells source chunk.start middle := by
  rw [History.cells, show middle - chunk.start = (middle - chunk.start - 1) + 1 by omega,
    List.range'_succ, List.flatMap_cons, List.flatMap_cons]
  have tail : (List.range' (chunk.start + 1) (middle - chunk.start - 1)).flatMap
      (history.place source) = (List.range' (chunk.start + 1) (middle - chunk.start - 1)).flatMap
        fun index => if history.isMoved chunk.start then [] else history.cell source index := by
    apply List.flatMap_congr
    intro index indexed
    obtain ⟨above, below⟩ := List.mem_range'_1.mp indexed
    rw [History.place, arriving_inside reflects member (by omega) (by omega),
      isMoved_of_chunk reflects member (by omega) (by omega), List.nil_append]
  rw [tail, History.place]
  cases history.isMoved chunk.start <;> simp

/-- The pieces at the place of a chunk. -/
def Buffer.placePieces (buffer : Buffer) (chunk : Chunk) : List Piece :=
  buffer.movedTo chunk.start
    ++ if buffer.isMoved chunk.start then [] else buffer.chunkPieces chunk

theorem Buffer.pieces_eq (buffer : Buffer) :
    buffer.pieces = .text buffer.intro :: buffer.chunks.flatMap buffer.placePieces
      ++ buffer.movedTo buffer.length ++ [.text buffer.outro] :=
  rfl

/-- What a buffer gives at the places of chunks one after another. -/
theorem encode_places {source : Text} {history : History} {buffer : Buffer}
    (reflects : buffer.Reflects source history) (aligned : buffer.Aligned source) {low high : Nat}
    {chunks : List Chunk} (tiles : Tiles history low chunks high)
    (part : ∀ chunk ∈ chunks, chunk ∈ buffer.chunks) :
    (Piece.code (chunks.flatMap buffer.placePieces)).encode =
      (List.range' low (high - low)).flatMap (history.place source) := by
  rw [Piece.encode_code_flatMap]
  apply tiles.flatMap_eq
  intro chunk member
  have sameMoved : buffer.isMoved chunk.start = history.isMoved chunk.start := by
    rw [Buffer.isMoved, reflects.moves_eq, History.isMoved]
  rw [places_of_chunk reflects (part chunk member) (tiles.reflects member).nonempty le_rfl,
    Buffer.placePieces, Piece.code_append, Text.encode_append, encode_movedTo reflects aligned,
    sameMoved]
  cases history.isMoved chunk.start with
  | true => rfl
  | false => simp [encode_chunkPieces reflects aligned (part chunk member)]

/-- The text of a buffer that carries a history, cut at boundaries, is its rendering. -/
theorem encode_code {source : Text} {history : History} {buffer : Buffer}
    (reflects : buffer.Reflects source history) (aligned : buffer.Aligned source) :
    buffer.code.encode = history.rendering source := by
  have chunked := encode_places reflects aligned reflects.tiles fun _ inside => inside
  rw [reflects.length_eq, Nat.sub_zero, ← List.range_eq_range'] at chunked
  simp only [Buffer.code, Buffer.pieces_eq, Piece.code, List.cons_append, Piece.code_append,
    Text.encode_append, chunked, encode_movedTo reflects aligned, reflects.intro_eq,
    reflects.outro_eq, reflects.length_eq, History.rendering, List.append_assoc,
    List.append_nil]

/-- For calls that are all accepted and whose offsets are boundaries, the edited text is the
rendering of the calls, offset by offset. -/
theorem code_eq_rendering (source : Text) (operations : List Operation) (buffer : Buffer)
    (performed : (Buffer.ofText source).perform operations = .ok buffer)
    (aligned : ∀ operation ∈ operations, operation.Aligned source) :
    buffer.code.encode = History.rendering source operations := by
  have reflects := (Buffer.reflects_ofText source).perform operations performed
  exact encode_code reflects ((Buffer.aligned_ofText source).perform operations aligned performed)

/-- A text inserted inside a range that is replaced afterwards, a move into another moved range,
texts at both ends and a mark, on a source with a character of two bytes. -/
theorem code_eq_rendering_interleaved :
    ∃ buffer, (Buffer.ofText ['a', 'é', 'b', 'c', 'd', 'e']).perform
        [.insertBefore 4 ['1'], .mark 3, .overwrite 1 5 ['X'], .insertAfter 4 ['2'],
          .moveRange 5 7 0, .moveRange 0 1 6, .insertAfter 7 ['3'], .append ['4'],
          .insertBefore 0 ['5'], .insertBefore 7 ['6']] = .ok buffer ∧
      buffer.code = ['5', 'd', 'e', '6', 'X', '1', '2', 'a', '3', '4'] ∧
      buffer.code.encode = History.rendering ['a', 'é', 'b', 'c', 'd', 'e']
        [.insertBefore 4 ['1'], .mark 3, .overwrite 1 5 ['X'], .insertAfter 4 ['2'],
          .moveRange 5 7 0, .moveRange 0 1 6, .insertAfter 7 ['3'], .append ['4'],
          .insertBefore 0 ['5'], .insertBefore 7 ['6']] := by
  refine ⟨_, rfl, by decide, ?_⟩
  exact code_eq_rendering _ _ _ rfl (by decide)

end Unawait.Edit
