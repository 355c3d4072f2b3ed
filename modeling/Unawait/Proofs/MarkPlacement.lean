import Mathlib
import Unawait.Proofs.ConflictDetection
import Unawait.Proofs.EditRendering
import Unawait.Proofs.Places

/-!
# Where marked offsets come out

A mark is put between two pieces of the source text, and the character that follows it
in the source follows it in the result: nothing is ever inserted between a mark and its
character, because texts are attached to chunks and a mark is inside one. Two marks are
never next to each other, so that each has a place of its own.

Every chunk is given exactly once, at its own place or at the destination of the one
move that takes it: a destination is the start of one chunk or the end of the source, and
no two moves have a byte in common. So the marks of the result are those marks of the
buffer that are inside the source and not inside a replaced range.
-/

namespace Unawait.Text

theorem slice_eq_some (before between after : Text) :
    (before ++ between ++ after).slice? before.bytes (before.bytes + between.bytes) =
      some between := by
  have dropped : (before ++ between ++ after).dropBytes? before.bytes = some (between ++ after) :=
    dropBytes_eq_some_iff.mpr ⟨before, by simp, rfl⟩
  have taken : (between ++ after).takeBytes? between.bytes = some between :=
    takeBytes_eq_some_iff.mpr ⟨after, rfl, rfl⟩
  rw [slice?, if_pos (Nat.le_add_right _ _), dropped, Nat.add_sub_cancel_left, Option.bind_some,
    taken]

theorem slice_eq (before between after : Text) :
    (before ++ between ++ after).slice before.bytes (before.bytes + between.bytes) = between := by
  rw [slice, slice_eq_some, Option.getD_some]

/-- A slice between two boundaries stands between the text in front and the text behind. -/
theorem exists_slice {text : Text} {start stop : Nat} (first : text.IsBoundary start)
    (second : text.IsBoundary stop) (ordered : start ≤ stop) :
    ∃ before after, text = before ++ text.slice start stop ++ after ∧ before.bytes = start ∧
      (text.slice start stop).bytes = stop - start := by
  obtain ⟨before, between, after, rfl, rfl, counted⟩ := split_between first second ordered
  obtain rfl : stop = before.bytes + between.bytes := by omega
  rw [slice_eq]
  exact ⟨before, after, rfl, rfl, counted⟩

/-- The number of its bytes decides where a text is cut. -/
theorem append_inj_of_bytes {before rest other more : Text} (same : before ++ rest = other ++ more)
    (counted : before.bytes = other.bytes) : before = other ∧ rest = more := by
  have first : (before ++ rest).takeBytes? before.bytes = some before :=
    takeBytes_eq_some_iff.mpr ⟨rest, rfl, rfl⟩
  have second : (before ++ rest).takeBytes? before.bytes = some other :=
    takeBytes_eq_some_iff.mpr ⟨more, same, counted.symm⟩
  obtain rfl : before = other := Option.some.inj (first.symm.trans second)
  exact ⟨rfl, List.append_cancel_left same⟩

/-- Slices that follow each other make one slice. -/
theorem slice_append {text : Text} {start middle stop : Nat} (first : text.IsBoundary start)
    (second : text.IsBoundary middle) (third : text.IsBoundary stop) (above : start ≤ middle)
    (below : middle ≤ stop) :
    text.slice start middle ++ text.slice middle stop = text.slice start stop := by
  obtain ⟨before, after, same, counted, width⟩ := exists_slice first second above
  obtain ⟨front, behind, again, countedFront, widthBehind⟩ := exists_slice second third below
  rw [List.append_assoc] at again
  obtain ⟨rfl, -⟩ := append_inj_of_bytes (again.symm.trans same)
    (by rw [bytes_append]; omega)
  have whole : text = before ++ (text.slice start middle ++ text.slice middle stop) ++ behind := by
    simpa using again
  have sliced := slice_eq before (text.slice start middle ++ text.slice middle stop) behind
  rw [← whole, bytes_append, counted, width, widthBehind] at sliced
  rw [← sliced]
  congr 1
  omega

theorem slice_all (text : Text) : text.slice 0 text.bytes = text := by
  simpa [bytes] using slice_eq [] text []

end Unawait.Text

namespace Unawait.Edit

/-! ### Marks and the characters behind them -/

/-- Every mark among pieces is followed by the character of the source at its offset. -/
inductive Attached (source : Text) : List Piece → Prop
  | nil : Attached source []
  | text (text : Text) {rest : List Piece} (attached : Attached source rest) :
      Attached source (.text text :: rest)
  | mark {before after more : Text} {c : Char} {rest : List Piece}
      (split : source = before ++ c :: after) (attached : Attached source rest) :
      Attached source (.mark before.bytes :: .text (c :: more) :: rest)

namespace Attached

variable {source : Text}

theorem append {first second : List Piece} (here : Attached source first)
    (after : Attached source second) : Attached source (first ++ second) := by
  induction here with
  | nil => exact after
  | text text _ ih => exact .text text ih
  | mark split _ ih => exact .mark split ih

theorem flatMap {α : Type} {entries : List α} {pieces : α → List Piece}
    (each : ∀ entry ∈ entries, Attached source (pieces entry)) :
    Attached source (entries.flatMap pieces) := by
  induction entries with
  | nil => exact .nil
  | cons entry rest ih =>
    exact (each entry (by simp)).append (ih fun other member => each other (by simp [member]))

/-- The place of a mark is behind a part of the text, and then comes the character that follows
the offset in the source. -/
theorem exists_split {pieces : List Piece} (attached : Attached source pieces) (place : Place) :
    ∀ mapping ∈ Piece.mappings place pieces,
      ∃ (front back before after : Text) (c : Char),
        Piece.code pieces = front ++ c :: back ∧
          ⟨mapping.line, mapping.column⟩ = place.advance front ∧
          source = before ++ c :: after ∧ before.bytes = mapping.origin := by
  induction attached generalizing place with
  | nil => simp [Piece.mappings]
  | text text _ ih =>
    intro mapping member
    obtain ⟨front, back, before, after, c, code, behind, split, origin⟩ := ih _ mapping member
    exact ⟨text ++ front, back, before, after, c, by simp [Piece.code, code], by simp [behind],
      split, origin⟩
  | @mark before after more c rest split _ ih =>
    intro mapping member
    rcases List.mem_cons.mp member with rfl | later
    · exact ⟨[], more ++ Piece.code rest, before, after, c, rfl, rfl, split, rfl⟩
    · obtain ⟨front, back, before, after, d, code, behind, split, origin⟩ := ih _ mapping later
      exact ⟨c :: more ++ front, back, before, after, d, by simp [Piece.code, code],
        by rw [Place.advance_append]; exact behind, split, origin⟩

/-- The places of marks follow each other. -/
theorem increasing {pieces : List Piece} (attached : Attached source pieces) (place : Place) :
    (Piece.mappings place pieces).Pairwise fun first second =>
      Place.Before ⟨first.line, first.column⟩ ⟨second.line, second.column⟩ := by
  induction attached generalizing place with
  | nil => exact .nil
  | text text _ ih => exact ih _
  | @mark before after more c rest split attached ih =>
    refine List.pairwise_cons.mpr ⟨fun later member => ?_, ih _⟩
    obtain ⟨front, back, -, -, -, -, behind, -, -⟩ := attached.exists_split _ later member
    rw [behind, ← Place.advance_append]
    exact Place.before_advance_cons place c (more ++ front)

end Attached

/-! ### Marks inside the source text -/

section Marked

variable {source : Text} {start stop : Nat} {marks : List Nat}

/-- Marks do not change the text of a range. -/
theorem code_marked (first : source.IsBoundary start) (last : source.IsBoundary stop)
    (ordered : start ≤ stop) (sorted : marks.Pairwise (· < ·))
    (inside : ∀ mark ∈ marks, start ≤ mark ∧ mark ≤ stop)
    (boundaries : ∀ mark ∈ marks, source.IsBoundary mark) :
    Piece.code (Buffer.marked source start stop marks) = source.slice start stop := by
  induction marks generalizing start with
  | nil => simp [Buffer.marked, Piece.code]
  | cons mark rest ih =>
    obtain ⟨least, restSorted⟩ := List.pairwise_cons.mp sorted
    simp only [List.mem_cons, forall_eq_or_imp] at inside boundaries
    obtain ⟨above, below⟩ := inside.1
    have tail := ih boundaries.1 below restSorted
      (fun later member => ⟨(least later member).le, (inside.2 later member).2⟩) boundaries.2
    simp only [Buffer.marked, Piece.code, tail]
    exact Text.slice_append first boundaries.1 last above below

/-- The source text between an offset and a later one begins with the character at the offset. -/
theorem exists_slice_cons (first : source.IsBoundary start) (last : source.IsBoundary stop)
    (ordered : start < stop) :
    ∃ (before after more : Text) (c : Char), source = before ++ c :: after ∧
      before.bytes = start ∧ source.slice start stop = c :: more := by
  obtain ⟨before, after, same, counted, width⟩ := Text.exists_slice first last ordered.le
  cases sliced : source.slice start stop with
  | nil =>
    rw [sliced] at width
    simp only [Text.bytes] at width
    omega
  | cons c more =>
    rw [sliced] at same
    exact ⟨before, more ++ after, more, c, by simpa using same, counted, rfl⟩

theorem attached_marked (last : source.IsBoundary stop) (sorted : marks.Pairwise (· < ·))
    (inside : ∀ mark ∈ marks, mark < stop) (boundaries : ∀ mark ∈ marks, source.IsBoundary mark) :
    Attached source (Buffer.marked source start stop marks) := by
  induction marks generalizing start with
  | nil => exact .text _ .nil
  | cons mark rest ih =>
    obtain ⟨least, restSorted⟩ := List.pairwise_cons.mp sorted
    simp only [List.mem_cons, forall_eq_or_imp] at inside boundaries
    have tail := @ih mark restSorted inside.2 boundaries.2
    refine .text _ ?_
    -- the text behind the mark reaches to the next mark or to the end of the range
    cases rest with
    | nil =>
      obtain ⟨before, after, more, c, split, rfl, sliced⟩ :=
        exists_slice_cons boundaries.1 last inside.1
      rw [Buffer.marked, sliced]
      exact .mark split .nil
    | cons next others =>
      obtain ⟨before, after, more, c, split, rfl, sliced⟩ := exists_slice_cons boundaries.1
        (boundaries.2 next (by simp)) (least next (by simp))
      rw [Buffer.marked, sliced] at tail ⊢
      cases tail with
      | text _ attached => exact .mark split attached

end Marked

section Buffer

variable {source : Text} {history : History} {buffer : Buffer}

theorem attached_chunkPieces (reflects : buffer.Reflects source history)
    (aligned : buffer.Aligned source) {chunk : Chunk} (member : chunk ∈ buffer.chunks) :
    Attached source (buffer.chunkPieces chunk) := by
  refine Attached.append (.text _ ?_) (.text _ .nil)
  cases chunk.content with
  | some text => exact .text _ .nil
  | none =>
    rw [reflects.source_eq]
    apply attached_marked (aligned.chunks chunk member).2
    · exact aligned.sorted.filter _
    · intro mark inside
      simp only [List.mem_filter, Bool.and_eq_true, decide_eq_true_eq] at inside
      exact inside.2.2
    · exact fun mark inside => aligned.marks mark (List.mem_of_mem_filter inside)

theorem attached_pieces (reflects : buffer.Reflects source history)
    (aligned : buffer.Aligned source) : Attached source buffer.pieces := by
  have moved (destination : Nat) : Attached source (buffer.movedTo destination) :=
    Attached.flatMap fun move _ => Attached.flatMap fun chunk inside =>
      attached_chunkPieces reflects aligned (List.mem_of_mem_filter inside)
  refine Attached.append (Attached.append (.text _ (Attached.flatMap fun chunk member => ?_))
    (moved _)) (.text _ .nil)
  refine (moved _).append ?_
  split
  · exact .nil
  · exact attached_chunkPieces reflects aligned member

end Buffer

/-! ### Every chunk is given once -/

section Sums

variable {α β M : Type} [AddCommMonoid M]

/-- Where at most one entry holds, the others add nothing. -/
theorem sum_of_exclusive {entries : List α} {holds : α → Bool}
    (exclusive : entries.Pairwise fun first second => holds first = true → holds second = false)
    (value : M) :
    (entries.map fun entry => if holds entry then value else 0).sum =
      if entries.any holds then value else 0 := by
  induction entries with
  | nil => rfl
  | cons entry rest ih =>
    obtain ⟨alone, others⟩ := List.pairwise_cons.mp exclusive
    rw [List.map_cons, List.sum_cons, ih others, List.any_cons]
    cases here : holds entry with
    | false => simp
    | true =>
      have none : rest.any holds = false := by
        rw [List.any_eq_false]
        intro other member
        simp [alone other member here]
      simp [none]

/-- What is selected row by row can be added up column by column. -/
theorem sum_filter_comm (rows : List α) (columns : List β) (related : α → β → Bool)
    (value : β → M) :
    (rows.map fun row => ((columns.filter (related row)).map value).sum).sum =
      (columns.map fun column =>
        (rows.map fun row => if related row column then value column else 0).sum).sum := by
  have swapped := Multiset.sum_map_sum_map (rows : Multiset α) (columns : Multiset β)
    (f := fun row column => if related row column then value column else 0)
  simp only [Multiset.map_coe, Multiset.sum_coe] at swapped
  rw [← swapped]
  simp [List.sum_map_ite]

end Sums

namespace Piece

/-- The marks among pieces, in order. -/
def marks : List Piece → List Nat
  | [] => []
  | text _ :: rest => marks rest
  | mark offset :: rest => offset :: marks rest

theorem origins_mappings (place : Place) (pieces : List Piece) :
    (mappings place pieces).map Mapping.origin = marks pieces := by
  fun_induction mappings place pieces with
  | case1 place => rfl
  | case2 place piece rest ih => exact ih
  | case3 place offset rest ih => simp [marks, ih]

@[simp] theorem marks_append (first second : List Piece) :
    marks (first ++ second) = marks first ++ marks second := by
  induction first with
  | nil => rfl
  | cons piece rest ih => cases piece <;> simp [marks, ih]

/-- The marks among pieces, in whatever order. -/
def bag (pieces : List Piece) : Multiset Nat := marks pieces

@[simp] theorem bag_append (first second : List Piece) :
    bag (first ++ second) = bag first + bag second := by
  simp [bag]

theorem bag_flatMap {α : Type} (entries : List α) (pieces : α → List Piece) :
    bag (entries.flatMap pieces) = (entries.map fun entry => bag (pieces entry)).sum := by
  induction entries with
  | nil => rfl
  | cons entry rest ih => simp [ih]

end Piece

/-- The starts of the chunks and the end of the source increase. -/
theorem Tiles.stops_increase {history : History} {low high : Nat} {chunks : List Chunk}
    (tiles : Tiles history low chunks high) :
    (chunks.map Chunk.start ++ [high]).Pairwise (· < ·) ∧
      ∀ stop ∈ chunks.map Chunk.start ++ [high], low ≤ stop := by
  induction chunks generalizing low with
  | nil =>
    obtain rfl : low = high := tiles
    simp
  | cons chunk rest ih =>
    obtain ⟨rfl, reflects, tail⟩ := tiles
    obtain ⟨increasing, above⟩ := ih tail
    have forward := reflects.nonempty
    refine ⟨List.pairwise_cons.mpr ⟨fun stop member => ?_, increasing⟩, fun stop member => ?_⟩
    · exact forward.trans_le (above stop member)
    · rcases List.mem_cons.mp member with rfl | later
      · exact le_rfl
      · exact forward.le.trans (above stop later)

section Once

variable {source : Text} {history : History} {buffer : Buffer}

/-- A destination is the start of one chunk, or the end of the source. -/
theorem destination_mem_stops (reflects : buffer.Reflects source history) {move : Move}
    (made : move ∈ history.moves) (within : move.destination ≤ buffer.length) :
    move.destination ∈ buffer.chunks.map Chunk.start ++ [buffer.length] := by
  by_contra other
  simp only [List.mem_append, List.mem_map, List.mem_singleton, not_or, not_exists,
    not_and] at other
  obtain ⟨-, -, cut⟩ := reflects.cuts move made
  exact other.2 (reflects.tiles.eq_high_of_no_start (Nat.zero_le _) within cut other.1)

/-- Everything that was moved is given at one destination. -/
theorem bag_movedTo (reflects : buffer.Reflects source history)
    (within : ∀ move ∈ history.moves, move.destination ≤ buffer.length) :
    ((buffer.chunks.map Chunk.start ++ [buffer.length]).map fun stop =>
        Piece.bag (buffer.movedTo stop)).sum =
      (history.moves.map fun move => ((buffer.chunks.filter fun chunk =>
        move.start ≤ chunk.start && chunk.start < move.stop).map fun chunk =>
          Piece.bag (buffer.chunkPieces chunk)).sum).sum := by
  simp only [Buffer.movedTo, Piece.bag_flatMap, reflects.moves_eq]
  rw [sum_filter_comm _ history.moves fun stop move => move.destination == stop]
  congr 1
  apply List.map_congr_left
  intro move made
  rw [sum_of_exclusive, if_pos]
  · exact List.any_eq_true.mpr ⟨_, destination_mem_stops reflects made (within move made), by simp⟩
  · refine reflects.tiles.stops_increase.1.imp fun less same => ?_
    simp only [beq_iff_eq, beq_eq_false_iff_ne] at same ⊢
    omega

/-- The marks of the result are those of the chunks. -/
theorem bag_pieces (reflects : buffer.Reflects source history)
    (within : ∀ move ∈ history.moves, move.destination ≤ buffer.length)
    (apart : history.moves.Pairwise fun first second =>
      first.stop ≤ second.start ∨ second.stop ≤ first.start) :
    Piece.bag buffer.pieces =
      (buffer.chunks.map fun chunk => Piece.bag (buffer.chunkPieces chunk)).sum := by
  have arrived := bag_movedTo reflects within
  rw [sum_filter_comm history.moves buffer.chunks fun move chunk =>
    move.start ≤ chunk.start && chunk.start < move.stop, List.map_append, List.sum_append,
    List.map_map, List.map_singleton, List.sum_singleton] at arrived
  have taken (chunk : Chunk) : (history.moves.map fun move =>
      if (move.start ≤ chunk.start && chunk.start < move.stop) = true then
        Piece.bag (buffer.chunkPieces chunk) else 0).sum =
      if buffer.isMoved chunk.start then Piece.bag (buffer.chunkPieces chunk) else 0 := by
    rw [Buffer.isMoved, reflects.moves_eq, sum_of_exclusive]
    refine apart.imp fun disjoint first => ?_
    simp only [Bool.and_eq_true, decide_eq_true_eq, Bool.and_eq_false_iff,
      decide_eq_false_iff_not] at first ⊢
    omega
  simp only [taken] at arrived
  have stays (chunk : Chunk) :
      Piece.bag (if buffer.isMoved chunk.start then [] else buffer.chunkPieces chunk) =
        if buffer.isMoved chunk.start then 0 else Piece.bag (buffer.chunkPieces chunk) := by
    split <;> rfl
  calc Piece.bag buffer.pieces
      = (buffer.chunks.map fun chunk => Piece.bag (buffer.movedTo chunk.start) +
          if buffer.isMoved chunk.start then 0 else Piece.bag (buffer.chunkPieces chunk)).sum
          + Piece.bag (buffer.movedTo buffer.length) := by
        have ends (front : Text) (middle : List Piece) (back : Text) :
            Piece.bag (.text front :: middle ++ [.text back]) = Piece.bag middle := by
          simp [Piece.bag, Piece.marks]
        rw [Buffer.pieces, List.cons_append, ends, Piece.bag_append, Piece.bag_flatMap]
        simp only [Piece.bag_append, stays]
    _ = (buffer.chunks.map fun chunk =>
          if buffer.isMoved chunk.start then Piece.bag (buffer.chunkPieces chunk) else 0).sum
          + (buffer.chunks.map fun chunk =>
            if buffer.isMoved chunk.start then 0 else Piece.bag (buffer.chunkPieces chunk)).sum := by
        rw [List.sum_map_add, ← arrived, add_right_comm]
        rfl
    _ = (buffer.chunks.map fun chunk => Piece.bag (buffer.chunkPieces chunk)).sum := by
        rw [← List.sum_map_add]
        congr 1
        apply List.map_congr_left
        intro chunk _
        split <;> simp

/-! ### The marks of the result -/

theorem marks_marked (start stop : Nat) (marks : List Nat) :
    Piece.marks (Buffer.marked source start stop marks) = marks := by
  induction marks generalizing start with
  | nil => rfl
  | cons mark rest ih => simp [Buffer.marked, Piece.marks, ih]

/-- The marks of a chunk are those in its range, or none if it was replaced. -/
theorem marks_chunkPieces {chunk : Chunk} (reflects : chunk.Reflects history) :
    Piece.marks (buffer.chunkPieces chunk) =
      buffer.marks.filter fun offset => chunk.start ≤ offset && offset < chunk.stop
        && (history.replacementAt? offset).isNone := by
  cases content : chunk.content with
  | some text =>
    obtain ⟨replacement, -, covered⟩ := reflects.replaced text content
    simp only [Buffer.chunkPieces, content, List.cons_append, List.nil_append, Piece.marks]
    symm
    rw [List.filter_eq_nil_iff]
    intro offset _
    simp only [Bool.and_eq_true, decide_eq_true_eq, not_and, and_imp]
    intro above below
    simp [covered offset above below]
  | none =>
    simp only [Buffer.chunkPieces, content, List.cons_append, Piece.marks, Piece.marks_append,
      marks_marked, List.append_nil]
    apply List.filter_congr
    intro offset _
    by_cases inside : chunk.start ≤ offset ∧ offset < chunk.stop
    · simp [inside, reflects.kept content offset inside.1 inside.2]
    · simp only [not_and] at inside
      by_cases above : chunk.start ≤ offset
      · simp [above, inside above]
      · simp [above]

/-- Marks in a range that is tiled are in one of its chunks. -/
theorem bag_chunks {low high : Nat} {chunks : List Chunk} (tiles : Tiles history low chunks high) :
    (chunks.map fun chunk => Piece.bag (buffer.chunkPieces chunk)).sum =
      ↑(buffer.marks.filter fun offset => low ≤ offset && offset < high
        && (history.replacementAt? offset).isNone) := by
  induction chunks generalizing low with
  | nil =>
    obtain rfl : low = high := tiles
    symm
    simp only [List.map_nil, List.sum_nil, Multiset.coe_eq_zero, List.filter_eq_nil_iff,
      Bool.and_eq_true, decide_eq_true_eq]
    omega
  | cons chunk rest ih =>
    obtain ⟨rfl, reflects, tail⟩ := tiles
    have forward := reflects.nonempty
    have last := tail.le
    have both := Multiset.filter_add_filter
      (fun offset => (chunk.start ≤ offset && offset < chunk.stop
        && (history.replacementAt? offset).isNone) = true)
      (fun offset => (chunk.stop ≤ offset && offset < high
        && (history.replacementAt? offset).isNone) = true) (buffer.marks : Multiset Nat)
    have neither : Multiset.filter (fun offset => (chunk.start ≤ offset && offset < chunk.stop
        && (history.replacementAt? offset).isNone) = true ∧ (chunk.stop ≤ offset && offset < high
        && (history.replacementAt? offset).isNone) = true) (buffer.marks : Multiset Nat) = 0 := by
      rw [Multiset.filter_eq_nil]
      simp only [Bool.and_eq_true, decide_eq_true_eq]
      omega
    rw [neither, add_zero, Multiset.filter_coe, Multiset.filter_coe, Multiset.filter_coe] at both
    simp only [Bool.decide_eq_true] at both
    rw [List.map_cons, List.sum_cons, ih tail, Piece.bag, marks_chunkPieces reflects, both]
    congr 1
    apply List.filter_congr
    intro offset _
    rw [Bool.eq_iff_iff]
    simp only [Bool.and_eq_true, decide_eq_true_eq]
    constructor
    · rintro (⟨inside, kept⟩ | ⟨inside, kept⟩)
      · exact ⟨by omega, kept⟩
      · exact ⟨by omega, kept⟩
    · rintro ⟨inside, kept⟩
      by_cases first : offset < chunk.stop
      · exact .inl ⟨by omega, kept⟩
      · exact .inr ⟨by omega, kept⟩

end Once

/-! ### Marks are no edits -/

section Edits

variable {buffer next : Buffer}

theorem marks_split {offset : Nat} (done : buffer.split offset = .ok next) :
    next.marks = buffer.marks := by
  obtain ⟨-, chunks, -, rfl⟩ := Buffer.of_split_eq_ok done
  rfl

theorem edited_of_overwrite {start stop : Nat} {text : Text}
    (done : buffer.overwrite start stop text = .ok next) :
    next.edited = true ∧ next.marks = buffer.marks := by
  obtain ⟨-, first, second, chunks, firstDone, secondDone, -, rfl⟩ := Buffer.of_overwrite_eq_ok done
  exact ⟨rfl, (marks_split secondDone).trans (marks_split firstDone)⟩

/-- A call other than a mark is an edit, and leaves the marks alone. -/
theorem Operation.edited_of_apply {operation : Operation} (plain : operation.isMark = false)
    (applied : operation.apply buffer = .ok next) :
    next.edited = true ∧ next.marks = buffer.marks := by
  cases operation with
  | overwrite start stop text => exact edited_of_overwrite applied
  | remove start stop => exact edited_of_overwrite applied
  | insertBefore offset text =>
    obtain ⟨cut, done, finished⟩ := bind_eq_ok_iff.mp applied
    have same := marks_split done
    split at finished <;> obtain rfl := Except.ok.inj finished <;> exact ⟨rfl, same⟩
  | insertAfter offset text =>
    obtain ⟨cut, done, finished⟩ := bind_eq_ok_iff.mp applied
    have same := marks_split done
    split at finished <;> obtain rfl := Except.ok.inj finished <;> exact ⟨rfl, same⟩
  | moveRange start stop destination =>
    obtain ⟨-, -, -, first, second, third, firstDone, secondDone, thirdDone, rfl⟩ :=
      Buffer.of_moveRange_eq_ok applied
    exact ⟨rfl, (marks_split thirdDone).trans ((marks_split secondDone).trans
      (marks_split firstDone))⟩
  | append text =>
    obtain rfl := Except.ok.inj applied
    exact ⟨rfl, rfl⟩
  | mark offset => simp [isMark] at plain

theorem edited_mark (buffer : Buffer) (offset : Nat) : (buffer.mark offset).edited = buffer.edited := by
  unfold Buffer.mark
  split <;> rfl

/-- A buffer was edited if a call other than a mark was made on it. -/
theorem edited_perform {operations : List Operation}
    (performed : buffer.perform operations = .ok next) :
    next.edited = (buffer.edited || operations.any fun operation => !operation.isMark) := by
  induction operations generalizing buffer with
  | nil =>
    obtain rfl := Except.ok.inj performed
    simp
  | cons operation rest ih =>
    obtain ⟨middle, applied, later⟩ := bind_eq_ok_iff.mp performed
    rw [ih later, List.any_cons]
    cases marks : operation.isMark with
    | false => simp [(Operation.edited_of_apply marks applied).1]
    | true =>
      cases operation <;> simp only [Operation.isMark, Bool.false_eq_true] at marks
      obtain rfl := Except.ok.inj applied
      simp [edited_mark]

end Edits

/-! ### Marks of a run -/

section Run

variable {source : Text} {history : History} {buffer next : Buffer}

/-- The marks after calls are those before them and those that the calls ask for inside the
source. -/
theorem mem_marks_perform {operations : List Operation}
    (reflects : buffer.Reflects source history) (done : buffer.perform operations = .ok next)
    (offset : Nat) :
    offset ∈ next.marks ↔
      offset ∈ buffer.marks ∨ offset ≤ source.bytes ∧ .mark offset ∈ operations := by
  induction operations generalizing history buffer with
  | nil =>
    obtain rfl := Except.ok.inj done
    simp
  | cons operation rest ih =>
    obtain ⟨middle, made, remaining⟩ := bind_eq_ok_iff.mp done
    rw [ih (reflects.apply operation made) remaining]
    cases marks : operation.isMark with
    | false =>
      have other : Operation.mark offset ≠ operation := by
        rintro rfl
        simp [Operation.isMark] at marks
      simp [(Operation.edited_of_apply marks made).2, other]
    | true =>
      cases operation <;> simp only [Operation.isMark, Bool.false_eq_true] at marks
      rename_i asked
      obtain rfl := Except.ok.inj made
      have length := reflects.length_eq
      by_cases within : asked ≤ buffer.length
      · simp only [Buffer.mark, if_pos within, mem_insertMark, List.mem_cons,
          Operation.mark.injEq]
        constructor
        · rintro ((rfl | before) | later)
          · exact .inr ⟨length ▸ within, .inl rfl⟩
          · exact .inl before
          · exact .inr ⟨later.1, .inr later.2⟩
        · rintro (before | ⟨inside, rfl | later⟩)
          · exact .inl (.inr before)
          · exact .inl (.inl rfl)
          · exact .inr ⟨inside, later⟩
      · simp only [Buffer.mark, if_neg within, List.mem_cons, Operation.mark.injEq]
        constructor
        · rintro (before | later)
          · exact .inl before
          · exact .inr ⟨later.1, .inr later.2⟩
        · rintro (before | ⟨inside, rfl | later⟩)
          · exact .inl before
          · omega
          · exact .inr ⟨inside, later⟩

/-- Ranges were moved to offsets inside the source. -/
theorem destinations_inside {operations : List Operation}
    (reflects : buffer.Reflects source history) (done : buffer.perform operations = .ok next) :
    ∀ move ∈ History.moves operations, move.destination ≤ source.bytes := by
  induction operations generalizing history buffer with
  | nil => simp [History.moves]
  | cons operation rest ih =>
    obtain ⟨middle, made, remaining⟩ := bind_eq_ok_iff.mp done
    intro move member
    have parts : History.moves (operation :: rest) =
        operation.moved?.toList ++ History.moves rest := by
      rw [← History.moves_singleton, ← History.moves_append]
      rfl
    rw [parts, List.mem_append, Option.mem_toList] at member
    rcases member with own | later
    · cases operation <;> simp only [Operation.moved?, Option.some.injEq, reduceCtorEq] at own
      subst own
      obtain ⟨-, -, -, -, -, within, -⟩ := (reflects.moveRange_ok_iff _ _ _).mp ⟨middle, made⟩
      exact reflects.length_eq ▸ within
    · exact ih (reflects.apply operation made) remaining move later

/-- The mappings of a result come from the marked offsets that are inside the source and not
inside a replaced range, each from one. -/
theorem origins_perm {operations : List Operation}
    (performed : (Buffer.ofText source).perform operations = .ok buffer) :
    (buffer.mappings.map Mapping.origin).Perm (buffer.marks.filter fun offset =>
      offset < source.bytes && (History.replacementAt? operations offset).isNone) := by
  have reflects := (Buffer.reflects_ofText source).perform operations performed
  have apart := (Buffer.reflects_ofText source).moves_pairwise performed (by simp [History.moves])
  have within := destinations_inside (Buffer.reflects_ofText source) performed
  rw [List.nil_append] at reflects apart
  have bags : Piece.bag buffer.pieces = _ := (bag_pieces reflects
    (fun move made => (within move made).trans_eq reflects.length_eq.symm) apart).trans
      (bag_chunks reflects.tiles)
  rw [Buffer.mappings, Piece.origins_mappings]
  refine (Multiset.coe_eq_coe.mp bags).trans (.of_eq (List.filter_congr fun offset _ => ?_))
  simp [reflects.length_eq]

end Run

end Unawait.Edit
