import Mathlib
import Unawait.Proofs.EditHistory

/-!
# The chunks of a buffer tile its source

In every state that accepted calls reach, the chunks cover the source from its
start to its end without gap, overlap or empty chunk, and each of them carries
what the history says about its range. Cutting a chunk changes neither.

From this the result of a buffer is computed chunk by chunk: a chunk gives the
cells of its range, because nothing is attached strictly inside it, no moved range
ends inside it and no move goes there.
-/

namespace Unawait.Edit

/-- A chunk carries what a history says about its range: the texts at its ends, none
strictly inside, and one replacement or none for all its bytes. -/
structure Chunk.Reflects (history : History) (chunk : Chunk) : Prop where
  nonempty : chunk.start < chunk.stop
  intro_eq : chunk.intro = history.textAfter chunk.start
  outro_eq : chunk.outro = history.textBefore chunk.stop
  quiet : ∀ offset, chunk.start < offset → offset < chunk.stop →
    history.textAfter offset = [] ∧ history.textBefore offset = []
  kept : chunk.content = none →
    ∀ index, chunk.start ≤ index → index < chunk.stop → history.replacementAt? index = none
  replaced : ∀ text, chunk.content = some text → ∃ replacement : Span × Text,
    (text = if chunk.start = replacement.1.start then replacement.2 else []) ∧
      ∀ index, chunk.start ≤ index → index < chunk.stop →
        history.replacementAt? index = some replacement

/-- Chunks that cover the offsets from one to another, each where the last ended. -/
def Tiles (history : History) : Nat → List Chunk → Nat → Prop
  | low, [], high => low = high
  | low, chunk :: rest, high =>
    chunk.start = low ∧ chunk.Reflects history ∧ Tiles history chunk.stop rest high

/-- An offset at which the source is cut: it is not strictly inside a chunk. -/
def IsCut (chunks : List Chunk) (offset : Nat) : Prop :=
  ∀ chunk ∈ chunks, offset ≤ chunk.start ∨ chunk.stop ≤ offset

section Tiles

variable {history : History} {low high : Nat} {chunks : List Chunk}

theorem Tiles.le (tiles : Tiles history low chunks high) : low ≤ high := by
  induction chunks generalizing low with
  | nil => exact Nat.le_of_eq tiles
  | cons chunk rest ih =>
    obtain ⟨rfl, reflects, tail⟩ := tiles
    exact (Nat.le_of_lt reflects.nonempty).trans (ih tail)

/-- Every chunk of a tiling is between its ends. -/
theorem Tiles.bounds (tiles : Tiles history low chunks high) {chunk : Chunk}
    (member : chunk ∈ chunks) : low ≤ chunk.start ∧ chunk.stop ≤ high := by
  induction chunks generalizing low with
  | nil => simp at member
  | cons head rest ih =>
    obtain ⟨rfl, reflects, tail⟩ := tiles
    have forward := reflects.nonempty
    rcases List.mem_cons.mp member with rfl | later
    · exact ⟨Nat.le_refl _, tail.le⟩
    · obtain ⟨above, below⟩ := ih tail later
      exact ⟨by omega, below⟩

theorem Tiles.reflects (tiles : Tiles history low chunks high) {chunk : Chunk}
    (member : chunk ∈ chunks) : chunk.Reflects history := by
  induction chunks generalizing low with
  | nil => simp at member
  | cons head rest ih =>
    obtain ⟨-, reflects, tail⟩ := tiles
    rcases List.mem_cons.mp member with rfl | later
    · exact reflects
    · exact ih tail later

/-- A change of each chunk that keeps its range keeps a tiling, if each changed chunk
carries what the new history says. -/
theorem Tiles.map {next : History} {change : Chunk → Chunk}
    (tiles : Tiles history low chunks high)
    (start : ∀ chunk ∈ chunks, (change chunk).start = chunk.start)
    (stop : ∀ chunk ∈ chunks, (change chunk).stop = chunk.stop)
    (carried : ∀ chunk ∈ chunks, chunk.Reflects history → (change chunk).Reflects next) :
    Tiles next low (chunks.map change) high := by
  induction chunks generalizing low with
  | nil => exact tiles
  | cons chunk rest ih =>
    obtain ⟨rfl, reflects, tail⟩ := tiles
    simp only [List.mem_cons, forall_eq_or_imp] at start stop carried
    refine ⟨start.1, carried.1 reflects, ?_⟩
    rw [stop.1]
    exact ih tail start.2 stop.2 carried.2

/-- Offsets before a tiling are not inside its chunks. -/
theorem Tiles.isCut_low (tiles : Tiles history low chunks high) {offset : Nat}
    (outside : offset ≤ low) : IsCut chunks offset := by
  intro chunk member
  obtain ⟨above, -⟩ := tiles.bounds member
  exact .inl (outside.trans above)

/-- A cut in the range of a tiling at which no chunk starts is its end. -/
theorem Tiles.eq_high_of_no_start (tiles : Tiles history low chunks high) {offset : Nat}
    (above : low ≤ offset) (below : offset ≤ high) (cut : IsCut chunks offset)
    (none : ∀ chunk ∈ chunks, chunk.start ≠ offset) : offset = high := by
  induction chunks generalizing low with
  | nil =>
    obtain rfl : low = high := tiles
    omega
  | cons chunk rest ih =>
    obtain ⟨rfl, -, tail⟩ := tiles
    simp only [IsCut, List.mem_cons, forall_eq_or_imp] at cut none
    have differs := none.1
    exact ih tail (by omega) cut.2 none.2

end Tiles

/-- Both parts of a chunk that was not replaced carry what the history says. -/
theorem Chunk.Reflects.halves {history : History} {chunk : Chunk}
    (reflects : chunk.Reflects history) (offset : Nat) (above : chunk.start < offset) (below : offset < chunk.stop)
    (plain : chunk.content = none) :
    Chunk.Reflects history { chunk with stop := offset, outro := [] } ∧
      Chunk.Reflects history { chunk with start := offset, intro := [] } := by
  obtain ⟨afterNone, beforeNone⟩ := reflects.quiet offset above below
  refine ⟨?_, ?_⟩
  · refine ⟨above, reflects.intro_eq, beforeNone.symm, ?_, ?_, ?_⟩
    · intro inner first second
      exact reflects.quiet inner first (second.trans below)
    · intro _ index first second
      exact reflects.kept plain index first (second.trans below)
    · intro text replaced
      simp [plain] at replaced
  · refine ⟨below, afterNone.symm, reflects.outro_eq, ?_, ?_, ?_⟩
    · intro inner first second
      exact reflects.quiet inner (above.trans first) second
    · intro _ index first second
      exact reflects.kept plain index (above.le.trans first) second
    · intro text replaced
      simp [plain] at replaced

/-- Cutting keeps the tiling. Afterwards no chunk has the offset inside it, and
offsets that were not inside a chunk are not inside one now. -/
theorem CutAt.tiles {history : History} {low high offset : Nat} {chunks cutChunks : List Chunk}
    (done : CutAt offset chunks cutChunks) (tiles : Tiles history low chunks high) :
    Tiles history low cutChunks high ∧ IsCut cutChunks offset ∧
      ∀ other, IsCut chunks other → IsCut cutChunks other := by
  induction done generalizing low with
  | nil => exact ⟨tiles, by simp [IsCut], by simp⟩
  | before before =>
    obtain ⟨rfl, reflects, tail⟩ := tiles
    have whole : Tiles history _ (_ :: _) high := ⟨rfl, reflects, tail⟩
    exact ⟨whole, whole.isCut_low before, by simp⟩
  | behind _ behind _ ih =>
    obtain ⟨rfl, reflects, tail⟩ := tiles
    obtain ⟨restTiles, restCut, restKept⟩ := ih tail
    refine ⟨⟨rfl, reflects, restTiles⟩, ?_, ?_⟩
    · simpa [IsCut, behind] using restCut
    · intro other isCut
      simp only [IsCut, List.mem_cons, forall_eq_or_imp] at isCut ⊢
      exact ⟨isCut.1, restKept other isCut.2⟩
  | within above below plain =>
    obtain ⟨rfl, reflects, tail⟩ := tiles
    obtain ⟨firstHalf, secondHalf⟩ := reflects.halves offset above below plain
    refine ⟨⟨rfl, firstHalf, rfl, secondHalf, tail⟩, ?_, ?_⟩
    · have later : IsCut _ offset := tail.isCut_low below.le
      simpa [IsCut] using later
    · intro other isCut
      simp only [IsCut, List.mem_cons, forall_eq_or_imp] at isCut ⊢
      refine ⟨?_, ?_, isCut.2⟩ <;> omega

/-- A call that attaches nothing inside a chunk and replaces none of the bytes that
the chunk keeps is carried by attaching its texts at the chunk's ends. -/
theorem Chunk.Reflects.extend {history : History} {chunk : Chunk} (reflects : chunk.Reflects history)
    (operation : Operation)
    (quiet : ∀ offset, chunk.start < offset → offset < chunk.stop →
      operation.after offset = [] ∧ operation.before offset = [])
    (kept : chunk.content = none → ∀ index, chunk.start ≤ index → index < chunk.stop →
      History.replacementAt? [operation] index = none) :
    Chunk.Reflects (history ++ [operation])
      { chunk with
        intro := operation.after chunk.start ++ chunk.intro
        outro := chunk.outro ++ operation.before chunk.stop } := by
  refine ⟨reflects.nonempty, ?_, ?_, ?_, ?_, ?_⟩
  · simp [reflects.intro_eq]
  · simp [reflects.outro_eq]
  · intro offset above below
    obtain ⟨oldAfter, oldBefore⟩ := reflects.quiet offset above below
    obtain ⟨newAfter, newBefore⟩ := quiet offset above below
    simp [oldAfter, oldBefore, newAfter, newBefore]
  · intro plain index above below
    simp [reflects.kept plain index above below, kept plain index above below]
  · intro text content
    obtain ⟨replacement, same, covered⟩ := reflects.replaced text content
    refine ⟨replacement, same, ?_⟩
    intro index above below
    simp [covered index above below]

/-- The replacement that a single call makes at a byte. -/
theorem replacementAt_singleton (operation : Operation) (index : Nat) :
    History.replacementAt? [operation] index =
      operation.replaced?.filter fun replacement => replacement.1.contains index := by
  cases result : operation.replaced? with
  | none => simp [History.replacementAt?, result]
  | some replacement =>
    by_cases inside : replacement.1.contains index <;>
      simp [History.replacementAt?, result, inside, Option.filter]

/-- Texts attached to what ends at a cut are carried by the chunk that ends there. -/
theorem Tiles.insertBefore {history : History} {low high offset : Nat} {chunks : List Chunk}
    (tiles : Tiles history low chunks high) (cut : IsCut chunks offset) (text : Text) :
    Tiles (history ++ [.insertBefore offset text]) low
      (chunks.map fun chunk =>
        if chunk.stop = offset then { chunk with outro := chunk.outro ++ text } else chunk)
      high := by
  apply tiles.map
  · intro chunk _
    split <;> rfl
  · intro chunk _
    split <;> rfl
  · intro chunk member reflects
    have outside := cut chunk member
    have extended := reflects.extend (.insertBefore offset text)
      (by
        intro inner above below
        have other : offset ≠ inner := by omega
        simp [Operation.after, Operation.before, other])
      (by simp [replacementAt_singleton, Operation.replaced?])
    by_cases ends : chunk.stop = offset
    · simpa [Operation.after, Operation.before, ends] using extended
    · have other : offset ≠ chunk.stop := fun same => ends same.symm
      simpa [Operation.after, Operation.before, ends, other] using extended

/-- Texts attached to what starts at a cut are carried by the chunk that starts there. -/
theorem Tiles.insertAfter {history : History} {low high offset : Nat} {chunks : List Chunk}
    (tiles : Tiles history low chunks high) (cut : IsCut chunks offset) (text : Text) :
    Tiles (history ++ [.insertAfter offset text]) low
      (chunks.map fun chunk =>
        if chunk.start = offset then { chunk with intro := text ++ chunk.intro } else chunk)
      high := by
  apply tiles.map
  · intro chunk _
    split <;> rfl
  · intro chunk _
    split <;> rfl
  · intro chunk member reflects
    have outside := cut chunk member
    have extended := reflects.extend (.insertAfter offset text)
      (by
        intro inner above below
        have other : offset ≠ inner := by omega
        simp [Operation.after, Operation.before, other])
      (by simp [replacementAt_singleton, Operation.replaced?])
    by_cases starts : chunk.start = offset
    · simpa [Operation.after, Operation.before, starts] using extended
    · have other : offset ≠ chunk.start := fun same => starts same.symm
      simpa [Operation.after, Operation.before, starts, other] using extended

/-- A call that attaches nothing and replaces nothing in the range of a tiling keeps it. -/
theorem Tiles.keep {history : History} {low high : Nat} {chunks : List Chunk}
    (tiles : Tiles history low chunks high) (operation : Operation)
    (silent : ∀ offset, operation.after offset = [] ∧ operation.before offset = [])
    (kept : ∀ index, low ≤ index → index < high →
      History.replacementAt? [operation] index = none) :
    Tiles (history ++ [operation]) low chunks high := by
  have same : Tiles (history ++ [operation]) low (chunks.map id) high := by
    apply tiles.map (fun _ _ => rfl) (fun _ _ => rfl)
    intro chunk member reflects
    obtain ⟨above, below⟩ := tiles.bounds member
    have extended := reflects.extend operation (fun offset _ _ => silent offset)
      (fun _ index first second => kept index (above.trans first) (second.trans_le below))
    simpa [silent] using extended
  simpa using same

/-- Replacing a range between two cuts is carried by the chunks of the range: the first
one holds the text. The induction goes along the chunks. `text` is what is still to be
placed: the whole replacement until the range is reached, and nothing inside it. -/
theorem Filled.tiles {history : History} {operation : Operation} {start stop low high : Nat}
    {whole text : Text} {chunks filled : List Chunk}
    (replaces : operation.replaced? = some (⟨start, stop⟩, whole))
    (silent : ∀ offset, operation.after offset = [] ∧ operation.before offset = [])
    (tiles : Tiles history low chunks high)
    (cutStart : IsCut chunks start) (cutStop : IsCut chunks stop)
    (pending : text = if low ≤ start then whole else [])
    (done : Filled start stop text chunks filled) :
    Tiles (history ++ [operation]) low filled high := by
  have outside : ∀ index, index < start ∨ stop ≤ index →
      History.replacementAt? [operation] index = none := by
    intro index apart
    simp only [replacementAt_singleton, replaces, Option.filter_eq_none_iff, Option.some.injEq,
      forall_eq', Span.contains, Bool.and_eq_true, decide_eq_true_eq]
    omega
  have replaced : ∀ index, start ≤ index → index < stop →
      History.replacementAt? [operation] index = some (⟨start, stop⟩, whole) := by
    intro index above below
    simp [replacementAt_singleton, replaces, Span.contains, above, below, Option.filter]
  induction done generalizing low with
  | nil => exact tiles
  | @before text chunk rest filled early later ih =>
    obtain ⟨rfl, reflects, tail⟩ := tiles
    simp only [IsCut, List.mem_cons, forall_eq_or_imp] at cutStart cutStop
    have forward := reflects.nonempty
    have extended := reflects.extend operation (fun offset _ _ => silent offset)
      (fun _ index _ second => outside index (by omega))
    refine ⟨rfl, by simpa [silent] using extended, ih tail cutStart.2 cutStop.2 ?_⟩
    rw [pending, if_pos early.le, if_pos (by omega)]
  | @inside text chunk rest filled late within plain later ih =>
    obtain ⟨rfl, reflects, tail⟩ := tiles
    simp only [IsCut, List.mem_cons, forall_eq_or_imp] at cutStart cutStop
    have forward := reflects.nonempty
    refine ⟨rfl, ⟨forward, ?_, ?_, ?_, ?_, ?_⟩, ?_⟩
    · simp [reflects.intro_eq, silent]
    · simp [reflects.outro_eq, silent]
    · intro offset above below
      simpa [silent] using reflects.quiet offset above below
    · simp
    · intro replacement same
      refine ⟨(⟨start, stop⟩, whole), ?_, ?_⟩
      · obtain rfl : text = replacement := by simpa using same
        rw [pending]
        have reached : chunk.start ≤ start ↔ chunk.start = start := by omega
        simp only [reached]
      · intro index above below
        dsimp only at above below
        have old := reflects.kept plain index above below
        have new := replaced index (by omega) (by omega)
        simp [old, new]
    · refine ih tail cutStart.2 cutStop.2 ?_
      dsimp only
      rw [if_neg (by omega)]
  | beyond late past =>
    obtain ⟨rfl, reflects, tail⟩ := tiles
    have whole : Tiles history _ (_ :: _) high := ⟨rfl, reflects, tail⟩
    exact whole.keep operation silent fun index first _ => outside index (by omega)

/-- What holds of the ranges of chunks holds of any chunks with the same ranges. -/
theorem forall_of_ranges (property : Nat → Nat → Prop) {first second : List Chunk}
    (holds : ∀ chunk ∈ first, property chunk.start chunk.stop)
    (same : second.map (fun chunk => (chunk.start, chunk.stop)) =
      first.map fun chunk => (chunk.start, chunk.stop)) :
    ∀ chunk ∈ second, property chunk.start chunk.stop := by
  intro chunk member
  have range : (chunk.start, chunk.stop) ∈ first.map fun chunk => (chunk.start, chunk.stop) := by
    rw [← same]
    exact List.mem_map_of_mem member
  obtain ⟨old, oldMember, sameRange⟩ := List.mem_map.mp range
  obtain ⟨sameStart, sameStop⟩ := Prod.mk.inj sameRange
  rw [← sameStart, ← sameStop]
  exact holds old oldMember

/-- Chunks with the same ranges have the same cuts. -/
theorem IsCut.congr {first second : List Chunk} {offset : Nat} (cut : IsCut first offset)
    (same : second.map (fun chunk => (chunk.start, chunk.stop)) =
      first.map fun chunk => (chunk.start, chunk.stop)) : IsCut second offset :=
  forall_of_ranges (fun start stop => offset ≤ start ∨ stop ≤ offset) cut same

theorem ranges_map {update : Chunk → Chunk} (chunks : List Chunk)
    (same : ∀ chunk, (update chunk).start = chunk.start ∧ (update chunk).stop = chunk.stop) :
    (chunks.map update).map (fun chunk => (chunk.start, chunk.stop)) =
      chunks.map fun chunk => (chunk.start, chunk.stop) := by
  rw [List.map_map]
  apply List.map_congr_left
  intro chunk _
  simp [same chunk]

theorem ranges_insertBefore (chunks : List Chunk) (offset : Nat) (text : Text) :
    (chunks.map fun chunk =>
        if chunk.stop = offset then { chunk with outro := chunk.outro ++ text } else chunk).map
      (fun chunk => (chunk.start, chunk.stop)) =
      chunks.map fun chunk => (chunk.start, chunk.stop) :=
  ranges_map chunks fun chunk => by split <;> exact ⟨rfl, rfl⟩

theorem ranges_insertAfter (chunks : List Chunk) (offset : Nat) (text : Text) :
    (chunks.map fun chunk =>
        if chunk.start = offset then { chunk with intro := text ++ chunk.intro } else chunk).map
      (fun chunk => (chunk.start, chunk.stop)) =
      chunks.map fun chunk => (chunk.start, chunk.stop) :=
  ranges_map chunks fun chunk => by split <;> exact ⟨rfl, rfl⟩

theorem Filled.ranges {start stop : Nat} {text : Text} {chunks filled : List Chunk}
    (done : Filled start stop text chunks filled) :
    filled.map (fun chunk => (chunk.start, chunk.stop)) =
      chunks.map fun chunk => (chunk.start, chunk.stop) := by
  induction done with
  | nil => rfl
  | before _ _ ih => simp [ih]
  | inside _ _ _ _ ih => simp [ih]
  | beyond => rfl

/-- A buffer carries what a history says: its chunks tile the source, the texts at its
ends are those of the history, and the source is cut where moved ranges end and go. -/
structure Buffer.Reflects (source : Text) (history : History) (buffer : Buffer) : Prop where
  source_eq : buffer.source = source
  length_eq : buffer.length = source.bytes
  tiles : Tiles history 0 buffer.chunks buffer.length
  intro_eq : buffer.intro = history.textBefore 0
  outro_eq : buffer.outro = history.textAfter buffer.length ++ history.appended
  moves_eq : buffer.moves = history.moves
  inside : ∀ move ∈ history.moves, move.start < move.stop ∧ move.stop ≤ buffer.length
  cuts : ∀ move ∈ history.moves, IsCut buffer.chunks move.start ∧ IsCut buffer.chunks move.stop ∧
    IsCut buffer.chunks move.destination

/-- A buffer without edits carries the empty history. -/
theorem Buffer.reflects_ofText (source : Text) : (Buffer.ofText source).Reflects source [] := by
  refine ⟨rfl, rfl, ?_, rfl, rfl, rfl, by simp [History.moves], by simp [History.moves]⟩
  by_cases empty : source.bytes = 0
  · simp [Buffer.ofText, Tiles, empty]
  · simp only [Buffer.ofText, empty, if_false, Tiles, and_true, true_and]
    refine ⟨Nat.pos_of_ne_zero empty, rfl, rfl, ?_, ?_, ?_⟩
    · intro offset _ _
      exact ⟨rfl, rfl⟩
    · intro _ index _ _
      rfl
    · simp

/-- What a successful cut of a buffer leaves as it was, and what it adds. -/
structure Buffer.IsSplitOf (buffer next : Buffer) (offset : Nat) : Prop where
  rest_eq : next = { buffer with chunks := next.chunks }
  within : offset ≤ buffer.length
  cut : IsCut next.chunks offset
  kept : ∀ other, IsCut buffer.chunks other → IsCut next.chunks other

/-- Making an offset a boundary changes nothing that the history says. -/
theorem Buffer.Reflects.split {source : Text} {history : History} {buffer next : Buffer}
    {offset : Nat} (reflects : buffer.Reflects source history)
    (done : buffer.split offset = .ok next) :
    next.Reflects source history ∧ buffer.IsSplitOf next offset := by
  obtain ⟨within, chunks, result, rfl⟩ := of_split_eq_ok done
  obtain ⟨tiles, cut, kept⟩ := result.tiles reflects.tiles
  refine ⟨{ reflects with tiles := tiles, cuts := ?_ }, ⟨rfl, within, cut, kept⟩⟩
  intro move member
  obtain ⟨first, second, third⟩ := reflects.cuts move member
  exact ⟨kept _ first, kept _ second, kept _ third⟩

/-- Replacing a range is carried over. -/
theorem Buffer.Reflects.overwrite {source : Text} {history : History} {buffer next : Buffer}
    {start stop : Nat} {text : Text} {operation : Operation}
    (reflects : buffer.Reflects source history)
    (replaces : operation.replaced? = some (⟨start, stop⟩, text))
    (silent : ∀ offset, operation.after offset = [] ∧ operation.before offset = [])
    (still : operation.moved? = none ∧ operation.appended = [])
    (done : buffer.overwrite start stop text = .ok next) :
    next.Reflects source (history ++ [operation]) := by
  obtain ⟨-, first, second, chunks, firstDone, secondDone, filled, rfl⟩ := of_overwrite_eq_ok done
  obtain ⟨firstReflects, firstSplit⟩ := reflects.split firstDone
  obtain ⟨secondReflects, secondSplit⟩ := firstReflects.split secondDone
  have tiles := Filled.tiles replaces silent secondReflects.tiles
    (secondSplit.kept _ firstSplit.cut) secondSplit.cut (by simp) filled
  refine ⟨secondReflects.source_eq, secondReflects.length_eq, tiles, ?_, ?_, ?_, ?_, ?_⟩
  · simp [secondReflects.intro_eq, silent]
  · simp [secondReflects.outro_eq, silent, still]
  · simp [secondReflects.moves_eq, still]
  · simpa [still] using secondReflects.inside
  · intro move member
    obtain ⟨cutStart, cutStop, cutDestination⟩ :=
      secondReflects.cuts move (by simpa [still] using member)
    have same := filled.ranges
    exact ⟨cutStart.congr same, cutStop.congr same, cutDestination.congr same⟩

/-- Attaching a text to what ends at an offset is carried over. -/
theorem Buffer.Reflects.insertBefore {source : Text} {history : History} {buffer next : Buffer}
    {offset : Nat} {text : Text} (reflects : buffer.Reflects source history)
    (done : buffer.insertBefore offset text = .ok next) :
    next.Reflects source (history ++ [.insertBefore offset text]) := by
  simp only [Buffer.insertBefore] at done
  obtain ⟨middle, splitDone, attached⟩ := bind_eq_ok_iff.mp done
  obtain ⟨splitReflects, split⟩ := reflects.split splitDone
  split at attached
  next zero =>
    subst zero
    obtain rfl := Except.ok.inj attached
    refine ⟨splitReflects.source_eq, splitReflects.length_eq, ?_, ?_, ?_, ?_, ?_, ?_⟩
    · have placed := splitReflects.tiles.insertBefore split.cut text
      have none : ∀ chunk ∈ middle.chunks, chunk.stop ≠ 0 := by
        intro chunk member
        have forward := (splitReflects.tiles.reflects member).nonempty
        omega
      rwa [List.map_congr_left (g := id) (by
        intro chunk member
        simp [none chunk member]), List.map_id] at placed
    · simp [splitReflects.intro_eq, Operation.before]
    · simp [splitReflects.outro_eq, Operation.after, Operation.appended]
    · simp [splitReflects.moves_eq, Operation.moved?]
    · simpa [Operation.moved?] using splitReflects.inside
    · simpa [Operation.moved?] using splitReflects.cuts
  next positive =>
    obtain rfl := Except.ok.inj attached
    refine ⟨splitReflects.source_eq, splitReflects.length_eq, ?_, ?_, ?_, ?_, ?_, ?_⟩
    · exact splitReflects.tiles.insertBefore split.cut text
    · simp [splitReflects.intro_eq, Operation.before, positive]
    · simp [splitReflects.outro_eq, Operation.after, Operation.appended]
    · simp [splitReflects.moves_eq, Operation.moved?]
    · simpa [Operation.moved?] using splitReflects.inside
    · intro move member
      obtain ⟨cutStart, cutStop, cutDestination⟩ :=
        splitReflects.cuts move (by simpa [Operation.moved?] using member)
      have same := ranges_insertBefore middle.chunks offset text
      exact ⟨cutStart.congr same, cutStop.congr same, cutDestination.congr same⟩

/-- Attaching a text to what starts at an offset is carried over. At the end of the
source no chunk starts, and the text goes before what was put after everything else. -/
theorem Buffer.Reflects.insertAfter {source : Text} {history : History} {buffer next : Buffer}
    {offset : Nat} {text : Text} (reflects : buffer.Reflects source history)
    (done : buffer.insertAfter offset text = .ok next) :
    next.Reflects source (history ++ [.insertAfter offset text]) := by
  simp only [Buffer.insertAfter] at done
  obtain ⟨middle, splitDone, attached⟩ := bind_eq_ok_iff.mp done
  obtain ⟨splitReflects, split⟩ := reflects.split splitDone
  have placed := splitReflects.tiles.insertAfter split.cut text
  split at attached
  next starts =>
    obtain rfl := Except.ok.inj attached
    have elsewhere : offset ≠ middle.length := by
      intro same
      obtain ⟨chunk, member, startsThere⟩ := List.any_eq_true.mp starts
      have forward := (splitReflects.tiles.reflects member).nonempty
      have bounded := (splitReflects.tiles.bounds member).2
      simp only [beq_iff_eq] at startsThere
      omega
    refine ⟨splitReflects.source_eq, splitReflects.length_eq, placed, ?_, ?_, ?_, ?_, ?_⟩
    · simp [splitReflects.intro_eq, Operation.before]
    · simp [splitReflects.outro_eq, Operation.after, Operation.appended, elsewhere]
    · simp [splitReflects.moves_eq, Operation.moved?]
    · simpa [Operation.moved?] using splitReflects.inside
    · intro move member
      obtain ⟨cutStart, cutStop, cutDestination⟩ :=
        splitReflects.cuts move (by simpa [Operation.moved?] using member)
      have same := ranges_insertAfter middle.chunks offset text
      exact ⟨cutStart.congr same, cutStop.congr same, cutDestination.congr same⟩
  next absent =>
    obtain rfl := Except.ok.inj attached
    have none : ∀ chunk ∈ middle.chunks, chunk.start ≠ offset := by
      intro chunk member same
      exact absent (List.any_eq_true.mpr ⟨chunk, member, by simp [same]⟩)
    have atEnd : offset = middle.length :=
      splitReflects.tiles.eq_high_of_no_start (Nat.zero_le _)
        (by rw [split.rest_eq]; exact split.within) split.cut none
    refine ⟨splitReflects.source_eq, splitReflects.length_eq, ?_, ?_, ?_, ?_, ?_, ?_⟩
    · rwa [List.map_congr_left (g := id) (by
        intro chunk member
        simp [none chunk member]), List.map_id] at placed
    · simp [splitReflects.intro_eq, Operation.before]
    · simp [splitReflects.outro_eq, Operation.after, Operation.appended, atEnd]
    · simp [splitReflects.moves_eq, Operation.moved?]
    · simpa [Operation.moved?] using splitReflects.inside
    · simpa [Operation.moved?] using splitReflects.cuts

/-- Moving a range is carried over: the source is cut at its ends and where it goes. -/
theorem Buffer.Reflects.moveRange {source : Text} {history : History} {buffer next : Buffer}
    {start stop destination : Nat} (reflects : buffer.Reflects source history)
    (done : buffer.moveRange start stop destination = .ok next) :
    next.Reflects source (history ++ [.moveRange start stop destination]) := by
  obtain ⟨nonempty, -, -, first, second, third, firstDone, secondDone, thirdDone, rfl⟩ :=
    of_moveRange_eq_ok done
  obtain ⟨firstReflects, firstSplit⟩ := reflects.split firstDone
  obtain ⟨secondReflects, secondSplit⟩ := firstReflects.split secondDone
  obtain ⟨thirdReflects, thirdSplit⟩ := secondReflects.split thirdDone
  have bounded : stop ≤ third.length := by
    rw [thirdSplit.rest_eq, secondSplit.rest_eq]
    exact secondSplit.within
  refine ⟨thirdReflects.source_eq, thirdReflects.length_eq, ?_, ?_, ?_, ?_, ?_, ?_⟩
  · exact thirdReflects.tiles.keep _ (by simp [Operation.after, Operation.before])
      (by simp [replacementAt_singleton, Operation.replaced?])
  · simp [thirdReflects.intro_eq, Operation.before]
  · simp [thirdReflects.outro_eq, Operation.after, Operation.appended]
  · simp [thirdReflects.moves_eq, Operation.moved?]
  · intro move member
    simp only [History.moves_append, History.moves_singleton, Operation.moved?,
      Option.toList_some, List.mem_append, List.mem_singleton] at member
    rcases member with old | rfl
    · exact thirdReflects.inside move old
    · exact ⟨nonempty, bounded⟩
  · intro move member
    simp only [History.moves_append, History.moves_singleton, Operation.moved?,
      Option.toList_some, List.mem_append, List.mem_singleton] at member
    rcases member with old | rfl
    · exact thirdReflects.cuts move old
    · exact ⟨thirdSplit.kept _ (secondSplit.kept _ firstSplit.cut),
        thirdSplit.kept _ secondSplit.cut, thirdSplit.cut⟩

/-- Every accepted call is carried over. -/
theorem Buffer.Reflects.apply {source : Text} {history : History} {buffer next : Buffer}
    (reflects : buffer.Reflects source history) (operation : Operation)
    (done : operation.apply buffer = .ok next) :
    next.Reflects source (history ++ [operation]) := by
  cases operation with
  | overwrite start stop text =>
    exact reflects.overwrite rfl (fun _ => ⟨rfl, rfl⟩) ⟨rfl, rfl⟩ done
  | remove start stop => exact reflects.overwrite rfl (fun _ => ⟨rfl, rfl⟩) ⟨rfl, rfl⟩ done
  | insertBefore offset text => exact reflects.insertBefore done
  | insertAfter offset text => exact reflects.insertAfter done
  | moveRange start stop destination => exact reflects.moveRange done
  | append text =>
    obtain rfl := Except.ok.inj done
    refine ⟨reflects.source_eq, reflects.length_eq, ?_, ?_, ?_, ?_, ?_, ?_⟩
    · exact reflects.tiles.keep _ (by simp [Operation.after, Operation.before])
        (by simp [replacementAt_singleton, Operation.replaced?])
    · simp [Buffer.append, reflects.intro_eq, Operation.before]
    · simp [Buffer.append, reflects.outro_eq, Operation.after, Operation.appended]
    · simp [Buffer.append, reflects.moves_eq, Operation.moved?]
    · simpa [Buffer.append, Operation.moved?] using reflects.inside
    · simpa [Buffer.append, Operation.moved?] using reflects.cuts
  | mark offset =>
    obtain rfl := Except.ok.inj done
    have tiles := reflects.tiles.keep (.mark offset) (by simp [Operation.after, Operation.before])
      (by simp [replacementAt_singleton, Operation.replaced?])
    have marked : Buffer.Reflects source (history ++ [.mark offset]) buffer := by
      refine ⟨reflects.source_eq, reflects.length_eq, tiles, ?_, ?_, ?_, ?_, ?_⟩
      · simp [reflects.intro_eq, Operation.before]
      · simp [reflects.outro_eq, Operation.after, Operation.appended]
      · simp [reflects.moves_eq, Operation.moved?]
      · simpa [Operation.moved?] using reflects.inside
      · simpa [Operation.moved?] using reflects.cuts
    simp only [Buffer.mark]
    split
    · exact { marked with }
    · exact marked

/-- Every buffer that accepted calls reach carries their history. -/
theorem Buffer.Reflects.perform {source : Text} {history : History} {buffer next : Buffer}
    (reflects : buffer.Reflects source history) (operations : List Operation)
    (done : buffer.perform operations = .ok next) :
    next.Reflects source (history ++ operations) := by
  induction operations generalizing history buffer with
  | nil =>
    obtain rfl := Except.ok.inj done
    simpa using reflects
  | cons operation rest ih =>
    obtain ⟨middle, made, remaining⟩ := bind_eq_ok_iff.mp done
    simpa using ih (reflects.apply operation made) remaining

end Unawait.Edit
