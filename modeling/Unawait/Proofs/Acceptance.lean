import Mathlib
import Unawait.Proofs.ChunkTiling

/-!
# Which calls a buffer accepts

A call is refused because of what was replaced before, because of what was moved
before, or because of its own range. The first is a matter of ranges alone: a call
gets along with a replaced range if it cuts the source nowhere strictly inside the
range and replaces none of its bytes. Calls that are inside the source, replace no
empty range and get along with all that was replaced before them are refused, if at
all, because of a move.

Conversely, ranges that were replaced one after another have no byte in common, and
neither have ranges that were moved.
-/

namespace Unawait.Edit

/-- The offsets at which a call cuts the source. -/
def Operation.cuts : Operation → List Nat
  | overwrite start stop _ => [start, stop]
  | remove start stop => [start, stop]
  | insertBefore offset _ => [offset]
  | insertAfter offset _ => [offset]
  | moveRange start stop destination => [start, stop, destination]
  | append _ => []
  | mark _ => []

/-- A call cuts the source nowhere strictly inside a range and replaces none of its bytes. -/
def Operation.Spares (operation : Operation) (range : Span) : Prop :=
  (∀ offset ∈ operation.cuts, offset ≤ range.start ∨ range.stop ≤ offset) ∧
    ∀ own ∈ operation.replaced?, own.1.stop ≤ range.start ∨ range.stop ≤ own.1.start

/-- A call is inside a source of a length and replaces no empty range. -/
def Operation.InBounds (length : Nat) (operation : Operation) : Prop :=
  (∀ offset ∈ operation.cuts, offset ≤ length) ∧
    ∀ own ∈ operation.replaced?, own.1.start < own.1.stop

/-- A call that touches nothing outside a region. -/
def Operation.Within (low high : Nat) : Operation → Prop
  | overwrite start stop _ => low ≤ start ∧ start < stop ∧ stop ≤ high
  | remove start stop => low ≤ start ∧ start < stop ∧ stop ≤ high
  | insertBefore offset _ => low < offset ∧ offset ≤ high
  | insertAfter offset _ => low ≤ offset ∧ offset < high
  | moveRange start stop destination =>
    low < start ∧ start < stop ∧ stop < high ∧ low < destination ∧ destination < high
  | append _ => False
  | mark _ => True

theorem Operation.Within.mono {operation : Operation} {low high start stop : Nat}
    (within : operation.Within low high) (first : start ≤ low) (last : high ≤ stop) :
    operation.Within start stop := by
  cases operation <;> simp only [Operation.Within] at * <;> omega

def Operation.isMark : Operation → Bool
  | mark _ => true
  | _ => false

/-- Calls that are inside the source, replace no empty range, and spare what was replaced
before. -/
def ConflictFree (length : Nat) (operations : List Operation) : Prop :=
  (∀ operation ∈ operations, operation.InBounds length) ∧
    operations.Pairwise fun earlier later =>
      ∀ replacement ∈ earlier.replaced?, later.Spares replacement.1

/-- A refusal because of a move. -/
def Refusal.isOfMove : Refusal → Bool
  | emptyMove _ _ | moveIntoItself _ _ _ | overlappingMove _ _ => true
  | _ => false

/-! ### Cutting and replacing -/

section Chunks

variable {history : History} {low high : Nat} {chunks : List Chunk}

/-- A replaced chunk lies in a replaced range. -/
theorem Chunk.Reflects.range_of_replaced {chunk : Chunk} (reflects : chunk.Reflects history)
    (replaced : chunk.content.isSome) :
    ∃ replacement ∈ history.replacements,
      replacement.1.start ≤ chunk.start ∧ chunk.stop ≤ replacement.1.stop := by
  obtain ⟨text, content⟩ := Option.isSome_iff_exists.mp replaced
  obtain ⟨replacement, -, covers⟩ := reflects.replaced text content
  have forward := reflects.nonempty
  obtain ⟨member, first, -⟩ := History.replacementAt_eq_some (covers chunk.start le_rfl forward)
  obtain ⟨-, -, last⟩ :=
    History.replacementAt_eq_some (covers (chunk.stop - 1) (by omega) (by omega))
  exact ⟨replacement, member, first, by omega⟩

/-- A cut that is strictly inside no replaced chunk succeeds. -/
theorem cut_ok {offset : Nat}
    (spared : ∀ chunk ∈ chunks, chunk.content.isSome → offset ≤ chunk.start ∨ chunk.stop ≤ offset) :
    ∃ cutChunks, Buffer.cut offset chunks = .ok cutChunks := by
  induction chunks with
  | nil => exact ⟨[], rfl⟩
  | cons chunk rest ih =>
    rw [Buffer.cut]
    split
    next => exact ⟨_, rfl⟩
    next above =>
      split
      next =>
        obtain ⟨cutRest, done⟩ := ih fun other member => spared other (by simp [member])
        exact ⟨chunk :: cutRest, by rw [done]; rfl⟩
      next below =>
        split
        next replaced =>
          have outside := spared chunk (by simp) replaced
          omega
        next => exact ⟨_, rfl⟩

/-- A range of which no chunk was replaced is filled. -/
theorem fill_ok {start stop : Nat} {text : Text}
    (free : ∀ chunk ∈ chunks, start ≤ chunk.start → chunk.start < stop → chunk.content = none) :
    ∃ filled, Buffer.fill start stop text chunks = .ok filled := by
  induction chunks generalizing text with
  | nil => exact ⟨[], rfl⟩
  | cons chunk rest ih =>
    have later : ∀ text, ∃ filled, Buffer.fill start stop text rest = .ok filled := fun text =>
      ih fun other member => free other (by simp [member])
    rw [Buffer.fill]
    split
    next =>
      obtain ⟨filled, done⟩ := later text
      exact ⟨chunk :: filled, by rw [done]; rfl⟩
    next above =>
      split
      next below =>
        obtain ⟨filled, done⟩ := later []
        rw [free chunk (by simp) (by omega) below, done]
        exact ⟨_, rfl⟩
      next => exact ⟨_, rfl⟩

/-- Filling a range succeeds only if none of its chunks was replaced. -/
theorem Filled.content {start stop : Nat} {text : Text} {filled : List Chunk}
    (done : Filled start stop text chunks filled) (tiles : Tiles history low chunks high)
    {chunk : Chunk} (member : chunk ∈ chunks) (above : start ≤ chunk.start)
    (below : chunk.start < stop) : chunk.content = none := by
  induction done generalizing low with
  | nil => simp at member
  | before early _ ih =>
    obtain ⟨rfl, reflects, tail⟩ := tiles
    rcases List.mem_cons.mp member with rfl | later
    · omega
    · exact ih tail later
  | inside late within plain _ ih =>
    obtain ⟨rfl, reflects, tail⟩ := tiles
    rcases List.mem_cons.mp member with rfl | later
    · exact plain
    · exact ih tail later
  | beyond late past =>
    have bounds := tiles.bounds member
    obtain ⟨rfl, reflects, tail⟩ := tiles
    omega

/-- Every byte of a tiled range is in a chunk. -/
theorem Tiles.exists_chunk (tiles : Tiles history low chunks high) {index : Nat}
    (above : low ≤ index) (below : index < high) :
    ∃ chunk ∈ chunks, chunk.start ≤ index ∧ index < chunk.stop := by
  induction chunks generalizing low with
  | nil =>
    obtain rfl : low = high := tiles
    omega
  | cons chunk rest ih =>
    obtain ⟨rfl, -, tail⟩ := tiles
    by_cases here : index < chunk.stop
    · exact ⟨chunk, by simp, above, here⟩
    · obtain ⟨other, member, contains⟩ := ih tail (by omega)
      exact ⟨other, by simp [member], contains⟩

end Chunks

/-! ### Calls -/

namespace Buffer.Reflects

variable {source : Text} {history : History} {buffer : Buffer}

/-- A cut at an offset that is strictly inside no replaced range succeeds. -/
theorem split_ok {offset : Nat} (reflects : buffer.Reflects source history)
    (within : offset ≤ source.bytes)
    (spared : ∀ replacement ∈ history.replacements,
      offset ≤ replacement.1.start ∨ replacement.1.stop ≤ offset) :
    ∃ next, buffer.split offset = .ok next ∧ next.Reflects source history ∧
      buffer.IsSplitOf next offset := by
  obtain ⟨chunks, cut⟩ := @cut_ok buffer.chunks offset (by
    intro chunk member replaced
    obtain ⟨replacement, made, first, last⟩ :=
      (reflects.tiles.reflects member).range_of_replaced replaced
    have outside := spared replacement made
    omega)
  have done : buffer.split offset = .ok { buffer with chunks } := by
    rw [Buffer.split, if_pos (by rw [reflects.length_eq]; exact within), cut]
    rfl
  exact ⟨_, done, reflects.split done⟩

/-- A range in bounds that spares all that was replaced is replaced. -/
theorem overwrite_ok {start stop : Nat} {text : Text} (reflects : buffer.Reflects source history)
    (nonempty : start < stop) (within : stop ≤ source.bytes)
    (spared : ∀ replacement ∈ history.replacements,
      stop ≤ replacement.1.start ∨ replacement.1.stop ≤ start) :
    ∃ next, buffer.overwrite start stop text = .ok next := by
  have outsideStart : ∀ replacement ∈ history.replacements,
      start ≤ replacement.1.start ∨ replacement.1.stop ≤ start := by
    intro replacement made
    have outside := spared replacement made
    omega
  obtain ⟨first, firstDone, firstReflects, firstSplit⟩ :=
    reflects.split_ok (show start ≤ source.bytes by omega) outsideStart
  obtain ⟨second, secondDone, secondReflects, secondSplit⟩ :=
    firstReflects.split_ok within (fun replacement made => by
      have outside := spared replacement made
      omega)
  obtain ⟨filled, done⟩ := @fill_ok second.chunks start stop text (by
    intro chunk member above below
    by_contra replaced
    obtain ⟨replacement, made, low, high⟩ :=
      (secondReflects.tiles.reflects member).range_of_replaced (Option.isSome_iff_ne_none.mpr replaced)
    have forward := (secondReflects.tiles.reflects member).nonempty
    have outside := spared replacement made
    omega)
  exact ⟨{ second with chunks := filled, edited := true }, by
    simp [Buffer.overwrite, nonempty, firstDone, secondDone, done, bind, Except.bind, pure,
      Except.pure]⟩

/-- A call in bounds that spares all that was replaced is accepted if it moves nothing. -/
theorem apply_ok_of_still (reflects : buffer.Reflects source history) {operation : Operation}
    (bounds : operation.InBounds source.bytes)
    (spared : ∀ replacement ∈ history.replacements, operation.Spares replacement.1)
    (still : operation.moved? = none) : ∃ next, operation.apply buffer = .ok next := by
  obtain ⟨inside, nonempty⟩ := bounds
  have cut {offset : Nat} (here : offset ∈ operation.cuts) (replacement : Span × Text)
      (made : replacement ∈ history.replacements) := (spared replacement made).1 offset here
  cases operation with
  | overwrite start stop text =>
    exact reflects.overwrite_ok (nonempty _ rfl) (inside stop (by simp [Operation.cuts]))
      fun replacement made => (spared replacement made).2 _ rfl
  | remove start stop =>
    exact reflects.overwrite_ok (nonempty _ rfl) (inside stop (by simp [Operation.cuts]))
      fun replacement made => (spared replacement made).2 _ rfl
  | insertBefore offset text =>
    obtain ⟨next, done, -, -⟩ := reflects.split_ok (inside offset (by simp [Operation.cuts]))
      (cut (by simp [Operation.cuts]))
    simp only [Operation.apply, Buffer.insertBefore, done, bind, Except.bind]
    split <;> exact ⟨_, rfl⟩
  | insertAfter offset text =>
    obtain ⟨next, done, -, -⟩ := reflects.split_ok (inside offset (by simp [Operation.cuts]))
      (cut (by simp [Operation.cuts]))
    simp only [Operation.apply, Buffer.insertAfter, done, bind, Except.bind]
    split <;> exact ⟨_, rfl⟩
  | moveRange start stop destination => simp [Operation.moved?] at still
  | append text => exact ⟨_, rfl⟩
  | mark offset => exact ⟨_, rfl⟩

/-- A move whose offsets are in bounds and spare all that was replaced is accepted if its range is
not empty, its destination is not inside the range and no earlier move took a byte of it. -/
theorem moveRange_eq (reflects : buffer.Reflects source history) {start stop destination : Nat}
    (bounds : (Operation.moveRange start stop destination).InBounds source.bytes)
    (spared : ∀ replacement ∈ history.replacements,
      (Operation.moveRange start stop destination).Spares replacement.1) :
    ∃ next, buffer.moveRange start stop destination =
      if ¬ start < stop then .error (.emptyMove start stop)
      else if start < destination ∧ destination < stop then
        .error (.moveIntoItself destination start stop)
      else if buffer.moves.any (fun move => start < move.stop && move.start < stop) then
        .error (.overlappingMove start stop)
      else .ok next := by
  have cut {offset : Nat} (here : offset ∈ (Operation.moveRange start stop destination).cuts)
      (replacement : Span × Text) (made : replacement ∈ history.replacements) :=
    (spared replacement made).1 offset here
  obtain ⟨first, firstDone, firstReflects, -⟩ :=
    reflects.split_ok (bounds.1 start (by simp [Operation.cuts])) (cut (by simp [Operation.cuts]))
  obtain ⟨second, secondDone, secondReflects, -⟩ :=
    firstReflects.split_ok (bounds.1 stop (by simp [Operation.cuts])) (cut (by simp [Operation.cuts]))
  obtain ⟨third, thirdDone, -, -⟩ :=
    secondReflects.split_ok (bounds.1 destination (by simp [Operation.cuts]))
      (cut (by simp [Operation.cuts]))
  simp only [Buffer.moveRange, firstDone, secondDone, thirdDone, bind, Except.bind]
  exact ⟨_, rfl⟩

/-- A call in bounds that spares all that was replaced is accepted, or it is refused because of
a move. -/
theorem apply_ok (reflects : buffer.Reflects source history) {operation : Operation}
    (bounds : operation.InBounds source.bytes)
    (spared : ∀ replacement ∈ history.replacements, operation.Spares replacement.1) :
    (∃ next, operation.apply buffer = .ok next) ∨
      ∃ refusal, operation.apply buffer = .error refusal ∧ refusal.isOfMove := by
  cases operation with
  | moveRange start stop destination =>
    obtain ⟨next, made⟩ := reflects.moveRange_eq bounds spared
    rw [Operation.apply, made]
    split
    · exact .inr ⟨_, rfl, rfl⟩
    · split
      · exact .inr ⟨_, rfl, rfl⟩
      · split
        · exact .inr ⟨_, rfl, rfl⟩
        · exact .inl ⟨_, rfl⟩
  | _ => exact .inl (reflects.apply_ok_of_still bounds spared rfl)

/-- Calls without conflicts are all accepted up to one that is refused because of a move. -/
theorem perform_ok (reflects : buffer.Reflects source history) {operations : List Operation}
    (free : ConflictFree source.bytes operations)
    (spared : ∀ operation ∈ operations, ∀ replacement ∈ history.replacements,
      operation.Spares replacement.1) :
    (∃ next, buffer.perform operations = .ok next) ∨
      ∃ refusal, buffer.perform operations = .error refusal ∧ refusal.isOfMove := by
  induction operations generalizing history buffer with
  | nil => exact .inl ⟨buffer, rfl⟩
  | cons operation rest ih =>
    obtain ⟨bounds, pairs⟩ := free
    obtain ⟨here, later⟩ := List.pairwise_cons.mp pairs
    rw [Buffer.perform]
    rcases reflects.apply_ok (bounds operation (by simp)) (spared operation (by simp)) with
      ⟨next, done⟩ | ⟨refusal, refused, ofMove⟩
    · rw [done]
      apply ih (reflects.apply operation done) ⟨fun other member => bounds other (by simp [member]), later⟩
      intro other member replacement made
      simp only [History.replacements_append, History.replacements_singleton, List.mem_append,
        Option.mem_toList] at made
      rcases made with earlier | own
      · exact spared other (by simp [member]) replacement earlier
      · exact here other member replacement own
    · rw [refused]
      exact .inr ⟨refusal, rfl, ofMove⟩

/-! ### What accepted calls have in common -/

/-- A range is replaced only if none of its bytes was. -/
theorem replacementAt_of_overwrite {start stop : Nat} {text : Text} {next : Buffer}
    (reflects : buffer.Reflects source history) (done : buffer.overwrite start stop text = .ok next)
    {index : Nat} (above : start ≤ index) (below : index < stop) :
    history.replacementAt? index = none := by
  obtain ⟨-, first, second, chunks, firstDone, secondDone, filled, -⟩ := of_overwrite_eq_ok done
  obtain ⟨firstReflects, firstSplit⟩ := reflects.split firstDone
  obtain ⟨secondReflects, secondSplit⟩ := firstReflects.split secondDone
  have bounded : stop ≤ second.length := by
    rw [secondSplit.rest_eq]
    exact secondSplit.within
  obtain ⟨chunk, member, low, high⟩ :=
    secondReflects.tiles.exists_chunk (Nat.zero_le index) (by omega)
  have apartStart := secondSplit.kept _ firstSplit.cut chunk member
  have apartStop := secondSplit.cut chunk member
  have content := filled.content secondReflects.tiles member (by omega) (by omega)
  exact (secondReflects.tiles.reflects member).kept content index low high

theorem replacementAt_of_apply {operation : Operation} {next : Buffer} {own : Span × Text}
    (reflects : buffer.Reflects source history) (done : operation.apply buffer = .ok next)
    (replaces : operation.replaced? = some own) {index : Nat} (inside : own.1.contains index) :
    history.replacementAt? index = none := by
  simp only [Span.contains, Bool.and_eq_true, decide_eq_true_eq] at inside
  cases operation <;> simp only [Operation.replaced?, reduceCtorEq, Option.some.injEq] at replaces
  all_goals
    subst replaces
    exact reflects.replacementAt_of_overwrite done inside.1 inside.2

/-- Ranges that were replaced have no byte in common. -/
theorem replacements_pairwise {operations : List Operation} {next : Buffer}
    (reflects : buffer.Reflects source history) (done : buffer.perform operations = .ok next)
    (pairs : history.replacements.Pairwise fun first second =>
      ∀ index, first.1.contains index → ¬ second.1.contains index) :
    (History.replacements (history ++ operations)).Pairwise fun first second =>
      ∀ index, first.1.contains index → ¬ second.1.contains index := by
  induction operations generalizing history buffer with
  | nil => simpa using pairs
  | cons operation rest ih =>
    obtain ⟨middle, applied, performed⟩ := bind_eq_ok_iff.mp done
    have extended : (History.replacements (history ++ [operation])).Pairwise fun first second =>
        ∀ index, first.1.contains index → ¬ second.1.contains index := by
      rw [History.replacements_append, List.pairwise_append]
      refine ⟨pairs, ?_, ?_⟩
      · rw [History.replacements_singleton]
        cases operation.replaced? <;> simp
      · intro earlier made own new index inside again
        rw [History.replacements_singleton, Option.mem_toList] at new
        have free := reflects.replacementAt_of_apply applied new again
        rw [History.replacementAt?, List.find?_eq_none] at free
        exact free earlier made inside
    simpa using ih (reflects.apply operation applied) performed extended

/-- Ranges that were moved have no byte in common. -/
theorem moves_pairwise {operations : List Operation} {next : Buffer}
    (reflects : buffer.Reflects source history) (done : buffer.perform operations = .ok next)
    (pairs : history.moves.Pairwise fun first second =>
      first.stop ≤ second.start ∨ second.stop ≤ first.start) :
    (History.moves (history ++ operations)).Pairwise fun first second =>
      first.stop ≤ second.start ∨ second.stop ≤ first.start := by
  induction operations generalizing history buffer with
  | nil => simpa using pairs
  | cons operation rest ih =>
    obtain ⟨middle, applied, performed⟩ := bind_eq_ok_iff.mp done
    have extended : (History.moves (history ++ [operation])).Pairwise fun first second =>
        first.stop ≤ second.start ∨ second.stop ≤ first.start := by
      rw [History.moves_append, List.pairwise_append]
      refine ⟨pairs, ?_, ?_⟩
      · rw [History.moves_singleton]
        cases operation.moved? <;> simp
      · intro earlier made own new
        rw [History.moves_singleton, Option.mem_toList] at new
        cases operation <;> simp only [Operation.moved?, reduceCtorEq, Option.some.injEq] at new
        subst new
        obtain ⟨-, -, disjoint, -⟩ := of_moveRange_eq_ok applied
        rw [reflects.moves_eq] at disjoint
        simp only [List.any_eq_false, Bool.and_eq_true, decide_eq_true_eq] at disjoint
        have apart := disjoint earlier made
        dsimp only
        omega
    simpa using ih (reflects.apply operation applied) performed extended

end Buffer.Reflects

end Unawait.Edit
