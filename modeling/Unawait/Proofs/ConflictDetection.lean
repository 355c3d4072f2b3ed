import Mathlib
import Unawait.Proofs.Acceptance
import Unawait.Proofs.Shape

/-!
# Exactly the contradictory calls are refused

Whether a buffer accepts a call is decided by its chunks: a cut is refused strictly inside a
chunk that was replaced, and a range is refused if one of its chunks was. Which chunks there are
depends on all the cuts made before. Here the same decision is described by the calls that were
made, without chunks: by the ranges that they replaced or moved and the offsets at which they cut
the source.

Two facts tie the descriptions together. The ends of the chunks are the offsets at which some call
has cut the source, and no others; and a chunk was replaced exactly if its bytes are in a range
that was. So a cut inside a replaced range is accepted where an earlier call had already made one,
and nowhere else.
-/

namespace Unawait.Edit

/-- Chunks that cover the offsets from one to another without gap, overlap or empty chunk. -/
def Covers : Nat → List Chunk → Nat → Prop
  | low, [], high => low = high
  | low, chunk :: rest, high =>
    chunk.start = low ∧ chunk.start < chunk.stop ∧ Covers chunk.stop rest high

/-- An offset at which a further call may cut the source: it is not past the end, and if it is
strictly inside a range that was replaced, some call had made it a boundary. -/
def History.Admits (length : Nat) (history : History) (offset : Nat) : Prop :=
  offset ≤ length ∧
    ((∃ replacement ∈ history.replacements,
        replacement.1.start < offset ∧ offset < replacement.1.stop) →
      ∃ operation ∈ history, offset ∈ operation.cuts)

/-- A call that contradicts none of the calls before it. -/
def Operation.Acceptable (length : Nat) (history : History) : Operation → Prop
  | overwrite start stop _ | remove start stop =>
    start < stop ∧ stop ≤ length ∧
      ∀ replacement ∈ history.replacements, Span.Disjoint ⟨start, stop⟩ replacement.1
  | insertBefore offset _ | insertAfter offset _ => history.Admits length offset
  | moveRange start stop destination =>
    start < stop ∧ (destination ≤ start ∨ stop ≤ destination) ∧
      (∀ move ∈ history.moves, Span.Disjoint ⟨start, stop⟩ ⟨move.start, move.stop⟩) ∧
      history.Admits length start ∧ history.Admits length stop ∧ history.Admits length destination
  | append _ | mark _ => True

instance (length : Nat) (history : History) (offset : Nat) :
    Decidable (history.Admits length offset) := inferInstanceAs (Decidable (_ ∧ (_ → _)))

theorem Tiles.covers {history : History} {low high : Nat} {chunks : List Chunk}
    (tiles : Tiles history low chunks high) : Covers low chunks high := by
  induction chunks generalizing low with
  | nil => exact tiles
  | cons chunk rest ih =>
    obtain ⟨starts, reflects, tail⟩ := tiles
    exact ⟨starts, reflects.nonempty, ih tail⟩

/-! ### Where the source is cut -/

/-- A chunk that is cut in two has one end more. -/
theorem isCut_of_cut {history : History} {low high offset : Nat} {chunks cutChunks : List Chunk}
    (tiles : Tiles history low chunks high) (done : CutAt offset chunks cutChunks)
    (other : Nat) : IsCut cutChunks other ↔ IsCut chunks other ∨ other = offset := by
  constructor
  · intro isCut
    induction done generalizing low with
    | nil => exact .inl isCut
    | before => exact .inl isCut
    | behind _ _ _ ih =>
      obtain ⟨rfl, reflects, tail⟩ := tiles
      simp only [IsCut, List.mem_cons, forall_eq_or_imp] at isCut
      rcases ih tail isCut.2 with before | same
      · exact .inl (by simpa [IsCut] using ⟨isCut.1, before⟩)
      · exact .inr same
    | within =>
      simp only [IsCut, List.mem_cons, forall_eq_or_imp] at isCut ⊢
      obtain ⟨first, second, later⟩ := isCut
      by_cases same : other = offset
      · exact .inr same
      · exact .inl ⟨by omega, later⟩
  · obtain ⟨-, cut, kept⟩ := done.tiles tiles
    rintro (before | rfl)
    · exact kept other before
    · exact cut

/-- Chunks with the same ranges are cut at the same offsets. -/
theorem isCut_congr {first second : List Chunk}
    (same : second.map (fun chunk => (chunk.start, chunk.stop)) =
      first.map fun chunk => (chunk.start, chunk.stop)) (offset : Nat) :
    IsCut second offset ↔ IsCut first offset :=
  ⟨fun cut => cut.congr same.symm, fun cut => cut.congr same⟩

namespace Buffer.Reflects

variable {source : Text} {history : History} {buffer next : Buffer}

theorem isCut_of_split {offset : Nat} (reflects : buffer.Reflects source history)
    (done : buffer.split offset = .ok next) (other : Nat) :
    IsCut next.chunks other ↔ IsCut buffer.chunks other ∨ other = offset := by
  obtain ⟨-, chunks, result, rfl⟩ := of_split_eq_ok done
  exact isCut_of_cut reflects.tiles result other

theorem isCut_of_overwrite {start stop : Nat} {text : Text}
    (reflects : buffer.Reflects source history)
    (done : buffer.overwrite start stop text = .ok next) (other : Nat) :
    IsCut next.chunks other ↔ IsCut buffer.chunks other ∨ other = start ∨ other = stop := by
  obtain ⟨-, first, second, chunks, firstDone, secondDone, filled, rfl⟩ := of_overwrite_eq_ok done
  rw [isCut_congr filled.ranges, (reflects.split firstDone).1.isCut_of_split secondDone,
    reflects.isCut_of_split firstDone, or_assoc]

/-- An accepted call cuts the source at its own offsets and nowhere else. -/
theorem isCut_of_apply (reflects : buffer.Reflects source history) {operation : Operation}
    (done : operation.apply buffer = .ok next) (other : Nat) :
    IsCut next.chunks other ↔ IsCut buffer.chunks other ∨ other ∈ operation.cuts := by
  cases operation with
  | overwrite start stop text =>
    simpa [Operation.cuts] using reflects.isCut_of_overwrite done other
  | remove start stop => simpa [Operation.cuts] using reflects.isCut_of_overwrite done other
  | insertBefore offset text =>
    obtain ⟨middle, splitDone, attached⟩ := bind_eq_ok_iff.mp done
    simp only [Operation.cuts, List.mem_singleton, ← reflects.isCut_of_split splitDone]
    split at attached
    · obtain rfl := Except.ok.inj attached
      rfl
    · obtain rfl := Except.ok.inj attached
      exact isCut_congr (ranges_insertBefore middle.chunks offset text) other
  | insertAfter offset text =>
    obtain ⟨middle, splitDone, attached⟩ := bind_eq_ok_iff.mp done
    simp only [Operation.cuts, List.mem_singleton, ← reflects.isCut_of_split splitDone]
    split at attached
    · obtain rfl := Except.ok.inj attached
      exact isCut_congr (ranges_insertAfter middle.chunks offset text) other
    · obtain rfl := Except.ok.inj attached
      rfl
  | moveRange start stop destination =>
    obtain ⟨-, -, -, first, second, third, firstDone, secondDone, thirdDone, rfl⟩ :=
      of_moveRange_eq_ok done
    have firstReflects := (reflects.split firstDone).1
    have secondReflects := (firstReflects.split secondDone).1
    rw [secondReflects.isCut_of_split thirdDone, firstReflects.isCut_of_split secondDone,
      reflects.isCut_of_split firstDone]
    simp [Operation.cuts, or_assoc]
  | append text =>
    obtain rfl := Except.ok.inj done
    simp [Buffer.append, Operation.cuts]
  | mark offset =>
    obtain rfl := Except.ok.inj done
    simp only [Buffer.mark, Operation.cuts, List.not_mem_nil, or_false]
    split <;> rfl

/-- Accepted calls cut the source at their own offsets and nowhere else. -/
theorem isCut_of_perform (reflects : buffer.Reflects source history) {operations : List Operation}
    (done : buffer.perform operations = .ok next) (other : Nat) :
    IsCut next.chunks other ↔
      IsCut buffer.chunks other ∨ ∃ operation ∈ operations, other ∈ operation.cuts := by
  induction operations generalizing history buffer with
  | nil =>
    obtain rfl := Except.ok.inj done
    simp
  | cons operation rest ih =>
    obtain ⟨middle, made, remaining⟩ := bind_eq_ok_iff.mp done
    rw [ih (reflects.apply operation made) remaining, reflects.isCut_of_apply made, or_assoc]
    simp

end Buffer.Reflects

/-! ### Which cuts are accepted -/

/-- An offset at which the buffer is cut, or may be cut because no replaced range is around it. -/
def Buffer.Cuttable (buffer : Buffer) (history : History) (offset : Nat) : Prop :=
  offset ≤ buffer.length ∧ (IsCut buffer.chunks offset ∨
    ∀ replacement ∈ history.replacements,
      offset ≤ replacement.1.start ∨ replacement.1.stop ≤ offset)

/-- A cut succeeds only if it is strictly inside no replaced chunk. -/
theorem CutAt.outside {history : History} {low high offset : Nat} {chunks cutChunks : List Chunk}
    (done : CutAt offset chunks cutChunks) (tiles : Tiles history low chunks high)
    {chunk : Chunk} (member : chunk ∈ chunks) (replaced : chunk.content.isSome) :
    offset ≤ chunk.start ∨ chunk.stop ≤ offset := by
  induction done generalizing low with
  | nil => simp at member
  | before before => exact tiles.isCut_low (tiles.1 ▸ before) chunk member
  | behind _ behind _ ih =>
    rcases List.mem_cons.mp member with rfl | later
    · exact .inr behind
    · exact ih tiles.2.2 later
  | within _ below plain =>
    rcases List.mem_cons.mp member with rfl | later
    · simp [plain] at replaced
    · exact tiles.2.2.isCut_low below.le chunk later

namespace Buffer.Reflects

variable {source : Text} {history : History} {buffer next : Buffer}

/-- A cut is accepted at the ends of chunks and outside of replaced ranges. Strictly inside a
replaced range that is not cut there, the chunk around the offset was replaced. -/
theorem split_ok_iff (reflects : buffer.Reflects source history) (offset : Nat) :
    (∃ next, buffer.split offset = .ok next) ↔ buffer.Cuttable history offset := by
  constructor
  · rintro ⟨next, done⟩
    obtain ⟨within, cutChunks, result, -⟩ := of_split_eq_ok done
    refine ⟨within, ?_⟩
    by_contra neither
    simp only [not_or, IsCut, not_forall] at neither
    obtain ⟨⟨chunk, member, inside⟩, replacement, made, strictly⟩ := neither
    cases content : chunk.content with
    | some text =>
      exact absurd (result.outside reflects.tiles member (by simp [content]))
        (by omega)
    | none =>
      have free := (reflects.tiles.reflects member).kept content offset (by omega) (by omega)
      rw [History.replacementAt?, List.find?_eq_none] at free
      have outside := free replacement made
      simp only [Span.contains, Bool.and_eq_true, decide_eq_true_eq] at outside
      omega
  · rintro ⟨within, cut | spared⟩
    · obtain ⟨cutChunks, result⟩ := @cut_ok buffer.chunks offset fun chunk member _ => cut chunk member
      exact ⟨_, by rw [Buffer.split, if_pos within, result]; rfl⟩
    · obtain ⟨next, done, -, -⟩ := reflects.split_ok (by rwa [← reflects.length_eq]) spared
      exact ⟨next, done⟩

/-- A cut that was accepted changes nothing for other cuts. -/
theorem cuttable_of_split {offset : Nat} (reflects : buffer.Reflects source history)
    (done : buffer.split offset = .ok next) (other : Nat) :
    next.Cuttable history other ↔ buffer.Cuttable history other := by
  have here : buffer.Cuttable history offset := (reflects.split_ok_iff offset).mp ⟨next, done⟩
  have length : next.length = buffer.length := by rw [(reflects.split done).2.rest_eq]
  unfold Cuttable at here ⊢
  rw [length, reflects.isCut_of_split done]
  constructor
  · rintro ⟨within, (cut | rfl) | spared⟩
    · exact ⟨within, .inl cut⟩
    · exact here
    · exact ⟨within, .inr spared⟩
  · rintro ⟨within, cut | spared⟩
    · exact ⟨within, .inl (.inl cut)⟩
    · exact ⟨within, .inr spared⟩

/-- What is attached at an offset is accepted if the offset may be cut. -/
theorem insertBefore_ok_iff (reflects : buffer.Reflects source history) (offset : Nat)
    (text : Text) :
    (∃ next, buffer.insertBefore offset text = .ok next) ↔ buffer.Cuttable history offset := by
  rw [← reflects.split_ok_iff]
  constructor
  · rintro ⟨next, done⟩
    obtain ⟨middle, splitDone, -⟩ := bind_eq_ok_iff.mp done
    exact ⟨middle, splitDone⟩
  · rintro ⟨middle, splitDone⟩
    simp only [Buffer.insertBefore, splitDone, bind, Except.bind]
    split <;> exact ⟨_, rfl⟩

theorem insertAfter_ok_iff (reflects : buffer.Reflects source history) (offset : Nat)
    (text : Text) :
    (∃ next, buffer.insertAfter offset text = .ok next) ↔ buffer.Cuttable history offset := by
  rw [← reflects.split_ok_iff]
  constructor
  · rintro ⟨next, done⟩
    obtain ⟨middle, splitDone, -⟩ := bind_eq_ok_iff.mp done
    exact ⟨middle, splitDone⟩
  · rintro ⟨middle, splitDone⟩
    simp only [Buffer.insertAfter, splitDone, bind, Except.bind]
    split <;> exact ⟨_, rfl⟩

/-- A range is moved if it is not empty, does not go into itself, has no byte in common with a
moved range, and its ends and its destination may be cut. -/
theorem moveRange_ok_iff (reflects : buffer.Reflects source history)
    (start stop destination : Nat) :
    (∃ next, buffer.moveRange start stop destination = .ok next) ↔
      start < stop ∧ (destination ≤ start ∨ stop ≤ destination) ∧
        (∀ move ∈ history.moves, Span.Disjoint ⟨start, stop⟩ ⟨move.start, move.stop⟩) ∧
        buffer.Cuttable history start ∧ buffer.Cuttable history stop ∧
        buffer.Cuttable history destination := by
  have apart (nonempty : start < stop) :
      buffer.moves.any (fun move => start < move.stop && move.start < stop) = false ↔
        ∀ move ∈ history.moves, Span.Disjoint ⟨start, stop⟩ ⟨move.start, move.stop⟩ := by
    rw [reflects.moves_eq, List.any_eq_false]
    refine forall₂_congr fun move made => ?_
    have forward := (reflects.inside move made).1
    simp only [Bool.and_eq_true, decide_eq_true_eq, Span.Disjoint]
    omega
  constructor
  · rintro ⟨next, done⟩
    obtain ⟨nonempty, outside, disjoint, first, second, third, firstDone, secondDone, thirdDone, -⟩ :=
      of_moveRange_eq_ok done
    have firstReflects := (reflects.split firstDone).1
    have secondReflects := (firstReflects.split secondDone).1
    refine ⟨nonempty, outside, (apart nonempty).mp disjoint,
      (reflects.split_ok_iff start).mp ⟨first, firstDone⟩, ?_, ?_⟩
    · rw [← reflects.cuttable_of_split firstDone]
      exact (firstReflects.split_ok_iff stop).mp ⟨second, secondDone⟩
    · rw [← reflects.cuttable_of_split firstDone, ← firstReflects.cuttable_of_split secondDone]
      exact (secondReflects.split_ok_iff destination).mp ⟨third, thirdDone⟩
  · rintro ⟨nonempty, outside, disjoint, atStart, atStop, atDestination⟩
    obtain ⟨first, firstDone⟩ := (reflects.split_ok_iff start).mpr atStart
    have firstReflects := (reflects.split firstDone).1
    rw [← reflects.cuttable_of_split firstDone] at atStop atDestination
    obtain ⟨second, secondDone⟩ := (firstReflects.split_ok_iff stop).mpr atStop
    have secondReflects := (firstReflects.split secondDone).1
    rw [← firstReflects.cuttable_of_split secondDone] at atDestination
    obtain ⟨third, thirdDone⟩ := (secondReflects.split_ok_iff destination).mpr atDestination
    rw [Buffer.moveRange, if_neg (by simpa using nonempty), if_neg (by omega),
      if_neg (by simp [(apart nonempty).mpr disjoint])]
    simp [firstDone, secondDone, thirdDone, bind, Except.bind, pure, Except.pure]

end Buffer.Reflects

/-! ### Which replacements are accepted -/

namespace Buffer.Reflects

variable {source : Text} {history : History} {buffer next : Buffer}

/-- A range that is replaced is not empty and is inside the source. -/
theorem range_of_overwrite {start stop : Nat} {text : Text}
    (reflects : buffer.Reflects source history)
    (done : buffer.overwrite start stop text = .ok next) : start < stop ∧ stop ≤ source.bytes := by
  obtain ⟨forward, first, second, chunks, firstDone, secondDone, -, -⟩ := of_overwrite_eq_ok done
  have firstReflects := (reflects.split firstDone).1
  refine ⟨forward, ?_⟩
  rw [← firstReflects.length_eq]
  exact (firstReflects.split secondDone).2.within

/-- Ranges that were replaced are not empty and are inside the source. -/
theorem replacements_inside {operations : List Operation}
    (reflects : buffer.Reflects source history) (done : buffer.perform operations = .ok next) :
    ∀ replacement ∈ History.replacements operations,
      replacement.1.start < replacement.1.stop ∧ replacement.1.stop ≤ source.bytes := by
  induction operations generalizing history buffer with
  | nil => simp [History.replacements]
  | cons operation rest ih =>
    obtain ⟨middle, made, remaining⟩ := bind_eq_ok_iff.mp done
    intro replacement member
    have parts : History.replacements (operation :: rest) =
        operation.replaced?.toList ++ History.replacements rest := by
      rw [← History.replacements_singleton, ← History.replacements_append]
      rfl
    rw [parts, List.mem_append, Option.mem_toList] at member
    rcases member with own | later
    · cases operation <;>
        simp only [Operation.replaced?, Option.some.injEq, reduceCtorEq] at own
      all_goals
        subst own
        exact reflects.range_of_overwrite made
    · exact ih (reflects.apply operation made) remaining replacement later

/-- A range is replaced if it is not empty, inside the source, and none of its bytes was
replaced. -/
theorem overwrite_ok_iff (reflects : buffer.Reflects source history)
    (proper : ∀ replacement ∈ history.replacements, replacement.1.start < replacement.1.stop)
    (start stop : Nat) (text : Text) :
    (∃ next, buffer.overwrite start stop text = .ok next) ↔
      start < stop ∧ stop ≤ source.bytes ∧
        ∀ replacement ∈ history.replacements, Span.Disjoint ⟨start, stop⟩ replacement.1 := by
  constructor
  · rintro ⟨next, done⟩
    obtain ⟨forward, within⟩ := reflects.range_of_overwrite done
    refine ⟨forward, within, fun replacement made => ?_⟩
    -- the first byte in common would be the greater of the two starts
    by_contra common
    simp only [Span.Disjoint] at common
    have free := @replacementAt_of_overwrite _ _ _ _ _ _ _ reflects done
      (max start replacement.1.start) (by omega) (by omega)
    rw [History.replacementAt?, List.find?_eq_none] at free
    apply free replacement made
    simp only [Span.contains, Bool.and_eq_true, decide_eq_true_eq]
    omega
  · rintro ⟨forward, within, disjoint⟩
    refine reflects.overwrite_ok forward within fun replacement made => ?_
    have apart := disjoint replacement made
    have nonempty := proper replacement made
    simp only [Span.Disjoint] at apart
    omega

end Buffer.Reflects

/-! ### The whole decision -/

/-- What can be cut in a buffer can be read off the calls that were made on it. -/
theorem cuttable_iff_admits {source : Text} {history : History} {buffer : Buffer}
    (performed : (Buffer.ofText source).perform history = .ok buffer) (offset : Nat) :
    buffer.Cuttable history offset ↔ history.Admits source.bytes offset := by
  have fresh := Buffer.reflects_ofText source
  have reflects : buffer.Reflects source history := fresh.perform history performed
  have edges : IsCut (Buffer.ofText source).chunks offset ↔ offset = 0 ∨ source.bytes ≤ offset := by
    rw [Buffer.ofText]
    split
    next empty => simp [IsCut, empty]
    next => simp [IsCut]
  rw [Buffer.Cuttable, History.Admits, reflects.length_eq]
  refine and_congr_right fun within => ?_
  rw [fresh.isCut_of_perform performed, edges]
  constructor
  · rintro ((edge | cut) | spared) ⟨replacement, made, above, below⟩
    · -- the ends of the source are strictly inside no range
      have bounded := (fresh.replacements_inside performed replacement made).2
      omega
    · exact cut
    · have outside := spared replacement made
      omega
  · intro admitted
    by_cases inside : ∃ replacement ∈ history.replacements,
        replacement.1.start < offset ∧ offset < replacement.1.stop
    · exact .inl (.inr (admitted inside))
    · right
      intro replacement made
      by_contra strictly
      exact inside ⟨replacement, made, by omega, by omega⟩

/-- In every state that accepted calls reach, a further call is accepted exactly if it contradicts
none of them, and refused otherwise; and the chunks cover the source from its start to its end
without gap, overlap or empty chunk. -/
theorem accepted_iff_acceptable (source : Text) (history : History) (buffer : Buffer)
    (performed : (Buffer.ofText source).perform history = .ok buffer) :
    (∀ operation : Operation,
      ((∃ next, operation.apply buffer = .ok next) ↔ operation.Acceptable source.bytes history) ∧
      ((∃ refusal, operation.apply buffer = .error refusal) ↔
        ¬ operation.Acceptable source.bytes history)) ∧
    Covers 0 buffer.chunks source.bytes := by
  have fresh := Buffer.reflects_ofText source
  have reflects : buffer.Reflects source history := fresh.perform history performed
  have proper : ∀ replacement ∈ history.replacements, replacement.1.start < replacement.1.stop :=
    fun replacement made => (fresh.replacements_inside performed replacement made).1
  have accepted (operation : Operation) : (∃ next, operation.apply buffer = .ok next) ↔
      operation.Acceptable source.bytes history := by
    cases operation with
    | overwrite start stop text => exact reflects.overwrite_ok_iff proper start stop text
    | remove start stop => exact reflects.overwrite_ok_iff proper start stop []
    | insertBefore offset text =>
      exact (reflects.insertBefore_ok_iff offset text).trans (cuttable_iff_admits performed offset)
    | insertAfter offset text =>
      exact (reflects.insertAfter_ok_iff offset text).trans (cuttable_iff_admits performed offset)
    | moveRange start stop destination =>
      simp only [Operation.apply, Operation.Acceptable, reflects.moveRange_ok_iff,
        cuttable_iff_admits performed]
    | append text => simp [Operation.apply, Operation.Acceptable]
    | mark offset => simp [Operation.apply, Operation.Acceptable]
  refine ⟨fun operation => ⟨accepted operation, ?_⟩, ?_⟩
  · rw [← accepted operation]
    cases operation.apply buffer <;> simp
  · rw [← reflects.length_eq]
    exact reflects.tiles.covers

/-- A cut at 2 lets a text be attached inside the range that was replaced across it; at 3 nothing
was cut and the same call is refused, and so is a move that would end there. -/
theorem accepted_iff_acceptable_inside :
    ∃ buffer, (Buffer.ofText "abcdef".toList).perform
        [.insertBefore 2 ['-'], .overwrite 1 5 ['X'], .moveRange 0 1 6] = .ok buffer ∧
      (∃ next, (Operation.insertAfter 2 ['y']).apply buffer = .ok next) ∧
      (∃ refusal, (Operation.insertAfter 3 ['y']).apply buffer = .error refusal) ∧
      (∃ refusal, (Operation.moveRange 2 3 6).apply buffer = .error refusal) ∧
      (∃ refusal, (Operation.remove 0 2).apply buffer = .error refusal) ∧
      (∃ next, (Operation.remove 5 6).apply buffer = .ok next) := by
  obtain ⟨buffer, performed⟩ : ∃ buffer, (Buffer.ofText "abcdef".toList).perform
      [.insertBefore 2 ['-'], .overwrite 1 5 ['X'], .moveRange 0 1 6] = .ok buffer := ⟨_, rfl⟩
  obtain ⟨decided, -⟩ := accepted_iff_acceptable _ _ buffer performed
  refine ⟨buffer, performed, (decided _).1.mpr ?_, (decided _).2.mpr ?_, (decided _).2.mpr ?_,
    (decided _).2.mpr ?_, (decided _).1.mpr ?_⟩ <;> simp only [Operation.Acceptable] <;> decide

end Unawait.Edit
