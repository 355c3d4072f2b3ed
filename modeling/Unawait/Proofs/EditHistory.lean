import Mathlib
import Unawait.Edit.Rendering
import Unawait.Proofs.Encoding
import Unawait.Text.Span

/-!
# What a history of edits says, offset by offset

A history is the sequence of calls made on a buffer. Its rendering is described
without chunks: every byte of the source has a cell, made of the texts attached
in front of the byte, what stands for the byte itself, and the texts attached
behind it. The result is the cells in order, with moved ranges given at their
destinations.

Nothing here refers to how a buffer stores edits. That the buffer's own result
agrees with this description is shown in `Unawait.Proofs.ChunkTiling`.
-/

namespace Unawait.Edit

/-- A call on a buffer. -/
inductive Operation where
  | overwrite (start stop : Nat) (text : Text)
  | remove (start stop : Nat)
  | insertBefore (offset : Nat) (text : Text)
  | insertAfter (offset : Nat) (text : Text)
  | moveRange (start stop destination : Nat)
  | append (text : Text)
  | mark (offset : Nat)
deriving DecidableEq

namespace Operation

/-- Make the call. -/
def apply : Operation → Buffer → Except Refusal Buffer
  | overwrite start stop text, buffer => buffer.overwrite start stop text
  | remove start stop, buffer => buffer.remove start stop
  | insertBefore offset text, buffer => buffer.insertBefore offset text
  | insertAfter offset text, buffer => buffer.insertAfter offset text
  | moveRange start stop destination, buffer => buffer.moveRange start stop destination
  | append text, buffer => .ok (buffer.append text)
  | mark offset, buffer => .ok (buffer.mark offset)

/-- The offsets that a call names. -/
def offsets : Operation → List Nat
  | overwrite start stop _ => [start, stop]
  | remove start stop => [start, stop]
  | insertBefore offset _ => [offset]
  | insertAfter offset _ => [offset]
  | moveRange start stop destination => [start, stop, destination]
  | append _ => []
  | mark offset => [offset]

/-- The text that a call attaches to what ends at an offset. -/
def before (offset : Nat) : Operation → Text
  | insertBefore place text => if place = offset then text else []
  | _ => []

/-- The text that a call attaches to what starts at an offset. -/
def after (offset : Nat) : Operation → Text
  | insertAfter place text => if place = offset then text else []
  | _ => []

/-- The range that a call replaces, with its replacement. -/
def replaced? : Operation → Option (Span × Text)
  | overwrite start stop text => some (⟨start, stop⟩, text)
  | remove start stop => some (⟨start, stop⟩, [])
  | _ => none

/-- The move that a call makes. -/
def moved? : Operation → Option Move
  | moveRange start stop destination => some ⟨start, stop, destination⟩
  | _ => none

/-- The text that a call puts after everything else. -/
def appended : Operation → Text
  | append text => text
  | _ => []

end Operation

/-- Make calls one after another, up to the first that is refused. -/
def Buffer.perform (buffer : Buffer) : List Operation → Except Refusal Buffer
  | [] => .ok buffer
  | operation :: rest => operation.apply buffer >>= fun next => next.perform rest

/-- A call followed by others succeeds exactly when it does and they do after it. -/
theorem bind_eq_ok_iff {α β : Type} {result : Except Refusal α} {next : α → Except Refusal β}
    {value : β} :
    result >>= next = .ok value ↔ ∃ middle, result = .ok middle ∧ next middle = .ok value := by
  cases result with
  | error refusal => simp [bind, Except.bind]
  | ok middle => simp [bind, Except.bind]

theorem map_eq_ok_iff {α β : Type} {result : Except Refusal α} {next : α → β} {value : β} :
    result.map next = .ok value ↔ ∃ middle, result = .ok middle ∧ next middle = value := by
  cases result with
  | error refusal => simp [Except.map]
  | ok middle => simp [Except.map]

theorem Buffer.perform_append (buffer : Buffer) (first second : List Operation) :
    buffer.perform (first ++ second) =
      buffer.perform first >>= fun next => next.perform second := by
  induction first generalizing buffer with
  | nil => rfl
  | cons operation rest ih =>
    cases result : operation.apply buffer with
    | error refusal => simp [perform, result, bind, Except.bind]
    | ok next => simpa [perform, result, bind, Except.bind] using ih next

/-! ### What an accepted call has done -/

/-- The chunks after a cut: the chunk around the offset, which keeps its bytes, is in two parts. -/
inductive CutAt (offset : Nat) : List Chunk → List Chunk → Prop
  | nil : CutAt offset [] []
  | before {chunk : Chunk} {rest : List Chunk} (before : offset ≤ chunk.start) :
      CutAt offset (chunk :: rest) (chunk :: rest)
  | behind {chunk : Chunk} {rest cutRest : List Chunk} (above : chunk.start < offset)
      (behind : chunk.stop ≤ offset) (later : CutAt offset rest cutRest) :
      CutAt offset (chunk :: rest) (chunk :: cutRest)
  | within {chunk : Chunk} {rest : List Chunk} (above : chunk.start < offset)
      (below : offset < chunk.stop) (plain : chunk.content = none) :
      CutAt offset (chunk :: rest)
        ({ chunk with stop := offset, outro := [] }
          :: { chunk with start := offset, intro := [] } :: rest)

/-- The chunks after a range was filled: those before the range are kept, those in it give up
their bytes for the text that is still to be placed, and those beyond it are kept again. -/
inductive Filled (start stop : Nat) : Text → List Chunk → List Chunk → Prop
  | nil (text : Text) : Filled start stop text [] []
  | before {text : Text} {chunk : Chunk} {rest filled : List Chunk} (early : chunk.start < start)
      (later : Filled start stop text rest filled) :
      Filled start stop text (chunk :: rest) (chunk :: filled)
  | inside {text : Text} {chunk : Chunk} {rest filled : List Chunk} (late : start ≤ chunk.start)
      (within : chunk.start < stop) (plain : chunk.content = none)
      (later : Filled start stop [] rest filled) :
      Filled start stop text (chunk :: rest) ({ chunk with content := some text } :: filled)
  | beyond {text : Text} {chunk : Chunk} {rest : List Chunk} (late : start ≤ chunk.start)
      (past : stop ≤ chunk.start) : Filled start stop text (chunk :: rest) (chunk :: rest)

namespace Buffer

variable {buffer next : Buffer} {start stop destination offset : Nat} {text : Text}

theorem cutAt_of_cut {chunks cutChunks : List Chunk} (done : cut offset chunks = .ok cutChunks) :
    CutAt offset chunks cutChunks := by
  induction chunks generalizing cutChunks with
  | nil =>
    obtain rfl : [] = cutChunks := by simpa [cut] using done
    exact .nil
  | cons chunk rest ih =>
    simp only [cut] at done
    split at done
    next before =>
      obtain rfl : chunk :: rest = cutChunks := by simpa using done
      exact .before before
    next =>
      split at done
      next behind =>
        obtain ⟨cutRest, restDone, rfl⟩ := map_eq_ok_iff.mp done
        exact .behind (by omega) behind (ih restDone)
      next =>
        split at done
        next => simp at done
        next plain =>
          obtain rfl := by simpa using done
          exact .within (by omega) (by omega) (by simpa using plain)

theorem filled_of_fill {chunks filled : List Chunk}
    (done : fill start stop text chunks = .ok filled) :
    Filled start stop text chunks filled := by
  induction chunks generalizing text filled with
  | nil =>
    obtain rfl : [] = filled := by simpa [fill] using done
    exact .nil text
  | cons chunk rest ih =>
    simp only [fill] at done
    split at done
    next early =>
      obtain ⟨restFilled, restDone, rfl⟩ := map_eq_ok_iff.mp done
      exact .before early (ih restDone)
    next late =>
      split at done
      next within =>
        split at done
        next => simp at done
        next plain =>
          obtain ⟨restFilled, restDone, rfl⟩ := map_eq_ok_iff.mp done
          exact .inside (by omega) within (by simpa using plain) (ih restDone)
      next past =>
        obtain rfl : chunk :: rest = filled := by simpa using done
        exact .beyond (by omega) (by omega)

/-- A buffer that was cut differs in its chunks only. -/
theorem of_split_eq_ok (done : buffer.split offset = .ok next) :
    offset ≤ buffer.length ∧
      ∃ chunks, CutAt offset buffer.chunks chunks ∧ next = { buffer with chunks } := by
  rw [Buffer.split] at done
  split at done
  next within =>
    obtain ⟨chunks, result, rfl⟩ := map_eq_ok_iff.mp done
    exact ⟨within, chunks, cutAt_of_cut result, rfl⟩
  next => simp at done

/-- A range is replaced after the source was cut at its ends. -/
theorem of_overwrite_eq_ok (done : buffer.overwrite start stop text = .ok next) :
    start < stop ∧ ∃ first second chunks, buffer.split start = .ok first ∧
      first.split stop = .ok second ∧ Filled start stop text second.chunks chunks ∧
      next = { second with chunks, edited := true } := by
  rw [Buffer.overwrite] at done
  split at done
  next nonempty =>
    obtain ⟨first, firstDone, done⟩ := bind_eq_ok_iff.mp done
    obtain ⟨second, secondDone, done⟩ := bind_eq_ok_iff.mp done
    obtain ⟨chunks, filled, done⟩ := bind_eq_ok_iff.mp done
    exact ⟨nonempty, first, second, chunks, firstDone, secondDone, filled_of_fill filled,
      (Except.ok.inj done).symm⟩
  next => simp at done

/-- A range is moved after the source was cut at its ends and where it goes. -/
theorem of_moveRange_eq_ok (done : buffer.moveRange start stop destination = .ok next) :
    start < stop ∧ (destination ≤ start ∨ stop ≤ destination) ∧
      buffer.moves.any (fun move => start < move.stop && move.start < stop) = false ∧
      ∃ first second third, buffer.split start = .ok first ∧ first.split stop = .ok second ∧
        second.split destination = .ok third ∧
        next = { third with moves := third.moves ++ [⟨start, stop, destination⟩], edited := true } := by
  rw [Buffer.moveRange] at done
  split at done
  next => simp at done
  next nonempty =>
    split at done
    next => simp at done
    next outside =>
      split at done
      next => simp at done
      next apart =>
        obtain ⟨first, firstDone, done⟩ := bind_eq_ok_iff.mp done
        obtain ⟨second, secondDone, done⟩ := bind_eq_ok_iff.mp done
        obtain ⟨third, thirdDone, done⟩ := bind_eq_ok_iff.mp done
        exact ⟨not_not.mp nonempty, by omega, by simpa using apart, first, second, third, firstDone,
          secondDone, thirdDone, (Except.ok.inj done).symm⟩

end Buffer

/-- The calls made on a buffer, the first one first. -/
abbrev History := List Operation

namespace History

/-- The texts attached to what ends at an offset, in the order of the calls. -/
def textBefore (history : History) (offset : Nat) : Text :=
  history.flatMap (Operation.before offset)

/-- The texts attached to what starts at an offset, the last call first. -/
def textAfter (history : History) (offset : Nat) : Text :=
  history.reverse.flatMap (Operation.after offset)

/-- The replaced ranges with their replacements. -/
def replacements (history : History) : List (Span × Text) := history.filterMap Operation.replaced?

/-- The moves in the order of the calls. -/
def moves (history : History) : List Move := history.filterMap Operation.moved?

/-- The texts put after everything else, in the order of the calls. -/
def appended (history : History) : Text := history.flatMap Operation.appended

/-- The replacement in whose range a byte is. -/
def replacementAt? (history : History) (index : Nat) : Option (Span × Text) :=
  history.replacements.find? fun replacement => replacement.1.contains index

/-- What stands for a byte of the source: the replacement for the first byte of a
replaced range, nothing for its other bytes, and the byte itself elsewhere. -/
def body (source : Text) (history : History) (index : Nat) : Bytes :=
  match history.replacementAt? index with
  | some (range, text) => if index = range.start then text.encode else []
  | none => source.encode[index]?.toList

/-- A byte of the source with all that is attached to it. -/
def cell (source : Text) (history : History) (index : Nat) : Bytes :=
  (history.textAfter index).encode ++ history.body source index
    ++ (history.textBefore (index + 1)).encode

/-- The cells of a range, whether or not it was moved. -/
def cells (source : Text) (history : History) (start stop : Nat) : Bytes :=
  (List.range' start (stop - start)).flatMap (history.cell source)

/-- The cells of the ranges that were moved to an offset, in the order of the moves. -/
def arriving (source : Text) (history : History) (destination : Nat) : Bytes :=
  (history.moves.filter fun move => move.destination == destination).flatMap fun move =>
    history.cells source move.start move.stop

/-- Whether a byte is in a range that was moved. -/
def isMoved (history : History) (index : Nat) : Bool :=
  history.moves.any fun move => move.start ≤ index && index < move.stop

/-- What is given at the place of a byte: the ranges that were moved there, and the
byte's own cell unless it went elsewhere. -/
def place (source : Text) (history : History) (index : Nat) : Bytes :=
  history.arriving source index
    ++ if history.isMoved index then [] else history.cell source index

/-- The whole result. For an empty source there is no cell, and what is left are the
texts at offset 0 and those put after everything else. -/
def rendering (source : Text) (history : History) : Bytes :=
  (history.textBefore 0).encode
    ++ (List.range source.bytes).flatMap (history.place source)
    ++ history.arriving source source.bytes
    ++ (history.textAfter source.bytes).encode
    ++ history.appended.encode

section Append

variable (first second : History)

@[simp] theorem textBefore_append (offset : Nat) :
    textBefore (first ++ second) offset = textBefore first offset ++ textBefore second offset :=
  List.flatMap_append

@[simp] theorem textAfter_append (offset : Nat) :
    textAfter (first ++ second) offset = textAfter second offset ++ textAfter first offset := by
  simp [textAfter]

@[simp] theorem replacements_append :
    replacements (first ++ second) = replacements first ++ replacements second :=
  List.filterMap_append

@[simp] theorem moves_append : moves (first ++ second) = moves first ++ moves second :=
  List.filterMap_append

@[simp] theorem appended_append :
    appended (first ++ second) = appended first ++ appended second :=
  List.flatMap_append

@[simp] theorem replacementAt_append (index : Nat) :
    replacementAt? (first ++ second) index =
      (replacementAt? first index).or (replacementAt? second index) := by
  simp [replacementAt?]

end Append

section Singleton

variable (operation : Operation)

@[simp] theorem textBefore_singleton (offset : Nat) :
    textBefore [operation] offset = operation.before offset := by
  simp [textBefore]

@[simp] theorem textAfter_singleton (offset : Nat) :
    textAfter [operation] offset = operation.after offset := by
  simp [textAfter]

@[simp] theorem replacements_singleton :
    replacements [operation] = operation.replaced?.toList := by
  cases result : operation.replaced? <;> simp [replacements, result]

@[simp] theorem moves_singleton : moves [operation] = operation.moved?.toList := by
  cases result : operation.moved? <;> simp [moves, result]

@[simp] theorem appended_singleton : appended [operation] = operation.appended := by
  simp [appended]

end Singleton

/-- A byte that is replaced is in the range of its replacement. -/
theorem replacementAt_eq_some {history : History} {index : Nat} {replacement : Span × Text}
    (found : history.replacementAt? index = some replacement) :
    replacement ∈ history.replacements ∧ replacement.1.start ≤ index ∧
      index < replacement.1.stop := by
  rw [replacementAt?] at found
  have contained := List.find?_some found
  simp only [Span.contains, Bool.and_eq_true, decide_eq_true_eq] at contained
  exact ⟨List.mem_of_find?_eq_some found, contained⟩

theorem arriving_eq_nil {source : Text} {history : History} {index : Nat}
    (elsewhere : ∀ move ∈ history.moves, move.destination ≠ index) :
    history.arriving source index = [] := by
  refine List.flatMap_eq_nil_iff.mpr fun move arrived => ?_
  obtain ⟨made, there⟩ := List.mem_filter.mp arrived
  exact absurd (by simpa using there) (elsewhere move made)

theorem isMoved_eq_false {history : History} {index : Nat} :
    history.isMoved index = false ↔
      ∀ move ∈ history.moves, index < move.start ∨ move.stop ≤ index := by
  simp only [isMoved, List.any_eq_false, Bool.and_eq_true, decide_eq_true_eq,
    Decidable.not_and_iff_not_or_not, Nat.not_le, Nat.not_lt]

end History

end Unawait.Edit
