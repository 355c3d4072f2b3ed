import Mathlib
import Unawait.Grammar.Program
import Unawait.Proofs.MappedPlaces

/-!
# Asking for places changes nothing

A mark asks for the place of an offset in the result. No call on a buffer looks at the
marks, so a run with its marks erased stays in step with the run itself: the same calls are
accepted, with the same chunks, texts and moves, and a refusal is the same refusal.

What is left is the text. A chunk that keeps its source text is printed in parts, cut
where it is marked, and these parts make up the whole only if every cut is at a boundary:
a part that ends inside a character is empty. In a text of ASCII characters every offset is
a boundary.

A walk that is asked for a source map makes the calls of the walk that is not, with marks
among them, and its rules fail in the same way.
-/

namespace Unawait.Text

/-- All characters of a text take one byte. -/
def IsAscii (text : Text) : Prop := ∀ c ∈ text, c.val < 128

instance (text : Text) : Decidable text.IsAscii := inferInstanceAs (Decidable (∀ c ∈ text, _))

/-- A text of ASCII characters can be cut at every offset. -/
theorem IsAscii.isBoundary {text : Text} (ascii : text.IsAscii) {offset : Nat}
    (within : offset ≤ text.bytes) : text.IsBoundary offset := by
  induction text generalizing offset with
  | nil =>
    obtain rfl : offset = 0 := by simpa [bytes] using within
    exact isBoundary_zero []
  | cons c rest ih =>
    simp only [IsAscii, List.mem_cons, forall_eq_or_imp] at ascii
    have single : c.utf8Size = 1 := by
      have small : c.val ≤ 127 := by
        have := ascii.1
        rw [UInt32.lt_iff_toNat_lt] at this
        rw [UInt32.le_iff_toNat_le]
        exact Nat.le_of_lt_succ this
      simp [Char.utf8Size, small]
    cases offset with
    | zero => exact isBoundary_zero _
    | succ offset =>
      simp only [bytes, single] at within
      obtain ⟨taken, more, rfl, counted⟩ := isBoundary_iff.mp (ih ascii.2 (by omega : offset ≤ _))
      refine isBoundary_iff.mpr ⟨c :: taken, more, rfl, ?_⟩
      simp only [bytes, single, counted]
      omega

end Unawait.Text

namespace Unawait.Edit

/-! ### Calls do not look at marks -/

/-- A buffer without its marks. -/
def Buffer.unmarked (buffer : Buffer) : Buffer := { buffer with marks := [] }

/-- A step does the same whatever is marked. -/
def Blind (step : Buffer → Except Refusal Buffer) : Prop :=
  ∀ buffer, step buffer.unmarked = (step buffer).map Buffer.unmarked

theorem Blind.bind {first second : Buffer → Except Refusal Buffer} (here : Blind first)
    (after : Blind second) : Blind fun buffer => first buffer >>= second := by
  intro buffer
  simp only [here buffer]
  cases first buffer with
  | error refusal => rfl
  | ok next => exact after next

theorem blind_split (offset : Nat) : Blind (Buffer.split · offset) := by
  intro buffer
  by_cases within : offset ≤ buffer.length
  · simp only [Buffer.split, if_pos within]
    refine (if_pos within).trans ?_
    simp only [Buffer.unmarked]
    cases Buffer.cut offset buffer.chunks <;> rfl
  · simp only [Buffer.split, if_neg within]
    exact if_neg within

theorem blind_overwrite (start stop : Nat) (text : Text) :
    Blind (Buffer.overwrite · start stop text) := by
  by_cases ordered : start < stop
  · simp only [Buffer.overwrite, if_pos ordered]
    refine (blind_split start).bind ((blind_split stop).bind fun buffer => ?_)
    simp only [Buffer.unmarked]
    cases Buffer.fill start stop text buffer.chunks <;> rfl
  · intro buffer
    simp only [Buffer.overwrite, if_neg ordered]
    rfl

/-- Every call but a mark does the same whatever is marked. -/
theorem Operation.blind_apply {operation : Operation} (plain : operation.isMark = false) :
    Blind operation.apply := by
  cases operation with
  | overwrite start stop text => exact blind_overwrite start stop text
  | remove start stop => exact blind_overwrite start stop []
  | insertBefore offset text =>
    refine (blind_split offset).bind fun buffer => ?_
    split <;> rfl
  | insertAfter offset text =>
    refine (blind_split offset).bind fun buffer => ?_
    by_cases starts : buffer.chunks.any fun chunk => chunk.start == offset
    · rw [if_pos starts]
      exact if_pos starts
    · rw [if_neg starts]
      exact if_neg starts
  | moveRange start stop destination =>
    intro buffer
    simp only [apply, Buffer.moveRange]
    split
    · rfl
    split
    · rfl
    by_cases overlaps : buffer.moves.any fun move => start < move.stop && move.start < stop
    · rw [if_pos overlaps]
      exact if_pos overlaps
    · rw [if_neg overlaps]
      refine (if_neg overlaps).trans ?_
      exact (blind_split start).bind ((blind_split stop).bind
        ((blind_split destination).bind fun _ => rfl)) buffer
  | append text => exact fun _ => rfl
  | mark offset => simp [isMark] at plain

theorem Buffer.unmarked_mark (buffer : Buffer) (offset : Nat) :
    (buffer.mark offset).unmarked = buffer.unmarked := by
  unfold mark
  split <;> rfl

/-- A run with its marks erased stays in step with the run itself. -/
theorem Buffer.perform_unmarked (buffer : Buffer) (operations : List Operation) :
    buffer.unmarked.perform (operations.filter fun operation => !operation.isMark) =
      (buffer.perform operations).map Buffer.unmarked := by
  induction operations generalizing buffer with
  | nil => rfl
  | cons operation rest ih =>
    cases marks : operation.isMark with
    | true =>
      obtain ⟨offset, rfl⟩ : ∃ offset, operation = .mark offset := by
        cases operation <;> simp only [Operation.isMark, Bool.false_eq_true] at marks
        exact ⟨_, rfl⟩
      rw [List.filter_cons_of_neg (by simp [marks]), ← buffer.unmarked_mark offset, ih]
      rfl
    | false =>
      rw [List.filter_cons_of_pos (by simp [marks])]
      simp only [perform, Operation.blind_apply marks buffer]
      cases operation.apply buffer with
      | error refusal => rfl
      | ok next => exact ih next

/-! ### Marks at boundaries do not show -/

section Code

variable {source : Text} {history : History} {buffer : Buffer}

theorem Piece.code_flatMap {α : Type} (entries : List α) (pieces : α → List Piece) :
    Piece.code (entries.flatMap pieces) = entries.flatMap fun entry => Piece.code (pieces entry) := by
  induction entries with
  | nil => rfl
  | cons entry rest ih => simp [ih]

theorem code_chunkPieces_unmarked (reflects : buffer.Reflects source history)
    (aligned : buffer.Aligned source) {chunk : Chunk} (member : chunk ∈ buffer.chunks) :
    Piece.code (buffer.unmarked.chunkPieces chunk) = Piece.code (buffer.chunkPieces chunk) := by
  cases content : chunk.content with
  | some text => simp [Buffer.chunkPieces, content]
  | none =>
    obtain ⟨first, last⟩ := aligned.chunks chunk member
    have whole := code_marked first last (reflects.tiles.reflects member).nonempty.le
      (aligned.sorted.filter fun offset => chunk.start ≤ offset && offset < chunk.stop)
      (fun mark marked => by
        simp only [List.mem_filter, Bool.and_eq_true, decide_eq_true_eq] at marked
        omega)
      (fun mark marked => aligned.marks mark (List.mem_of_mem_filter marked))
    simp only [Buffer.chunkPieces, content, Buffer.unmarked, List.cons_append, Piece.code,
      Piece.code_append, reflects.source_eq, whole, List.filter_nil, Buffer.marked, List.append_nil,
      List.nil_append]

/-- The text of a buffer that is cut and marked at boundaries is the text without the marks. -/
theorem code_unmarked (reflects : buffer.Reflects source history) (aligned : buffer.Aligned source) :
    buffer.unmarked.code = buffer.code := by
  have moved (destination : Nat) : Piece.code (buffer.unmarked.movedTo destination) =
      Piece.code (buffer.movedTo destination) := by
    simp only [Buffer.movedTo, Piece.code_flatMap]
    refine List.flatMap_congr fun move _ => List.flatMap_congr fun chunk inside => ?_
    exact code_chunkPieces_unmarked reflects aligned (List.mem_of_mem_filter inside)
  have placed : buffer.chunks.flatMap (fun chunk => Piece.code (buffer.unmarked.placePieces chunk)) =
      buffer.chunks.flatMap fun chunk => Piece.code (buffer.placePieces chunk) := by
    refine List.flatMap_congr fun chunk member => ?_
    have still : buffer.unmarked.isMoved chunk.start = buffer.isMoved chunk.start := rfl
    rw [Buffer.placePieces, Buffer.placePieces, Piece.code_append, Piece.code_append, moved, still]
    split
    · rfl
    · rw [code_chunkPieces_unmarked reflects aligned member]
  have parts (whole : Buffer) : whole.code = whole.intro
      ++ (whole.chunks.flatMap (fun chunk => Piece.code (whole.placePieces chunk))
      ++ (Piece.code (whole.movedTo whole.length) ++ whole.outro)) := by
    simp only [Buffer.code, Buffer.pieces_eq, List.cons_append, Piece.code, Piece.code_append,
      Piece.code_flatMap, List.append_assoc, List.append_nil]
  rw [parts buffer, ← placed, ← moved, parts buffer.unmarked]
  rfl

/-- What is seen of a buffer without asking for places: its text and whether it was edited. -/
def Buffer.seen (buffer : Buffer) : Text × Bool := (buffer.code, buffer.edited)

/-- Calls at boundaries and the same calls without marks come to the same: one refusal, or one
text. -/
theorem seen_perform_filter {operations : List Operation}
    (aligned : ∀ operation ∈ operations, operation.Aligned source) :
    ((Buffer.ofText source).perform operations).map Buffer.seen =
      ((Buffer.ofText source).perform
        (operations.filter fun operation => !operation.isMark)).map Buffer.seen := by
  have erased := (Buffer.ofText source).perform_unmarked operations
  change (Buffer.ofText source).perform _ = _ at erased
  rw [erased]
  cases performed : (Buffer.ofText source).perform operations with
  | error refusal => rfl
  | ok buffer =>
    have same := code_unmarked ((Buffer.reflects_ofText source).perform operations performed)
      ((Buffer.aligned_ofText source).perform operations aligned performed)
    simp only [Except.map, Buffer.seen, same]
    rfl

end Code

theorem Operation.aligned_of_isAscii {source : Text} (ascii : source.IsAscii)
    (operation : Operation) : operation.Aligned source :=
  fun _ _ within => ascii.isBoundary within

end Unawait.Edit

namespace Unawait.Lowering

open Edit (Operation)

/-! ### A walk with marks and one without -/

/-- An effect without the marks among its calls. -/
def Effect.unmarked (effect : Effect) : Effect :=
  { effect with edits := effect.edits.filter fun edit => !edit.isMark }

theorem Effect.unmarked_andThen (first second : Effect) :
    (first.andThen second).unmarked = first.unmarked.andThen second.unmarked := by
  cases failed : first.failure <;> simp [andThen, unmarked, failed]

theorem Effect.unmarked_sequence (effects : List Effect) :
    (sequence effects).unmarked = sequence (effects.map Effect.unmarked) := by
  induction effects with
  | nil => rfl
  | cons effect rest ih =>
    rw [List.map_cons]
    exact (effect.unmarked_andThen (sequence rest)).trans (by rw [ih]; rfl)

theorem unmarked_nodeEffect (reading : Reading) (node : Node) (place : Place) :
    (nodeEffect reading node place).scopeless.unmarked =
      (nodeEffect reading node place).scopeless := by
  have kept : (nodeEffect reading node place).edits.filter (fun edit => !edit.isMark) =
      (nodeEffect reading node place).edits :=
    List.filter_eq_self.mpr fun edit made => by simp [notes_nodeEffect.unmarked edit made]
  simp only [Effect.unmarked, Effect.scopeless, kept]

/-- Without its marks, a visit that is asked for places is one that is not. -/
theorem unmarked_visitEffect (reading : Reading) (node : Node) (place : Place) :
    (visitEffect reading true node place).unmarked = visitEffect reading false node place := by
  induction node using Node.parts_induction generalizing place with
  | _ node ih =>
    have parts : (partsEffect reading true (places node place)).unmarked =
        partsEffect reading false (places node place) := by
      rw [partsEffect, Effect.unmarked_sequence, List.map_map, partsEffect]
      congr 1
      refine List.map_congr_left fun placed member => ?_
      exact ih placed.1 (mem_parts_of_places member) placed.2
    rw [visitEffect_eq, visitEffect_eq, Effect.unmarked_andThen, Effect.unmarked_andThen, parts,
      unmarked_nodeEffect]
    rfl

/-- The calls of a visit that is asked for places are at boundaries if those of its rules are
and the nodes end at boundaries. -/
theorem aligned_visitEffect {reading : Reading} {source : Text} {program : Node}
    (ends : ∀ node ∈ program.nodes, ∀ offset ∈ [node.start, node.stop],
      offset ≤ source.bytes → source.IsBoundary offset)
    (rules : ∀ edit ∈ (visitEffect reading false program {}).edits, edit.Aligned source) :
    ∀ edit ∈ (visitEffect reading true program {}).edits, edit.Aligned source := by
  intro edit made
  cases marks : edit.isMark with
  | false =>
    apply rules
    rw [← unmarked_visitEffect]
    exact List.mem_filter.mpr ⟨made, by simp [marks]⟩
  | true =>
    cases edit <;> simp only [Operation.isMark, Bool.false_eq_true] at marks
    rename_i offset
    obtain ⟨node, member, here⟩ := mark_mem_script.mp ((plays program {}).begins.subset made)
    have boundary := ends node member offset (by simpa using here)
    simpa [Operation.Aligned, Operation.offsets] using boundary

end Unawait.Lowering

namespace Unawait

/-- What is seen of a result without its source map. -/
def Transformed.seen (transformed : Transformed) : Text × Bool × Usage :=
  (transformed.code, transformed.edited, transformed.usage)

theorem Transform.seen_finish (source : Text) (options : Options) (state : Lowering.State) :
    (finish source options state).seen =
      (state.buffer.code ++ (if state.buffer.edited && options.includeHelper then
        Prelude.render state.usage else []), state.buffer.edited, state.usage) := by
  simp only [finish, Transformed.seen]
  split
  · rw [Edit.Buffer.code_append]
  · rw [List.append_nil]

/-- Lowering with and without a source map comes to the same, if all calls are at boundaries. -/
theorem Transform.seen_lower (source : Text) (options : Options) (parsed : Parsed)
    (aligned : ∀ edit ∈ (Lowering.visitEffect ⟨source, parsed.tokens, parsed.lines⟩ true
      parsed.program {}).edits, edit.Aligned source) :
    (lower source { options with sourceMap := true } parsed).map Transformed.seen =
      (lower source { options with sourceMap := false } parsed).map Transformed.seen := by
  have same := Edit.seen_perform_filter aligned
  rw [lower_eq, lower_eq]
  simp only [← Lowering.unmarked_visitEffect, Lowering.Effect.apply, Lowering.Effect.unmarked,
    Lowering.State.ofSource]
  generalize Lowering.visitEffect ⟨source, parsed.tokens, parsed.lines⟩ true parsed.program {} =
    effect at same
  -- the calls are refused alike, or both runs go on from one text
  cases marked : (Edit.Buffer.ofText source).perform effect.edits with
  | error refusal =>
    rw [marked] at same
    cases plain : (Edit.Buffer.ofText source).perform
        (effect.edits.filter fun edit => !edit.isMark) with
    | error other =>
      rw [plain] at same
      obtain rfl : refusal = other := Except.error.inj same
      rfl
    | ok buffer => rw [plain] at same; simp [Except.map] at same
  | ok first =>
    rw [marked] at same
    cases plain : (Edit.Buffer.ofText source).perform
        (effect.edits.filter fun edit => !edit.isMark) with
    | error other => rw [plain] at same; simp [Except.map] at same
    | ok second =>
      rw [plain] at same
      obtain ⟨code, edited⟩ := Prod.mk.inj (Except.ok.inj same)
      cases failed : effect.failure with
      | some failure => rfl
      | none =>
        simp only [Lowering.refusable_ok, Lowering.ok_bind, Except.map, seen_finish,
          Lowering.Effect.settle, code, edited]

/-- A run with and one without a source map come to the same, if one tree is read in both and all
calls are at boundaries. -/
theorem Transform.seen_transformWith {parse : Text → Options → Except Failure Parsed} {source : Text}
    {options : Options}
    (same : parse source { options with sourceMap := true } =
      parse source { options with sourceMap := false })
    (aligned : ∀ parsed, parse source { options with sourceMap := true } = .ok parsed →
      ∀ edit ∈ (Lowering.visitEffect ⟨source, parsed.tokens, parsed.lines⟩ true
        parsed.program {}).edits, edit.Aligned source) :
    (transformWith parse source { options with sourceMap := true }).map Transformed.seen =
      (transformWith parse source { options with sourceMap := false }).map Transformed.seen := by
  cases skipped : skips source options with
  | true =>
    have passed (sourceMap : Bool) : transformWith parse source { options with sourceMap } =
        .ok (Transformed.unchanged source { options with sourceMap }) := if_pos skipped
    rw [passed, passed]
    rfl
  | false =>
    have isRead (sourceMap : Bool) : skips source { options with sourceMap } = false := skipped
    cases parses : parse source { options with sourceMap := true } with
    | error failure =>
      have failing (sourceMap : Bool)
          (fails : parse source { options with sourceMap } = .error failure) :
          transformWith parse source { options with sourceMap } = .error failure := by
        rw [transformWith, if_neg (by simp [isRead]), fails]
        rfl
      rw [failing true parses, failing false (same.symm.trans parses)]
    | ok parsed =>
      rw [transformWith_eq_lower (isRead true) parses,
        transformWith_eq_lower (isRead false) (same.symm.trans parses)]
      exact seen_lower source options parsed (aligned parsed parses)

/-- A run that is asked for a source map and one that is not come to the same: one failure, one
refused edit, or one text with the same flags. The nodes have to end at boundaries and the rules
have to edit at boundaries, which they do in every text of ASCII characters, whatever the tree
and the tokens are. The same holds of a buffer after every call: calls that only mark can be
left out. -/
theorem source_map_only_observes (parse : Text → Options → Except Failure Parsed) (source : Text)
    (options : Options)
    (same : parse source { options with sourceMap := true } =
      parse source { options with sourceMap := false }) :
    ((source.IsAscii ∨ ∀ parsed, parse source { options with sourceMap := true } = .ok parsed →
        (∀ node ∈ parsed.program.nodes, ∀ offset ∈ [node.start, node.stop],
          offset ≤ source.bytes → source.IsBoundary offset) ∧
        ∀ edit ∈ (Lowering.visitEffect ⟨source, parsed.tokens, parsed.lines⟩ false
          parsed.program {}).edits, edit.Aligned source) →
      (transformWith parse source { options with sourceMap := true }).map Transformed.seen =
        (transformWith parse source { options with sourceMap := false }).map Transformed.seen) ∧
    (source.IsAscii → (transform source { options with sourceMap := true }).map Transformed.seen =
      (transform source { options with sourceMap := false }).map Transformed.seen) ∧
    ∀ operations : List Edit.Operation,
      (source.IsAscii ∨ ∀ operation ∈ operations, operation.Aligned source) →
      ∀ made, made <+: operations →
        ((Edit.Buffer.ofText source).perform made).map Edit.Buffer.seen =
          ((Edit.Buffer.ofText source).perform
            (made.filter fun operation => !operation.isMark)).map Edit.Buffer.seen := by
  refine ⟨fun aligned => ?_, fun ascii => ?_, fun operations aligned made front => ?_⟩
  · refine Transform.seen_transformWith same fun parsed parses => ?_
    rcases aligned with ascii | boundaries
    · exact fun edit _ => edit.aligned_of_isAscii ascii
    · obtain ⟨ends, rules⟩ := boundaries parsed parses
      exact Lowering.aligned_visitEffect ends rules
  · -- the reader of the program does not look at the option
    exact Transform.seen_transformWith rfl fun _ _ edit _ => edit.aligned_of_isAscii ascii
  · apply Edit.seen_perform_filter
    intro operation member
    rcases aligned with ascii | boundaries
    · exact operation.aligned_of_isAscii ascii
    · exact boundaries operation (front.subset member)

/-- Five ends of nodes show up in the source map, and neither they nor the marks between the edits
of a buffer show in the text. -/
theorem source_map_only_observes_astral :
    let source := astralArrow.tokens.source
    let seen (sourceMap : Bool) := (transformWith (fun _ _ => .ok astralArrow) source
      { sourceMap, includeHelper := false }).map Transformed.seen
    let calls : List Edit.Operation :=
      [.mark 1, .moveRange 8 13 1, .mark 8, .insertAfter 1 ['x'], .mark 5]
    seen true = seen false ∧
      (seen false).toOption = some ("\"😀\";\né=>__async(function*()\x7breturn yield é\x7d())".toList,
        true, { asyncFunction := true }) ∧
      ((Edit.Buffer.ofText source).perform calls).map Edit.Buffer.seen =
        ((Edit.Buffer.ofText source).perform [.moveRange 8 13 1, .insertAfter 1 ['x']]).map
          Edit.Buffer.seen := by
  intro source seen calls
  have both := source_map_only_observes (fun _ _ => .ok astralArrow) source
    { includeHelper := false } rfl
  refine ⟨both.1 (.inr fun parsed parses => ?_), by decide +kernel,
    both.2.2 calls (.inr (by decide +kernel)) calls List.prefix_rfl⟩
  obtain rfl := Except.ok.inj parses
  exact ⟨by decide +kernel, by decide +kernel⟩

/-- A mark inside the two bytes of a character does show: both parts of the text are empty. -/
example : ((Edit.Buffer.ofText ['é']).perform [.mark 1]).toOption.map Edit.Buffer.seen =
    some ([], false) := by
  decide

end Unawait
