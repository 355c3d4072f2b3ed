import Mathlib
import Unawait.Proofs.HelperUsage

/-!
# Passing a source through

A source without the word `async` is passed through without being read. Reading it would
not change the result: where no construct with a record of its own is async, every record
that a walk ever holds is not async either, whatever it is put aside for or taken back
from, and every rule is guarded by the record of its node. So the walk makes no call on
the buffer but marks, and marks at boundaries do not change a text.

A mark inside a character does: a slice that ends there is empty. This is why the offsets
of the nodes have to be boundaries where a source map is asked for.
-/

namespace Unawait.Edit

/-- Calls that only mark change nothing but the marks. -/
theorem perform_marks (buffer : Buffer) {operations : List Operation}
    (marking : ∀ operation ∈ operations, operation.isMark = true) :
    ∃ marks, buffer.perform operations = .ok { buffer with marks } := by
  induction operations generalizing buffer with
  | nil => exact ⟨buffer.marks, rfl⟩
  | cons operation rest ih =>
    simp only [List.mem_cons, forall_eq_or_imp] at marking
    obtain ⟨offset, rfl⟩ : ∃ offset, operation = .mark offset := by
      cases operation <;> simp [Operation.isMark] at marking
      exact ⟨_, rfl⟩
    obtain ⟨marks, performed⟩ := ih (buffer.mark offset) marking.2
    refine ⟨marks, performed.trans ?_⟩
    unfold Buffer.mark
    split <;> rfl

/-- Marks at boundaries do not change a text. -/
theorem code_of_marks {source : Text} {marks : List Nat}
    (aligned : Buffer.Aligned source { Buffer.ofText source with marks }) :
    ({ Buffer.ofText source with marks } : Buffer).code = source := by
  have unmoved (destination : Nat) :
      ({ Buffer.ofText source with marks } : Buffer).movedTo destination = [] := rfl
  by_cases empty : source.bytes = 0
  · obtain rfl : source = [] := by
      cases source with
      | nil => rfl
      | cons c rest =>
        have positive := Char.utf8Size_pos c
        simp only [Text.bytes] at empty
        omega
    rfl
  · have text := code_marked source.isBoundary_zero source.isBoundary_bytes (Nat.zero_le _)
      (aligned.sorted.filter fun offset => 0 ≤ offset && offset < source.bytes)
      (by
        intro mark marked
        simp only [List.mem_filter, Bool.and_eq_true, decide_eq_true_eq] at marked
        omega)
      (fun mark marked => aligned.marks mark (List.mem_of_mem_filter marked))
    rw [Text.slice_all] at text
    simp only [Buffer.code, Buffer.pieces, unmoved]
    simpa [Buffer.ofText, empty, Buffer.isMoved, Buffer.chunkPieces, Piece.code] using text

end Unawait.Edit

namespace Unawait.Lowering

open Edit (Operation)

section Sync

variable {reading : Reading} {sourceMap : Bool}

theorem Effect.ofEdits_andThen (first second : List Operation) :
    (ofEdits first).andThen (ofEdits second) = ofEdits (first ++ second) := rfl

theorem partsEffect_of_marks {parts : List ((Field × Node) × Place)}
    {marks : Node → List Operation}
    (each : ∀ placed ∈ parts,
      visitEffect reading sourceMap placed.1.2 placed.2 = .ofEdits (marks placed.1.2)) :
    partsEffect reading sourceMap parts =
      .ofEdits ((parts.map Prod.fst).flatMap fun part => marks part.2) := by
  induction parts with
  | nil => rfl
  | cons placed rest ih =>
    rw [partsEffect_cons, each placed (by simp), ih fun other member => each other (by simp [member]),
      Effect.ofEdits_andThen, List.map_cons, List.flatMap_cons]

/-- Outside of async code a visit makes no calls but marks. -/
theorem visitEffect_of_sync {node : Node} {place : Place} (sync : place.scope.isAsync = false)
    (none : ∀ inner ∈ node.nodes, inner.opensScope = true → inner.flags.isAsync = false) :
    visitEffect reading sourceMap node place =
      .ofEdits (node.nodes.flatMap (markEdits sourceMap)) := by
  induction node using Node.parts_induction generalizing place with
  | _ node ih =>
    rw [Node.nodes_eq] at none ⊢
    simp only [List.mem_cons, List.mem_flatMap, forall_eq_or_imp] at none
    have parts := @partsEffect_of_marks reading sourceMap (places node place)
      (fun inner => inner.nodes.flatMap (markEdits sourceMap)) ?_
    · rw [places, placesFrom_fst] at parts
      rw [visitEffect_eq, places, parts, nodeEffect_of_not_async sync none.1,
        List.flatMap_cons, List.flatMap_assoc]
      have quiet : ({} : Effect).scopeless = .ofEdits [] := rfl
      rw [quiet, Effect.ofEdits_andThen, Effect.ofEdits_andThen, List.append_nil]
    · intro placed member
      have part := mem_parts_of_places member
      refine ih placed.1 part ?_ fun inner inside => none.2 inner ⟨placed.1, part, inside⟩
      -- a part is evaluated in the scope around it or in the node's own, and neither is async
      rw [(mem_placesFrom member).1, scopeOf]
      split
      next own => exact none.1 (opensScope_of_belongs own)
      next => exact sync

end Sync

end Unawait.Lowering

namespace Unawait

/-- Lowering a source whose tree has no async construct changes nothing. -/
theorem Transform.lower_of_sync {source : Text} {options : Options} {parsed : Parsed}
    (none : ∀ node ∈ parsed.program.nodes, node.opensScope = true → node.flags.isAsync = false)
    (aligned : options.sourceMap = true → ∀ node ∈ parsed.program.nodes,
      ∀ offset ∈ [node.start, node.stop], offset ≤ source.bytes → source.IsBoundary offset) :
    ∃ transformed, lower source options parsed = .ok transformed ∧
      transformed.code = source ∧ transformed.edited = false ∧ transformed.usage = {} := by
  let calls := parsed.program.nodes.flatMap (Lowering.markEdits options.sourceMap)
  have effect : Lowering.visitEffect ⟨source, parsed.tokens, parsed.lines⟩ options.sourceMap
      parsed.program {} = .ofEdits calls := Lowering.visitEffect_of_sync rfl none
  have marking : ∀ call ∈ calls, call.isMark = true ∧ call.Aligned source := by
    intro call made
    obtain ⟨node, member, own⟩ := List.mem_flatMap.mp made
    unfold Lowering.markEdits at own
    split at own
    next asked =>
      have ends := aligned asked node member
      rcases List.mem_pair.mp own with rfl | rfl
      · exact ⟨rfl, by simpa [Edit.Operation.Aligned, Edit.Operation.offsets] using ends _ (by simp)⟩
      · exact ⟨rfl, by simpa [Edit.Operation.Aligned, Edit.Operation.offsets] using ends _ (by simp)⟩
    next => simp at own
  obtain ⟨marks, performed⟩ := Edit.perform_marks (.ofText source)
    fun call made => (marking call made).1
  have boundaries := (Edit.Buffer.aligned_ofText source).perform calls
    (fun call made => (marking call made).2) performed
  let start := Lowering.State.ofSource source parsed.tokens parsed.lines options.sourceMap
  have applied : (Lowering.Effect.ofEdits calls).apply start =
      .ok { start with buffer := { Edit.Buffer.ofText source with marks } } := by
    have accepted : start.buffer.perform calls = .ok { Edit.Buffer.ofText source with marks } :=
      performed
    simp [Lowering.Effect.apply, Lowering.Effect.ofEdits, accepted, Lowering.Effect.settle]
  have finished : lower source options parsed = .ok (finish source options
      { start with buffer := { Edit.Buffer.ofText source with marks } }) := by
    rw [lower_eq, effect, applied]
    rfl
  exact ⟨_, finished, Edit.code_of_marks boundaries, rfl, rfl⟩

/-- Lowering a source whose tree has no async construct succeeds and changes nothing, whatever
else the tree holds. So, if only a source with the word `async` gives an async node, a source
without the word that can be lowered comes out as if it were passed through. Where a source map
is asked for, the offsets of the nodes have to be boundaries. -/
theorem fast_skip_agrees (parse : Text → Options → Except Failure Parsed) (source : Text)
    (options : Options)
    (aligned : ∀ parsed, parse source options = .ok parsed → options.sourceMap = true →
      ∀ node ∈ parsed.program.nodes, ∀ offset ∈ [node.start, node.stop],
        offset ≤ source.bytes → source.IsBoundary offset) :
    (∀ parsed, parse source options = .ok parsed → Transform.skips source options = false →
      (∀ node ∈ parsed.program.nodes, node.opensScope = true → node.flags.isAsync = false) →
      ∃ transformed, transformWith parse source options = .ok transformed ∧
        transformed.code = source ∧ transformed.edited = false ∧ transformed.usage = {}) ∧
    (options.fastSkip = false → Text.occursIn "async".toList source = false →
      (∀ parsed, parse source options = .ok parsed →
        ∀ node ∈ parsed.program.nodes, node.flags.isAsync = true →
          Text.occursIn "async".toList source = true) →
      ∀ transformed, transformWith parse source options = .ok transformed →
        ∃ skipped, transformWith parse source { options with fastSkip := true } = .ok skipped ∧
          transformed.code = skipped.code ∧ transformed.edited = skipped.edited ∧
          transformed.usage = skipped.usage) := by
  constructor
  · intro parsed parses isRead none
    rw [Transform.transformWith_eq_lower isRead parses]
    exact Transform.lower_of_sync none (aligned parsed parses)
  · intro slow absent honest transformed done
    have isRead : Transform.skips source options = false := by simp [Transform.skips, slow]
    cases parses : parse source options with
    | error failure =>
      rw [transformWith, if_neg (by simp [isRead]), parses] at done
      simp at done
    | ok parsed =>
      have none : ∀ node ∈ parsed.program.nodes, node.opensScope = true →
          node.flags.isAsync = false := by
        intro node member _
        by_contra async
        have occurs := honest parsed parses node member (by simpa using async)
        rw [absent] at occurs
        exact Bool.false_ne_true occurs
      rw [Transform.transformWith_eq_lower isRead parses] at done
      obtain ⟨unchanged, lowered, code, edited, usage⟩ :=
        Transform.lower_of_sync none (aligned parsed parses)
      obtain rfl := Except.ok.inj (done.symm.trans lowered)
      refine ⟨Transformed.unchanged source { options with fastSkip := true }, ?_, code, edited, usage⟩
      rw [transformWith, if_pos (by rw [Transform.skips, absent]; rfl)]

/-- The program `é;for await(x of y)await z`, with a node that ends at the given offset. -/
def awaitsOutside (stop : Nat) : Parsed :=
  let source := "é;for await(x of y)await z".toList
  let body := .plain .awaitExpression ⟨20, 27⟩ [.one .argument (.plain .identifier ⟨26, 27⟩ [])]
  let loop := .mk { kind := .forOfStatement, span := ⟨3, 27⟩, flags := { isAwait := true } }
    [.one .left (.plain .identifier ⟨13, 14⟩ []), .one .right (.plain .identifier ⟨18, 19⟩ []),
      .one .body body]
  { program := .plain .program ⟨0, 27⟩ [.many .children [.plain .identifier ⟨0, stop⟩ [], loop]]
    tokens := ⟨source, #[]⟩
    lines := .ofText source }

/-- Neither the loop nor the `await` is in async code, and no token is looked for. -/
theorem fast_skip_agrees_outside :
    let source := (awaitsOutside 2).tokens.source
    let slow : Options := { fastSkip := false, sourceMap := true }
    ∃ transformed skipped,
      transformWith (fun _ _ => .ok (awaitsOutside 2)) source slow = .ok transformed ∧
      transformWith (fun _ _ => .ok (awaitsOutside 2)) source { slow with fastSkip := true } =
        .ok skipped ∧
      transformed.code = source ∧ transformed.code = skipped.code ∧
      transformed.edited = skipped.edited ∧ transformed.usage = skipped.usage := by
  intro source slow
  have both := fast_skip_agrees (fun _ _ => .ok (awaitsOutside 2)) source slow (by
    intro parsed parses _
    obtain rfl := Except.ok.inj parses
    decide)
  obtain ⟨transformed, done, code, -, -⟩ := both.1 (awaitsOutside 2) rfl rfl (by decide)
  obtain ⟨skipped, passed, agrees⟩ := both.2 rfl (by decide) (by
    intro parsed parses
    obtain rfl := Except.ok.inj parses
    decide) transformed done
  exact ⟨transformed, skipped, done, passed, code, agrees⟩

/-- A mark inside the two bytes of a character loses the text from the mark before it to the one
behind it. -/
example : (transformWith (fun _ _ => .ok (awaitsOutside 1)) (awaitsOutside 1).tokens.source
    { fastSkip := false, sourceMap := true }).toOption.map Transformed.code =
    some "for await(x of y)await z".toList := by
  decide

end Unawait
