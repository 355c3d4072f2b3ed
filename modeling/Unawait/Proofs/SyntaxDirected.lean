import Mathlib
import Unawait.Proofs.AcceptedRanges
import Unawait.Proofs.Alignment
import Unawait.Transform

/-!
# A transform is a translation of the tree

The edits of a walk are made on a buffer, in the order in which nodes are left. Whenever
they are all accepted the result is the translation of the tree, which is defined by
recursion on it: the text of a rewritten node is its own bytes, changed as its rule says,
with the translations of its parts between them.

That the edits are accepted is what makes the translation meaningful: two ranges that are
replaced have no byte in common, so nothing that a rule replaces as a whole has a rewritten
node in it, and likewise for what a rule moves.
-/

namespace Unawait.Edit

namespace History

/-- A rendering depends on texts, replacements and moves only. -/
theorem rendering_congr {first second : History} (source : Text)
    (before : ∀ offset, first.textBefore offset = second.textBefore offset)
    (after : ∀ offset, first.textAfter offset = second.textAfter offset)
    (replaced : first.replacements = second.replacements) (moved : first.moves = second.moves)
    (appended : first.appended = second.appended) :
    first.rendering source = second.rendering source := by
  have cell : first.cell source = second.cell source := by
    funext index
    simp only [History.cell, body, replacementAt?, before, after, replaced]
  have arriving : first.arriving source = second.arriving source := by
    funext destination
    simp only [History.arriving, cells, cell, moved]
  have isMoved : first.isMoved = second.isMoved := by
    funext index
    simp only [History.isMoved, moved]
  have place : first.place source = second.place source := by
    funext index
    simp only [History.place, arriving, isMoved, cell]
  simp only [rendering, arriving, before, after, appended, place]

/-- Marks leave no trace in a rendering. -/
theorem rendering_filter (source : Text) (history : History) :
    rendering source (history.filter fun operation => !operation.isMark) =
      history.rendering source := by
  have texts {part : Operation → Text} (none : ∀ offset, part (.mark offset) = [])
      (operations : List Operation) :
      (operations.filter fun operation => !operation.isMark).flatMap part =
        operations.flatMap part := by
    induction operations with
    | nil => rfl
    | cons operation rest ih =>
      cases marks : operation.isMark with
      | false => simp [marks, ih]
      | true => cases operation <;> simp_all [Operation.isMark]
  have ranges {α : Type} {part : Operation → Option α} (none : ∀ offset, part (.mark offset) = none) :
      (history.filter fun operation => !operation.isMark).filterMap part =
        history.filterMap part := by
    induction history with
    | nil => rfl
    | cons operation rest ih =>
      cases marks : operation.isMark with
      | false => simp [List.filterMap_cons, marks, ih]
      | true => cases operation <;> simp_all [Operation.isMark]
  apply rendering_congr
  · exact fun offset => texts (fun _ => rfl) history
  · intro offset
    rw [textAfter, textAfter, ← List.filter_reverse]
    exact texts (fun _ => rfl) history.reverse
  · exact ranges fun _ => rfl
  · exact ranges fun _ => rfl
  · exact texts (fun _ => rfl) history

end History

end Unawait.Edit

namespace Unawait.Lowering

open Edit (Operation History)

section Script

variable {reading : Reading}

/-- Calls that are accepted one after another do not replace or move a byte twice. -/
theorem clean_of_perform {source : Text} {operations : List Operation} {buffer : Edit.Buffer}
    (performed : (Edit.Buffer.ofText source).perform operations = .ok buffer) :
    operations.Pairwise Clean := by
  have replaced := (Edit.Buffer.reflects_ofText source).replacements_pairwise performed
    (by simp [History.replacements])
  have moved := (Edit.Buffer.reflects_ofText source).moves_pairwise performed
    (by simp [History.moves])
  rw [List.nil_append, History.replacements, List.pairwise_filterMap] at replaced
  rw [List.nil_append, History.moves, List.pairwise_filterMap] at moved
  exact (replaced.and moved).imp fun both => ⟨fun here found there again => both.1 here found there again,
    fun here found there again => both.2 here found there again⟩

theorem calls_clean {sourceMap : Bool} {node : Node} {place : Place}
    (clean : (script reading sourceMap node place).Pairwise Clean) :
    (calls reading (node, place)).Pairwise Clean := by
  have kept := clean.filter fun edit => !edit.isMark
  rw [filter_script] at kept
  refine (List.pairwise_filter.mp kept).imp ?_
  intro first second both
  cases firstMark : first.isMark with
  | true => cases first <;> simp_all [Operation.isMark, Clean, Operation.replaced?, Operation.moved?]
  | false =>
    cases secondMark : second.isMark with
    | true => cases second <;> simp_all [Operation.isMark, Clean, Operation.replaced?, Operation.moved?]
    | false => exact both (by simp [firstMark]) (by simp [secondMark])

end Script

/-- If a walk through a tree that fits its text succeeds, the edited text is the translation of
the tree. -/
theorem encode_code_of_walk {source : Text} {tokens : Tokens} {lines : Lines} {sourceMap : Bool}
    {root : Node} (ordered : tokens.Ordered) (wellFormed : root.wellFormed tokens = true)
    (tokensAligned : tokens.Aligned source) (aligned : root.aligned source = true) {final : State}
    (walked : Walk.walk visitor root (.ofSource source tokens lines sourceMap) = .ok () final) :
    final.buffer.code.encode = translated ⟨source, tokens, lines⟩ root := by
  let start := State.ofSource source tokens lines sourceMap
  let reading : Reading := ⟨source, tokens, lines⟩
  have fit : Fit reading root {} := ⟨wellFormed, by simp [Seated]⟩
  have inSource : root.stop ≤ source.bytes := (aligned_stop aligned).le
  have walk : result (Walk.walk visitor root) start =
      (visitEffect start.reading sourceMap root {}).apply start >>= fun next =>
        .ok { next with scopes := scopesAfter root {} start.scopes } := result_walk root start rfl rfl
  rw [result_of_ok walked] at walk
  cases applied : (visitEffect start.reading sourceMap root {}).apply start with
  | error failure =>
    rw [applied] at walk
    simp at walk
  | ok next =>
    obtain ⟨succeeded, performed, -⟩ := Effect.apply_eq_ok applied
    rw [applied, ok_bind] at walk
    obtain rfl := Except.ok.inj walk
    rw [(plays root {}).ends succeeded] at performed
    have played : (Edit.Buffer.ofText source).perform (script reading sourceMap root {}) =
      .ok next.buffer := performed
    have atBoundaries : ∀ edit ∈ script reading sourceMap root {}, edit.Aligned source :=
      fun edit made offset named _ =>
        script_aligned ordered tokensAligned aligned (by simp) fit sourceMap edit made offset named
    -- that the buffer took all calls is what rules out overlaps
    have clean := calls_clean (clean_of_perform played)
    have whole := shows_translated ordered fit (visible_of_clean ordered fit clean)
      (steady_of_clean ordered fit clean) inSource
    have within : ∀ edit ∈ calls reading (root, {}), edit.Within 0 source.bytes := by
      intro edit made
      rcases calls_within ordered fit edit made with inside | guest
      · exact inside.mono (Nat.zero_le _) inSource
      · simp [guests_root] at guest
    calc next.buffer.code.encode
        = History.rendering source (script reading sourceMap root {}) :=
          Edit.encode_code ((Edit.Buffer.reflects_ofText source).perform _ played)
            ((Edit.Buffer.aligned_ofText source).perform _ atBoundaries played)
      _ = History.rendering source (calls reading (root, {})) := by
          rw [← History.rendering_filter, filter_script, History.rendering_filter]
      _ = translated reading root := Edit.rendering_of_shows whole within

end Unawait.Lowering

namespace Unawait

/-- Where a source is read and not passed through, and no definitions are put behind it, the
result of a transform is the translation of the tree that was read: every rewritten node
becomes the text that its rule makes of its own bytes and of the translations of its parts, and
all other bytes stay. -/
theorem transform_eq_translation (parse : Text → Options → Except Failure Parsed) (source : Text)
    (options : Options) (parsed : Parsed) (transformed : Transformed)
    (isRead : Transform.skips source options = false) (bare : options.includeHelper = false)
    (parses : parse source options = .ok parsed) (ordered : parsed.tokens.Ordered)
    (wellFormed : parsed.program.wellFormed parsed.tokens = true)
    (tokensAligned : parsed.tokens.Aligned source)
    (aligned : parsed.program.aligned source = true)
    (done : transformWith parse source options = .ok transformed) :
    transformed.code.encode =
      Lowering.translated ⟨source, parsed.tokens, parsed.lines⟩ parsed.program := by
  rw [transformWith, if_neg (by simp [isRead]), parses] at done
  change Transform.lower source options parsed = .ok transformed at done
  rw [Transform.lower] at done
  cases walked : Walk.walk Lowering.visitor parsed.program
      (.ofSource source parsed.tokens parsed.lines options.sourceMap) with
  | error failure stopped => simp [walked] at done
  | ok value final =>
    simp only [walked, Except.ok.injEq] at done
    subst done
    simp only [Transform.finish, bare, Bool.and_false, Bool.false_eq_true, if_false]
    exact Lowering.encode_code_of_walk ordered wellFormed tokensAligned aligned walked

/-- The program `async()=>{a:for await(x of y)z}`. -/
def labelledLoop : Parsed :=
  let source := "async()=>\x7ba:for await(x of y)z\x7d".toList
  let loop := .mk { kind := .forOfStatement, span := ⟨12, 30⟩, flags := { isAwait := true } }
    [.one .left (.plain .identifier ⟨22, 23⟩ []), .one .right (.plain .identifier ⟨27, 28⟩ []),
      .one .body (.plain .statement ⟨29, 30⟩ [])]
  let body := .plain .blockStatement ⟨9, 31⟩
    [.many .children [.plain .labeledStatement ⟨10, 30⟩ [.one .body loop]]]
  let arrow := .mk { kind := .arrowFunctionExpression, span := ⟨0, 31⟩, flags := { isAsync := true } }
    [.many .params [], .one .body body]
  { program := .plain .program ⟨0, 31⟩ [.many .children [arrow]]
    tokens := ⟨source, #[⟨0, 5⟩, ⟨5, 6⟩, ⟨6, 7⟩, ⟨7, 9⟩, ⟨9, 10⟩, ⟨10, 11⟩, ⟨11, 12⟩, ⟨12, 15⟩,
      ⟨16, 21⟩, ⟨21, 22⟩, ⟨22, 23⟩, ⟨24, 26⟩, ⟨27, 28⟩, ⟨28, 29⟩, ⟨29, 30⟩, ⟨30, 31⟩]⟩
    lines := .ofText source }

def labelledLoopCode : Text :=
  ("()=>__async(function*()\x7btry\x7ba:for (var $d0=1,$e0,$s0,$i0=__asyncIterator(y);"
    ++ "$d0=1,!($s0=yield $i0.next()).done&&!($d0=0);)\x7b(x=$s0.value);z\x7d\x7d"
    ++ "catch($x0)\x7b$e0=\x7be:$x0\x7d\x7d"
    ++ "finally\x7btry\x7b$d0||!$i0.return||(yield $i0.return())\x7d"
    ++ "catch($x0)\x7bif(!$e0)throw $x0\x7dif($e0)throw $e0.e\x7d\x7d())").toList

/-- What lowering this program gives. -/
def labelledLoopRun : Evaluated (transformWith (fun _ _ => .ok labelledLoop)
    labelledLoop.tokens.source { includeHelper := false }) Transformed.code
    labelledLoopCode :=
  .ofSpelled (Text.toList_literals _ _ _ _ _) (by decide +kernel)

/-- The loop is lowered, its target moves into the body, the `try` goes in front of the label, and
the arrow wraps all of it. -/
theorem transform_eq_translation_labelled_loop :
    let source := labelledLoop.tokens.source
    ∃ transformed, transformWith (fun _ _ => .ok labelledLoop) source { includeHelper := false } =
        .ok transformed ∧
      transformed.code = labelledLoopCode ∧
      transformed.code.encode = Lowering.translated
        ⟨source, labelledLoop.tokens, labelledLoop.lines⟩ labelledLoop.program := by
  intro source
  obtain ⟨transformed, done, code⟩ := labelledLoopRun
  exact ⟨transformed, done, code,
    transform_eq_translation _ source _ labelledLoop transformed (by decide +kernel) rfl rfl
      (by decide +kernel) (by decide +kernel) (by decide +kernel) (by decide +kernel) done⟩

end Unawait
