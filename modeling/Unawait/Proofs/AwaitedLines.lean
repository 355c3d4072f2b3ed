import Mathlib
import Unawait.Grammar.Program
import Unawait.Proofs.RunCalls

/-!
# Awaits over a line break

A `yield` must not be followed by a line break, while an `await` may be. So where the operand
of an `await` is on another line, the operand is put in parentheses that open right behind
the `yield`. Lines are those of the text, and a line ends with a line feed only: the
parentheses are put exactly if a line feed is among the bytes from the keyword to the operand,
in white space or in a comment. The other characters that end a line of a program, a carriage
return and the separators U+2028 and U+2029, make no difference, and a `yield` in front of
one of them stays bare.
-/

namespace Unawait

/-- The lines that come with what was read are those of the source. -/
theorem lines_of_parse {source : Text} {options : Options} {parsed : Parsed}
    (parses : parse source options = .ok parsed) : parsed.lines = .ofText source := by
  rw [parse] at parses
  cases read : Program.read (Program.withoutMark source)
      { jsx := options.jsx, typescript := options.typescript } with
  | error place => simp [read] at parses
  | ok result =>
    rw [read] at parses
    rw [← Except.ok.inj parses]

end Unawait

namespace Unawait.Lowering

/-- Whether the innermost scope that slots lead into is that of a generator. -/
def inGeneratorScope (trail : Trail) : Bool :=
  (home trail).head?.any fun slot => slot.1.flags.isGenerator

theorem isGenerator_scopeAlong (trail : Trail) :
    (scopeAlong {} trail).isGenerator = inGeneratorScope trail := by
  rw [scopeAlong_eq, inGeneratorScope]
  cases (home trail).head? <;> rfl

/-- The text in place of an `await`, in parentheses where it is an operand itself, and with
parentheses around what follows. -/
def yieldOpening (outer inner : Bool) : Text :=
  (if outer then ['('] else []) ++ "yield".toList ++ if inner then ['('] else []

/-- The text behind the operand of such an `await`. -/
def yieldClosing (outer inner : Bool) : Text :=
  (if inner then [')'] else []) ++ if outer then [')'] else []

theorem awaitTexts_eq (outer inner : Bool) :
    awaitTexts false outer inner = (yieldOpening outer inner, yieldClosing outer inner) := by
  cases outer <;> cases inner <;> rfl

/-- The calls of the rule for an `await` outside of generators. -/
theorem edits_awaitEffect {reading : Reading} {scope : Scope} {node argument : Node}
    {parent : Walk.Parent} (held : node.child? .argument = some argument)
    (async : scope.isAsync = true) (plain : scope.isGenerator = false)
    (done : (awaitEffect reading scope node parent).failure = none) :
    let crosses := reading.lines.crosses node.start argument.start
    .overwrite node.start (node.start + 5) (yieldOpening (needsParentheses parent) crosses) ∈
        (awaitEffect reading scope node parent).edits ∧
      (yieldClosing (needsParentheses parent) crosses ≠ [] →
        .insertBefore node.stop (yieldClosing (needsParentheses parent) crosses) ∈
          (awaitEffect reading scope node parent).edits) := by
  have marker : scope.isAsyncGenerator = false := by simp [Scope.isAsyncGenerator, plain]
  simp only [awaitEffect, held, async, if_true, marker, awaitTexts_eq] at done ⊢
  split at done
  case isFalse => simp [Effect.failing] at done
  case isTrue keyword =>
    rw [if_pos keyword]
    refine ⟨by simp [Effect.ofEdits], fun closing => ?_⟩
    simp [Effect.ofEdits, closing]

end Unawait.Lowering

namespace Unawait

open Lowering

/-- In a run that reads its source with its lines, as `parse` does, and succeeds, each `await` of
an async function that is no generator becomes a `yield`. The text in place of the keyword ends
with a parenthesis, and the matching one is put behind the operand, exactly if a line feed is
between the beginning of the `await` and its operand. -/
theorem yield_wraps_iff_line_feed (parse : Text → Options → Except Failure Parsed) (source : Text)
    (options : Options) (parsed : Parsed) (transformed : Transformed)
    (isRead : Transform.skips source options = false)
    (parses : parse source options = .ok parsed) (lined : parsed.lines = .ofText source)
    (done : transformWith parse source options = .ok transformed) :
    (∀ read, Unawait.parse source options = .ok read → read.lines = .ofText source) ∧
    Edit.Made source (Transform.calls source options parsed) transformed.code ∧
    ∀ trail node argument, Leads parsed.program trail node → node.is .awaitExpression = true →
      node.child? .argument = some argument → inAsyncScope trail = true →
      inGeneratorScope trail = false →
      ∃ wraps, (wraps = true ↔ source.FeedBetween node.start argument.start) ∧
        Edit.History.Becomes source (Transform.calls source options parsed)
          ⟨node.start, node.start + 5⟩ (yieldOpening (needsParentheses trail.head?) wraps) ∧
        yieldClosing (needsParentheses trail.head?) wraps <:+:
          Edit.History.textBefore (Transform.calls source options parsed) node.stop := by
  rw [Transform.transformWith_eq_lower isRead parses] at done
  have made := Transform.made_of_lower done
  refine ⟨fun read => lines_of_parse, made,
    fun trail node argument leads kind held async plain => ?_⟩
  have kind : node.kind = .awaitExpression := by simpa [Node.is] using kind
  have closed : node.opensScope = false := by simp [Node.opensScope, Node.is, kind, Kind.ownsReceiver]
  obtain ⟨number, succeeds, within⟩ := Transform.ruleEffect_of_lower done leads closed
  simp only [ruleEffect, kind] at succeeds within
  obtain ⟨opened, closing⟩ := edits_awaitEffect held ((isAsync_scopeAlong trail).trans async)
    ((isGenerator_scopeAlong trail).trans plain) succeeds
  refine ⟨_, ?_, made.becomes (within.subset opened) rfl, ?_⟩
  · rw [lined]
    exact Lines.crosses_iff source node.start argument.start
  · by_cases bare : yieldClosing (needsParentheses trail.head?)
        (parsed.lines.crosses node.start argument.start) = []
    · rw [bare]
      exact List.nil_infix
    · exact Edit.textBefore_of_mem (within.subset (closing bare))

/-- The first `await` in `async function f(){await↵x;await␍y}`, where `↵` is a carriage return
and a line feed. -/
def awaitBeforeFeed : Node :=
  .plain .awaitExpression ⟨19, 27⟩ [.one .argument (.plain .identifier ⟨26, 27⟩ [])]

/-- The second `await` there, where `␍` is a carriage return alone. -/
def awaitBeforeReturn : Node :=
  .plain .awaitExpression ⟨28, 35⟩ [.one .argument (.plain .identifier ⟨34, 35⟩ [])]

/-- The program `async function f(){await↵x;await␍y}`. -/
def brokenAwaits : Parsed :=
  let source := "async function f()\x7bawait\r\nx;await\ry\x7d".toList
  let first := .plain .statement ⟨19, 28⟩ [.many .children [awaitBeforeFeed]]
  let second := .plain .statement ⟨28, 35⟩ [.many .children [awaitBeforeReturn]]
  let function := .mk
    { kind := .functionDeclaration, span := ⟨0, 36⟩, flags := { isAsync := true } }
    [.many .params [], .one .body (.plain .blockStatement ⟨18, 36⟩ [.many .children [first, second]])]
  { program := .plain .program ⟨0, 36⟩ [.many .children [function]]
    tokens := ⟨source, #[⟨0, 5⟩, ⟨6, 14⟩, ⟨15, 16⟩, ⟨16, 17⟩, ⟨17, 18⟩, ⟨18, 19⟩, ⟨19, 24⟩,
      ⟨26, 27⟩, ⟨27, 28⟩, ⟨28, 33⟩, ⟨34, 35⟩, ⟨35, 36⟩]⟩
    lines := .ofText source }

/-- What lowering this program gives. -/
def brokenAwaitsRun : Evaluated (transformWith (fun _ _ => .ok brokenAwaits)
    brokenAwaits.tokens.source { includeHelper := false }) Transformed.code
    "function f()\x7breturn __async(function*()\x7byield(\r\nx);yield\ry\x7d())\x7d".toList :=
  .ofView (by decide +kernel)

/-- The operand behind a line feed is put in parentheses. The one behind a carriage return is
not, so that the line ends between the `yield` and its operand. -/
theorem yield_wraps_iff_line_feed_carriage_return :
    let source := brokenAwaits.tokens.source
    let calls := Transform.calls source { includeHelper := false } brokenAwaits
    ∃ transformed,
      transformWith (fun _ _ => .ok brokenAwaits) source { includeHelper := false } =
        .ok transformed ∧
      transformed.code =
        "function f()\x7breturn __async(function*()\x7byield(\r\nx);yield\ry\x7d())\x7d".toList ∧
      Edit.History.Becomes source calls ⟨19, 24⟩ "yield(".toList ∧
      [')'] <:+: Edit.History.textBefore calls awaitBeforeFeed.stop ∧
      Edit.History.Becomes source calls ⟨28, 33⟩ "yield".toList := by
  intro source calls
  obtain ⟨transformed, done, code⟩ := brokenAwaitsRun
  obtain ⟨-, -, awaits⟩ := yield_wraps_iff_line_feed _ source { includeHelper := false } brokenAwaits
    transformed (by decide +kernel) rfl rfl done
  have feed : Leads brokenAwaits.program _ awaitBeforeFeed :=
    .part (.part (.part (.part .root (.head _)) (.head _)) (.head _)) (.head _)
  have returned : Leads brokenAwaits.program _ awaitBeforeReturn :=
    .part (.part (.part (.part .root (.head _)) (.head _)) (.tail _ (.head _))) (.head _)
  obtain ⟨wrapped, between, opened, closed⟩ := awaits _ _ _ feed rfl rfl rfl rfl
  obtain ⟨bare, apart, kept, -⟩ := awaits _ _ _ returned rfl rfl rfl rfl
  have held : source.FeedBetween 19 26 := ⟨25, by decide, by decide, by decide +kernel⟩
  have absent : ¬ source.FeedBetween 28 34 := by
    rw [← Lines.crosses_iff]
    decide +kernel
  obtain rfl : wrapped = true := between.mpr held
  obtain rfl : bare = false := by simpa using mt apart.mp absent
  exact ⟨transformed, done, code, opened, closed, kept⟩

end Unawait
