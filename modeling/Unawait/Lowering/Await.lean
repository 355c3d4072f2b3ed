import Unawait.Lowering.Basic

/-!
# Awaits

An `await` in an async function becomes a `yield`, and in an async generator a
`yield` of a marker that tells the driver to await. A bare `yield` binds weaker
than `await` and may not be followed by a line break, so parentheses are put around
it where it is an operand, and around its argument where a line break follows.
-/

namespace Unawait.Lowering

/-- Whether a `yield` in this place has to be in parentheses. -/
def needsParentheses : Walk.Parent → Bool
  | none => false
  | some (owner, field) =>
    match owner.kind with
    | .binaryExpression | .logicalExpression | .unaryExpression | .updateExpression => true
    | .conditionalExpression => field == .test
    | .memberExpression => field == .object
    | .callExpression | .newExpression => field == .callee
    | .taggedTemplate => field == .tag
    | .classDefinition => field == .superClass
    | _ => false

/-- The texts in place of `await` and after its argument. -/
def awaitTexts (marker parentheses newline : Bool) : Text × Text :=
  match marker, parentheses, newline with
  | true, false, _ => ("yield\x7b__await:".toList, "\x7d".toList)
  | true, true, _ => ("(yield\x7b__await:".toList, "\x7d)".toList)
  | false, true, false => ("(yield".toList, ")".toList)
  | false, true, true => ("(yield(".toList, "))".toList)
  | false, false, true => ("yield(".toList, ")".toList)
  | false, false, false => ("yield".toList, [])

/-- Lower an `await` of an async scope. -/
def lowerAwait (node : Node) (parent : Walk.Parent) : Step Unit := do
  let state ← get
  let scope := state.scopes.current
  if scope.isAsync then
    if let some argument := node.child? .argument then
      let isKeyword := match state.tokens.locate node.start with
        | some index => state.tokens.is index "await".toList
        | none => false
      unless isKeyword do missing "await" node.start
      let newline := state.lines.crosses node.start argument.start
      let (opening, closing) :=
        awaitTexts scope.isAsyncGenerator (needsParentheses parent) newline
      overwrite node.start (node.start + 5) opening
      unless closing.isEmpty do insertBefore node.stop closing

end Unawait.Lowering
