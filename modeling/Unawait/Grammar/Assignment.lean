import Unawait.Grammar.Function
import Unawait.Grammar.Operation

/-!
# Assignments

An assignment is read as a conditional expression first. If an assignment sign
follows, what was read is turned into the target of the assignment.
-/

namespace Unawait

open Parse

namespace Assignment

/-! ## Targets -/

/-- The text of an assignment sign. -/
def signText : Lexeme → Option Text
  | .assign => some "=".toList
  | .assignBy operator => some (operator.text.toList ++ ['='])
  | _ => none

/-- The left side of a plain assignment. -/
def plainTarget (left : Expr) : Parse Pattern := do
  let pattern ← Target.ofExpr .target left
  unless Target.isAssignable pattern do failAt pattern.start
  return pattern

/-- The left side of a compound assignment. -/
def compoundTarget (left : Expr) : Parse Pattern := do
  unless left.isTarget (← context).strict do fault left.start
  let pattern : Pattern := match left.form with
    | .name name => .ofName left.span name
    | _ => .ofTarget left
  if let .name name := left.form then
    if Expr.isRestricted name && (← isTypescript) then moduleFault left.start
  unless Target.isAssignable pattern do failAt left.start
  return pattern

/-- The rest of an assignment after its left side, if a sign is there. -/
def finish (rules : Rules) (start : Nat) (left : Expr) : Parse Expr := do
  match ← lexeme? with
  | none => return left
  | some sign =>
    match signText sign with
    | none => return left
    | some text =>
      let isPlain := sign == .assign
      let target ← if isPlain then plainTarget left else compoundTarget left
      bump
      let value ← rules.assignment
      let span ← spanFrom start
      return .mk span (.assignment span text target.targetNode value.node)
        (.assignment isPlain target value)

/-! ## Yielding -/

/-- Whether a lexeme can start the argument of `yield`. -/
def startsArgument (lexeme : Lexeme) : Bool :=
  match lexeme with
  | .binary .times | .binary .divide | .assignBy .divide | .binary .plus | .binary .minus
  | .binary .less | .bang | .tilde | .parenOpen | .bracketOpen | .braceOpen | .backquote
  | .dollarBrace | .increment | .decrement | .string _ _ | .regex _ | .number | .bigint
  | .tagStart => true
  | _ =>
    lexeme.isPlainWord || lexeme.isWordLiteral
      || lexeme.isOneOf ["await", "function", "throw", "new", "this", "super", "class", "import",
        "yield", "typeof", "void", "delete"]

/-- The word `yield` with its argument. -/
def yielded (rules : Rules) : Parse Expr := do
  let start ← position
  bump
  let context ← context
  if context.inParameters && !context.inFunction then failAt start
  if ← not <$> sees startsArgument <||> afterBreak then
    let span ← spanFrom start
    return .mk span (.yielding span false none) .other
  let delegates ← eat (.binary .times)
  let argument ← rules.assignment
  let span ← spanFrom start
  return .mk span (.yielding span delegates (some argument.node)) .other

/-! ## Assignments -/

/-- Whether an arrow function can start with a lexeme. -/
def startsArrow (lexeme : Lexeme) : Bool :=
  lexeme.isPlainWord || lexeme == .parenOpen || lexeme.isWord "yield"

/-- Whether nothing can be assigned to an expression of this form. -/
def isFinished : Form → Bool
  | .conditional | .binary _ | .unary | .update | .arrow => true
  | _ => false

/-- An expression without a comma and without leading type parameters. -/
def plain (rules : Rules) : Parse Expr := do
  if (← context).inGenerator then
    if ← isWord "yield" then return ← yielded rules
  let start ← position
  let lexeme ← lexeme
  modify fun cursor =>
    { cursor with arrowStart := if startsArrow lexeme then some start else none }
  let start ← position
  let left ← Operation.conditional rules
  if isFinished left.form then return left
  finish rules start left

/-- An arrow function with type parameters before it, if there is one. -/
def generic? (rules : Rules) : Parse (Option Expr) :=
  within ({ · with expectColon := false }) (attemptTyped do
    if ← isAt .tagStart then
      if (← get).lexer.nesting.head? = some .openingTag then Function.forgetTag
    let start ← position
    let _ ← Typing.parameters rules false true
    let .mk span node form ← plain rules
    match form with
    | .arrow => return some (.mk ⟨start, span.stop⟩ (node.startingAt start) .arrow)
    | _ => unexpected)

/-- An expression without a comma. -/
def read (rules : Rules) : Parse Expr := do
  if ← isTypescript then
    if ← isJsx <&&> isAt .tagStart then
      if let some expr ← attempt (some <$> plain rules) then return expr
      Function.forgetTag
    if ← (isAt (.binary .less) <||> isAt .tagStart) <&&> seesAhead Lexeme.isAnyWord then
      if let some expr ← generic? rules then return expr
  plain rules

end Assignment

end Unawait
