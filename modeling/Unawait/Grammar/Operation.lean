import Unawait.Grammar.LeftHand
import Unawait.Grammar.Target

/-!
# Operators

Operators before, after and between operands, and the conditional expression.
Operators between operands are read by their strengths: an operand takes in all
operators after it that bind more strongly than the one before it.
-/

namespace Unawait

open Parse

namespace Operation

/-! ## Before and after an operand -/

/-- The text of an operator that changes its operand. -/
def updateText : Lexeme → Option String
  | .increment => some "++"
  | .decrement => some "--"
  | _ => none

/-- The words that are operators before an operand. -/
def unaryWords : List String := ["delete", "void", "typeof"]

/-- The text of an operator before an operand that does not change it. -/
def unaryText : Lexeme → Option String
  | .binary .plus => some "+"
  | .binary .minus => some "-"
  | .tilde => some "~"
  | .bang => some "!"
  | lexeme => unaryWords.find? lexeme.isWord

/-- A type in angle brackets before an operand, whose first bracket was read. -/
def assertion (rules : Rules) (start : Nat) : Parse Expr := do
  if ← eatWord "const" then
    expect (.binary .greater)
    let expr ← rules.unary
    return .carrier (← spanFrom start) [expr.node] .other
  let types ← Typing.plain rules
  expect (.binary .greater)
  let expr ← rules.unary
  return .carrier (← spanFrom start) (expr.node :: types) (.typed expr)

/-- An operator that changes its operand, before it. -/
def updateBefore (rules : Rules) (start : Nat) (operator : String) : Parse Expr := do
  bump
  let expr ← rules.unary
  let span := ⟨start, expr.stop⟩
  Target.check expr false
  return .mk span (.update span operator.toList true expr.node) .update

/-- Check the operand of `delete`. TypeScript wants a member. -/
def checkDeleted (expr : Expr) : Parse Unit := do
  if let .name _ := expr.form then moduleFault expr.start
  if ← isTypescript then
    let inner := expr.withoutParentheses
    match inner.form with
    | .member _ | .chain true => return ()
    | _ => fault inner.start

/-- An operator that does not change its operand. An operand that cannot be read is a
fault and not a failure. -/
def unaryBefore (rules : Rules) (start : Nat) (operator : String) : Parse Expr := do
  bump
  let place := (← position) - 1
  let expr ← tryCatch rules.unary fun wrong => do
    fault wrong
    return Expr.invalid ⟨place, place⟩
  if operator == "delete" then checkDeleted expr
  let span := ⟨start, expr.stop⟩
  return .mk span (.unary span operator.toList expr.node) .unary

/-- Whether the word `await`, after which the cursor stands, has no operand. -/
def lacksOperand : Parse Bool :=
  isAt .parenClose <||> isAt .bracketClose <||> isSemicolon <||> isAt .comma

/-- The word `await`, after it was read. Outside of asynchronous code it is a name if
no operand follows. -/
def awaited (rules : Rules) (start : Nat) : Parse Expr := do
  if ← isAt (.binary .times) then unexpected
  let context ← context
  let span ← spanFrom start
  if ← lacksOperand <&&> pure !context.inAsync then
    if context.isModule then fault span.start
    return .ofName span "await".toList
  if context.inFunction && !context.inAsync then fault (← lookedAt).start
  if context.inParameters && !context.inFunction then fault span.start
  let expr ← rules.unary
  let span ← spanFrom start
  return .mk span (.awaiting span expr.node) (.await expr)

/-- An operand with an operator after it that changes it, or without. -/
def operand (rules : Rules) : Parse Expr := do
  let expr ← LeftHand.read rules
  if expr.isArrow then return expr
  if ← afterBreak then return expr
  match (← lexeme?).bind updateText with
  | none => return expr
  | some operator =>
    Target.check expr false
    bump
    let span ← spanFrom expr.start
    return .mk span (.update span operator.toList false expr.node) .update

/-- An operand with the operators before and after it. -/
def unary (rules : Rules) : Parse Expr := do
  let start ← position
  if ← not <$> isJsx <&&> isTypescript <&&> eat (.binary .less) then
    return ← assertion rules start
  if let some operator := (← lexeme?).bind updateText then
    return ← updateBefore rules start operator
  if let some operator := (← lexeme?).bind unaryText then
    return ← unaryBefore rules start operator
  if ← eatWord "await" then return ← awaited rules start
  operand rules

/-! ## Between operands -/

/-- The operator between operands at the cursor. -/
def between? : Parse (Option Operator) := do
  let context ← context
  match ← lexeme? with
  | some (.binary operator) => return some operator
  | some lexeme =>
    if context.allowIn && lexeme.isWord "in" then return some .inside
    if lexeme.isWord "instanceof" then return some .instanceOf
    return none
  | none => return none

/-- A type after a word, if there is one. -/
def typed? (rules : Rules) (left : Expr) (strength : Nat) : Parse (Option Expr) := do
  unless ← isTypescript <&&> not <$> afterBreak do return none
  if ← pure (decide (strength < Operator.inside.precedence)) <&&> isWord "as" then
    if ← isWordAhead "const" then
      bump
      bump
      return some (.carrier (← spanFrom left.start) [left.node] .other)
    let types ← Typing.next rules
    return some (.carrier (← spanFrom left.start) (left.node :: types) (.typed left))
  if ← isWord "satisfies" then
    let types ← Typing.next rules
    return some (.carrier (← spanFrom left.start) (left.node :: types) (.typed left))
  return none

/-- Whether an operand of `??` needs parentheses. -/
def needsParentheses (expr : Expr) : Bool :=
  match expr.form with
  | .binary .and | .binary .or => true
  | _ => false

/-- Check that `??` is not mixed with the other logical operators. -/
def checkMixed (operator : Operator) (left right : Expr) : Parse Unit := do
  if operator = .coalesce then
    if needsParentheses left then fault left.start
    if needsParentheses right then fault right.start
  if operator = .and || operator = .or then
    if let .binary .coalesce := left.form then fault left.start

/-- Whether an operand cannot stand before `**`. -/
def isBarredBeforePower (expr : Expr) : Bool :=
  match expr.form with
  | .unary | .await _ => true
  | _ => false

/-- An operator with the operand after it. -/
def binaryStep (rules : Rules) (left : Expr) (operator : Operator) : Parse Expr := do
  bump
  if operator = .power && isBarredBeforePower left then failAt (← previous).start
  let first ← rules.unary
  let strength := operator.precedence
  let right ← rules.operators first (if operator = .power then strength - 1 else strength)
  checkMixed operator left right
  let span := ⟨left.start, right.stop⟩
  return .mk span
    (.binary span operator.isLogical operator.text.toList left.node right.node) (.binary operator)

/-- The operators after an operand that bind more strongly than a given strength. -/
def operators (rules : Rules) (left : Expr) (strength : Nat) : Parse Expr :=
  repeating left fun left => do
    if let some expr ← typed? rules left strength then return .more expr
    match ← between? with
    | none => return .done left
    | some operator =>
      if operator.precedence ≤ strength then return .done left
      return .more (← binaryStep rules left operator)

/-- Operands with operators between them. An operator without an operand before it is
a fault and not a failure. -/
def binary (rules : Rules) : Parse Expr := do
  let left ← tryCatch rules.unary fun wrong => do
    let _ ← token
    if (← between?).isNone then throw wrong
    fault (← span).start
    return Expr.invalid ⟨wrong, wrong⟩
  if left.isArrow then return left
  rules.operators left 0

/-! ## Conditional expressions -/

/-- The parts of a conditional expression after its test, whose sign was read. -/
def branches (rules : Rules) (start : Nat) (test : Expr) : Parse Expr := do
  let consequent ←
    within ({ · with inConditional := true, expectColon := true, allowIn := true })
      rules.assignment
  expect .colon
  let alternate ←
    within ({ · with inConditional := true, expectColon := false }) rules.assignment
  let span := ⟨start, alternate.stop⟩
  return .mk span (.conditional span test.node consequent.node alternate.node) .conditional

/-- A conditional expression, or an expression without one. -/
def conditional (rules : Rules) : Parse Expr := do
  let start ← position
  let test ← binary rules
  if test.isArrow then return test
  if ← eat .question then branches rules start test else return test

end Operation

end Unawait
