import Unawait.Grammar.Class
import Unawait.Grammar.Parenthesis

/-!
# Primary expressions and `new`

Names, literals, functions, classes and whatever else has no operand before it, with
the members after it.
-/

namespace Unawait

open Parse

namespace Primary

/-! ## Arrow functions without parentheses -/

/-- An arrow function with a single name as its parameter, after its arrow. -/
def singleArrow (rules : Rules) (start : Nat) (isAsync : Bool) : Parse Expr := do
  let (body, _) ← Function.arrowBody rules isAsync true
  let span ← spanFrom start
  return .mk span (.arrow span isAsync [] body) .arrow

/-- What follows the name `async` if another name comes next. -/
def afterAsync (rules : Rules) (word : Span) : Parse Expr := do
  let context ← context
  let expr := Expr.ofName word "async".toList
  if ← pure context.inForHead <&&> isWord "of" <&&> not <$> isAhead .arrow then
    unless context.inForAwaitHead do fault word.start
    return expr
  let (_, name) ← Name.binding false
  if ← isTypescript <&&> pure (name == "as".toList) <&&> not <$> isAt .arrow then
    let types ← Typing.plain rules
    return .carrier (← spanFrom word.start) (expr.node :: types) (.typed expr)
  expect .arrow
  singleArrow rules word.start true

/-- A name, or an arrow function that starts with one. -/
def named (rules : Rules) (canBeArrow : Bool) : Parse Expr := do
  let (span, name) ← Name.reference
  unless ← pure canBeArrow <&&> not <$> afterBreak do return .ofName span name
  if ← pure (name == "async".toList) <&&> isName then afterAsync rules span
  else if ← eat .arrow then
    if (← context).strict && Expr.isRestricted name then moduleFault span.start
    singleArrow rules span.start false
  else return .ofName span name

/-- An asynchronous arrow function with type parameters, if there is one. -/
def genericAsync? (rules : Rules) (start : Nat) : Parse (Option Expr) :=
  attemptTyped do
    bump
    let _ ← Typing.parameters rules false false
    expect .parenOpen
    let parameters ← Binding.parameters rules
    expect .parenClose
    let _ ← Typing.result? rules
    expect .arrow
    let patterns := parameters.map (·.pattern)
    let (body, _) ← within ({ · with inAsync := true, inGenerator := false })
      (Function.arrowBody rules true (Binding.areSimple parameters))
    let span ← spanFrom start
    return some (.mk span (.arrow span true (Binding.nodesOf patterns) body) .arrow)

/-- What starts with the word `async`, unless it is a plain name. -/
def async? (rules : Rules) (start : Nat) (canBeArrow : Bool) : Parse (Option Expr) := do
  if ← isWordAhead "function" <&&> not <$> breakAhead then
    bump
    let function ← Function.named rules [] start true true false
    return some (.mk function.span (function.node .functionExpression) .other)
  unless canBeArrow do return none
  if ← isTypescript <&&> isAhead (.binary .less) then
    if let some expr ← genericAsync? rules start then return some expr
  if ← isAhead .parenOpen <&&> not <$> breakAhead then
    let word ← span
    bump
    return some (← Parenthesis.read rules canBeArrow (some word))
  return none

/-! ## Literals -/

/-- The flags that a regular expression can have. -/
def regexFlags : Text := "dgimsuvy".toList

/-- Whether the flags of a regular expression are known and none is repeated. -/
def areFlags : Text → Bool
  | [] => true
  | flag :: flags => regexFlags.contains flag && !flags.contains flag && areFlags flags

/-- The rest of a regular expression, whose first slash was gone past. One without an
end is an invalid token, and it is found again by every later look. -/
def regex? (start : Nat) : Parse (Option Expr) := do
  modify ({ · with slash := some start })
  match ← lexeme? with
  | some (.regex flags) =>
    modify ({ · with slash := none })
    bump
    unless areFlags flags do fault start
    return some (.carrier (← spanFrom start) [] .literal)
  | _ => return none

/-- What starts with a decorator or a name. -/
def other (rules : Rules) (start : Nat) (canBeArrow : Bool) : Parse Expr := do
  let decorators ← Decorator.all rules false
  if ← isWord "class" then
    let node ← ClassSyntax.read rules decorators start false false
    return .mk node.span node .other
  if ← isWord "let" <||> (isTypescript <&&> isWord "await") <||> isName then
    return ← named rules canBeArrow
  if ← isAt .hash then
    bump
    let _ ← Name.word
    return .carrier (← spanFrom start) [] .other
  unexpected

/-- A primary expression. -/
def primary (rules : Rules) : Parse Expr := do
  let start ← position
  let canBeArrow := (← get).arrowStart == some start
  let simple (form : Form) : Parse Expr := do
    bump
    return .carrier (← spanFrom start) [] form
  match ← lexeme? with
  | some .bracketOpen => ArrayLiteral.read rules
  | some .braceOpen => ObjectLiteral.read rules
  | some (.string value verbatim) =>
    simple (.string (verbatim && value == "use strict".toList))
  | some .number | some .bigint => simple .literal
  | some (.binary .divide) | some (.assignBy .divide) =>
    bump
    match ← regex? start with
    | some expr => return expr
    | none => other rules start canBeArrow
  | some .backquote =>
    let (span, holes) ← Access.template rules false
    return .carrier span holes .other
  | some .parenOpen => Parenthesis.read rules canBeArrow none
  | some lexeme =>
    if lexeme.isWordLiteral then return ← simple .literal
    if lexeme.isWord "this" then
      bump
      let span ← spanFrom start
      return .mk span (.plain .thisExpression span []) .other
    if lexeme.isWord "function" then
      let function ← Function.named rules [] start false true false
      return .mk function.span (function.node .functionExpression) .other
    if lexeme.isWord "async" then
      if let some expr ← async? rules start canBeArrow then return expr
    other rules start canBeArrow
  | none => other rules start canBeArrow

/-! ## Members and instances -/

/-- The type arguments of a `new`, if its arguments follow them. -/
def skipTypes (rules : Rules) : Parse Unit := do
  if ← sees fun lexeme => lexeme == .binary .less || lexeme == .binary .shiftLeft then
    let _ ← attemptTyped (within ({ · with anglesAreOperators := false }) do
      let _ ← Typing.arguments rules
      unless ← isAt .parenOpen do unexpected
      return some ())

/-- What follows the word `new`. -/
def construction (rules : Rules) (start : Nat) : Parse Expr := do
  if ← eat .dot then
    expectWord "target"
    let span ← spanFrom start
    let context ← context
    unless context.inPlainFunction || context.inParameters || context.inClass do fault start
    return ← Access.all rules (.expr (.carrier span [] .other)) true false
  let callee ← rules.member
  if callee.isArrow then return callee
  if callee.isChain then failAt callee.start
  skipTypes rules
  if ← isAt .parenOpen then
    let arguments ← Access.arguments rules false
    let span ← spanFrom start
    Access.all rules (.expr (.mk span (.construction span callee.node arguments) .other)) true false
  else
    let span ← spanFrom start
    return .mk span (.construction span callee.node []) .bareNew

/-- A primary expression with its members, or a `new`. -/
def member (rules : Rules) : Parse Expr :=
  within ({ · with anglesAreOperators := true }) do
    let start ← position
    if ← eatWord "new" then return ← construction rules start
    if ← eatWord "super" then
      return ← Access.all rules (.parent (← spanFrom start)) true false
    if ← eatWord "import" then return ← LeftHand.loader rules start true
    let expr ← primary rules
    if expr.isArrow then return expr
    let types ←
      if ← isTypescript <&&> isAt (.binary .less) then
        Typing.arguments? rules Access.startsExpression
      else pure none
    let expr := match types with
      | some (span, types) =>
        .carrier ⟨expr.start, span.stop⟩ (expr.node :: types) (.instantiated expr)
      | none => expr
    Access.all rules (.expr expr) true false

end Primary

end Unawait
