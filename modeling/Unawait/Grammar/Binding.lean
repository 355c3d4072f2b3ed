import Unawait.Grammar.Access
import Unawait.Grammar.Key

/-!
# Patterns that bind names, and parameters

A declaration, a parameter and a `catch` clause bind names: a single one, or those
in an array or an object pattern.
-/

namespace Unawait

open Parse

namespace Binding

/-- The nodes of several patterns. -/
def nodesOf (patterns : List Pattern) : List Node := (patterns.map Pattern.nodes).flatten

/-- The names of several patterns. -/
def namesOf (patterns : List Pattern) : List (Nat × Text) := (patterns.map Pattern.names).flatten

/-- A pattern with a default value, or without. -/
def element (rules : Rules) : Parse Pattern := do
  let start ← position
  let pattern ← rules.pattern false
  if ← eat .assign then
    let value ← rules.assignmentIn
    if (← context).inDeclare then fault start
    return pattern.withDefault (← spanFrom start) value
  else return pattern

/-- An optional pattern of an ambient declaration has a question mark. -/
def skipOptional : Parse Unit := do
  if (← context).inDeclare then
    let _ ← eat .question

/-! ## Arrays -/

/-- An element of an array pattern with dots before it, or without. -/
def arrayElement (rules : Rules) : Parse Pattern := do
  let start ← position
  if ← eat .ellipsis then
    let pattern ← rules.pattern false
    return pattern.asRest (← spanFrom start)
  else element rules

/-- An array pattern, whose bracket is at the cursor. -/
def array (rules : Rules) : Parse Pattern := do
  let start ← position
  bump
  let parts ← repeating (([] : List Pattern), (none : Option Nat)) fun (parts, rest) => do
    if (← atEnd) || (← isAt .bracketClose) then return .done parts
    if ← eat .comma then return .more (parts, rest)
    if let some place := rest then fault place
    let part ← arrayElement rules
    unless ← isAt .bracketClose do
      expect .comma
      if part.isRest then
        if ← isAt .bracketClose then fault (← previous).start
    return .more (part :: parts, if part.isRest then some part.start else rest)
  expect .bracketClose
  skipOptional
  let parts := parts.reverse
  return .mk (← spanFrom start) (nodesOf parts) (namesOf parts) .array

/-! ## Objects -/

/-- A part of an object pattern. -/
def property (rules : Rules) : Parse Pattern := do
  let start ← position
  if ← eat .ellipsis then
    let pattern ← rules.pattern false
    return .mk (← spanFrom start) pattern.nodes pattern.names
      (if pattern.isName then .rest else .invalid)
  let key ← Key.plain rules
  if ← eat .colon then
    let value ← element rules
    return .mk (← spanFrom start) (key.nodes ++ value.nodes) value.names .object
  match key.name with
  | none => unexpected
  | some name =>
    if ← eat .assign then
      let value ← rules.assignmentIn
      return .mk (← spanFrom start) [value.node] [(start, name)] .object
    else return .mk (← spanFrom start) [] [(start, name)] .object

/-- Check the parts of an object pattern: the rest comes last and is a name. -/
def checkRest (comma : Option Nat) : List Pattern → Parse Unit
  | [] => return ()
  | [part] => do
    match part.shape with
    | .rest => if let some comma := comma then fault comma
    | .invalid => failAt part.start
    | _ => return ()
  | part :: rest => do
    match part.shape with
    | .rest | .invalid => fault part.start
    | _ => pure ()
    checkRest comma rest

/-- An object pattern, whose brace is at the cursor. -/
def object (rules : Rules) : Parse Pattern :=
  within ({ · with expectColon := false }) do
    let start ← position
    bump
    let (parts, comma) ← repeating (([] : List Pattern), (none : Option Nat))
      fun (parts, comma) => do
        if ← eat .braceClose then return .done (parts, comma)
        let part ← property rules
        if ← isAt .braceClose then return .more (part :: parts, comma)
        expect .comma
        if ← isAt .braceClose then return .more (part :: parts, some (← previous).start)
        return .more (part :: parts, comma)
    let span ← spanFrom start
    let parts := parts.reverse
    checkRest comma parts
    skipOptional
    return .mk span (nodesOf parts) (namesOf parts) .object

/-- A name or a pattern; whether the name `let` is refused. -/
def pattern (rules : Rules) (barLet : Bool) : Parse Pattern := do
  match ← lexeme with
  | .word _ =>
    let (span, name) ← Name.binding barLet
    return .ofName span name
  | .bracketOpen => array rules
  | .braceOpen => object rules
  | _ => unexpected

/-! ## Parameters -/

/-- The type of a parameter after its name or pattern. -/
def withColon (rules : Rules) (pattern : Pattern) (start : Nat) : Parse Pattern := do
  match ← Typing.colon? rules with
  | none => return pattern
  | some types =>
    let span ← spanFrom start
    if pattern.isDefault then fault start
    if pattern.isName then return pattern.withType types pattern.span
    return pattern.withType types span

/-- A parameter without decorators and dots. -/
def parameterPattern (rules : Rules) : Parse Pattern := do
  let start ← position
  let hasModifier ← Typing.anyModifier
  let inner ← position
  let pattern ← element rules
  let optional ← isTypescript <&&> eat .question
  if optional && pattern.isDefault && !(← context).inDeclare then failAt (← previous).start
  let pattern ← withColon rules pattern inner
  let pattern ←
    if ← eat .assign then
      if optional then fault pattern.start
      let value ← rules.assignment
      let span ← spanFrom start
      if (← context).inDeclare then fault start
      pure (pattern.withDefault span value)
    else pure pattern
  if hasModifier then fault start
  return pattern

/-- A parameter with dots before it. -/
def restParameter (rules : Rules) (allowDefault : Bool) : Parse Pattern := do
  let start ← position
  bump
  let pattern ← rules.pattern false
  let pattern ←
    if ← pure allowDefault <&&> eat .assign then
      let value ← rules.assignment
      fault pattern.start
      pure (pattern.withDefault (← spanFrom start) value)
    else pure pattern
  let types ← Typing.colon? rules
  let pattern := pattern.asRest (← spanFrom start)
  if ← pure allowDefault <&&> isTypescript <&&> eat .question then fault (← previous).start
  return pattern.withType (types.getD []) pattern.span

/-- A parameter with the nodes of its decorators. -/
structure Parameter where
  start : Nat
  decorators : List Node
  pattern : Pattern
  /-- The parameter of a constructor declares a field. -/
  isField : Bool

namespace Parameter

def nodes (parameter : Parameter) : List Node := parameter.decorators ++ parameter.pattern.nodes

end Parameter

/-- Parameters up to the closing parenthesis, which is left, by a way to read one and
to tell whether it declares a field; whether the rest may have a default value. -/
def parametersBy (rules : Rules) (allowDefault : Bool) (single : Parse (Pattern × Bool)) :
    Parse (List Parameter) := do
  let parameters ← repeating (([] : List Parameter), (none : Option Nat))
    fun (parameters, rest) => do
      if (← atEnd) || (← isAt .parenClose) then return .done parameters
      if let some place := rest then fault place
      let start ← position
      let decorators ← Decorator.all rules false
      let isRest ← isAt .ellipsis
      let (pattern, isField) ←
        if isRest then (·, false) <$> restParameter rules allowDefault else single
      let parameters := { start, decorators, pattern, isField } :: parameters
      unless ← isAt .parenClose do
        expect .comma
        if ← pure isRest <&&> isAt .parenClose then fault (← previous).start
      return .more (parameters, if isRest then some pattern.start else rest)
  return parameters.reverse

/-- Parameters up to the closing parenthesis, which is left. -/
def parameters (rules : Rules) : Parse (List Parameter) :=
  parametersBy rules true ((·, false) <$> parameterPattern rules)

/-- The nodes of parameters. -/
def parameterNodes (parameters : List Parameter) : List Node :=
  (parameters.map Parameter.nodes).flatten

/-- Whether all parameters are plain names. -/
def areSimple (parameters : List Parameter) : Bool := parameters.all (·.pattern.isName)

end Binding

end Unawait
