import Unawait.Grammar.Assignment
import Unawait.Grammar.Binding

/-!
# Parentheses and arrow functions

What is in parentheses is read before it is known whether an arrow follows. So the
items are read as expressions; if there is an arrow they are turned into parameters.
In TypeScript an item with a type can only be a parameter.
-/

namespace Unawait

open Parse

namespace Parenthesis

/-- What stands between parentheses. -/
inductive Enclosed where
  | element (value : Element)
  /-- What can only be a parameter. -/
  | parameter (pattern : Pattern)

namespace Enclosed

def isParameter : Enclosed → Bool
  | parameter _ => true
  | element _ => false

/-- Whether an item is a single name. -/
def isName : Enclosed → Bool
  | parameter pattern => pattern.isName
  | element value =>
    match value.expr.form with
    | .name _ => true
    | _ => false

end Enclosed

/-! ## Parameters -/

/-- An item that is not the last one as a parameter. -/
def earlier : Enclosed → Parse (List Pattern)
  | .parameter pattern => do
    if pattern.isRest then
      fault pattern.start
      return []
    return [pattern]
  | .element (.mk none expr) => return [← Target.ofExpr .binding expr]
  | .element (.mk (some dots) _) => do
    fault dots
    return []

/-- The last item as a parameter; the place of a comma after it. -/
def last (comma : Option Nat) : Enclosed → Parse Pattern
  | .parameter pattern => do
    if let some comma := comma then
      if pattern.isRest then fault comma
    return pattern
  | .element (.mk none expr) => Target.ofExpr .binding expr
  | .element (.mk (some dots) expr) => do
    if expr.isAssignment then fault dots
    if let some comma := comma then fault comma
    let pattern ← Target.ofExpr .binding expr
    return pattern.asRest expr.span

/-- The items as parameters in their order. -/
def convert (comma : Option Nat) : List Enclosed → Parse (List Pattern)
  | [] => return []
  | [item] => return [← last comma item]
  | item :: rest => do
    let first ← earlier item
    return first ++ (← convert comma rest)

/-- The items as the parameters of an arrow function. -/
def parameters (items : List Enclosed) (comma : Option Nat) : Parse (List Pattern) := do
  let patterns ← convert comma items
  Target.checkNames patterns
  return patterns

/-- An arrow function after its arrow. The result says whether its body is a block. -/
def arrow (rules : Rules) (start : Nat) (isAsync : Bool) (items : List Enclosed)
    (comma : Option Nat) : Parse (Expr × Bool) := do
  let patterns ← parameters items comma
  let (body, isBlock) ← Function.arrowBody rules isAsync (patterns.all Pattern.isName)
  let span ← spanFrom start
  return (.mk span (.arrow span isAsync (Binding.nodesOf patterns) body) .arrow, isBlock)

/-! ## Items -/

/-- An item before its type. A name in TypeScript is read without the conditional
operator, since a question mark after it may mean that the parameter is optional. -/
def element (rules : Rules) (start : Nat) : Parse Element := do
  if ← isTypescript <&&> (isName <||> (isAt .ellipsis <&&> isNameAhead)) then
    let place ← position
    if ← eat .ellipsis then return .mk (some place) (← Operation.binary rules)
    let expr ← Operation.binary rules
    if ← sees Lexeme.isAssignment then return .mk none (← Assignment.finish rules start expr)
    return .mk none expr
  else allowingIn rules.element?

/-- A question mark after an item. The result says whether the item is optional. -/
def optional (rules : Rules) (start : Nat) (element : Element) : Parse (Element × Bool) := do
  unless ← isTypescript <&&> isAt .question do return (element, false)
  let isMark ← seesAhead fun lexeme =>
    lexeme == .comma || lexeme == .assign || lexeme == .parenClose || lexeme == .colon
  if isMark then
    bump
    if element.dots.isSome then fault (← previous).start
    match element.expr.form with
    | .name _ => return (element, true)
    | _ => failAt element.start
  if element.dots.isSome then return (element, false)
  bump
  return (.mk none (← Operation.branches rules start element.expr), false)

/-- An item that can only be a parameter, from its type on. -/
def parameter (rules : Rules) (start : Nat) (element : Element) : Parse Pattern := do
  let pattern ← Target.ofExpr .binding element.expr
  let pattern ←
    if element.dots.isSome then pattern.asRest <$> spanFrom start else pure pattern
  let pattern ← match pattern.shape with
    | .name | .array | .object | .rest => do
      match ← Typing.colon? rules with
      | some types => pattern.withType types <$> spanFrom start
      | none => pure pattern
    | _ => pure pattern
  if ← eat .assign then
    let value ← rules.assignment
    return pattern.withDefault (← spanFrom start) value
  return pattern

/-- An item. -/
def item (rules : Rules) (start : Nat) : Parse Enclosed := do
  let hasModifier ← Typing.anyModifier
  let inner ← position
  let (element, isOptional) ← optional rules start (← element rules start)
  let found ←
    if ← pure isOptional <||> (isTypescript <&&> isAt .colon) then
      Enclosed.parameter <$> parameter rules inner element
    else pure (.element element)
  if hasModifier then fault start
  return found

/-- Items in parentheses, and the place of a comma after the last one. -/
def items (rules : Rules) : Parse (List Enclosed × Option Nat) :=
  within ({ · with expectColon := false, allowIn := true }) do
    expect .parenOpen
    let (found, comma) ← repeating (([] : List Enclosed), (none : Option Nat))
      fun (found, comma) => do
        if (← atEnd) || (← isAt .parenClose) then return .done (found, comma)
        let isAsync ← isWord "async" <&&> seesAhead fun lexeme =>
          lexeme == .parenOpen || lexeme.isAnyWord
        let start ← position
        modify fun cursor => { cursor with arrowStart := some start }
        let found := (← item rules start) :: found
        let found ←
          if ← eat .arrow <&&> pure ((found.getLast?.map Enclosed.isName).getD false) then
            let (.mk span node form, _) ← arrow rules start false found.reverse none
            let node := if isAsync then node.asAsync else node
            pure (.element (.mk none (.mk span node form)) :: found)
          else pure found
        if ← isAt .parenClose then return .more (found, comma)
        expect .comma
        if ← isAt .parenClose then return .more (found, some (← previous).start)
        return .more (found, comma)
    expect .parenClose
    return (found.reverse, comma)

/-! ## What parentheses are -/

/-- An arrow function with a result type in the middle part of a conditional
expression, if a colon for that expression follows it. -/
def inConditional? (rules : Rules) (start : Nat) (isAsync : Bool) (items : List Enclosed) :
    Parse (Option Expr) := do
  let context ← context
  unless ← pure (context.inConditional && context.expectColon) <&&> isAt .colon do return none
  attemptTyped do
    let _ ← Typing.result rules .colon
    expect .arrow
    let (expr, _) ← arrow rules start isAsync items none
    unless ← isAt .colon do unexpected
    return some expr

/-- Go past the result type of an arrow function, if there is one. -/
def resultType (rules : Rules) : Parse Bool := do
  if ← pure (← context).expectColon <||> not <$> isAt .colon then return false
  let found ← attemptTyped do
    let _ ← Typing.result rules .colon
    unless ← isAt .arrow do unexpected
    return some ()
  return found.isSome

/-- An arrow function from its arrow on. An operator after a block is a fault. -/
def fromArrow (rules : Rules) (start : Nat) (isAsync canBeArrow : Bool) (items : List Enclosed)
    (comma : Option Nat) : Parse Expr := do
  if ← afterBreak then failAt start
  unless canBeArrow do failAt start
  expect .arrow
  let (expr, isBlock) ← arrow rules start isAsync items comma
  if ← pure isBlock <&&> sees Lexeme.isBinary then
    fault (← span).start
    let expr ← rules.operators expr 0
    unless ← isSemicolon do fault (← span).start
    return expr
  return expr

/-- Check an object that is no pattern: its properties have no default values. -/
def checkObject : Enclosed → Parse Unit
  | .parameter _ => return ()
  | .element value => do
    if let .object properties _ := value.expr.form then
      for property in properties do
        if let .defaulted span _ _ := property then fault span.start

/-- The items as elements; what can only be a parameter is wrong. -/
def elements : List Enclosed → Parse (List Element)
  | [] => return []
  | .element value :: rest => return value :: (← elements rest)
  | .parameter pattern :: _ => failAt pattern.start

/-- An element without dots. -/
def plainElement : Element → Parse Expr
  | .mk none expr => return expr
  | .mk (some _) expr => failAt expr.start

/-- Items that are no parameters: the arguments of a call of `async`, or expressions. -/
def withoutArrow (start : Nat) (asyncWord : Option Span) (items : List Enclosed) :
    Parse Expr := do
  for item in items do checkObject item
  let elements ← elements items
  if let some word := asyncWord then
    let span ← spanFrom start
    let callee := Node.identifier word "async".toList
    return .mk span (.call span false callee none (elements.map (·.expr.node))) .call
  let exprs ← elements.mapM plainElement
  match exprs with
  | [] => failAt start
  | [expr] =>
    let span ← spanFrom start
    return .mk span (.parenthesized span expr.node) (.parenthesized expr)
  | first :: rest =>
    let stop := (rest.getLast?.map Expr.stop).getD first.stop
    let inner := Expr.carrier ⟨first.start, stop⟩ (exprs.map Expr.node) .other
    let span ← spanFrom start
    return .mk span (.parenthesized span inner.node) (.parenthesized inner)

/-- Parentheses at the cursor, with what they turn out to be; whether an arrow function
may start here, and the word `async` before them. -/
def read (rules : Rules) (canBeArrow : Bool) (asyncWord : Option Span) : Parse Expr := do
  let start := (asyncWord.map Span.start).getD (← position)
  let isAsync := asyncWord.isSome
  let (items, comma) ← items rules
  if let some expr ← inConditional? rules start isAsync items then return expr
  let hasResult ← resultType rules
  if ← pure (hasResult || items.any Enclosed.isParameter) <||> isAt .arrow then
    fromArrow rules start isAsync canBeArrow items comma
  else withoutArrow start asyncWord items

end Parenthesis

end Unawait
