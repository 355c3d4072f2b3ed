import Unawait.Grammar.Binding

/-!
# Blocks and functions

The statements of a block or a program, and the parameters and bodies of functions,
methods and arrow functions.
-/

namespace Unawait

open Parse

namespace Block

/-- Statements up to an end, which is gone past; whether directives count, and whether
the statements are items of a program or a namespace. -/
def items (rules : Rules) (directives isTop : Bool) (ending : Option Lexeme) :
    Parse (List Item) := do
  let outer ← context
  let found ← repeating (([] : List Item), directives) fun (found, directives) => do
    if ← atEnd <&&> pure ending.isSome then
      fault (← span).start
      return .done found
    if (← lexeme?) = ending then return .done found
    let item ← rules.statement true isTop
    if directives && item.isUseStrict then setContext { outer with strict := true }
    return .more (item :: found, false)
  if ← not <$> atEnd <&&> pure ending.isSome then bump
  setContext outer
  return found.reverse

/-- The nodes of items. -/
def nodesOf (items : List Item) : List Node := (items.map Item.nodes).flatten

/-- A block with its statements; whether directives count. -/
def withItems (rules : Rules) (directives : Bool) : Parse (Node × List Item) := do
  let start ← position
  expect .braceOpen
  let items ← items rules directives false (some .braceClose)
  return (.block (← spanFrom start) (nodesOf items), items)

/-- A block of statements. -/
def plain (rules : Rules) : Parse Node := Prod.fst <$> withItems rules false

end Block

/-- A function or a method without its name. -/
structure Function where
  span : Span
  isAsync : Bool
  isGenerator : Bool
  decorators : List Node
  parameters : List Binding.Parameter
  body : Option Node

namespace Function

/-- The slots for the parameters and the body. -/
def partSlots (function : Function) : List Slot :=
  [.many .params (Binding.parameterNodes function.parameters),
    Slot.ofNodes .body function.body.toList]

/-- The node of a function. -/
def node (function : Function) (kind : Kind) : Node :=
  .mk { kind, span := function.span,
        flags := { isAsync := function.isAsync, isGenerator := function.isGenerator } }
    (.many .decorators function.decorators :: function.partSlots)

/-- The node of a method. -/
def methodNode (function : Function) (kind : Kind) (span : Span) (isStatic : Bool) (key : Node) :
    Node :=
  .mk { kind, span,
        flags := { isAsync := function.isAsync, isGenerator := function.isGenerator, isStatic } }
    (.many .decorators function.decorators :: .one .key key :: function.partSlots)

/-! ## Bodies -/

/-- Run a step in the body of a function. -/
def inBody {α : Type} (isAsync isGenerator isArrow : Bool) (step : Parse α) : Parse α := do
  if (← context).inDeclare then
    if ← isTypescript <&&> isAt .braceOpen then fault (← Parse.span).start
  within (fun context =>
    { context with
      inAsync := isAsync, inGenerator := isGenerator, inStaticBlock := false, allowBreak := false,
      allowContinue := false, expectColon := false, inFunction := true,
      inPlainFunction := !isArrow || context.inPlainFunction })
    (withFreshState step)

/-- A block that is the body of a function; whether directives count, and whether the
parameters are plain names. If they are not, a directive for strict code is wrong. -/
def blockBody (rules : Rules) (directives isSimple : Bool) : Parse Node := do
  let (block, items) ← Block.withItems rules directives
  unless isSimple do
    if let some item := (items.takeWhile Item.isDirective).find? Item.isUseStrict then
      if let some node := item.nodes.head? then fault node.start
  return block

/-- The body of a function or a method. A signature in TypeScript has none. -/
def optionalBody (rules : Rules) (isAsync isGenerator isSimple : Bool) : Parse (Option Node) :=
  inBody isAsync isGenerator false do
    if ← isTypescript <&&> not <$> isAt .braceOpen <&&> eatSemicolon then return none
    some <$> allowingIn (blockBody rules true isSimple)

/-- The body of an arrow function, in which directives do not count. The result says
whether it is a block. -/
def arrowBody (rules : Rules) (isAsync isSimple : Bool) : Parse (Node × Bool) :=
  inBody isAsync false true do
    if ← isAt .braceOpen then return (← blockBody rules false isSimple, true)
    else return ((← rules.assignment).node, false)

/-! ## Parameters and bodies -/

/-- Forget the two innermost open constructs, which a sign that is no tag has opened. -/
def forgetTag : Parse Unit :=
  modify fun cursor =>
    { cursor with lexer := { cursor.lexer with nesting := cursor.lexer.nesting.drop 2 } }

/-- The type parameters of a function, if there are some. -/
def typeParameters (rules : Rules) : Parse Unit := do
  if ← isTypescript then
    withinType do
      if ← isAt .tagStart then forgetTag
      if ← sees fun lexeme => lexeme == .binary .less || lexeme == .tagStart then
        let _ ← Typing.parameters rules false true

/-- The parameters and the body of a function, by a way to read the parameters. -/
def rest (rules : Rules) (decorators : List Node) (start : Nat)
    (parameters : Parse (List Binding.Parameter)) (isAsync isGenerator : Bool) :
    Parse Function :=
  within ({ · with inAsync := isAsync, inGenerator := isGenerator }) do
    typeParameters rules
    expect .parenOpen
    let parameters ←
      within ({ · with inParameters := true, inFunction := false }) parameters
    expect .parenClose
    let _ ← Typing.result? rules
    let body ← optionalBody rules isAsync isGenerator (Binding.areSimple parameters)
    if body.isNone then
      for parameter in parameters do
        if parameter.pattern.isDefault then fault parameter.pattern.start
    return { span := ← spanFrom start, isAsync, isGenerator, decorators, parameters, body }

/-- A function from the word `function` on; where it starts, whether it is an
expression, and whether it needs a name. -/
def named (rules : Rules) (decorators : List Node) (start : Nat)
    (isAsync isExpression needsName : Bool) : Parse Function := do
  expectWord "function"
  let isGenerator ← eat (.binary .times)
  let outside (context : Context) : Context :=
    { context with inClassField := false }
  within (fun context =>
    if isExpression then
      { outside context with inAsync := isAsync, inGenerator := isGenerator }
    else outside context) do
      if needsName then
        let _ ← Name.binding false
      else
        let _ ← Name.binding? false
  within (fun context => { outside context with expectColon := false }) do
    let function ←
      rest rules decorators start (Binding.parameters rules) isAsync isGenerator
    if isExpression && function.body.isNone then unexpected
    return function

end Function

end Unawait
