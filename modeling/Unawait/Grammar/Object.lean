import Unawait.Grammar.Function

/-!
# Arrays and objects

The literals that may also turn out to be patterns, and the methods of objects.
-/

namespace Unawait

open Parse

namespace ArrayLiteral

/-- An array, whose bracket is at the cursor. -/
def read (rules : Rules) : Parse Expr :=
  within ({ · with expectColon := false }) do
    let start ← position
    bump
    let (elements, comma) ← repeating (([] : List (Option Element)), (none : Option Nat))
      fun (elements, comma) => do
        if (← atEnd) || (← isAt .bracketClose) then return .done (elements, comma)
        if ← eat .comma then return .more (none :: elements, comma)
        let element ← allowingIn rules.element?
        let elements := some element :: elements
        if ← isAt .bracketClose then return .more (elements, comma)
        expect .comma
        if ← isAt .bracketClose then return .more (elements, some (← previous).start)
        return .more (elements, comma)
    expect .bracketClose
    let elements := elements.reverse
    let nodes := elements.filterMap fun element => element.map (·.expr.node)
    return .carrier (← spanFrom start) nodes (.array elements comma)

end ArrayLiteral

namespace ObjectLiteral

/-- Run a step in a method. -/
def inMethod {α : Type} (step : Parse α) : Parse α :=
  within ({ · with inClassField := false }) step

/-- A method, whose key was read. -/
def method (rules : Rules) (key : Key) (start : Nat) (isAsync isGenerator : Bool) :
    Parse Property := do
  let function ← inMethod
    (Function.rest rules [] start (Binding.parameters rules) isAsync isGenerator)
  let span := ⟨min key.span.start start, function.span.stop⟩
  return .method key.span.start (function.methodNode .objectMethod span false key.node)

/-- Whether a parameter is not the receiver that TypeScript may name. -/
def isOwn (parameter : Binding.Parameter) : Bool :=
  !(parameter.pattern.isName && (parameter.pattern.names.map Prod.snd) == ["this".toList])

/-- The parameters of a getter, of which there are none. -/
def getterParameters (rules : Rules) (place : Nat) : Parse (List Binding.Parameter) := do
  let parameters ← Binding.parameters rules
  if parameters.any isOwn then fault place
  return parameters

/-- The parameters of a setter, of which there is one. -/
def setterParameters (rules : Rules) (place : Nat) : Parse (List Binding.Parameter) := do
  let parameters ← Binding.parameters rules
  if (parameters.filter isOwn).length ≠ 1 then fault place
  if let some first := parameters.head? then
    if first.pattern.isRest then fault first.pattern.start
  return parameters

/-- A getter, whose key was read. -/
def getter (rules : Rules) (key : Key) (start : Nat) : Parse Property := do
  let parameters := getterParameters rules key.span.start
  let function ← inMethod (Function.rest rules [] start parameters false false)
  let span ← spanFrom start
  return .method start
    (.plain .objectMethod span [.one .key key.node, Slot.ofNodes .body function.body.toList])

/-- A setter, whose key was read. Of its parameters only the one that it is called
with counts. -/
def setter (rules : Rules) (key : Key) (start : Nat) : Parse Property := do
  let parameters := setterParameters rules key.span.start
  let function ← inMethod (Function.rest rules [] start parameters false false)
  let parameters := function.parameters
  let parameters := if 2 ≤ parameters.length then parameters.drop 1 else parameters
  let span ← spanFrom start
  if parameters.isEmpty then fault key.span.start
  let nodes := ((parameters.take 1).map (·.pattern.nodes)).flatten
  return .method start
    (.plain .objectMethod span
      [.one .key key.node, .many .params nodes, Slot.ofNodes .body function.body.toList])

/-- A property that starts with a word and goes on with neither a colon nor
parameters. -/
def worded (rules : Rules) (name : Text) (key : Key) (start : Nat) (modifiers : Option Nat) :
    Parse Property := do
  if ← eat .question then fault (← previous).start
  if ← sees fun lexeme => lexeme == .assign || lexeme == .comma || lexeme == .braceClose then
    if ← eat .assign then
      let value ← rules.assignmentIn
      return .defaulted (← spanFrom start) name value
    return .shorthand key.span name
  unless key.isWord "get" || key.isWord "set" || key.isWord "async" do unexpected
  if let some place := modifiers then fault place
  let isGenerator ← pure (key.isWord "async") <&&> eat (.binary .times)
  let inner ← Key.plain rules
  if key.isWord "get" then getter rules inner start
  else if key.isWord "set" then setter rules inner start
  else method rules inner start true isGenerator

/-- Whether a property can go on at the cursor after its key. -/
def continues (key : Key) : Parse Bool := do
  if ← isAt .braceClose then return key.name.isSome
  sees fun lexeme =>
    match lexeme with
    | .parenOpen | .bracketOpen | .colon | .comma | .question | .assign | .binary .times
    | .binary .less | .word _ | .string _ _ | .number | .bigint => true
    | _ => false

/-- A property of an object. -/
def property (rules : Rules) : Parse Property := do
  let start ← position
  if ← eat .ellipsis then return .spread start (← rules.assignmentIn)
  if ← eat (.binary .times) then
    let key ← Key.plain rules
    return ← method rules key start false true
  let hasModifiers ← Typing.anyModifier
  let modifiers ← if hasModifiers then (some ·.start) <$> previous else pure none
  let key ← Key.plain rules
  if ← isTypescript <&&> not <$> continues key then
    fault (← span).start
    return .keyed key.nodes (.invalid (← spanFrom start))
  if ← eat .colon then return .keyed key.nodes (← rules.assignmentIn)
  if ← isAt .parenOpen <||> (isTypescript <&&> isAt (.binary .less)) then
    return ← method rules key start false false
  match key.name with
  | some name => worded rules name key start modifiers
  | none => unexpected

/-- An object, whose brace is at the cursor. -/
def read (rules : Rules) : Parse Expr :=
  within ({ · with expectColon := false }) do
    let start ← position
    bump
    let (properties, comma) ← repeating (([] : List Property), (none : Option Nat))
      fun (properties, comma) => do
        if ← eat .braceClose then return .done (properties, comma)
        let properties := (← property rules) :: properties
        if ← isAt .braceClose then return .more (properties, comma)
        expect .comma
        if ← isAt .braceClose then return .more (properties, some (← previous).start)
        return .more (properties, comma)
    let properties := properties.reverse
    let nodes := (properties.map Property.nodes).flatten
    return .carrier (← spanFrom start) nodes (.object properties comma)

end ObjectLiteral

end Unawait
