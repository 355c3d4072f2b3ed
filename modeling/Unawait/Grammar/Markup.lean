import Unawait.Grammar.Access

/-!
# Elements

An element gives the nodes of all expressions inside it, those of the elements in it
included: in attributes, in spreads and in its content.
-/

namespace Unawait

open Parse

namespace Markup

/-- A single name in a tag. -/
def name : Parse Text := do
  match ← lexeme with
  | .tagName name =>
    bump
    return name
  | _ => if (← context).inForcedJsx then return (← Name.reference).2 else unexpected

/-- A name with an optional namespace. -/
def qualified : Parse Text := do
  let first ← name
  if ← eat .colon then return first ++ ':' :: (← name) else return first

/-- The name of an element, which may have dots. -/
def elementName : Parse Text := do
  let first ← qualified
  repeating first fun read => do
    if ← eat .dot then return .more (read ++ '.' :: (← name)) else return .done read

/-- An expression in braces, the first of which is at the cursor; whether there has to
be one. -/
def container (rules : Rules) (isRequired : Bool) : Parse (List Node) := do
  let start ← position
  bump
  if ← isAt .braceClose then
    bump
    if isRequired then failAt start
    return []
  let _ ← eat .ellipsis
  let expr ← rules.expression
  expect .braceClose
  return [expr.node]

/-- The value of an attribute. -/
def attributeValue (rules : Rules) : Parse (List Node) := do
  match ← lexeme with
  | .braceOpen => container rules true
  | .string _ _ =>
    bump
    return []
  | .tagStart => Prod.snd <$> rules.element
  | _ => unexpected

/-- An attribute or a spread of attributes. -/
def singleAttribute (rules : Rules) : Parse (List Node) := do
  if ← eat .braceOpen then
    expect .ellipsis
    let expr ← rules.assignment
    expect .braceClose
    return [expr.node]
  let _ ← qualified
  if ← eat .assign then
    within ({ · with inConditional := false, expectColon := false }) (attributeValue rules)
  else return []

/-- An opening tag. -/
structure Opening where
  /-- The name; nothing for a fragment. -/
  name : Option Text
  /-- The tag is the whole element. -/
  isClosed : Bool
  nodes : List Node

/-- The rest of an opening tag after its name. -/
def openingRest (rules : Rules) (name : Text) : Parse Opening := do
  let types ← if ← isAt (.binary .less) then
      attemptTyped (some <$> Prod.snd <$> Typing.arguments rules)
    else pure none
  let isForced := (← context).inForcedJsx
  let inTag : Parse Bool := do
    match ← lexeme? with
    | none => return false
    | some lexeme =>
      return lexeme != .binary .divide
        && lexeme != (if isForced then .binary .greater else .tagEnd)
  let attributes ← manyWhile inTag (singleAttribute rules)
  let isClosed ← eat (.binary .divide)
  unless ← eat .tagEnd <||> (pure isForced <&&> eat (.binary .greater)) do
    unexpected
  return { name := some name, isClosed, nodes := attributes.flatten ++ types.getD [] }

/-- An opening tag after its sign. -/
def opening (rules : Rules) : Parse Opening := do
  if ← eat .tagEnd then return { name := none, isClosed := false, nodes := [] }
  let name ← within ({ · with anglesAreOperators := false }) elementName
  openingRest rules name

/-- A closing tag after its signs; nothing for the end of a fragment. -/
def closing : Parse (Option Text) := do
  if ← eat .tagEnd then return none
  let name ← elementName
  expect .tagEnd
  return some name

/-- A part of the content of an element. The end of the content is the name in the
closing tag and the place of that tag. -/
def content (rules : Rules) (nodes : List Node) :
    Parse (Progress (List Node) (List Node × Option Text × Nat)) := do
  match ← lexeme with
  | .tagStart =>
    let start ← position
    if ← isAhead (.binary .divide) then
      bump
      bump
      return .done (nodes, ← closing, start)
    let (_, inner) ← rules.element
    return .more (nodes ++ inner)
  | .tagText =>
    bump
    return .more nodes
  | .braceOpen =>
    if ← isAhead .ellipsis then
      bump
      bump
      let expr ← rules.expression
      expect .braceClose
      return .more (nodes ++ [expr.node])
    else return .more (nodes ++ (← container rules false))
  | _ => unexpected

/-- An element, whose sign is at the cursor, with the nodes in it. -/
def element (rules : Rules) : Parse (Span × List Node) :=
  within ({ · with inConditional := false, expectColon := false }) do
    let start ← position
    let isForced ← isAt (.binary .less)
    bump
    within ({ · with inForcedJsx := isForced, anglesAreOperators := false }) do
      let opening ← opening rules
      let nodes ←
        if opening.isClosed then pure opening.nodes
        else
          let (nodes, name, place) ← repeating opening.nodes (content rules)
          if opening.name ≠ name then failAt place
          pure nodes
      return (← spanFrom start, nodes)

end Markup

end Unawait
