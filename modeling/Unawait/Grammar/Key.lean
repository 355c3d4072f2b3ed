import Unawait.Grammar.Name

/-!
# Keys of properties

A property, a member of a class and a part of an object pattern have a key: any word,
a string, a number, or an expression in brackets; a member of a class may also have a
private name.
-/

namespace Unawait

open Parse

/-- The key of a property. -/
structure Key where
  span : Span
  /-- The word, if the key is one. -/
  name : Option Text := none
  /-- The value, if the key is a string. -/
  text : Option Text := none
  computed : Bool := false
  isPrivate : Bool := false
  /-- The expression in the brackets. -/
  nodes : List Node := []

namespace Key

/-- The node of a key that has one. -/
def node (key : Key) : Node := .key key.span key.computed key.nodes

def isWord (key : Key) (name : String) : Bool := key.name == some name.toList

/-- Whether a member of a class with this key is its constructor. -/
def isConstructor (key : Key) : Bool :=
  !key.isPrivate && (key.isWord "constructor" || key.text == some "constructor".toList)

/-- The expression of a computed key. TypeScript lists faulty ones with a comma. -/
def computedExpression (rules : Rules) : Parse Node := do
  let start ← position
  let first ← rules.assignmentIn
  if ← isTypescript <&&> isAt .comma then
    let others ← manyWhile (eat .comma) rules.assignmentIn
    fault start
    return .expression (← spanFrom start) (first.node :: others.map Expr.node)
  else return first.node

/-- The key of a property. -/
def plain (rules : Rules) : Parse Key :=
  within ({ · with inPropertyName := true }) do
    let start ← position
    match ← lexeme with
    | .string value _ =>
      bump
      return { span := ← previous, text := some value }
    | .number | .bigint =>
      bump
      return { span := ← previous }
    | .word name =>
      bump
      return { span := ← previous, name := some name }
    | .bracketOpen =>
      bump
      let node ← computedExpression rules
      expect .bracketClose
      return { span := ← spanFrom start, computed := true, nodes := [node] }
    | _ => unexpected

/-- The key of a member of a class. -/
def ofMember (rules : Rules) : Parse Key := do
  if ← isAt .hash then
    let (span, name) ← Name.hidden
    if name == "constructor".toList then fault span.start
    return { span, isPrivate := true }
  else plain rules

end Key

end Unawait
