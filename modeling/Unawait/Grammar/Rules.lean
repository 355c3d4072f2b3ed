import Unawait.Grammar.Cursor
import Unawait.Grammar.Form

/-!
# The recursion of the grammar

The parts of a program nest without a bound, and nearly every construct can hold
nearly every other one. The constructs through which all nesting goes are collected
in a record. A production takes that record as an argument and never calls itself,
so that each production stands on its own; the record for a depth of nesting is
built from the one for the depth below it.
-/

namespace Unawait

/-- A statement or another item of a program, with the nodes that it gives. -/
structure Item where
  nodes : List Node
  /-- The item is a string alone. -/
  isDirective : Bool := false
  /-- The item is the directive that makes code strict. -/
  isUseStrict : Bool := false
  /-- Only a module can hold the item. -/
  isModule : Bool := false

/-- The constructs through which all nesting goes. -/
structure Rules where
  /-- An expression without a comma. -/
  assignment : Parse Expr
  /-- An expression with at most operators before or after it. -/
  unary : Parse Expr
  /-- The operators after an operand that bind more strongly than a given strength. -/
  operators : Expr → Nat → Parse Expr
  /-- A primary expression with its members, or a `new`. -/
  member : Parse Expr
  /-- A statement, whether declarations are allowed, and whether it is an item of a
  program or a namespace. -/
  statement : Bool → Bool → Parse Item
  /-- A name or a pattern that is bound; whether the name `let` is refused. -/
  pattern : Bool → Parse Pattern
  /-- A type. -/
  type : Parse (List Node)
  /-- A type that is not conditional. -/
  simpleType : Parse (List Node)
  /-- A type without the operators between types. -/
  typeOperand : Parse (List Node)
  /-- An element, with its span and the nodes in it. -/
  element : Parse (Span × List Node)

namespace Rules

/-- The rules for the depth zero: everything fails. -/
def none : Rules :=
  let fail {α : Type} : Parse α := do throw (← get).length
  { assignment := fail, unary := fail, operators := fun _ _ => fail, member := fail,
    statement := fun _ _ => fail, pattern := fun _ => fail, type := fail, simpleType := fail,
    typeOperand := fail, element := fail }

/-- An assignment where `in` is an operator. -/
def assignmentIn (rules : Rules) : Parse Expr := Parse.allowingIn rules.assignment

/-- One or more expressions with commas between them. -/
def expression (rules : Rules) : Parse Expr := do
  let first ← rules.assignment
  if ← Parse.isAt .comma then
    let others ← Parse.manyWhile (Parse.eat .comma) rules.assignment
    let span ← Parse.spanFrom first.start
    return .carrier span (first.node :: others.map Expr.node) .other
  else return first

/-- An expression where `in` is an operator. -/
def expressionIn (rules : Rules) : Parse Expr := Parse.allowingIn rules.expression

/-- An expression with dots before it, or without. -/
def element? (rules : Rules) : Parse Element := do
  let start ← Parse.position
  if ← Parse.eat .ellipsis then return .mk (some start) (← rules.assignmentIn)
  else return .mk .none (← rules.assignment)

end Rules

end Unawait
