import Unawait.Grammar.Declaration
import Unawait.Grammar.Target

/-!
# The heads of `for` loops

Only after the first part of a head it is known which kind of loop it is.
-/

namespace Unawait

open Parse

/-- The head of a `for` loop. -/
inductive ForHead where
  /-- A loop over the values of something: what they are bound to, and the something. -/
  | of (left right : Node)
  /-- A loop over the keys of something. -/
  | keys (left : List Node) (right : Node)
  /-- A loop with a test and an update. -/
  | plain (parts : List Node)

namespace ForHead

/-- The head of a loop over something, from the word `of` or `in` on. What is bound is
given as the node of a loop over values and as the nodes of one over keys. -/
def each (rules : Rules) (left : Node) (nodes : List Node) : Parse ForHead := do
  if ← eatWord "of" then return .of left (← rules.assignmentIn).node
  bump
  return .keys nodes (← rules.expressionIn).node

/-- The test and the update, after the first part. -/
def tests (rules : Rules) (first : List Node) : Parse ForHead := do
  let test ←
    if ← eat .semicolon then pure []
    else do
      let test ← rules.expressionIn
      expect .semicolon
      pure [test.node]
  let update ← if ← isAt .parenClose then pure [] else (fun expr => [expr.node]) <$> rules.expressionIn
  return .plain (first ++ test ++ update)

/-- Whether `of` or `in` is at the cursor. -/
def isEach : Parse Bool := isWord "of" <||> isWord "in"

/-- Check the variables of a loop over something: there is one, without a value and a
type. -/
def checkVariables (declarators : List Declaration.Declarator) : Parse Unit := do
  match declarators with
  | [declarator] =>
    if ← pure declarator.hasValue <&&> ((return (← context).strict) <||> isWord "of") then
      fault declarator.place
    if declarator.hasType then fault declarator.place
  | _ => for declarator in declarators.drop 1 do fault declarator.place

/-- A head that starts with variables. -/
def withVariables (rules : Rules) : Parse ForHead := do
  let list ← Declaration.declared rules true
  let node := list.node
  if ← isEach then
    checkVariables list.declarators
    each rules node [node]
  else
    expect .semicolon
    tests rules [node]

/-- Whether an expression is the word `using`, perhaps after `await`. -/
def isUsing (expr : Expr) : Bool :=
  match expr.form with
  | .await inner => inner.isName "using"
  | _ => expr.isName "using"

/-- A resource for each value, after the word `using`. -/
def withResource (rules : Rules) (start : Nat) : Parse ForHead := do
  let (nameSpan, _) ← Name.binding false
  let span ← spanFrom start
  let node := Node.declarator span (.pattern nameSpan []) none
  let _ ← token
  if ← isWord "in" then fault start
  each rules (.pattern span [node]) [node]

/-- A head that starts with an expression. -/
def withExpression (rules : Rules) : Parse ForHead := do
  let start ← position
  let first ← within ({ · with allowIn := false }) rules.expression
  if ← isTypescript <&&> pure (isUsing first) <&&> not <$> isWord "of" <&&>
      (isWordAhead "of" <||> isWordAhead "in") then
    return ← withResource rules start
  if ← isEach then
    let pattern ← Target.ofExpr .target first
    if ← isTypescript <&&> isWord "in" then
      match pattern.shape with
      | .name | .target _ => pure ()
      | _ => fault pattern.start
    each rules (.pattern pattern.span pattern.nodes) pattern.nodes
  else
    expect .semicolon
    tests rules [first.node]

/-- The head of a loop between its parentheses. -/
def read (rules : Rules) : Parse ForHead := do
  if ← sees (·.isOneOf ["const", "var"]) <||> Declaration.startsLet then withVariables rules
  else if ← eat .semicolon then tests rules []
  else withExpression rules

end ForHead

end Unawait
