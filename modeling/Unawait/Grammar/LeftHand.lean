import Unawait.Grammar.Access

/-!
# Expressions that can stand on the left of an assignment

A member or a call with everything that follows it directly. Elements, `super` and
`import` are read here too, since they cannot follow a `new`.
-/

namespace Unawait

open Parse

namespace LeftHand

/-- What follows the word `import` in an expression; where the word starts, and
whether calls are left. -/
def loader (rules : Rules) (start : Nat) (noCall : Bool) : Parse Expr := do
  let callLoader : Parse Expr := do
    let span ← spanFrom start
    Access.all rules (.loader span) noCall false
  if ← eat .dot then
    modify fun cursor => { cursor with isModule := true }
    let (_, name) ← Name.word
    if name == "meta".toList then
      let span ← spanFrom start
      Access.all rules (.expr (.carrier span [] .other)) noCall false
    else if name == "source".toList then callLoader
    else unexpected
  else callLoader

/-- The type arguments of a call, if a call follows them. -/
def callTypes (rules : Rules) : Parse (Option Span) := do
  unless ← sees (fun lexeme => lexeme == .binary .less || lexeme == .binary .shiftLeft) do
    return none
  attemptTyped do
    let (span, _) ← Typing.arguments rules
    if ← isAt .parenOpen then return some span else return none

/-- The rest after a member or a `new`. -/
def rest (rules : Rules) (callee : Expr) : Parse Expr := do
  if callee.isArrow then return callee
  let types ← callTypes rules
  match callee.form with
  | .bareNew =>
    if types.isSome then expect .parenOpen
    return callee
  | _ =>
    if ← isAt .parenOpen then
      let arguments ← Access.arguments rules false
      let call ← Access.call (.expr callee) callee.start false types arguments
      Access.all rules (.expr call) false false
    else return callee

/-- A member or a call with everything that follows it directly. -/
def read (rules : Rules) : Parse Expr := do
  let start ← position
  if ← isJsx then
    match ← lexeme with
    | .tagText =>
      bump
      return .carrier (← spanFrom start) [] .literal
    | .tagStart =>
      let (span, nodes) ← rules.element
      return .carrier span nodes .other
    | _ =>
      if ← isAt (.binary .less) <&&> not <$> isAhead .bang then
        let (span, nodes) ← rules.element
        return .carrier span nodes .other
  if ← eatWord "super" then
    Access.all rules (.parent (← spanFrom start)) false false
  else if ← eatWord "import" then loader rules start false
  else rest rules (← rules.member)

end LeftHand

end Unawait
