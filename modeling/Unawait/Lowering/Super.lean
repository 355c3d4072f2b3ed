import Unawait.Lowering.Basic

/-!
# Members of `super`

Inside a lowered body members of `super` are read and written through the two
accessors of the generator. A call of a member passes the receiver explicitly. A
member that is written is replaced together with its assignment or update; a
compound assignment or an update evaluates its key twice, so it has no lowered form
for a computed key.
-/

namespace Unawait.Lowering

/-- The name of a member as a string literal. -/
def keyLiteral (member : Node) : Text := '"' :: member.head.name.getD [] ++ ['"']

/-- Whether a member in this place is replaced with its parent, or stays. -/
def isWritten : Walk.Parent → Bool
  | some (owner, .argument) =>
    owner.is .unaryExpression && owner.head.operator == some "delete".toList
      || owner.is .updateExpression
  | some (owner, .left) => owner.is .assignmentExpression
  | _ => false

/-- Pass the receiver to a call of a member. Type arguments are dropped. -/
def bindCall (callee call : Node) : Step Unit := do
  let after ← match call.child? .typeArguments with
    | some typeArguments => do
      remove typeArguments.start typeArguments.stop
      pure typeArguments.stop
    | none => pure callee.stop
  let tokens := (← get).tokens
  let parenthesis ← require (tokens.findForward after "(".toList) "(" after
  let span := (tokens.get? parenthesis).getD ⟨after, after + 1⟩
  let method := if call.flags.optional then "call(this" else ".call(this"
  let separator := if (call.children .arguments).isEmpty then "" else ","
  overwrite span.start span.stop (method.toList ++ separator.toList)
  modifyScopes Scopes.markThis

/-- Lower a member that is read. -/
def lowerSuperMember (node : Node) (parent : Walk.Parent) : Step Unit := do
  if (← get).scopes.replacesSuper && !isWritten parent then
    if node.flags.computed then
      let property ← require (node.child? .property) "[" node.start
      overwrite node.start property.start "$uper(".toList
      overwrite property.stop node.stop ")".toList
    else
      overwrite node.start node.stop ("$uper(".toList ++ keyLiteral node ++ ")".toList)
    modifyScopes Scopes.markSuper
    match parent with
    | some (owner, .callee) =>
      if owner.is .callExpression then bindCall node owner
      else if owner.is .newExpression then
        insertAfter node.start "(".toList
        insertBefore node.stop ")".toList
    | _ => pure ()

/-- The member in a field of a write, if members are replaced here. -/
def superTarget? (scopes : Scopes) (node : Node) (field : Field) : Option Node :=
  if scopes.replacesSuper then (node.child? field).filter fun target => target.is .superMember
  else none

/-- Lower a plain assignment to a member. -/
def lowerPlainAssignment (node left right : Node) : Step Unit := do
  if left.flags.computed then
    let property ← require (left.child? .property) "[" left.start
    overwrite left.start property.start "$uperEq(".toList
    overwrite property.stop right.start ",".toList
  else
    overwrite left.start right.start ("$uperEq(".toList ++ keyLiteral left ++ ",".toList)
  insertBefore node.stop ")".toList
  modifyScopes Scopes.markSuperAssignment

/-- The binary operator of an assignment operator. -/
def binaryOperator (operator : Text) : Text :=
  if operator.getLast? = some '=' then operator.dropLast else operator

/-- Lower a compound assignment to a member. A logical one assigns only if it has
to. -/
def lowerCompoundAssignment (node left right : Node) (operator : Text) : Step Unit := do
  if left.flags.computed then unsupported .compoundAssignment node.start
  let key := keyLiteral left
  let read := "$uper(".toList ++ key ++ ")".toList
  let assign := "$uperEq(".toList ++ key ++ ",".toList
  let logical := ["||=", "&&=", "??="].any fun each => each.toList == operator
  let head :=
    if logical then "(".toList ++ read ++ binaryOperator operator ++ assign
    else assign ++ read ++ binaryOperator operator ++ "(".toList
  overwrite left.start right.start head
  insertBefore node.stop "))".toList
  modifyScopes fun scopes => scopes.markSuper.markSuperAssignment

/-- Lower an assignment whose target is a member. -/
def lowerSuperAssignment (node : Node) : Step Unit := do
  if let some left := superTarget? (← get).scopes node .left then
    if let some right := node.child? .right then
      let operator := node.head.operator.getD ['=']
      if operator = ['='] then lowerPlainAssignment node left right
      else lowerCompoundAssignment node left right operator

/-- Lower an increment or decrement of a member. The value of the postfix form is
computed back from the new value. -/
def lowerSuperUpdate (node : Node) : Step Unit := do
  if let some target := superTarget? (← get).scopes node .argument then
    if target.flags.computed then unsupported .update node.start
    let key := keyLiteral target
    let decrement := node.head.operator = some ['-', '-']
    let (change, undo) := if decrement then ("-1", "+1") else ("+1", "-1")
    let assign := "$uperEq(".toList ++ key ++ ",+$uper(".toList ++ key ++ ")".toList
      ++ change.toList ++ ")".toList
    let value := if node.flags.prefixed then assign
      else "(".toList ++ assign ++ undo.toList ++ ")".toList
    overwrite node.start node.stop value
    modifyScopes fun scopes => scopes.markSuper.markSuperAssignment

end Unawait.Lowering
