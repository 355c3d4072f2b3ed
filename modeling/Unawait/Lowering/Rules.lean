import Unawait.Lowering.Await
import Unawait.Lowering.Function
import Unawait.Lowering.Loop
import Unawait.Lowering.Super

/-!
# The rules of the lowering

On the way down a walk records what is captured, and on the way up it makes the
edits: a function is wrapped only when all that is inside it was lowered. Closing
texts at one offset therefore come innermost first.
-/

namespace Unawait.Lowering

/-- Whether a node in this slot is evaluated outside the construct that owns it:
computed keys and decorators are, and so are the parameters of an async arrow. -/
def evaluatedOutside : Walk.Parent → Bool
  | some (owner, .key) => owner.opensScope
  | some (owner, .decorators) => owner.opensScope
  | some (owner, .params) => owner.opensScope && owner.is .arrowFunctionExpression
  | _ => false

/-- Whether a node is a parameter of a function with a receiver of its own. -/
def isOwnParameter : Walk.Parent → Bool
  | some (owner, .params) => owner.kind.ownsReceiver
  | _ => false

/-- Change the scopes for a node on the way down. -/
def enterSlot (parent : Walk.Parent) : Step Unit :=
  if evaluatedOutside parent then modifyScopes Scopes.suspend
  else if isOwnParameter parent then modifyScopes Scopes.enterParams
  else pure ()

/-- Change the scopes back on the way up. -/
def leaveSlot (parent : Walk.Parent) : Step Unit :=
  if evaluatedOutside parent then modifyScopes Scopes.resume
  else if isOwnParameter parent then modifyScopes Scopes.leaveParams
  else pure ()

/-- Record what a node takes from the scope that it is evaluated in. -/
def capture (node : Node) : Step Unit :=
  match node.kind with
  | .thisExpression => modifyScopes Scopes.markThis
  | .identifier =>
    if node.hasName "arguments".toList then modifyScopes Scopes.markArguments else pure ()
  | _ => pure ()

/-- Ask for the places of a node's ends. -/
def markEnds (node : Node) : Step Unit := do
  if (← get).sourceMap then
    modify fun state =>
      { state with buffer := (state.buffer.mark node.start).mark node.stop }

/-- Enter a node. -/
def enter (node : Node) (parent : Walk.Parent) : Step Walk.Visit := do
  markEnds node
  enterSlot parent
  if node.opensScope then modifyScopes fun scopes => scopes.push (Scope.ofNode node)
  capture node
  pure .descend

/-- Lower a node after all that is inside it. -/
def lowerNode (node : Node) (parent : Walk.Parent) : Step Unit := do
  if node.opensScope then
    let (scope, scopes) := (← get).scopes.pop
    modifyScopes fun _ => scopes
    if scope.isAsync && node.kind.isFunctionLike then lowerFunction node scope
  else
    match node.kind with
    | .awaitExpression => lowerAwait node parent
    | .superMember => lowerSuperMember node parent
    | .assignmentExpression => lowerSuperAssignment node
    | .updateExpression => lowerSuperUpdate node
    | .forOfStatement => if node.flags.isAwait then lowerLoop node parent else pure ()
    | _ => pure ()

/-- Leave a node. -/
def leave (node : Node) (parent : Walk.Parent) : Step Unit := do
  lowerNode node parent
  leaveSlot parent

/-- The rules as a visitor of a tree. -/
def visitor : Walk.Visitor Failure State := { enter, leave }

end Unawait.Lowering
