import Mathlib
import Unawait.Proofs.Script
import Unawait.Proofs.Shape

/-!
# What the rules do to a text

For every node that fits its text the rule comes to one of a few rewrites, with all
particles found: a keyword is replaced and a text put at the end, a member or an
assignment gets another form, a call passes the receiver, a loop is taken apart, the
body of a function is wrapped. A rewrite says what happens to the node's own bytes, and
nothing of how the source is edited.

Two rewrites are carried out by the rule for a part: a call is changed when its callee
is, and a label when the loop in it is.
-/

namespace Unawait.Lowering

open Edit (Operation)

/-- How the receiver is passed to a call: the type arguments that are dropped, the
parenthesis, and the text in its place. -/
structure Binding where
  dropped : Option Span
  parenthesis : Span
  text : Text

/-- What becomes of the value of a member. -/
inductive Use where
  | value
  | constructed
  | called (binding : Binding)

/-- What the rule for a node does to the node's own bytes. -/
inductive Rewrite where
  | keep
  | await (opening closing : Text)
  /-- The whole node is replaced. -/
  | name (text : Text) (use : Use)
  | key (property : Node) (use : Use)
  | assignName (left right : Node) (head tail : Text)
  | assignKey (left property right : Node)
  | call (binding : Binding)
  | label
  | loop (number : Nat) (marker : Bool) (labelled : Option Nat) (particles : LoopParticles)
      (left right body : Node)
  | function (removed : Span) (star : Option (Span × Text)) (body : Node) (opening closing : Text)
  | arrowBlock (removed : Span) (body : Node) (opening closing : Text)
  | arrowValue (removed : Span) (arrowStop : Nat) (body : Node) (opening closing : Text)

/-! ### The rewrite of a node -/

/-- How the receiver is passed to a call of a member. -/
def bindingOf (tokens : Tokens) (callee call : Node) : Binding :=
  let after := Shape.argumentsFrom call callee
  { dropped := (call.child? .typeArguments).map Node.span
    parenthesis := ((tokens.findForward after "(".toList).bind tokens.get?).getD ⟨after, after + 1⟩
    text := (if call.flags.optional then "call(this" else ".call(this").toList
      ++ (if (call.children .arguments).isEmpty then "" else ",").toList }

/-- What becomes of the value of a member in a place. -/
def useOf (tokens : Tokens) (node : Node) (parent : Walk.Parent) : Use :=
  match calledBy? parent with
  | some call => .called (bindingOf tokens node call)
  | none => if isConstructed parent then .constructed else .value

/-- Whether members of `super` are replaced in a scope. -/
def replaces (scope : Scope) : Bool := scope.isAsync && !scope.inParams

def awaitRewrite (reading : Reading) (scope : Scope) (node : Node) (parent : Walk.Parent) :
    Rewrite :=
  match node.child? .argument with
  | none => .keep
  | some argument =>
    if scope.isAsync then
      let texts := awaitTexts scope.isAsyncGenerator (needsParentheses parent)
        (reading.lines.crosses node.start argument.start)
      .await texts.1 texts.2
    else .keep

def memberRewrite (reading : Reading) (scope : Scope) (node : Node) (parent : Walk.Parent) :
    Rewrite :=
  if replaces scope && !isWritten parent then
    let use := useOf reading.tokens node parent
    if node.flags.computed then
      match node.child? .property with
      | none => .keep
      | some property => .key property use
    else .name ("$uper(".toList ++ keyLiteral node ++ ")".toList) use
  else .keep

def assignmentRewrite (scope : Scope) (node : Node) : Rewrite :=
  match superTarget? { current := scope } node .left, node.child? .right with
  | some left, some right =>
    let operator := node.head.operator.getD ['=']
    if left.flags.computed then
      match left.child? .property with
      | none => .keep
      | some property => if operator = ['='] then .assignKey left property right else .keep
    else if operator = ['='] then
      .assignName left right ("$uperEq(".toList ++ keyLiteral left ++ ",".toList) ")".toList
    else .assignName left right (compoundHead left operator) "))".toList
  | _, _ => .keep

def updateRewrite (scope : Scope) (node : Node) : Rewrite :=
  match superTarget? { current := scope } node .argument with
  | none => .keep
  | some target => if target.flags.computed then .keep else .name (updateText node target) .value

def callRewrite (reading : Reading) (scope : Scope) (node : Node) : Rewrite :=
  match node.parts.find? fun part => part.1 == .callee && part.2.is .superMember with
  | none => .keep
  | some part => if replaces scope then .call (bindingOf reading.tokens part.2 node) else .keep

def labelRewrite (scope : Scope) (node : Node) : Rewrite :=
  if node.parts.any fun part => part.1 == .body && lowersLoop scope part.2 then .label else .keep

/-- The start of the label directly around a node. -/
def labelledAt? : Walk.Parent → Option Nat
  | some (owner, .body) => if owner.is .labeledStatement then some owner.start else none
  | _ => none

def loopRewrite (reading : Reading) (scope : Scope) (number : Nat) (node : Node)
    (parent : Walk.Parent) : Rewrite :=
  if scope.isAsync then
    match node.child? .left, node.child? .right, node.child? .body with
    | some left, some right, some body =>
      match findParticles reading.tokens node body with
      | .error _ => .keep
      | .ok particles =>
        .loop number scope.isAsyncGenerator (labelledAt? parent) particles left right body
    | _, _, _ => .keep
  else .keep

/-- From `async` to `function`, and the star of a generator with what takes its place. -/
def functionParticles (reading : Reading) (node : Node) : Span × Option (Span × Text) :=
  let tokens := reading.tokens
  let index := (tokens.findForward node.start "function".toList).getD 0
  let star := (tokens.get? (index + 1)).getD ⟨node.start, node.start⟩
  let glued := isSolid reading.source (before? star.start)
    && isSolid reading.source (some star.stop)
  (⟨node.start, tokenStart tokens index node.start⟩,
    if node.flags.isGenerator then some (star, if glued then [' '] else []) else none)

/-- From `async` to the key of a method. -/
def methodParticles (tokens : Tokens) (node key : Node) : Span :=
  let keyword := tokens.firstFrom key.start - if node.flags.isGenerator then 2 else 1
  ⟨tokenStart tokens keyword key.start, key.start⟩

/-- From `async` to the parameters of an arrow. -/
def arrowParticles (tokens : Tokens) (node : Node) : Span :=
  ⟨node.start, tokenStart tokens (tokens.firstFrom node.start + 1) node.stop⟩

def functionRewrite (reading : Reading) (record outer : Scope) (node : Node) : Rewrite :=
  match node.child? .body with
  | none => .keep
  | some body =>
    let texts := bindings record (record.isArrow && replaces outer)
    let opening := generatorOpening record texts.1
    let closing := generatorClosing record texts.2
    if node.is .arrowFunctionExpression then
      let removed := arrowParticles reading.tokens node
      if body.is .blockStatement then .arrowBlock removed body opening closing
      else
        let arrow := (reading.tokens.findBackward body.start "=>".toList).bind reading.tokens.get?
        .arrowValue removed ((arrow.map Span.stop).getD body.start) body opening closing
    else if node.kind.isMethod then
      match node.child? .key with
      | none => .keep
      | some key =>
        .function (methodParticles reading.tokens node key) none body
          ("return ".toList ++ opening) closing
    else
      let particles := functionParticles reading node
      .function particles.1 particles.2 body ("return ".toList ++ opening) closing

/-- The rewrite of a node in a place. -/
def rewrite (reading : Reading) (node : Node) (place : Place) : Rewrite :=
  if node.opensScope then
    if node.flags.isAsync && node.kind.isFunctionLike then
      functionRewrite reading (ownRecord node place.scope) place.scope node
    else .keep
  else
    match node.kind with
    | .awaitExpression => awaitRewrite reading place.scope node place.parent
    | .superMember => memberRewrite reading place.scope node place.parent
    | .assignmentExpression => assignmentRewrite place.scope node
    | .updateExpression => updateRewrite place.scope node
    | .callExpression => callRewrite reading place.scope node
    | .labeledStatement => labelRewrite place.scope node
    | .forOfStatement =>
      if node.flags.isAwait then
        loopRewrite reading place.scope
          (place.number + loopsInParts node place.scope node.parts) node place.parent
      else .keep
    | _ => .keep

end Unawait.Lowering
