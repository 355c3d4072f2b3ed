import Mathlib
import Unawait.Proofs.Effects

/-!
# What each rule does to a node

The effect of a rule is a plain function of the text that was read, of the record of
the scope, and of the node and its place. Every rule is shown to have its effect on
every state, so that what is said about effects holds of a walk.
-/

namespace Unawait.Lowering

open Edit (Operation)

/-! ### Awaits -/

/-- The effect of an `await`. -/
def awaitEffect (reading : Reading) (scope : Scope) (node : Node) (parent : Walk.Parent) :
    Effect :=
  match node.child? .argument with
  | none => {}
  | some argument =>
    if scope.isAsync then
      if (reading.tokens.locate node.start).any fun i => reading.tokens.is i "await".toList then
        let texts := awaitTexts scope.isAsyncGenerator (needsParentheses parent)
          (reading.lines.crosses node.start argument.start)
        .ofEdits (.overwrite node.start (node.start + 5) texts.1
          :: if texts.2 = [] then [] else [.insertBefore node.stop texts.2])
      else .failing (.missingToken "await" node.start)
    else {}

theorem result_lowerAwait (node : Node) (parent : Walk.Parent) (state : State) :
    result (lowerAwait node parent) state =
      (awaitEffect state.reading state.scopes.current node parent).apply state := by
  cases found : node.child? .argument with
  | none =>
    simp only [result, lowerAwait, awaitEffect, outcome_bind, outcome_get, ok_bind, found]
    split <;> simp
  | some argument =>
    by_cases async : state.scopes.current.isAsync
    case neg => simp only [result, lowerAwait, awaitEffect, outcome_bind, outcome_get, ok_bind,
      async, Bool.false_eq_true, if_false, outcome_pure, found, Effect.apply_none]
    cases located : state.tokens.locate node.start with
    | none =>
      simp only [result, lowerAwait, awaitEffect, State.reading, outcome_bind, outcome_get, ok_bind,
        async, if_true, found, located]
      rfl
    | some index =>
      simp only [result, lowerAwait, awaitEffect, State.reading, outcome_bind, outcome_get, ok_bind,
        async, if_true, found, located, Option.any_some]
      by_cases keyword : state.tokens.is index "await".toList
      · simp only [keyword, if_true, outcome_bind, outcome_overwrite, bind_assoc, ok_bind,
          List.isEmpty_iff, Effect.apply_ofEdits_cons]
        split <;> next closed => simp [closed]
      · simp only [keyword]
        rfl

/-! ### Members of `super` -/

/-- The effect of passing the receiver to a call of a member. Type arguments are dropped. -/
def bindEffect (tokens : Tokens) (callee call : Node) : Effect :=
  let typeArguments := call.child? .typeArguments
  let after := (typeArguments.map Node.stop).getD callee.stop
  let dropped := typeArguments.toList.map fun node => Operation.remove node.start node.stop
  (Effect.ofEdits dropped).andThen <|
    match tokens.findForward after "(".toList with
    | none => .failing (.missingToken "(" after)
    | some index =>
      let parenthesis := (tokens.get? index).getD ⟨after, after + 1⟩
      let method := if call.flags.optional then "call(this" else ".call(this"
      let separator := if (call.children .arguments).isEmpty then "" else ","
      (Effect.ofEdits
        [.overwrite parenthesis.start parenthesis.stop (method.toList ++ separator.toList)]).andThen
          (.taking { usesThis := true })

theorem result_bindCall (callee call : Node) (state : State) :
    result (bindCall callee call) state = (bindEffect state.tokens callee call).apply state := by
  rw [result, bindCall, bindEffect, Effect.apply_andThen]
  cases call.child? .typeArguments with
  | none =>
    simp only [outcome_bind, outcome_pure, ok_bind, outcome_get, Option.map_none, Option.getD_none,
      Option.toList_none, List.map_nil, Effect.apply_ofEdits_nil]
    cases state.tokens.findForward callee.stop "(".toList with
    | none => rfl
    | some index =>
      simp only [outcome_require_some, ok_bind, outcome_overwrite, outcome_modifyScopes, bind_assoc,
        Effect.apply_andThen, Effect.apply_ofEdits_cons, Effect.apply_ofEdits_nil,
        Effect.apply_taking, Scopes.markThis_eq]
  | some node =>
    simp only [outcome_bind, outcome_pure, outcome_remove, ok_bind, outcome_get, bind_assoc,
      Option.map_some, Option.getD_some, Option.toList_some, List.map_cons, List.map_nil,
      Effect.apply_ofEdits_cons, Effect.apply_ofEdits_nil]
    cases state.tokens.findForward node.stop "(".toList with
    | none => rfl
    | some index =>
      simp only [outcome_require_some, ok_bind, outcome_overwrite, outcome_modifyScopes, bind_assoc,
        Effect.apply_andThen, Effect.apply_ofEdits_cons, Effect.apply_ofEdits_nil,
        Effect.apply_taking, Scopes.markThis_eq]

/-- The effect of replacing a member that is read. -/
def readEffect (node : Node) : Effect :=
  if node.flags.computed then
    match node.child? .property with
    | none => .failing (.missingToken "[" node.start)
    | some property =>
      .ofEdits [.overwrite node.start property.start "$uper(".toList,
        .overwrite property.stop node.stop ")".toList]
  else .ofEdits [.overwrite node.start node.stop ("$uper(".toList ++ keyLiteral node ++ ")".toList)]

/-- The call of which a node in this place is the callee. -/
def calledBy? : Walk.Parent → Option Node
  | some (owner, .callee) => if owner.is .callExpression then some owner else none
  | _ => none

/-- Whether a node in this place is what `new` is applied to. -/
def isConstructed : Walk.Parent → Bool
  | some (owner, .callee) => owner.is .newExpression
  | _ => false

/-- The effect of what is left to do for a member that was read, by its place. -/
def finishEffect (tokens : Tokens) (node : Node) (parent : Walk.Parent) : Effect :=
  match calledBy? parent with
  | some call => bindEffect tokens node call
  | none =>
    if isConstructed parent then
      .ofEdits [.insertAfter node.start "(".toList, .insertBefore node.stop ")".toList]
    else {}

/-- The effect of a member of `super`. -/
def superMemberEffect (reading : Reading) (scope : Scope) (node : Node) (parent : Walk.Parent) :
    Effect :=
  if scope.isAsync && !scope.inParams && !isWritten parent then
    (readEffect node).andThen
      ((Effect.taking { usesSuper := true }).andThen (finishEffect reading.tokens node parent))
  else {}

/-- Replace a member that is read. -/
def replaceRead (node : Node) : Step Unit := do
  if node.flags.computed then
    let property ← require (node.child? .property) "[" node.start
    overwrite node.start property.start "$uper(".toList
    overwrite property.stop node.stop ")".toList
  else
    overwrite node.start node.stop ("$uper(".toList ++ keyLiteral node ++ ")".toList)

/-- What is left to do for a member that was read, by its place. -/
def finishRead (node : Node) (parent : Walk.Parent) : Step Unit :=
  match parent with
  | some (owner, .callee) =>
    if owner.is .callExpression then bindCall node owner
    else if owner.is .newExpression then do
      insertAfter node.start "(".toList
      insertBefore node.stop ")".toList
    else pure ()
  | _ => pure ()

theorem lowerSuperMember_eq (node : Node) (parent : Walk.Parent) :
    lowerSuperMember node parent = get >>= fun state =>
      if state.scopes.replacesSuper && !isWritten parent then
        replaceRead node >>= fun _ => modifyScopes Scopes.markSuper >>= fun _ =>
          finishRead node parent
      else pure () := by
  by_cases computed : node.flags.computed <;>
    simp only [lowerSuperMember, replaceRead, computed, if_true, bind_assoc] <;> rfl

theorem result_replaceRead (node : Node) (state : State) :
    result (replaceRead node) state = (readEffect node).apply state := by
  by_cases computed : node.flags.computed
  · cases found : node.child? .property <;>
      simp [result, replaceRead, readEffect, computed, found]
  · simp [result, replaceRead, readEffect, computed]

theorem result_finishRead (node : Node) (parent : Walk.Parent) (state : State) :
    result (finishRead node parent) state =
      (finishEffect state.tokens node parent).apply state := by
  rcases parent with _ | ⟨owner, field⟩
  · simp [result, finishRead, finishEffect, calledBy?, isConstructed]
  · by_cases called : field = .callee
    case neg =>
      have unchanged : finishRead node (some (owner, field)) = pure () := by
        cases field <;> first | rfl | exact absurd rfl called
      have nothing : finishEffect state.tokens node (some (owner, field)) = {} := by
        cases field <;> first | rfl | exact absurd rfl called
      simp [unchanged, nothing, result]
    subst called
    by_cases call : owner.is .callExpression
    · simp only [finishRead, finishEffect, calledBy?, call, if_true, result_bindCall]
    · by_cases constructed : owner.is .newExpression <;>
        simp [result, finishRead, finishEffect, calledBy?, isConstructed, call, constructed]

theorem result_lowerSuperMember (node : Node) (parent : Walk.Parent) (state : State) :
    result (lowerSuperMember node parent) state =
      (superMemberEffect state.reading state.scopes.current node parent).apply state := by
  rw [lowerSuperMember_eq, result, outcome_bind, outcome_get, ok_bind, ← result]
  by_cases applies : state.scopes.current.isAsync && !state.scopes.current.inParams &&
    !isWritten parent
  case neg =>
    rw [superMemberEffect, if_neg applies, if_neg (by exact applies), Effect.apply_none]
    rfl
  rw [superMemberEffect, if_pos applies, if_pos (by exact applies)]
  apply result_andThen state (result_replaceRead node state)
  intro later same
  apply result_andThen later
  · simp only [result, outcome_modifyScopes, ok_bind, Scopes.markSuper_eq, Effect.apply_taking]
  · intro last unchanged
    have tokens : last.tokens = state.reading.tokens := by rw [← same, ← unchanged]; rfl
    rw [result_finishRead, tokens]

/-- The failure for a construct that has no lowered form. -/
def unsupportedAt (lines : Lines) (construct : Construct) (offset : Nat) : Failure :=
  .unsupported construct ((lines.position offset).1 + 1) ((lines.position offset).2 + 1)

/-- The effect of a plain assignment to a member. -/
def plainAssignmentEffect (node left right : Node) : Effect :=
  let opened : Effect :=
    if left.flags.computed then
      match left.child? .property with
      | none => .failing (.missingToken "[" left.start)
      | some property =>
        .ofEdits [.overwrite left.start property.start "$uperEq(".toList,
          .overwrite property.stop right.start ",".toList]
    else
      .ofEdits [.overwrite left.start right.start
        ("$uperEq(".toList ++ keyLiteral left ++ ",".toList)]
  opened.andThen ((Effect.ofEdits [.insertBefore node.stop ")".toList]).andThen
    (.taking { assignsSuper := true }))

/-- The text in place of the target and the operator of a compound assignment. -/
def compoundHead (left : Node) (operator : Text) : Text :=
  let key := keyLiteral left
  let read := "$uper(".toList ++ key ++ ")".toList
  let assign := "$uperEq(".toList ++ key ++ ",".toList
  if ["||=", "&&=", "??="].any fun each => each.toList == operator then
    "(".toList ++ read ++ binaryOperator operator ++ assign
  else assign ++ read ++ binaryOperator operator ++ "(".toList

/-- The effect of a compound assignment to a member. -/
def compoundAssignmentEffect (lines : Lines) (node left right : Node) (operator : Text) : Effect :=
  if left.flags.computed then .failing (unsupportedAt lines .compoundAssignment node.start)
  else
    (Effect.ofEdits [.overwrite left.start right.start (compoundHead left operator),
      .insertBefore node.stop "))".toList]).andThen
        (.taking { usesSuper := true, assignsSuper := true })

/-- The effect of an assignment. -/
def assignmentEffect (reading : Reading) (scope : Scope) (node : Node) : Effect :=
  match superTarget? { current := scope } node .left, node.child? .right with
  | some left, some right =>
    let operator := node.head.operator.getD ['=']
    if operator = ['='] then plainAssignmentEffect node left right
    else compoundAssignmentEffect reading.lines node left right operator
  | _, _ => {}

/-- The text in place of an update of a member. -/
def updateText (node target : Node) : Text :=
  let key := keyLiteral target
  let decrement := node.head.operator = some ['-', '-']
  let assign := "$uperEq(".toList ++ key ++ ",+$uper(".toList ++ key ++ ")".toList
    ++ (if decrement then "-1" else "+1").toList ++ ")".toList
  if node.flags.prefixed then assign
  else "(".toList ++ assign ++ (if decrement then "+1" else "-1").toList ++ ")".toList

/-- The effect of an update. -/
def updateEffect (reading : Reading) (scope : Scope) (node : Node) : Effect :=
  match superTarget? { current := scope } node .argument with
  | none => {}
  | some target =>
    if target.flags.computed then .failing (unsupportedAt reading.lines .update node.start)
    else
      (Effect.ofEdits [.overwrite node.start node.stop (updateText node target)]).andThen
        (.taking { usesSuper := true, assignsSuper := true })

theorem result_lowerPlainAssignment (node left right : Node) (state : State) :
    result (lowerPlainAssignment node left right) state =
      (plainAssignmentEffect node left right).apply state := by
  by_cases computed : left.flags.computed
  · cases found : left.child? .property <;>
      simp [result, lowerPlainAssignment, plainAssignmentEffect, computed, found,
        Scopes.markSuperAssignment_eq]
  · simp [result, lowerPlainAssignment, plainAssignmentEffect, computed,
      Scopes.markSuperAssignment_eq]

theorem result_lowerCompoundAssignment (node left right : Node) (operator : Text) (state : State) :
    result (lowerCompoundAssignment node left right operator) state =
      (compoundAssignmentEffect state.lines node left right operator).apply state := by
  by_cases computed : left.flags.computed
  · rw [result, lowerCompoundAssignment, if_pos computed, outcome_bind, outcome_unsupported,
      compoundAssignmentEffect, if_pos computed]
    rfl
  · have steps : lowerCompoundAssignment node left right operator =
        overwrite left.start right.start (compoundHead left operator) >>= fun _ =>
          insertBefore node.stop "))".toList >>= fun _ =>
            modifyScopes fun scopes => scopes.markSuper.markSuperAssignment := by
      rw [lowerCompoundAssignment, if_neg computed]
      rfl
    rw [steps, compoundAssignmentEffect, if_neg computed]
    simp [result, Scopes.markSuper_eq, Scopes.markSuperAssignment_eq, Scopes.charge_assoc,
      Scope.charge]

theorem result_lowerSuperAssignment (node : Node) (state : State) :
    result (lowerSuperAssignment node) state =
      (assignmentEffect state.reading state.scopes.current node).apply state := by
  have same : superTarget? { current := state.scopes.current } node .left =
      superTarget? state.scopes node .left := rfl
  rw [result, lowerSuperAssignment, outcome_bind, outcome_get, ok_bind, ← result,
    assignmentEffect, same]
  cases superTarget? state.scopes node .left with
  | none => simp
  | some left =>
    cases node.child? .right with
    | none => simp
    | some right =>
      dsimp only
      split
      · exact result_lowerPlainAssignment node left right state
      · exact result_lowerCompoundAssignment node left right _ state

theorem result_lowerSuperUpdate (node : Node) (state : State) :
    result (lowerSuperUpdate node) state =
      (updateEffect state.reading state.scopes.current node).apply state := by
  have same : superTarget? { current := state.scopes.current } node .argument =
      superTarget? state.scopes node .argument := rfl
  rw [result, lowerSuperUpdate, outcome_bind, outcome_get, ok_bind, ← result, updateEffect, same]
  cases superTarget? state.scopes node .argument with
  | none => simp
  | some target =>
    by_cases computed : target.flags.computed
    · simp [result, computed, unsupportedAt, State.reading]
    · simp only [computed]
      by_cases decrement : node.head.operator = some ['-', '-'] <;>
        simp [result, updateText, decrement, Scopes.markSuper_eq, Scopes.markSuperAssignment_eq,
          Scopes.charge_assoc, Scope.charge]

/-! ### Loops -/

/-- The particles of a loop, or the failure to find them. -/
def findParticles (tokens : Tokens) (node body : Node) : Except Failure LoopParticles :=
  match tokens.findForward node.start "await".toList with
  | none => .error (.missingToken "await" node.start)
  | some keyword =>
    if tokens.is (keyword + 1) "(".toList then
      match tokens.findBackward body.start ")".toList with
      | none => .error (.missingToken ")" body.start)
      | some closing =>
        match tokens.get? keyword, tokens.get? (keyword + 1), tokens.get? closing with
        | some keyword, some opening, some closing => .ok { keyword, opening, closing }
        | _, _, _ => .error (.missingToken "(" node.start)
    else .error (.missingToken "(" node.start)

/-- Where the `try` statement around a loop starts. -/
def wrapStart (node : Node) : Walk.Parent → Nat
  | some (owner, .body) => if owner.is .labeledStatement then owner.start else node.start
  | _ => node.start

/-- The calls that lower a loop. -/
def loopEdits (number : Nat) (marker : Bool) (wrapStart : Nat) (particles : LoopParticles)
    (node left right body : Node) : List Operation :=
  let destination := if body.is .blockStatement then body.start + 1 else body.start
  .insertAfter wrapStart "try\x7b".toList
    :: .remove particles.keyword.start particles.opening.start
    :: (if body.is .blockStatement then []
        else [.insertBefore body.start "\x7b".toList, .insertBefore body.stop "\x7d".toList])
    ++ (if left.is .variableDeclaration then
          [.insertBefore left.stop (numbered number "=$s#.value;")]
        else
          [.insertAfter left.start "(".toList,
            .insertBefore left.stop (numbered number "=$s#.value);")])
    ++ [.moveRange left.start left.stop destination,
        .overwrite left.stop right.start (loopHead number),
        .overwrite right.stop particles.closing.stop (loopTest number marker),
        .insertBefore node.stop (loopCleanup number marker)]

/-- The effect of a loop over an async iterable. -/
def loopEffect (reading : Reading) (scope : Scope) (number : Nat) (node : Node)
    (parent : Walk.Parent) : Effect :=
  if scope.isAsync then
    match node.child? .left, node.child? .right, node.child? .body with
    | some left, some right, some body =>
      match findParticles reading.tokens node body with
      | .error failure => .failing failure
      | .ok particles =>
        (Effect.ofEdits (loopEdits number scope.isAsyncGenerator (wrapStart node parent) particles
          node left right body)).andThen (.noting { forAwait := true } 1)
    | _, _, _ => {}
  else {}

theorem outcome_loopParticles (node body : Node) (state : State) :
    outcome (loopParticles node body) state =
      findParticles state.tokens node body >>= fun particles => .ok (particles, state) := by
  simp only [loopParticles, findParticles, outcome_bind, outcome_get, ok_bind]
  cases state.tokens.findForward node.start "await".toList with
  | none => rfl
  | some keyword =>
    by_cases opened : state.tokens.is (keyword + 1) "(".toList
    case neg =>
      simp only [opened, outcome_require_some, ok_bind]
      rfl
    simp only [opened, if_true, outcome_require_some, ok_bind, outcome_bind]
    cases state.tokens.findBackward body.start ")".toList with
    | none => rfl
    | some closing =>
      simp only [outcome_require_some, ok_bind]
      cases state.tokens.get? keyword <;> cases state.tokens.get? (keyword + 1) <;>
        cases state.tokens.get? closing <;> rfl

theorem result_lowerLoop (node : Node) (parent : Walk.Parent) (state : State) :
    result (lowerLoop node parent) state =
      (loopEffect state.reading state.scopes.current state.loops node parent).apply state := by
  unfold lowerLoop
  rw [result, loopEffect, outcome_bind, outcome_get, ok_bind]
  by_cases async : state.scopes.current.isAsync
  case neg => rw [if_neg async, if_neg async, outcome_pure, ok_bind, Effect.apply_none]
  rw [if_pos async, if_pos async]
  cases node.child? .left with
  | none => simp
  | some left =>
    cases node.child? .right with
    | none => simp
    | some right =>
      cases node.child? .body with
      | none => simp
      | some body =>
        simp only [outcome_bind, outcome_loopParticles, State.reading]
        cases findParticles state.tokens node body with
        | error failure => rfl
        | ok particles =>
          simp only [loopEdits, ok_bind, bind_assoc, outcome_get, outcome_modify,
            outcome_insertAfter, outcome_remove, Effect.apply_andThen, Effect.apply_ofEdits_cons,
            List.cons_append]
          by_cases block : body.is .blockStatement <;>
            by_cases declared : left.is .variableDeclaration <;>
              simp only [block, declared, if_true, if_false, Bool.false_eq_true, ok_bind, bind_assoc,
                outcome_pure, outcome_bind, outcome_modify, outcome_insertBefore,
                outcome_insertAfter, outcome_moveRange, outcome_overwrite, List.cons_append,
                List.nil_append, Effect.apply_ofEdits_cons, Effect.apply_ofEdits_nil,
                Effect.apply_noting, Usage.merge_forAwait] <;> rfl

/-! ### Functions -/

/-- The effect of removing `async`, and the star of a generator, from a function. -/
def stripFunctionEffect (reading : Reading) (node : Node) : Effect :=
  let tokens := reading.tokens
  match tokens.findForward node.start "function".toList with
  | none => .failing (.missingToken "function" node.start)
  | some function =>
    match (before? function).filter fun i => tokens.is i "async".toList with
    | none => .failing (.missingToken "async" node.start)
    | some keyword =>
      let stop := tokenStart tokens function node.start
      (Effect.ofEdits [.remove (tokenStart tokens keyword node.start) stop]).andThen <|
        if node.flags.isGenerator then
          if tokens.is (function + 1) "*".toList then
            let star := (tokens.get? (function + 1)).getD ⟨stop, stop⟩
            let glued := isSolid reading.source (before? star.start)
              && isSolid reading.source (some star.stop)
            .ofEdits [.overwrite star.start star.stop (if glued then [' '] else [])]
          else .failing (.missingToken "*" stop)
        else {}

/-- The effect of removing `async`, and the star of a generator, from a method. -/
def stripMethodEffect (tokens : Tokens) (node : Node) : Effect :=
  match node.child? .key with
  | none => .failing (.missingToken "method key" node.start)
  | some key =>
    let keyToken := tokens.firstFrom key.start
    let before :=
      if node.flags.isGenerator then
        ((before? keyToken).filter fun i => tokens.is i "*".toList).bind before?
      else before? keyToken
    match before.filter fun i => tokens.is i "async".toList with
    | none => .failing (.missingToken "async" key.start)
    | some keyword =>
      .ofEdits [.remove (tokenStart tokens keyword key.start) (tokenStart tokens keyToken key.start)]

/-- The effect of removing `async` from an arrow. -/
def stripArrowEffect (tokens : Tokens) (node : Node) : Effect :=
  let first := tokens.firstFrom node.start
  match (first :: (before? first).toList).find? fun i => tokens.is i "async".toList with
  | none => .failing (.missingToken "async" node.start)
  | some keyword =>
    .ofEdits
      [.remove (tokenStart tokens keyword node.start) (tokenStart tokens (keyword + 1) node.stop)]

/-- The effect of wrapping the body of an arrow whose `async` was removed. -/
def wrapArrowEffect (tokens : Tokens) (body : Node) (opening closing : Text) : Effect :=
  if body.is .blockStatement then
    .ofEdits [.overwrite body.start (body.start + 1) opening,
      .overwrite (offsetBefore body.stop) body.stop closing]
  else
    match tokens.findBackward body.start "=>".toList with
    | none => .failing (.missingToken "=>" body.start)
    | some arrow =>
      .ofEdits [.insertBefore (((tokens.get? arrow).map Span.stop).getD body.start) opening,
        .insertAfter body.start "return ".toList, .insertBefore body.stop closing]

/-- The effect of an async function whose code has taken what its record says, in the
scope around it. -/
def functionEffect (reading : Reading) (scope outer : Scope) (node : Node) : Effect :=
  match node.child? .body with
  | none => {}
  | some body =>
    let texts := bindings scope (scope.isArrow && (outer.isAsync && !outer.inParams))
    let opening := generatorOpening scope texts.1
    let closing := generatorClosing scope texts.2
    let wrapped :=
      if node.is .arrowFunctionExpression then
        (stripArrowEffect reading.tokens node).andThen
          (wrapArrowEffect reading.tokens body opening closing)
      else
        (if node.kind.isMethod then stripMethodEffect reading.tokens node
          else stripFunctionEffect reading node).andThen
          (.ofEdits [.insertBefore (body.start + 1) ("return ".toList ++ opening),
            .insertBefore (offsetBefore body.stop) closing])
    wrapped.andThen
      (.noting { asyncGenerator := scope.isGenerator, asyncFunction := !scope.isGenerator } 0)

theorem result_stripFunction (node : Node) (state : State) :
    result (stripFunction node) state = (stripFunctionEffect state.reading node).apply state := by
  simp only [result, stripFunction, stripFunctionEffect, State.reading, outcome_bind, outcome_get,
    ok_bind]
  cases state.tokens.findForward node.start "function".toList with
  | none => rfl
  | some function =>
    simp only [outcome_require_some, ok_bind]
    cases (before? function).filter fun i => state.tokens.is i "async".toList with
    | none => rfl
    | some keyword =>
      simp only [outcome_require_some, ok_bind, outcome_remove, bind_assoc, Effect.apply_andThen,
        Effect.apply_ofEdits_cons, Effect.apply_ofEdits_nil]
      by_cases generator : node.flags.isGenerator
      case neg => simp only [generator, Bool.false_eq_true, if_false, outcome_pure, ok_bind,
        Effect.apply_none]
      by_cases star : state.tokens.is (function + 1) "*".toList
      · simp only [generator, star, if_true, outcome_overwrite, bind_assoc, ok_bind,
          Effect.apply_ofEdits_cons, Effect.apply_ofEdits_nil]
        rfl
      · simp only [generator, star, Bool.false_eq_true, if_true, if_false, outcome_bind,
          outcome_missing, error_bind, Effect.apply_failing]

theorem result_stripMethod (node : Node) (state : State) :
    result (stripMethod node) state = (stripMethodEffect state.tokens node).apply state := by
  simp only [result, stripMethod, stripMethodEffect, outcome_bind, outcome_get, ok_bind]
  cases node.child? .key with
  | none => rfl
  | some key =>
    simp only [outcome_require_some, ok_bind]
    cases (if node.flags.isGenerator then
        ((before? (state.tokens.firstFrom key.start)).filter
          fun i => state.tokens.is i "*".toList).bind before?
      else before? (state.tokens.firstFrom key.start)).filter
        fun i => state.tokens.is i "async".toList with
    | none => rfl
    | some keyword =>
      simp only [outcome_require_some, outcome_remove, ok_bind, bind_assoc,
        Effect.apply_ofEdits_cons, Effect.apply_ofEdits_nil]

theorem result_stripArrow (node : Node) (state : State) :
    result (stripArrow node) state = (stripArrowEffect state.tokens node).apply state := by
  simp only [result, stripArrow, stripArrowEffect, outcome_bind, outcome_get, ok_bind]
  cases (state.tokens.firstFrom node.start :: (before? (state.tokens.firstFrom node.start)).toList).find?
      fun i => state.tokens.is i "async".toList with
  | none => rfl
  | some keyword =>
    simp only [outcome_require_some, outcome_remove, ok_bind, bind_assoc,
      Effect.apply_ofEdits_cons, Effect.apply_ofEdits_nil]

theorem result_wrapArrow (node body : Node) (opening closing : Text) (state : State) :
    result (wrapArrow node body opening closing) state =
      ((stripArrowEffect state.tokens node).andThen
        (wrapArrowEffect state.tokens body opening closing)).apply state := by
  apply result_andThen state (result_stripArrow node state)
  intro later same
  have tokens : later.tokens = state.tokens := congrArg Reading.tokens same
  by_cases block : body.is .blockStatement
  · simp only [result, wrapArrowEffect, block, if_true, outcome_bind, outcome_overwrite, ok_bind,
      bind_assoc, Effect.apply_ofEdits_cons, Effect.apply_ofEdits_nil]
  · simp only [result, wrapArrowEffect, block, Bool.false_eq_true, if_false, outcome_bind,
      outcome_get, ok_bind, tokens]
    cases state.tokens.findBackward body.start "=>".toList with
    | none => rfl
    | some arrow =>
      simp only [outcome_require_some, outcome_insertBefore, outcome_insertAfter, ok_bind,
        bind_assoc, Effect.apply_ofEdits_cons, Effect.apply_ofEdits_nil]

theorem result_wrapFunction (node body : Node) (opening closing : Text) (state : State) :
    result (wrapFunction node body opening closing) state =
      ((if node.kind.isMethod then stripMethodEffect state.tokens node
        else stripFunctionEffect state.reading node).andThen
        (.ofEdits [.insertBefore (body.start + 1) ("return ".toList ++ opening),
          .insertBefore (offsetBefore body.stop) closing])).apply state := by
  have inserted (later : State) : result (do
      insertBefore (body.start + 1) ("return ".toList ++ opening)
      insertBefore (offsetBefore body.stop) closing) later =
      (Effect.ofEdits [.insertBefore (body.start + 1) ("return ".toList ++ opening),
        .insertBefore (offsetBefore body.stop) closing]).apply later := by
    simp only [result, outcome_bind, outcome_insertBefore, ok_bind, bind_assoc,
      Effect.apply_ofEdits_cons, Effect.apply_ofEdits_nil]
  by_cases method : node.kind.isMethod <;>
    simp only [wrapFunction, method, Bool.false_eq_true, if_true, if_false]
  · exact result_andThen state (result_stripMethod node state) fun later _ => inserted later
  · exact result_andThen state (result_stripFunction node state) fun later _ => inserted later

theorem result_lowerFunction (node : Node) (scope : Scope) (state : State) :
    result (lowerFunction node scope) state =
      (functionEffect state.reading scope state.scopes.current node).apply state := by
  cases found : node.child? .body with
  | none => simp only [result, lowerFunction, functionEffect, found, outcome_pure, ok_bind,
      Effect.apply_none]
  | some body =>
    simp only [lowerFunction, functionEffect, found]
    rw [result, outcome_bind, outcome_get, ok_bind, ← result]
    have noted (later : State) : result (modify fun state => { state with
        usage := state.usage.merge
          { asyncGenerator := scope.isGenerator, asyncFunction := !scope.isGenerator } }) later =
        (Effect.noting
          { asyncGenerator := scope.isGenerator, asyncFunction := !scope.isGenerator } 0).apply
          later := by
      simp only [result, outcome_modify, ok_bind, Effect.apply_noting, Nat.add_zero]
    by_cases arrow : node.is .arrowFunctionExpression <;>
      simp only [arrow, Bool.false_eq_true, if_true, if_false]
    · exact result_andThen state (result_wrapArrow node body _ _ state) fun later _ => noted later
    · exact result_andThen state (result_wrapFunction node body _ _ state) fun later _ => noted later

/-! ### Nodes -/

/-- The effect of the rule for a node that opens no scope. -/
def ruleEffect (reading : Reading) (scope : Scope) (number : Nat) (node : Node)
    (parent : Walk.Parent) : Effect :=
  match node.kind with
  | .awaitExpression => awaitEffect reading scope node parent
  | .superMember => superMemberEffect reading scope node parent
  | .assignmentExpression => assignmentEffect reading scope node
  | .updateExpression => updateEffect reading scope node
  | .forOfStatement =>
    if node.flags.isAwait then loopEffect reading scope number node parent else {}
  | _ => {}

theorem result_lowerNode (node : Node) (parent : Walk.Parent) (state : State)
    (plain : node.opensScope = false) :
    result (lowerNode node parent) state =
      (ruleEffect state.reading state.scopes.current state.loops node parent).apply state := by
  simp only [lowerNode, ruleEffect, plain, Bool.false_eq_true, if_false]
  cases node.kind
  case awaitExpression => exact result_lowerAwait node parent state
  case superMember => exact result_lowerSuperMember node parent state
  case assignmentExpression => exact result_lowerSuperAssignment node state
  case updateExpression => exact result_lowerSuperUpdate node state
  case forOfStatement =>
    by_cases loop : node.flags.isAwait <;> simp only [loop, Bool.false_eq_true, if_true, if_false]
    · exact result_lowerLoop node parent state
    · rw [result_pure, Effect.apply_none]
  all_goals rw [result_pure, Effect.apply_none]

/-- The effect of leaving a node that opens a scope, whose record is dropped. -/
def dropEffect (reading : Reading) (scope outer : Scope) (node : Node) : Effect :=
  if scope.isAsync && node.kind.isFunctionLike then functionEffect reading scope outer node else {}

theorem result_lowerNode_of_opensScope (node : Node) (parent : Walk.Parent) (state : State)
    (opens : node.opensScope = true) :
    result (lowerNode node parent) state =
      (dropEffect state.reading state.scopes.pop.1 state.scopes.pop.2.current node).apply
        { state with scopes := state.scopes.pop.2 } := by
  rw [result, lowerNode, if_pos opens, outcome_bind, outcome_get, ok_bind, outcome_bind,
    outcome_modifyScopes, ok_bind, ← result, dropEffect]
  split
  · exact result_lowerFunction node _ _
  · rw [result_pure, Effect.apply_none]

/-! ### Captures -/

/-- What the rule for a node that opens no scope charges to the record of the scope. -/
def ruleTaken (scope : Scope) (node : Node) (parent : Walk.Parent) : Scope :=
  match node.kind with
  | .superMember =>
    if scope.isAsync && !scope.inParams && !isWritten parent then
      { usesSuper := true, usesThis := (calledBy? parent).isSome }
    else {}
  | .assignmentExpression =>
    match superTarget? { current := scope } node .left, node.child? .right with
    | some _, some _ =>
      { usesSuper := node.head.operator.getD ['='] ≠ ['='], assignsSuper := true }
    | _, _ => {}
  | .updateExpression =>
    if (superTarget? { current := scope } node .argument).isSome then
      { usesSuper := true, assignsSuper := true }
    else {}
  | _ => {}

theorem taken_awaitEffect (reading : Reading) (scope : Scope) (node : Node)
    (parent : Walk.Parent) : (awaitEffect reading scope node parent).taken = {} := by
  unfold awaitEffect
  split
  · rfl
  · split
    · split <;> rfl
    · rfl

theorem taken_readEffect (node : Node) : (readEffect node).taken = {} := by
  unfold readEffect
  split
  · split <;> rfl
  · rfl

theorem taken_bindEffect {tokens : Tokens} {callee call : Node}
    (done : (bindEffect tokens callee call).failure = none) :
    (bindEffect tokens callee call).taken = { usesThis := true } := by
  unfold bindEffect at done ⊢
  dsimp only at done ⊢
  split at done
  next => simp [Effect.failing, Effect.ofEdits] at done
  next => rfl

theorem taken_superMemberEffect {reading : Reading} {scope : Scope} {node : Node}
    {parent : Walk.Parent} (done : (superMemberEffect reading scope node parent).failure = none) :
    (superMemberEffect reading scope node parent).taken =
      if scope.isAsync && !scope.inParams && !isWritten parent then
        { usesSuper := true, usesThis := (calledBy? parent).isSome }
      else {} := by
  unfold superMemberEffect at done ⊢
  split
  next applies =>
    rw [if_pos applies] at done
    obtain ⟨read, -, finished⟩ := by simpa only [Effect.failure_andThen] using done
    rw [Effect.taken_andThen _ read, Effect.taken_andThen _ rfl, taken_readEffect]
    unfold finishEffect at finished ⊢
    cases called : calledBy? parent with
    | some call =>
      rw [called] at finished
      rw [taken_bindEffect finished]
      rfl
    | none =>
      dsimp only
      split <;> rfl
  next => rfl

theorem taken_plainAssignmentEffect {node left right : Node}
    (done : (plainAssignmentEffect node left right).failure = none) :
    (plainAssignmentEffect node left right).taken = { assignsSuper := true } := by
  unfold plainAssignmentEffect at done ⊢
  obtain ⟨opened, -⟩ := by simpa only [Effect.failure_andThen] using done
  rw [Effect.taken_andThen _ opened]
  split
  · split <;> rfl
  · rfl

theorem taken_assignmentEffect {reading : Reading} {scope : Scope} {node : Node}
    (done : (assignmentEffect reading scope node).failure = none) :
    (assignmentEffect reading scope node).taken =
      match superTarget? { current := scope } node .left, node.child? .right with
      | some _, some _ =>
        { usesSuper := node.head.operator.getD ['='] ≠ ['='], assignsSuper := true }
      | _, _ => {} := by
  unfold assignmentEffect at done ⊢
  revert done
  cases superTarget? { current := scope } node .left with
  | none => exact fun _ => rfl
  | some left =>
    cases node.child? .right with
    | none => exact fun _ => rfl
    | some right =>
      intro done
      dsimp only at done ⊢
      split
      next plain =>
        rw [if_pos plain] at done
        simp [taken_plainAssignmentEffect done, plain]
      next compound =>
        rw [if_neg compound] at done
        unfold compoundAssignmentEffect at done ⊢
        split
        next computed => simp [computed, Effect.failing] at done
        next => simp [Effect.andThen, Effect.ofEdits, Effect.taking, compound, Scope.charge]

theorem taken_updateEffect {reading : Reading} {scope : Scope} {node : Node}
    (done : (updateEffect reading scope node).failure = none) :
    (updateEffect reading scope node).taken =
      if (superTarget? { current := scope } node .argument).isSome then
        { usesSuper := true, assignsSuper := true }
      else {} := by
  unfold updateEffect at done ⊢
  revert done
  cases superTarget? { current := scope } node .argument with
  | none => exact fun _ => rfl
  | some target =>
    intro done
    dsimp only at done ⊢
    split
    next computed => simp [computed, Effect.failing] at done
    next => rfl

theorem taken_loopEffect (reading : Reading) (scope : Scope) (number : Nat) (node : Node)
    (parent : Walk.Parent) : (loopEffect reading scope number node parent).taken = {} := by
  unfold loopEffect
  split
  · split
    · split <;> rfl
    · rfl
  · rfl

/-- A rule that does not fail charges what it should. -/
theorem taken_ruleEffect {reading : Reading} {scope : Scope} {number : Nat} {node : Node}
    {parent : Walk.Parent} (done : (ruleEffect reading scope number node parent).failure = none) :
    (ruleEffect reading scope number node parent).taken = ruleTaken scope node parent := by
  unfold ruleEffect ruleTaken at *
  revert done
  cases node.kind
  case awaitExpression => exact fun _ => taken_awaitEffect reading scope node parent
  case superMember => exact taken_superMemberEffect
  case assignmentExpression => exact taken_assignmentEffect
  case updateExpression => exact taken_updateEffect
  case forOfStatement =>
    intro _
    dsimp only
    split
    · exact taken_loopEffect reading scope number node parent
    · rfl
  all_goals exact fun _ => rfl

theorem taken_stripFunctionEffect (reading : Reading) (node : Node) :
    (stripFunctionEffect reading node).taken = {} := by
  unfold stripFunctionEffect
  dsimp only
  split
  · rfl
  · split
    · rfl
    · apply Effect.taken_andThen_empty rfl
      split
      · split <;> rfl
      · rfl

theorem taken_stripMethodEffect (tokens : Tokens) (node : Node) :
    (stripMethodEffect tokens node).taken = {} := by
  unfold stripMethodEffect
  split
  · rfl
  · dsimp only
    split <;> rfl

theorem taken_stripArrowEffect (tokens : Tokens) (node : Node) :
    (stripArrowEffect tokens node).taken = {} := by
  unfold stripArrowEffect
  dsimp only
  split <;> rfl

theorem taken_wrapArrowEffect (tokens : Tokens) (body : Node) (opening closing : Text) :
    (wrapArrowEffect tokens body opening closing).taken = {} := by
  unfold wrapArrowEffect
  split
  · rfl
  · split <;> rfl

/-- Wrapping a function charges nothing to the scope around it. -/
theorem taken_dropEffect (reading : Reading) (scope outer : Scope) (node : Node) :
    (dropEffect reading scope outer node).taken = {} := by
  unfold dropEffect functionEffect
  split
  · split
    · rfl
    · apply Effect.taken_andThen_empty _ rfl
      split
      · exact Effect.taken_andThen_empty (taken_stripArrowEffect _ _) (taken_wrapArrowEffect _ _ _ _)
      · apply Effect.taken_andThen_empty _ rfl
        split
        · exact taken_stripMethodEffect _ _
        · exact taken_stripFunctionEffect _ _
  · rfl

end Unawait.Lowering
