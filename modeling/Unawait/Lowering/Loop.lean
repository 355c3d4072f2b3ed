import Unawait.Lowering.Basic

/-!
# Loops over async iterables

A `for await` loop becomes a plain `for` loop over the async iterator, with every
step awaited. The loop target is moved to the top of the body, where it is bound to
the value of the step. Around the loop a `try` statement sees to it that an iterator
that was left early is told so. The names `$d`, `$e`, `$s`, `$i` and `$x` with the
number of the loop stand for: nothing is owed to the iterator, an error of the loop,
the current step, the iterator, and a caught error.
-/

namespace Unawait.Lowering

/-- A value awaited in a lowered body. -/
def awaited (marker : Bool) (value : Text) : Text :=
  if marker then "yield\x7b__await:".toList ++ value ++ "\x7d".toList
  else "yield ".toList ++ value

/-- A text in which `#` stands for the number of the loop. -/
def numbered (number : Nat) (template : String) : Text :=
  template.toList.flatMap fun c => if c = '#' then Text.ofNat number else [c]

/-- The text between the loop target and the iterable. -/
def loopHead (number : Nat) : Text := numbered number "var $d#=1,$e#,$s#,$i#=__asyncIterator("

/-- The text after the iterable. -/
def loopTest (number : Nat) (marker : Bool) : Text :=
  numbered number ");$d#=1,!($s#=" ++ awaited marker (numbered number "$i#.next()")
    ++ numbered number ").done&&!($d#=0);)"

/-- The text after the loop. -/
def loopCleanup (number : Nat) (marker : Bool) : Text :=
  numbered number "\x7dcatch($x#)\x7b$e#=\x7be:$x#\x7d\x7dfinally\x7btry\x7b$d#||!$i#.return||("
    ++ awaited marker (numbered number "$i#.return()")
    ++ numbered number ")\x7dcatch($x#)\x7bif(!$e#)throw $x#\x7dif($e#)throw $e#.e\x7d"

/-- The particles of a loop: `await` and the two parentheses. -/
structure LoopParticles where
  keyword : Span
  opening : Span
  closing : Span

/-- Find the particles of a loop. -/
def loopParticles (node body : Node) : Step LoopParticles := do
  let tokens := (← get).tokens
  let keyword ← require (tokens.findForward node.start "await".toList) "await" node.start
  unless tokens.is (keyword + 1) "(".toList do missing "(" node.start
  let closing ← require (tokens.findBackward body.start ")".toList) ")" body.start
  match tokens.get? keyword, tokens.get? (keyword + 1), tokens.get? closing with
  | some keyword, some opening, some closing => pure { keyword, opening, closing }
  | _, _, _ => missing "(" node.start

/-- Lower a loop of an async scope. A label directly around it stays on the loop. -/
def lowerLoop (node : Node) (parent : Walk.Parent) : Step Unit := do
  let scope := (← get).scopes.current
  if scope.isAsync then
    match node.child? .left, node.child? .right, node.child? .body with
    | some left, some right, some body =>
      let wrapStart := match parent with
        | some (owner, .body) => if owner.is .labeledStatement then owner.start else node.start
        | _ => node.start
      let particles ← loopParticles node body
      let number := (← get).loops
      modify fun state => { state with loops := number + 1 }
      insertAfter wrapStart "try\x7b".toList
      remove particles.keyword.start particles.opening.start
      let destination ←
        if body.is .blockStatement then pure (body.start + 1)
        else do
          insertBefore body.start "\x7b".toList
          insertBefore body.stop "\x7d".toList
          pure body.start
      if left.is .variableDeclaration then
        insertBefore left.stop (numbered number "=$s#.value;")
      else
        insertAfter left.start "(".toList
        insertBefore left.stop (numbered number "=$s#.value);")
      moveRange left.start left.stop destination
      overwrite left.stop right.start (loopHead number)
      overwrite right.stop particles.closing.stop (loopTest number scope.isAsyncGenerator)
      insertBefore node.stop (loopCleanup number scope.isAsyncGenerator)
      modify fun state => { state with usage := { state.usage with forAwait := true } }
    | _, _, _ => pure ()

end Unawait.Lowering
