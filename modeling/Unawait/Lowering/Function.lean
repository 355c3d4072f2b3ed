import Unawait.Lowering.Basic

/-!
# Async functions

The body of an async function is wrapped into a generator that is started at once
and handed to its driver. The word `async`, and the star of a generator, are
removed. What the body takes from the function is handed to the generator: the
receiver by `call`, the rest as parameters, so that `arguments` keeps its name and
members of `super` are reached through two accessors.
-/

namespace Unawait.Lowering

/-- The parameters of the generator and what is passed for them, in the same order.
An arrow inside a lowered function passes on the accessors of that function. -/
def bindings (scope : Scope) (inherited : Bool) : Text × Text :=
  let uses : List (Bool × String × String) :=
    [(scope.usesArguments, "arguments", "arguments"),
      (scope.usesSuper, "$uper", if inherited then "$uper" else "p=>super[p]"),
      (scope.assignsSuper, "$uperEq", if inherited then "$uperEq" else "(p,v)=>(super[p]=v)")]
  let used := uses.filter Prod.fst
  (Text.joined [','] (used.map fun use => use.2.1.toList),
    Text.joined [','] (used.map fun use => use.2.2.toList))

/-- The text that opens the generator. -/
def generatorOpening (scope : Scope) (params : Text) : Text :=
  (if scope.isGenerator then "__asyncGen" else "__async").toList
    ++ "(function*(".toList ++ params ++ ")\x7b".toList

/-- The text that closes the generator and starts it. -/
def generatorClosing (scope : Scope) (args : Text) : Text :=
  if scope.usesThis then
    if args.isEmpty then "\x7d.call(this))".toList
    else "\x7d.call(this,".toList ++ args ++ "))".toList
  else "\x7d(".toList ++ args ++ "))".toList

/-- A byte that exists and is no white space. -/
def isSolid (source : Text) (offset : Option Nat) : Bool :=
  match offset.bind source.charAt? with
  | some c => !(c == ' ' || c == '\t' || c == '\n' || c == '\x0c' || c == '\r')
  | none => false

/-- Remove `async`, and the star of a generator, from a function. Where the star
keeps two words apart a space takes its place. -/
def stripFunction (node : Node) : Step Unit := do
  let state ← get
  let tokens := state.tokens
  let function ← require (tokens.findForward node.start "function".toList) "function" node.start
  let keyword ← require ((before? function).filter fun i => tokens.is i "async".toList)
    "async" node.start
  let stop := tokenStart tokens function node.start
  remove (tokenStart tokens keyword node.start) stop
  if node.flags.isGenerator then
    unless tokens.is (function + 1) "*".toList do missing "*" stop
    let star := (tokens.get? (function + 1)).getD ⟨stop, stop⟩
    let glued := isSolid state.source (before? star.start) && isSolid state.source (some star.stop)
    overwrite star.start star.stop (if glued then [' '] else [])

/-- Remove `async`, and the star of a generator, from a method. -/
def stripMethod (node : Node) : Step Unit := do
  let tokens := (← get).tokens
  let key ← require (node.child? .key) "method key" node.start
  let keyToken := tokens.firstFrom key.start
  let before :=
    if node.flags.isGenerator then
      ((before? keyToken).filter fun i => tokens.is i "*".toList).bind before?
    else before? keyToken
  let keyword ← require (before.filter fun i => tokens.is i "async".toList) "async" key.start
  remove (tokenStart tokens keyword key.start) (tokenStart tokens keyToken key.start)

/-- Remove `async` from an arrow. -/
def stripArrow (node : Node) : Step Unit := do
  let tokens := (← get).tokens
  let first := tokens.firstFrom node.start
  let candidates := first :: (before? first).toList
  let keyword ← require (candidates.find? fun i => tokens.is i "async".toList) "async" node.start
  remove (tokenStart tokens keyword node.start) (tokenStart tokens (keyword + 1) node.stop)

/-- Wrap the body of an async arrow. A body that is an expression becomes the
value that the generator returns. -/
def wrapArrow (node body : Node) (opening closing : Text) : Step Unit := do
  stripArrow node
  if body.is .blockStatement then
    overwrite body.start (body.start + 1) opening
    overwrite (offsetBefore body.stop) body.stop closing
  else
    let tokens := (← get).tokens
    let arrow ← require (tokens.findBackward body.start "=>".toList) "=>" body.start
    let arrowStop := ((tokens.get? arrow).map Span.stop).getD body.start
    insertBefore arrowStop opening
    insertAfter body.start "return ".toList
    insertBefore body.stop closing

/-- Wrap the body of an async function or method. -/
def wrapFunction (node body : Node) (opening closing : Text) : Step Unit := do
  if node.kind.isMethod then stripMethod node else stripFunction node
  insertBefore (body.start + 1) ("return ".toList ++ opening)
  insertBefore (offsetBefore body.stop) closing

/-- Lower an async function whose code has taken what its record says. A function
without a body stays as it is. -/
def lowerFunction (node : Node) (scope : Scope) : Step Unit := do
  if let some body := node.child? .body then
    let inherited := scope.isArrow && (← get).scopes.replacesSuper
    let (params, args) := bindings scope inherited
    let opening := generatorOpening scope params
    let closing := generatorClosing scope args
    if node.is .arrowFunctionExpression then wrapArrow node body opening closing
    else wrapFunction node body opening closing
    let used : Usage :=
      { asyncGenerator := scope.isGenerator, asyncFunction := !scope.isGenerator }
    modify fun state => { state with usage := state.usage.merge used }

end Unawait.Lowering
