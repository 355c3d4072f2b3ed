import Unawait.Grammar.Rules

/-!
# Names

Which words are names depends on the context. A name that is bound is checked more
strictly than one that is used, and a property may have any word as its name.
-/

namespace Unawait

open Parse

namespace Name

/-- The words that are no names in modules, beside the reserved ones. -/
def barredInModules : List String :=
  ["yield", "let", "static", "implements", "interface", "package", "private", "protected",
    "public"]

/-- A name; whether `yield` and `await` may be names. -/
def identifier (allowYield allowAwait : Bool) : Parse (Span × Text) := do
  let place ← position
  let lexeme ← lexeme
  match lexeme with
  | .word name =>
    bump
    let span ← previous
    let context ← context
    if lexeme.isWord "enum" then fault place
    if lexeme.isOneOf barredInModules then moduleFault place
    if lexeme.isWord "await" then
      if context.inDeclare then return (span, name)
      if context.inStaticBlock || context.isModule || context.inAsync then failAt place
      unless allowAwait do failAt place
    else if lexeme.isWord "this" then
      unless ← isTypescript do failAt place
    else if lexeme.isWord "yield" then
      unless allowYield do failAt place
    else if lexeme.isKeyword && !lexeme.isWord "let" || lexeme.isWordLiteral then failAt place
    else if name == "arguments".toList && context.inClassField then fault place
    return (span, name)
  | _ => unexpected

/-- A name that is used. -/
def reference : Parse (Span × Text) := do
  let context ← context
  identifier (!context.inGenerator) (!context.inAsync)

/-- A name that is bound; whether the name `let` is refused. -/
def binding (barLet : Bool) : Parse (Span × Text) := do
  if barLet && (← isWord "let") then unexpected
  let (span, name) ← identifier true true
  if Expr.isRestricted name then moduleFault span.start
  let context ← context
  if (context.inAsync || context.inStaticBlock) && name == "await".toList then fault span.start
  if context.inGenerator && name == "yield".toList then fault span.start
  return (span, name)

/-- A name that is bound, if there is one. -/
def binding? (barLet : Bool) : Parse (Option (Span × Text)) := do
  if (← isName) || (← isTypescript) && (← isWord "this") then some <$> binding barLet
  else return none

/-- Any word. -/
def word : Parse (Span × Text) := do
  let _ ← position
  match ← lexeme with
  | .word name =>
    bump
    return (← previous, name)
  | _ => unexpected

/-- A private name from its sign on; the result is the span with the sign, and the
name without it. -/
def hidden : Parse (Span × Text) := do
  let start ← position
  bump
  let sign ← previous
  if (← position) ≠ sign.stop then failAt start
  let (_, name) ← word
  return (← spanFrom start, name)

/-- The name of a member: any word or a private name. The result says whether it is
private. -/
def member : Parse (Bool × Text) := do
  if ← isAt .hash then return (true, (← hidden).2) else return (false, (← word).2)

end Name

end Unawait
