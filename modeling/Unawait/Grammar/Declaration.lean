import Unawait.Grammar.Class

/-!
# Declarations

Functions, classes and variables. A declaration of TypeScript that declares a type or
a namespace has no node of its own; as a statement it is carried by one.
-/

namespace Unawait

open Parse

/-- A declaration. -/
inductive Declaration where
  /-- A declaration with a node of its own. -/
  | single (node : Node)
  /-- A declaration that only carries the nodes in it. -/
  | carrier (span : Span) (nodes : List Node)

namespace Declaration

/-- The node of a declaration that is a statement. -/
def statement : Declaration → Node
  | single node => node
  | carrier span nodes => .statement span nodes

/-- The nodes of a declaration that is exported. -/
def exported : Declaration → List Node
  | single node => [node]
  | carrier _ nodes => nodes

/-- A declaration that starts at another place. -/
def startingAt (declaration : Declaration) (start : Nat) : Declaration :=
  match declaration with
  | single node => single (node.startingAt start)
  | carrier span nodes => carrier ⟨start, span.stop⟩ nodes

/-! ## Functions and classes -/

/-- A function from the word `function` on; where it starts. -/
def function (rules : Rules) (decorators : List Node) (start : Nat) (isAsync : Bool) :
    Parse Function :=
  Function.named rules decorators start isAsync false true

/-- A function, whose word `function` is at the cursor. -/
def plainFunction (rules : Rules) (decorators : List Node) : Parse Declaration := do
  let function ← function rules decorators (← position) false
  return single (function.node .functionDeclaration)

/-- An asynchronous function, whose word `async` is at the cursor. -/
def asyncFunction (rules : Rules) (decorators : List Node) : Parse Declaration := do
  let start ← position
  bump
  let function ← function rules decorators start true
  return single (function.node .functionDeclaration)

/-- Whether an asynchronous function starts at the cursor. -/
def startsAsyncFunction : Parse Bool :=
  isWord "async" <&&> isWordAhead "function" <&&> not <$> breakAhead

/-- A class from the word `class` on; where it starts. -/
def classNamed (rules : Rules) (decorators : List Node) (start : Nat) (isAbstract : Bool) :
    Parse Declaration :=
  single <$> ClassSyntax.read rules decorators start true isAbstract

/-! ## Variables -/

/-- The words that declare variables. -/
inductive DeclaringWord where
  | isVar | isLet | isConst
deriving DecidableEq

/-- A variable that is declared. -/
structure Declarator where
  node : Node
  /-- Where the name or the pattern starts. -/
  place : Nat
  isName : Bool
  hasType : Bool
  hasValue : Bool

/-- Variables that are declared together. -/
structure Variables where
  span : Span
  declarators : List Declarator

namespace Variables

def node (list : Variables) : Node :=
  .declaration list.span (list.declarators.map Declarator.node)

end Variables

/-- The value of a variable, if it has one; where the variable starts. Without `in` or
`of` after it, a pattern has a value, and so has a constant in strict code, unless it
is only declared to exist. -/
def value? (rules : Rules) (inLoop : Bool) (word : DeclaringWord) (isName : Bool) (start : Nat) :
    Parse (Option Expr) := do
  if ← pure inLoop <&&> (isWord "in" <||> isWord "of") then return none
  if ← eat .assign then return some (← rules.assignment)
  let context ← context
  unless context.inDeclare do
    if word = .isConst && context.strict then fault start
    else unless isName do failAt start
  return none

/-- A variable with its type and value; whether it is in the head of a loop, and the
word before it. Only after `var` it can be named `let`. -/
def declarator (rules : Rules) (inLoop : Bool) (word : DeclaringWord) : Parse Declarator := do
  let start ← position
  let pattern ← rules.pattern (word ≠ .isVar)
  if ← isTypescript <&&> pure pattern.isName then
    let _ ← eat .bang
  let types ← Typing.colon? rules
  let value ← value? rules inLoop word pattern.isName start
  let id := Node.pattern pattern.span (pattern.nodes ++ types.getD [])
  let span ← spanFrom start
  return { node := .declarator span id (value.map Expr.node), place := pattern.start,
           isName := pattern.isName, hasType := types.isSome, hasValue := value.isSome }

/-- Variables with commas between them, by a way to read one; the span of the word
before them. A comma needs a variable after it. -/
def declarators (single : Parse Declarator) (word : Span) : Parse (List Declarator) := do
  let found ← repeating ([] : List Declarator) fun found => do
    if (← atEnd) || (← isAt .semicolon) then
      let last ← previous
      fault (if last == word then last.stop else last.start)
      return .done found
    let found := (← single) :: found
    if ← eat .comma then return .more found else return .done found
  return found.reverse

/-- Go past what follows a declaration that has no end. -/
def recover (rules : Rules) : Parse Unit := do
  fault (← span).start
  tryCatch (discard rules.expression) fun _ => return ()
  repeating () fun _ => do
    if ← eatSemicolon then return .done ()
    bump
    match ← lexeme? with
    | some (.invalid _) => return .done ()
    | _ => return .more ()

/-- Whether the head of a loop in TypeScript has no variable. -/
def lacksVariable (rules : Rules) : Parse Bool := do
  unless ← isTypescript <&&> (isWord "in" <||> isWord "of") do return false
  tryCatch
    (lookAhead do
      bump
      let _ ← rules.assignment
      expect .parenClose
      return true)
    fun _ => return false

/-- Variables from the word before them on; whether they are in the head of a loop. -/
def declared (rules : Rules) (inLoop : Bool) : Parse Variables := do
  let start ← position
  let word : DeclaringWord ←
    if ← isWord "var" then pure .isVar else if ← isWord "let" then pure .isLet else pure .isConst
  bump
  let place ← previous
  if ← pure inLoop <&&> lacksVariable rules then
    fault place.stop
    return { span := ← spanFrom start, declarators := [] }
  let single := declarator rules inLoop word
  let single := if word = .isVar && inLoop then single else allowingIn single
  let declarators ← declarators single place
  unless inLoop do
    unless ← eatSemicolon do recover rules
  return { span := ← spanFrom start, declarators }

/-- Whether the word `let` at the cursor starts a declaration. -/
def startsLet : Parse Bool :=
  isWord "let" <&&> seesAhead fun lexeme =>
    lexeme == .braceOpen || lexeme == .bracketOpen || lexeme.isPlainWord
      || lexeme.isOneOf ["let", "yield", "await"]

/-- Resources from the word `using` on, if it starts a declaration; where the
declaration starts. JavaScript does not have it. -/
def resources? (rules : Rules) (start : Nat) : Parse (Option Declaration) := do
  if ← breakAhead <||> not <$> isNameAhead then return none
  bump
  let declarators ← declarators (declarator rules false .isVar) (← previous)
  unless ← isTypescript do fault start
  unless (← context).allowUsing do fault start
  for declarator in declarators do
    unless declarator.isName do fault start
    unless declarator.hasValue do fault start
  expectSemicolon
  return some (carrier (← spanFrom start) (declarators.map Declarator.node))

end Declaration

end Unawait
