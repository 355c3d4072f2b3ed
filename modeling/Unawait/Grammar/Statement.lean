import Unawait.Grammar.Loop
import Unawait.Grammar.Primary
import Unawait.Grammar.TypeDeclaration

/-!
# Statements

A statement is told by its first word; without one of these words it is an
expression, or a label if a colon follows a name.
-/

namespace Unawait

open Parse

namespace Statement

/-- A statement that merely carries nodes, from where it starts to the last token. -/
def carrying (start : Nat) (nodes : List Node) : Parse Item := do
  return { nodes := [.statement (← spanFrom start) nodes] }

/-- A declaration as a statement. -/
def ofDeclaration (declaration : Declaration) : Item := { nodes := [declaration.statement] }

/-- A statement inside another one, where no declaration can be. -/
def inner (rules : Rules) : Parse Node := do
  let item ← rules.statement false false
  return item.nodes.headD (.statement ⟨0, 0⟩ [])

/-- An expression in parentheses. -/
def condition (rules : Rules) : Parse Node := do
  expect .parenOpen
  let expr ← rules.expressionIn
  expect .parenClose
  return expr.node

/-- The body of a loop. -/
def loopBody (rules : Rules) : Parse Node :=
  within ({ · with allowBreak := true, allowContinue := true }) (inner rules)

/-! ## Jumps -/

/-- The label of a jump and the end of the statement. -/
def jumpLabel : Parse (Option Text) := do
  if ← eatSemicolon then return none
  let (_, label) ← Name.reference
  expectSemicolon
  return some label

/-- Whether a jump has a label that no statement around it has. -/
def isUnknown (label : Option Text) : Parse Bool := do
  let labels := (← get).labels
  return label.any fun label => !labels.contains label

/-- The word `break`. -/
def breaking (start : Nat) : Parse Item := do
  bump
  let label ← jumpLabel
  if (← isUnknown label) || !(← context).allowBreak then fault start
  carrying start []

/-- The word `continue`. -/
def continuing (start : Nat) : Parse Item := do
  bump
  let label ← jumpLabel
  if (← isUnknown label) || !(← context).allowContinue then fault start
  carrying start []

/-- The word `return`. -/
def returning (rules : Rules) (start : Nat) : Parse Item := do
  bump
  let isOutside := !(← context).inFunction
  let item ← tryCatch
    (do
      let value ← if ← isSemicolon then pure [] else (fun expr => [expr.node]) <$> rules.expressionIn
      expectSemicolon
      carrying start value)
    fun place => do
      if ← isTypescript <&&> pure isOutside then fault start
      throw place
  if ← isTypescript <&&> pure isOutside then fault start
  return item

/-- The word `throw`. -/
def throwing (rules : Rules) (start : Nat) : Parse Item := do
  bump
  if ← afterBreak then unexpected
  let value ← rules.expressionIn
  expectSemicolon
  carrying start [value.node]

/-! ## Branches -/

/-- The word `if`. -/
def branching (rules : Rules) (start : Nat) : Parse Item := do
  bump
  let test ← condition rules
  let consequent ← inner rules
  let alternate ← if ← eatWord "else" then (fun node => [node]) <$> inner rules else pure []
  carrying start (test :: consequent :: alternate)

/-- Whether a case starts at the cursor. -/
def startsCase : Parse Bool := sees (·.isOneOf ["case", "default"])

/-- The cases of a `switch`. Only one of them is the default. -/
def cases (rules : Rules) : Parse (List Node) := do
  let (nodes, _) ← repeating (([] : List (List Node)), false) fun (found, hasDefault) => do
    unless ← startsCase do return .done (found, hasDefault)
    let isDefault ← isWord "default"
    bump
    let test ←
      if isDefault then
        if hasDefault then failAt (← previous).start
        pure []
      else (fun expr => [expr.node]) <$> rules.expressionIn
    expect .colon
    let isEnd : Parse Bool := atEnd <||> startsCase <||> isAt .braceClose
    let items ← manyWhile (not <$> isEnd) (rules.statement true false)
    return .more ((test ++ Block.nodesOf items) :: found, hasDefault || isDefault)
  return nodes.reverse.flatten

/-- The word `switch`. -/
def switching (rules : Rules) (start : Nat) : Parse Item := do
  bump
  let subject ← condition rules
  expect .braceOpen
  let nodes ← within ({ · with allowBreak := true }) (cases rules)
  expect .braceClose
  carrying start (subject :: nodes)

/-! ## Loops -/

/-- The word `while`. -/
def repeatingWhile (rules : Rules) (start : Nat) : Parse Item := do
  bump
  let test ← condition rules
  let body ← loopBody rules
  carrying start [test, body]

/-- The word `do`. -/
def repeatingUntil (rules : Rules) (start : Nat) : Parse Item := do
  bump
  let body ← loopBody rules
  expectWord "while"
  let test ← condition rules
  let _ ← eatSemicolon
  carrying start [test, body]

/-- The word `for`. Only a loop over values can wait for them. -/
def repeatingFor (rules : Rules) (start : Nat) : Parse Item := do
  bump
  let awaitPlace ← position
  let isAwait ← eatWord "await"
  expect .parenOpen
  let head ← within ({ · with inForHead := true, inForAwaitHead := isAwait }) (ForHead.read rules)
  expect .parenClose
  let body ← loopBody rules
  match head with
  | .of left right => return { nodes := [.forOf (← spanFrom start) isAwait left right body] }
  | .keys left right =>
    if isAwait then failAt awaitPlace
    carrying start (left ++ [right, body])
  | .plain parts =>
    if isAwait then failAt awaitPlace
    carrying start (parts ++ [body])

/-! ## Errors -/

/-- What a `catch` binds, in parentheses. -/
def caught (rules : Rules) : Parse (List Node) := do
  unless ← eat .parenOpen do return []
  let pattern ← rules.pattern false
  let types ← if ← isTypescript <&&> eat .colon then Typing.plain rules else pure []
  expect .parenClose
  return pattern.nodes ++ types

/-- A `catch` clause, if there is one. -/
def handler? (rules : Rules) : Parse (Option (List Node)) := do
  unless ← eatWord "catch" do return none
  let nodes ← caught rules
  let body ← Block.plain rules
  return some (nodes ++ [body])

/-- A `finally` clause, if there is one. -/
def finalizer? (rules : Rules) : Parse (Option (List Node)) := do
  unless ← eatWord "finally" do return none
  return some [← Block.plain rules]

/-- The word `try`. -/
def trying (rules : Rules) (start : Nat) : Parse Item := do
  bump
  let block ← Block.plain rules
  let place ← position
  let handler ← handler? rules
  let finalizer ← finalizer? rules
  if handler.isNone && finalizer.isNone then fault place
  carrying start (block :: (handler.getD [] ++ finalizer.getD []))

/-- A clause of `try` without it. -/
def stray (clauses : List (Parse (Option (List Node)))) : Parse Item := do
  let span ← span
  fault span.start
  for clause in clauses do
    tryCatch (discard clause) fun _ => return ()
  return { nodes := [.statement span []] }

/-- The word `with`. -/
def withObject (rules : Rules) (start : Nat) : Parse Item := do
  if ← isTypescript then fault start
  moduleFault start
  bump
  let object ← condition rules
  let body ← within ({ · with inFunction := true }) (inner rules)
  carrying start [object, body]

/-! ## Expressions and labels -/

/-- A function after a label. -/
def labelledFunction (rules : Rules) : Parse Node := do
  let function ← Declaration.function rules [] (← position) false
  if (← context).strict then fault function.span.start
  if function.isGenerator then fault function.span.start
  return function.node .functionDeclaration

/-- The statement after a label, which starts at a given place. -/
def labelled (rules : Rules) (start : Nat) (label : Text) : Parse Item :=
  within ({ · with allowBreak := true, allowUsing := false }) do
    let labels := (← get).labels
    modify fun cursor => { cursor with labels := label :: labels }
    let body ← if ← isWord "function" then labelledFunction rules else inner rules
    for other in labels do
      if other == label then fault start
    modify fun cursor => { cursor with labels }
    return { nodes := [.labeled (← spanFrom start) body] }

/-- An expression that is a statement. -/
def ofExpr (start : Nat) (expr : Expr) : Parse Item := do
  let item ← carrying start [expr.node]
  match expr.form with
  | .string isUseStrict => return { item with isDirective := true, isUseStrict }
  | _ => return item

/-- What follows a name at the start of a statement, if the name is no expression. -/
def afterName? (rules : Rules) (start : Nat) (decorators : List Node) (expr : Expr) (name : Text) :
    Parse (Option Item) := do
  if ← eat .colon then return some (← labelled rules expr.start name)
  if ← pure (name == "interface".toList) <&&> afterBreak then
    moduleFault expr.start
    let _ ← eatSemicolon
    return some (← ofExpr start expr)
  if ← isTypescript then
    if let some declaration ← TypeDeclaration.afterName? rules decorators expr.span name then
      return some (ofDeclaration declaration)
  if name == "enum".toList || name == "interface".toList then moduleFault expr.start
  if ["public", "static", "abstract"].any (name == ·.toList) then
    if ← isTypescript <&&> eatWord "interface" then
      fault expr.start
      return some (ofDeclaration (← TypeDeclaration.interface rules start))
  return none

/-- A statement that starts with an expression. -/
def withExpression (rules : Rules) (start : Nat) (decorators : List Node) : Parse Item := do
  let expr ← rules.expressionIn
  if let .name name := expr.form then
    if let some item ← afterName? rules start decorators expr name then return item
  if ← eatSemicolon then return ← ofExpr start expr
  if ← sees Lexeme.isBinary then
    fault (← span).start
    let expr ← rules.operators expr 0
    return ← carrying start [expr.node]
  unexpected

/-! ## By the first word -/

/-- A statement that starts with the word `await`; whether it is an item of a program
or a namespace. Resources may follow the word. If they could and do not, the word is
passed over unless the statement is such an item; as an item the statement ends where
its operators do. -/
def awaiting (rules : Rules) (start : Nat) (isTop : Bool) (decorators : List Node) :
    Parse Item := do
  if isTop then modify fun cursor => { cursor with isModule := true }
  let isUsing ← isWordAhead "using"
  if isUsing then
    bump
    if let some declaration ← Declaration.resources? rules start then
      return ofDeclaration declaration
  unless isTop do return ← withExpression rules start decorators
  unless isUsing do bump
  let expr ← Operation.awaited rules start
  let expr ← allowingIn (rules.operators expr 0)
  let _ ← eatSemicolon
  carrying start [expr.node]

/-- A declaration of TypeScript that starts with a word, if it does. -/
def typed? (rules : Rules) : Parse (Option Item) := do
  unless ← isTypescript <&&> sees (·.isOneOf ["interface", "type", "enum"]) do return none
  unless ← seesAhead Lexeme.isAnyWord <&&> not <$> breakAhead do return none
  let start ← position
  if ← eatWord "interface" then return some (ofDeclaration (← TypeDeclaration.interface rules start))
  if ← eatWord "type" then return some (ofDeclaration (← TypeDeclaration.typeName rules start))
  bump
  return some (ofDeclaration (← TypeDeclaration.enumeration rules start))

/-- A declaration, if one starts at the cursor; whether declarations are allowed. -/
def declaration? (rules : Rules) (start : Nat) (allowed : Bool) (decorators : List Node) :
    Parse (Option Item) := do
  if ← isWord "function" then
    unless allowed do fault (← span).start
    return some (ofDeclaration (← Declaration.plainFunction rules decorators))
  if ← isWord "class" then
    unless allowed do fault (← span).start
    return some (ofDeclaration (← Declaration.classNamed rules decorators start false))
  if ← isWord "var" <||> (pure allowed <&&> (isWord "const" <||> Declaration.startsLet)) then
    return some { nodes := [(← Declaration.declared rules false).node] }
  if ← pure allowed <&&> isWord "using" then
    if let some declaration ← Declaration.resources? rules start then
      return some (ofDeclaration declaration)
  if let some item ← typed? rules then return some item
  if ← Declaration.startsAsyncFunction then
    return some (ofDeclaration (← Declaration.asyncFunction rules decorators))
  return none

/-- The statements that start with a word of their own. -/
def keywords (rules : Rules) (start : Nat) : List (String × Parse Item) :=
  [("break", breaking start), ("continue", continuing start),
    ("debugger", do
      bump
      expectSemicolon
      carrying start []),
    ("do", repeatingUntil rules start), ("for", repeatingFor rules start),
    ("if", branching rules start), ("return", returning rules start),
    ("switch", switching rules start), ("throw", throwing rules start),
    ("catch", stray [handler? rules, finalizer? rules]), ("finally", stray [finalizer? rules]),
    ("try", trying rules start), ("with", withObject rules start),
    ("while", repeatingWhile rules start)]

/-- A statement without decorators; where it starts, whether declarations are allowed,
and whether it is an item of a program or a namespace. -/
def content (rules : Rules) (start : Nat) (allowed isTop : Bool) (decorators : List Node) :
    Parse Item := do
  if ← TypeDeclaration.startsConstantEnumeration then
    return ofDeclaration (← TypeDeclaration.constantEnumeration rules start)
  let lexeme ← lexeme
  if lexeme.isWord "await" && (allowed || isTop) then
    return ← awaiting rules start isTop decorators
  if lexeme == .braceOpen then
    return { nodes := [← within ({ · with allowUsing := true }) (Block.plain rules)] }
  if lexeme == .semicolon then
    bump
    return ← carrying start []
  match (keywords rules start).find? (lexeme.isWord ·.1) with
  | some (_, statement) => statement
  | none =>
    match ← declaration? rules start allowed decorators with
    | some item => return item
    | none => withExpression rules start decorators

/-- Run a step of a statement. -/
def inStatement {α : Type} (step : Parse α) : Parse α :=
  within ({ · with expectColon := false, allowUsing := true }) step

/-- A call of `import` or a member of it, as a statement. Its end may be left out. -/
def loading (rules : Rules) : Parse Item := do
  let start ← position
  let expr ← rules.expression
  let _ ← eatSemicolon
  carrying start [expr.node]

/-- Whether the word `import` at the cursor starts an expression. -/
def startsLoading : Parse Bool :=
  isWord "import" <&&> seesAhead fun lexeme => lexeme == .parenOpen || lexeme == .dot

end Statement

end Unawait
