import Unawait.Grammar.Statement

/-!
# Imports and exports

The items that only a module can hold. Of an export only what is declared or the
expression counts; an import counts for nothing but the attributes that it may have.
-/

namespace Unawait

open Parse

namespace ModuleItem

/-- An item that makes the program a module. -/
def ofNodes (nodes : List Node) : Item := { nodes, isModule := true }

/-- From here on the code is that of a module. -/
def enterModule : Parse Unit := do
  let context ← context
  unless context.isModule do setContext { context with isModule := true, strict := true }

/-! ## Sources -/

/-- The attributes of an import, if there are some. -/
def attributes (rules : Rules) : Parse (List Node) := do
  unless ← isTypescript <&&> not <$> afterBreak do return []
  unless ← eatWord "assert" <||> eatWord "with" do return []
  let _ ← token
  let expr ← ObjectLiteral.read rules
  return expr.node.children .children

/-- The attributes and the end of an import, after its source. -/
def ending (rules : Rules) : Parse (List Node) := do
  let nodes ← attributes rules
  expectSemicolon
  return nodes

/-- The source of an import and what follows it. -/
def source (rules : Rules) : Parse (List Node) := do
  expectWord "from"
  let _ ← position
  match ← lexeme with
  | .string _ _ =>
    bump
    ending rules
  | _ => unexpected

/-! ## Names -/

/-- The name of something that a module exports: any word or a string. The result is
the word, or nothing for a string. -/
def exportedName : Parse (Span × Option Text) := do
  let span ← span
  match ← lexeme? with
  | some (.string _ _) =>
    bump
    return (span, none)
  | some (.word name) =>
    bump
    return (span, some name)
  | _ => unexpected

/-- Items in braces, the first of which was read. -/
def braced (item : Parse Unit) : Parse Unit := do
  repeating () fun _ => do
    if ← isAt .braceClose then return .done ()
    item
    if ← isAt .braceClose then return .done ()
    expect .comma
    return .more ()
  expect .braceClose

/-- What the word `type` at the start of a specifier turned out to be. -/
inductive TypeWord where
  /-- The specifier was read to its end. -/
  | complete
  /-- A name comes after the word. -/
  | before (span : Span) (name : Text)
  /-- The word is the name itself. -/
  | isName

/-- What follows the word `type` in a specifier, which may be a modifier, by a way to
read a name that is bound; where the word is, and whether the whole list is of types. -/
def afterTypeWord (bound : Parse (Span × Text)) (word : Span) (typeOnly : Bool) :
    Parse TypeWord := do
  unless ← isTypescript <&&> sees Lexeme.isAnyWord do return .isName
  let (span, name) ← Name.word
  unless name == "as".toList do
    if typeOnly then fault word.start
    return .before span name
  unless ← sees Lexeme.isAnyWord do
    if typeOnly then fault word.start
    return .complete
  let (_, second) ← bound
  if second == "as".toList then
    if ← sees Lexeme.isAnyWord then
      let _ ← bound
      if typeOnly then fault word.start
  return .complete

/-! ## Imports -/

/-- A name that an import binds. -/
def imported : Parse (Span × Text) :=
  within ({ · with inAsync := false, inGenerator := false }) (Name.binding false)

/-- The name that a name in the braces of an import is bound to, if it is another. -/
def boundName : Parse Unit := do
  if ← eatWord "as" then
    let _ ← Name.binding false

/-- A specifier in the braces of an import. -/
def importSpecifier (typeOnly : Bool) : Parse Unit := do
  let (span, name) ← exportedName
  match name with
  | none =>
    if ← eatWord "as" then
      let _ ← Name.binding false
    else failAt span.start
  | some name =>
    let word ←
      if name == "type".toList then afterTypeWord (Name.binding false) span typeOnly
      else pure .isName
    match word with
    | .complete => return ()
    | _ => boundName

/-- What is imported after the default name, or without one: all under one name, names
in braces, or nothing. -/
def importSpecifiers (typeOnly : Bool) : Parse Unit := do
  if ← eat (.binary .times) then
    expectWord "as"
    let _ ← imported
  else if ← eat .braceOpen then braced (importSpecifier typeOnly)

/-- What the first name of an import is. -/
inductive FirstName where
  /-- A default name. -/
  | default (typeOnly : Bool)
  /-- A modifier before other names. -/
  | modifier (typeOnly : Bool)
  /-- The item was read to its end. -/
  | complete

/-- Whether another name follows that the one before it modifies. -/
def namesMore : Parse Bool :=
  isName <&&> (not <$> isWord "from" <||> isWordAhead "from")

/-- The first name of an import. -/
def firstName : Parse FirstName := do
  let (_, name) ← imported
  let isTyped ← isTypescript
  let mut name := name
  let mut typeOnly := false
  if isTyped && name == "type".toList then
    if ← sees fun lexeme => lexeme == .binary .times || lexeme == .braceOpen then
      return .modifier true
    if ← namesMore then
      typeOnly := true
      name := (← imported).2
    else if ← isName <&&> isAhead .assign then
      typeOnly := true
      name := (← Name.word).2
  if ← pure isTyped <&&> isAt .assign then
    TypeDeclaration.importEquals
    return .complete
  if name == "source".toList || name == "defer".toList then
    unless ← isName do return .modifier typeOnly
    if ← namesMore then
      let _ ← imported
  return .default typeOnly

/-- An import, whose first word is at the cursor. -/
def importing (rules : Rules) : Parse Item := do
  enterModule
  bump
  if ← sees (fun lexeme => match lexeme with | .string _ _ => true | _ => false) then
    bump
    return ofNodes (← ending rules)
  let first ← if ← isName then firstName else pure (.modifier false)
  match first with
  | .complete => return ofNodes []
  | .modifier typeOnly => importSpecifiers typeOnly
  | .default typeOnly => if ← eat .comma then importSpecifiers typeOnly
  return ofNodes (← source rules)

/-! ## Exports -/

/-- A specifier in the braces of an export. The result is the place of a name that only
another module can have. -/
def exportSpecifier (typeOnly : Bool) : Parse (Option Nat) := do
  let (span, name) ← exportedName
  let word ←
    if name == some "type".toList then afterTypeWord Name.word span typeOnly else pure .isName
  let renamed : Parse Unit := do
    if ← eatWord "as" then
      let _ ← exportedName
  let foreign (span : Span) (name : Text) : Option Nat :=
    if ("package" :: Context.alwaysReserved).any (name == ·.toList) then some span.start else none
  match word, name with
  | .complete, _ => return none
  | .before span name, _ =>
    renamed
    return foreign span name
  | .isName, none =>
    renamed
    return some span.start
  | .isName, some name =>
    renamed
    return foreign span name

/-- Names in braces that are exported, from the opening brace on. -/
def exportList (rules : Rules) (typeOnly : Bool) : Parse (List Node) := do
  expect .braceOpen
  let places ← repeating ([] : List Nat) fun places => do
    if (← atEnd) || (← isAt .braceClose) then return .done places
    let places := (← exportSpecifier typeOnly).toList ++ places
    if ← isAt .braceClose then return .done places
    expect .comma
    return .more places
  expect .braceClose
  if ← isWord "from" then source rules
  else
    for place in places.reverse do fault place
    let _ ← eatSemicolon
    return []

/-- Names that are exported. -/
def exportNames (rules : Rules) (typeOnly : Bool) : Parse (List Node) := do
  if ← isAt (.binary .times) then
    bump
    if ← eatWord "as" then
      let _ ← exportedName
    source rules
  else exportList rules typeOnly

/-- Decorators after the word `export`; there may be some before it or after it, not
both. -/
def laterDecorators (rules : Rules) (decorators : List Node) : Parse (List Node) := do
  unless ← isAt .atSign do return decorators
  let start ← position
  let later ← Decorator.all rules false
  unless decorators.isEmpty do failAt start
  return later

/-- What a module exports by default, after the word `default`. -/
def exportDefault (rules : Rules) (decorators : List Node) : Parse (List Node) := do
  let decorators ← laterDecorators rules decorators
  let start ← position
  if ← isTypescript then
    if ← isWord "abstract" <&&> isWordAhead "class" <&&> not <$> breakAhead then
      bump
      return [← ClassSyntax.read rules decorators start false true]
    if ← isWord "abstract" <&&> isWordAhead "interface" then
      fault start
      bump
    if ← isWord "interface" then
      let start ← position
      bump
      return (← TypeDeclaration.interface rules start).exported
  if ← isWord "class" then return [← ClassSyntax.read rules decorators start false false]
  let isAsync ← Declaration.startsAsyncFunction
  if isAsync then bump
  if ← isWord "function" then
    let function ← Function.named rules decorators start isAsync false false
    return [function.node .functionExpression]
  let expr ← rules.assignmentIn
  expectSemicolon
  return [expr.node]

/-- A declaration that is exported, if there is one. -/
def exportDeclaration? (rules : Rules) (decorators : List Node) : Parse (Option (List Node)) := do
  let start ← position
  if ← isWord "class" then
    return some (← Declaration.classNamed rules decorators start false).exported
  if ← Declaration.startsAsyncFunction then
    return some (← Declaration.asyncFunction rules decorators).exported
  if ← isWord "function" then
    return some (← Declaration.plainFunction rules decorators).exported
  if ← TypeDeclaration.startsConstantEnumeration then
    return some (← TypeDeclaration.constantEnumeration rules start).exported
  if ← sees (·.isOneOf ["var", "const"]) <||> Declaration.startsLet then
    return some [(← Declaration.declared rules false).node]
  return none

/-- An export of TypeScript that starts with a word or a sign of its own, if there is
one. -/
def exportTyped? (rules : Rules) (decorators : List Node) : Parse (Option (List Node)) := do
  unless ← isTypescript do return none
  let start ← position
  if ← eatWord "declare" then
    if let some declaration ← TypeDeclaration.ambient? rules start decorators then
      return some declaration.exported
  if let some (.word name) ← lexeme? then
    let start ← position
    let found ← attemptTyped (TypeDeclaration.named? rules start decorators name true)
    if let some declaration := found then return some declaration.exported
  if ← eatWord "import" then
    if ← isWord "type" <&&> isNameAhead then bump
    let _ ← Name.word
    TypeDeclaration.importEquals
    return some []
  if ← eat .assign then
    let expr ← rules.expression
    expectSemicolon
    return some [expr.node]
  if ← eatWord "as" then
    expectWord "namespace"
    let _ ← Name.identifier false false
    expectSemicolon
    return some []
  return none

/-- An export, whose first word is at the cursor. -/
def exporting (rules : Rules) (decorators : List Node) : Parse Item := do
  enterModule
  bump
  let _ ← token
  if let some nodes ← exportTyped? rules decorators then return ofNodes nodes
  let typeOnly ← isTypescript <&&> eatWord "type"
  if ← pure !typeOnly <&&> eatWord "default" then
    return ofNodes (← exportDefault rules decorators)
  let decorators ← laterDecorators rules decorators
  unless typeOnly do
    if let some nodes ← exportDeclaration? rules decorators then return ofNodes nodes
  return ofNodes (← exportNames rules typeOnly)

/-! ## Items -/

/-- An import or an export at the top of a program or a namespace. -/
def read (rules : Rules) (decorators : List Node) : Parse Item := do
  if ← Statement.startsLoading then Statement.loading rules
  else if ← isWord "import" then importing rules
  else exporting rules decorators

end ModuleItem

namespace Statement

/-- A statement, whether declarations are allowed, and whether it is an item of a
program or a namespace. -/
def read (rules : Rules) (allowed isTop : Bool) : Parse Item := do
  let start ← position
  let decorators ← if ← isAt .atSign then Decorator.all rules true else pure []
  if ← sees (·.isOneOf ["import", "export"]) then
    if isTop then ModuleItem.read rules decorators
    else if ← startsLoading then loading rules
    else unexpected
  else inStatement (content rules start allowed isTop decorators)

end Statement

end Unawait
