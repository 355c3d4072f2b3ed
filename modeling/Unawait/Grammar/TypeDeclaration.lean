import Unawait.Grammar.Declaration

/-!
# Declarations of TypeScript

Interfaces, aliases, enumerations, namespaces and ambient declarations. Most start
with a word that is also a plain name, so that they are told apart only by what
follows the word.
-/

namespace Unawait

open Parse

namespace TypeDeclaration

/-! ## Enumerations -/

/-- The name of a member of an enumeration. -/
def memberName (rules : Rules) : Parse Unit := do
  let start ← position
  match ← lexeme with
  | .string _ _ => bump
  | .number =>
    bump
    fault start
  | .bracketOpen =>
    bump
    let _ ← rules.expression
    fault start
    expect .bracketClose
  | _ =>
    let _ ← Name.word

/-- A member of an enumeration. Any token but a comma after it is a fault and is gone
past. -/
def member (rules : Rules) : Parse (List Node) := do
  memberName rules
  if ← eat .assign then return [(← rules.assignment).node]
  unless ← isAt .comma <||> isAt .braceClose do
    let place ← position
    bump
    fault place
  return []

/-- An enumeration from its name on; where it starts. -/
def enumeration (rules : Rules) (start : Nat) : Parse Declaration := do
  let _ ← Name.word
  expect .braceOpen
  let found ← repeating ([] : List (List Node)) fun found => do
    if ← isAt .braceClose then return .done found
    let found := (← member rules) :: found
    if ← eat .comma then return .more found
    if ← isAt .braceClose then return .done found
    fault (← span).start
    return .more found
  expect .braceClose
  return .carrier (← spanFrom start) found.reverse.flatten

/-! ## Interfaces and aliases -/

/-- An interface from its name on; where it starts. -/
def interface (rules : Rules) (start : Nat) : Parse Declaration := do
  let (span, name) ← Name.word
  if ClassSyntax.predefinedTypes.any (name == ·.toList) then fault span.start
  let types ← Typing.parameters? rules true false
  let parents ← if ← eatWord "extends" then ClassSyntax.heritage rules else pure []
  if ← isWord "extends" then
    fault (← Parse.span).start
    repeating () fun _ => do
      if (← atEnd) || (← isAt .braceOpen) then return .done ()
      bump
      return .more ()
  let members ← withinType (TypeSyntax.members rules)
  return .carrier (← spanFrom start) (types ++ (parents.map Prod.snd).flatten ++ members)

/-- An alias of a type from its name on; where it starts. -/
def typeName (rules : Rules) (start : Nat) : Parse Declaration := do
  let _ ← Name.word
  let parameters ← Typing.parameters? rules true false
  let type ← withinType do
    expect .assign
    rules.type
  expectSemicolon
  return .carrier (← spanFrom start) (parameters ++ type)

/-! ## Namespaces -/

/-- The items of a namespace with their braces. -/
def block (rules : Rules) : Parse (List Node) := do
  expect .braceOpen
  return Block.nodesOf (← Block.items rules false true (some .braceClose))

/-- A namespace from its name on, which may have dots; where it starts. -/
def space (rules : Rules) (start : Nat) : Parse Declaration := do
  repeating () fun _ => do
    let _ ← Name.word
    if ← eat .dot then return .more () else return .done ()
  let nodes ← block rules
  return .carrier (← spanFrom start) nodes

/-- An ambient module from its name on; where it starts. -/
def ambientModule (rules : Rules) (start : Nat) : Parse Declaration := do
  if ← isWord "global" then bump
  else
    match ← lexeme with
    | .string _ _ => bump
    | _ => unexpected
  let nodes ←
    if ← isAt .braceOpen then block rules
    else do
      expectSemicolon
      pure []
  return .carrier (← spanFrom start) nodes

/-! ## By the first word -/

/-- A declaration by its first word, which was read or, as the last argument says, is
at the cursor. -/
def named? (rules : Rules) (start : Nat) (decorators : List Node) (name : Text)
    (isNext : Bool) : Parse (Option Declaration) := do
  let isWord (word : String) : Bool := name == word.toList
  let go {α : Type} (step : Parse α) : Parse (Option α) := do
    if isNext then bump
    some <$> step
  if isWord "abstract" then
    if ← pure isNext <||> (Parse.isWord "class" <&&> not <$> afterBreak) then
      return ← go (Declaration.classNamed rules decorators start true)
  else if isWord "enum" then
    if ← pure isNext <||> isName then return ← go (enumeration rules start)
  else if isWord "interface" then
    if ← pure isNext <||> isName then return ← go (interface rules start)
  else if isWord "module" then
    if isNext then bump
    match ← lexeme with
    | .string _ _ => return some (← ambientModule rules start)
    | _ => if ← pure isNext <||> isName then return some (← space rules start)
  else if isWord "namespace" then
    if ← pure isNext <||> isName then return ← go (space rules start)
  else if isWord "type" then
    if ← pure isNext <||> (not <$> afterBreak <&&> isName) then return ← go (typeName rules start)
  return none

/-- An enumeration of constants, whose two words are at the cursor. -/
def constantEnumeration (rules : Rules) (start : Nat) : Parse Declaration := do
  bump
  bump
  enumeration rules start

/-- Whether an enumeration of constants starts at the cursor. -/
def startsConstantEnumeration : Parse Bool :=
  isTypescript <&&> isWord "const" <&&> isWordAhead "enum"

/-- What follows the word `declare`, which starts at a given place, if it is a
declaration. -/
def ambient? (rules : Rules) (start : Nat) (decorators : List Node) :
    Parse (Option Declaration) := do
  if (← context).inDeclare then fault start
  within ({ · with inDeclare := true }) do
    if ← isWord "function" then
      return some ((← Declaration.plainFunction rules decorators).startingAt start)
    if ← isWord "class" then return some (← Declaration.classNamed rules decorators start false)
    if ← isWord "const" <&&> isWordAhead "enum" then
      return some (← constantEnumeration rules start)
    if ← sees (·.isOneOf ["const", "var", "let"]) then
      let list ← Declaration.declared rules false
      return some (.single (list.node.startingAt start))
    if ← isWord "global" then return some (← ambientModule rules start)
    match ← lexeme? with
    | some (.word name) => named? rules start decorators name true
    | _ => return none

/-- What follows a name that was read as an expression, if the name turns out to start
a declaration. -/
def afterName? (rules : Rules) (decorators : List Node) (span : Span) (name : Text) :
    Parse (Option Declaration) := do
  if name == "declare".toList then ambient? rules span.start decorators
  else if name == "global".toList then
    if ← isAt .braceOpen then
      let nodes ← block rules
      return some (.carrier (← spanFrom span.start) nodes)
    else return none
  else named? rules span.start decorators name false

/-! ## References to modules -/

/-- What an imported name stands for, from the sign on. -/
def importEquals : Parse Unit := do
  expect .assign
  if ← isWord "require" <&&> isAhead .parenOpen then
    bump
    expect .parenOpen
    match ← lexeme with
    | .string _ _ => bump
    | _ => unexpected
    expect .parenClose
  else TypeSyntax.entity false
  expectSemicolon

end TypeDeclaration

end Unawait
