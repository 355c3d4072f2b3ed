import Unawait.Grammar.Object

/-!
# Types

The types of TypeScript. A type gives the nodes of the expressions in it: computed
keys, and the keys of members in general.
-/

namespace Unawait

open Parse

namespace TypeSyntax

/-! ## Names of types -/

/-- A name of a type or a namespace, with dots; whether any word may follow a dot. -/
def entity (allowReserved : Bool) : Parse Unit := do
  let (_, name) ← Name.word
  if name == "void".toList then fault (← position)
  repeating () fun _ => do
    unless ← eat .dot do return .done ()
    let place ← position
    unless ← sees (fun lexeme => lexeme == .hash || lexeme.isAnyWord) do
      fault place
      return .done ()
    if allowReserved then
      let _ ← Name.word
    else
      let _ ← Name.identifier false false
    return .more ()

/-- Type arguments, if there are some. -/
def arguments? (rules : Rules) : Parse (List Node) := do
  if ← isAt (.binary .less) then
    Prod.snd <$> within ({ · with anglesAreOperators := false }) (Typing.arguments rules)
  else return []

/-- A type by its name. -/
def reference (rules : Rules) : Parse (List Node) := do
  let start ← position
  let hasModifier ← Typing.anyModifier
  entity true
  let nodes ←
    if ← not <$> afterBreak <&&> sees fun lexeme =>
        lexeme == .binary .less || lexeme == .binary .shiftLeft then
      Prod.snd <$> within ({ · with anglesAreOperators := false }) (Typing.arguments rules)
    else pure []
  if hasModifier then fault start
  return nodes

/-- What is asked of a module, from the opening brace on. -/
def attributes (rules : Rules) : Parse (List Node) := do
  bump
  expectWord "with"
  expect .colon
  let value ← ObjectLiteral.read rules
  let _ ← eat .comma
  expect .braceClose
  return value.node.children .children

/-- The type of a module, from `import` on. -/
def ofModule (rules : Rules) : Parse (List Node) := do
  bump
  expect .parenOpen
  let lexed ← token
  match lexed.lexeme with
  | .string _ _ => bump
  | _ =>
    bump
    fault lexed.span.start
  let attributes ← if ← eat .comma <&&> isAt .braceOpen then attributes rules else pure []
  expect .parenClose
  if ← eat .dot then entity false
  return attributes ++ (← arguments? rules)

/-- The type of a value, from `typeof` on. -/
def query (rules : Rules) : Parse (List Node) := do
  bump
  let nodes ←
    if ← isWord "import" then ofModule rules
    else do
      entity true
      pure []
  if ← not <$> afterBreak <&&> isAt (.binary .less) then return nodes ++ (← arguments? rules)
  else return nodes

/-- What `this` is said to be, after the word. -/
def claimOnThis (rules : Rules) : Parse (List Node) := do
  if ← eatWord "is" then Typing.plain rules else return []

/-! ## Functions -/

/-- The parameters of a signature and their closing parenthesis. -/
def signatureParameters (rules : Rules) : Parse (List Node) := do
  let parameters ← Binding.parameters rules
  if parameters.any (·.pattern.isDefault) then unexpected
  expect .parenClose
  return (parameters.map (·.pattern.nodes)).flatten

/-- Type parameters, parameters and a result type after a colon. -/
def signature (rules : Rules) : Parse (List Node) := do
  let types ← Typing.parameters? rules false true
  expect .parenOpen
  let parameters ← signatureParameters rules
  let result ← Typing.result? rules
  return parameters ++ result.getD [] ++ types

/-- A function type. -/
def function (rules : Rules) : Parse (List Node) := do
  let types ← Typing.parameters? rules false true
  expect .parenOpen
  let parameters ← signatureParameters rules
  let result ← Typing.result rules .arrow
  return parameters ++ types ++ result

/-- The type of a constructor. -/
def constructorType (rules : Rules) : Parse (List Node) := do
  let _ ← eatWord "abstract"
  expectWord "new"
  function rules

/-- Go past what a parameter starts with. -/
def skipParameterStart (rules : Rules) : Parse Bool := do
  let _ ← Typing.anyModifier
  if ← sees Lexeme.isAnyWord then
    bump
    return true
  if ← sees fun lexeme => lexeme == .braceOpen || lexeme == .bracketOpen then
    tryCatch
      (do
        let _ ← rules.pattern false
        return true)
      fun _ => return false
  else return false

/-- Whether a parenthesis starts the parameters of a function type. -/
def startsParameters (rules : Rules) : Parse Bool := do
  bump
  if ← sees fun lexeme => lexeme == .parenClose || lexeme == .ellipsis then return true
  if ← skipParameterStart rules then
    if ← sees fun lexeme =>
        lexeme == .colon || lexeme == .comma || lexeme == .question || lexeme == .assign then
      return true
    eat .parenClose <&&> isAt .arrow
  else return false

/-- Whether a function type starts at the cursor. -/
def startsFunction (rules : Rules) : Parse Bool := do
  if ← isAt (.binary .less) then return true
  isAt .parenOpen <&&> lookAhead (startsParameters rules)

/-! ## Members of object types -/

/-- The end of a member of an object type. -/
def memberEnd : Parse Unit := do
  unless ← eat .comma do expectSemicolon

/-- The key of a member. A key that is not computed counts as an expression too. -/
def memberKey (rules : Rules) : Parse (List Node) := do
  if ← eat .bracketOpen then
    let key ← rules.assignment
    expect .bracketClose
    return [key.node]
  within ({ · with inPropertyName := true }) do
    match ← lexeme with
    | .number | .string _ _ => return [(← rules.member).node]
    | .hash =>
      let (span, _) ← Name.hidden
      fault span.start
      return [.expression span []]
    | _ =>
      let (span, name) ← Name.word
      return [.identifier span name]

/-- Whether a bracket starts an index signature. -/
def startsIndex : Parse Bool := do
  bump
  if ← isName then
    bump
    sees fun lexeme => lexeme == .colon || lexeme == .comma
  else return false

/-- An index signature, if there is one. -/
def index? (rules : Rules) : Parse (Option (List Node)) := do
  unless ← isAt .bracketOpen <&&> lookAhead startsIndex do return none
  expect .bracketOpen
  let (span, _) ← Name.word
  if ← eat .comma then fault span.start else expect .colon
  let key ← Typing.plain rules
  expect .bracketClose
  let value ← Typing.colon? rules
  memberEnd
  return some (key ++ value.getD [])

/-- An accessor in an object type. -/
def accessor (rules : Rules) (isReadonly : Bool) : Parse (Option (List Node)) := do
  if isReadonly then unexpected
  let isGetter ← eatWord "get"
  unless isGetter do expectWord "set"
  let key ← memberKey rules
  expect .parenOpen
  if isGetter then
    expect .parenClose
    let type ← Typing.colon? rules
    memberEnd
    return some (key ++ type.getD [])
  else
    let parameters ← Binding.parameters rules
    if parameters.any (·.pattern.isDefault) then unexpected
    expect .parenClose
    if parameters.isEmpty then unexpected
    memberEnd
    return some (key ++ ((parameters.take 1).map (·.pattern.nodes)).flatten)

/-- A property or a method of an object type. -/
def propertyOrMethod (rules : Rules) (isReadonly : Bool) : Parse (List Node) := do
  let key ← memberKey rules
  let _ ← eat .question
  if ← sees fun lexeme => lexeme == .parenOpen || lexeme == .binary .less then
    if isReadonly then unexpected
    let nodes ← signature rules
    memberEnd
    return key ++ nodes
  else
    let type ← Typing.colon? rules
    memberEnd
    return key ++ type.getD []

/-- A member of an object type. -/
def member (rules : Rules) : Parse (List Node) := do
  if ← sees fun lexeme => lexeme == .parenOpen || lexeme == .binary .less then
    let nodes ← signature rules
    memberEnd
    return nodes
  let startsConstruction : Parse Bool := do
    bump
    sees fun lexeme => lexeme == .parenOpen || lexeme == .binary .less
  if ← isWord "new" <&&> lookAhead startsConstruction then
    bump
    let nodes ← signature rules
    memberEnd
    return nodes
  let isReadonly := (← Typing.modifier ["readonly"] false).isSome
  if let some nodes ← index? rules then return nodes
  if let some nodes ← attemptTyped (accessor rules isReadonly) then return nodes
  propertyOrMethod rules isReadonly

/-- The members of an object type with their braces. -/
def members (rules : Rules) : Parse (List Node) := do
  expect .braceOpen
  let found ← manyWhile (not <$> isAt .braceClose) (member rules)
  expect .braceClose
  return found.flatten

/-! ## Mapped types -/

/-- Whether a brace starts a mapped type. -/
def startsMapped : Parse Bool := do
  bump
  if ← sees fun lexeme => lexeme == .binary .plus || lexeme == .binary .minus then
    bump
    return ← isWord "readonly"
  let _ ← eatWord "readonly"
  unless ← eat .bracketOpen do return false
  unless ← isName do return false
  bump
  isWord "in"

/-- Go past a sign before a modifier; whether there was one. -/
def signed : Parse Bool := do
  if ← sees fun lexeme => lexeme == .binary .plus || lexeme == .binary .minus then
    bump
    return true
  else return false

/-- A mapped type, whose brace is at the cursor. -/
def mapped (rules : Rules) : Parse (List Node) := do
  expect .braceOpen
  if ← signed then expectWord "readonly"
  else
    let _ ← eatWord "readonly"
  expect .bracketOpen
  let _ ← Name.word
  let domain ← withinType do
    expectWord "in"
    rules.type
  let renamed ← if ← eatWord "as" then rules.type else pure []
  expect .bracketClose
  if ← signed then expect .question
  else
    let _ ← eat .question
  let type ← Typing.colon? rules
  expectSemicolon
  expect .braceClose
  return domain ++ renamed ++ type.getD []

/-! ## Tuples and other types -/

/-- The label of an element of a tuple. -/
def tupleLabel : Parse (Option Unit) := do
  let _ ← eat .ellipsis
  let _ ← Name.word
  let _ ← eat .question
  expect .colon
  return some ()

/-- An element of a tuple. The result says whether it is optional and whether it has
dots. -/
def tupleElement (rules : Rules) : Parse (List Node × Bool × Bool) := do
  let _ ← attemptTyped tupleLabel
  if ← eat .ellipsis then return (← rules.type, false, true)
  let nodes ← rules.type
  return (nodes, ← eat .question, false)

/-- A tuple type. No required element follows an optional one. -/
def tuple (rules : Rules) : Parse (List Node) := do
  let start ← position
  expect .bracketOpen
  let elements ← Typing.separated (isAt .bracketClose) (tupleElement rules)
  expect .bracketClose
  let optionalOnly := elements.dropWhile fun (_, isOptional, _) => !isOptional
  if optionalOnly.any fun (_, isOptional, hasDots) => !isOptional && !hasDots then failAt start
  return (elements.map Prod.fst).flatten

/-- A template type, whose opening sign is at the cursor. -/
def template (rules : Rules) : Parse (List Node) := do
  bump
  let isLast ← Access.templateText false
  let (types, _) ← repeating (([] : List (List Node)), isLast) fun (types, isLast) => do
    if isLast then return .done (types, isLast)
    expect .dollarBrace
    let type ← rules.type
    expect .braceClose
    return .more (type :: types, ← Access.templateText false)
  expect .backquote
  return types.reverse.flatten

/-- The words for types that are no references. -/
def predefined : List String :=
  ["void", "null", "any", "boolean", "bigint", "never", "number", "object", "string", "symbol",
    "unknown", "undefined", "intrinsic"]

/-- A type that starts with a word. -/
def worded (rules : Rules) : Parse (List Node) := do
  if ← isWord "asserts" <&&> isWordAhead "this" then
    bump
    bump
    return ← claimOnThis rules
  if ← sees (·.isOneOf predefined) <&&> not <$> isAhead .dot then
    bump
    return []
  reference rules

/-- A type without brackets after it. -/
def primary (rules : Rules) : Parse (List Node) := do
  let lexeme ← lexeme
  match lexeme with
  | .string _ _ | .number | .bigint =>
    bump
    return []
  | .backquote => template rules
  | .binary .minus =>
    bump
    match ← Parse.lexeme with
    | .number | .bigint =>
      bump
      return []
    | _ => unexpected
  | .braceOpen => if ← lookAhead startsMapped then mapped rules else members rules
  | .bracketOpen => tuple rules
  | .parenOpen =>
    bump
    let nodes ← rules.type
    expect .parenClose
    return nodes
  | _ =>
    if lexeme.isOneOf ["true", "false"] then
      bump
      return []
    else if lexeme.isWord "import" then ofModule rules
    else if lexeme.isWord "typeof" then query rules
    else if lexeme.isWord "this" then
      bump
      if ← not <$> afterBreak <&&> isWord "is" then claimOnThis rules else return []
    else if lexeme.isPlainWord || lexeme.isOneOf ["void", "yield", "null", "await", "break"] then
      worded rules
    else unexpected

/-- A type with brackets after it. -/
def indexed (rules : Rules) : Parse (List Node) := do
  let first ← primary rules
  repeating first fun nodes => do
    unless ← not <$> afterBreak <&&> eat .bracketOpen do return .done nodes
    if ← eat .bracketClose then return .more nodes
    let index ← rules.type
    expect .bracketClose
    return .more (nodes ++ index)

/-- A type variable that is found by matching. -/
def inferred (rules : Rules) : Parse (List Node) := do
  bump
  let _ ← Name.word
  let bound ← attemptTyped do
    expectWord "extends"
    let bound ← rules.simpleType
    if ← pure (← context).noConditionalTypes <||> not <$> isAt .question then return some bound
    else return none
  return bound.getD []

/-- A type without the operators between types. -/
def operand (rules : Rules) : Parse (List Node) := do
  if ← sees (·.isOneOf ["keyof", "unique", "readonly"]) then
    bump
    rules.typeOperand
  else if ← isWord "infer" then inferred rules
  else
    let _ ← Typing.modifier ["readonly"] false
    indexed rules

/-- Types with an operator between them, which may also stand before the first. -/
def joined (operator : Operator) (item : Parse (List Node)) : Parse (List Node) := do
  let _ ← eat (.binary operator)
  let first ← item
  let others ← manyWhile (eat (.binary operator)) item
  return (first :: others).flatten

/-- A type that is not conditional. -/
def simple (rules : Rules) : Parse (List Node) := do
  if ← startsFunction rules then function rules
  else if ← (isWord "abstract" <&&> isWordAhead "new") <||> isWord "new" then
    constructorType rules
  else joined .bitOr (joined .bitAnd (operand rules))

/-- A type. -/
def any (rules : Rules) : Parse (List Node) :=
  within ({ · with noConditionalTypes := false }) do
    let type ← simple rules
    if ← afterBreak <||> not <$> eatWord "extends" then return type
    let bound ← within ({ · with noConditionalTypes := true }) rules.simpleType
    expect .question
    let whenTrue ← rules.type
    expect .colon
    let whenFalse ← rules.type
    return type ++ bound ++ whenTrue ++ whenFalse

end TypeSyntax

end Unawait
