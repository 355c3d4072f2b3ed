import Unawait.Grammar.LeftHand
import Unawait.Grammar.Object
import Unawait.Grammar.Type

/-!
# Classes

The heads and members of classes. A word such as `static`, `get` or `async` is a
modifier only if something follows that it can modify; otherwise it is the name of a
member.
-/

namespace Unawait

open Parse

namespace ClassBody

/-- A member of a class. -/
structure Member where
  nodes : List Node
  /-- Where the member starts, if it is a constructor with a body. -/
  constructorPlace : Option Nat := none
  /-- Where the member starts, if it is abstract. -/
  abstractPlace : Option Nat := none

/-- What stands before the key of a member. -/
structure Modifiers where
  start : Nat
  decorators : List Node
  /-- `public`, `protected` or `private` is there. -/
  hasAccess : Bool := false
  /-- The place of a leading `static`. -/
  staticPlace : Option Nat := none
  isStatic : Bool := false
  isAbstract : Bool := false
  isOverride : Bool := false
  readonlyWord : Option Span := none
  declarePlace : Option Nat := none
  /-- The member is an accessor with a field of its own. -/
  isAccessor : Bool := false
  /-- The place of the last modifier of TypeScript. -/
  lastPlace : Option Nat := none

/-! ## What follows a key -/

/-- Whether the parameters of a method start at the cursor. -/
def isMethod : Parse Bool := do
  if ← isAt .parenOpen then return true
  isTypescript <&&> sees fun lexeme => lexeme == .binary .less || lexeme == .tagStart

/-- Whether a field goes on or ends at the cursor; whether it may end at a line
break. -/
def isField (atBreak : Bool) : Parse Bool := do
  if ← isTypescript <&&> sees fun lexeme => lexeme == .bang || lexeme == .colon then return true
  if ← sees fun lexeme => lexeme == .assign || lexeme == .braceClose then return true
  if atBreak then isSemicolon else isAt .semicolon

/-! ## Methods and fields -/

/-- A method, whose key was read, by a way to read its parameters. -/
def method (rules : Rules) (modifiers : Modifiers) (key : Key)
    (parameters : Parse (List Binding.Parameter)) (isAsync isGenerator : Bool) :
    Parse Member := do
  let function ← ObjectLiteral.inMethod
    (Function.rest rules modifiers.decorators modifiers.start parameters isAsync isGenerator)
  let span ← spanFrom modifiers.start
  if key.isPrivate then
    if modifiers.hasAccess then fault span.start
  else if modifiers.isAbstract && function.body.isSome then fault span.start
  let isStatic := modifiers.staticPlace.isSome
  return { nodes := [function.methodNode .classMethod span isStatic key.node],
           abstractPlace := if modifiers.isAbstract && !key.isPrivate then some span.start else none }

/-- A method that is neither asynchronous nor a generator. -/
def plainMethod (rules : Rules) (modifiers : Modifiers) (key : Key) : Parse Member :=
  method rules modifiers key (Binding.parameters rules) false false

/-- A field, whose key was read. -/
def field (rules : Rules) (modifiers : Modifiers) (key : Key) (isOptional : Bool) :
    Parse Member := do
  if key.isConstructor then failAt key.span.start
  if key.isPrivate then
    if modifiers.declarePlace.isSome then fault key.span.start
    if modifiers.isAbstract then fault key.span.start
  if ← isTypescript <&&> pure !isOptional then
    let _ ← eat .bang
  let types ← Typing.colon? rules
  within ({ · with allowIn := true, inClassField := true }) do
    let value ← if ← eat .assign then some <$> rules.assignment else pure none
    unless ← eatSemicolon do fault (← span).start
    let span ← spanFrom modifiers.start
    let valueNode := value.map Expr.node
    if modifiers.isAccessor then
      return { nodes := key.nodes ++ valueNode.toList ++ types.getD [] ++ modifiers.decorators }
    if key.isPrivate then
      if modifiers.hasAccess then fault span.start
    else if modifiers.isAbstract && value.isSome then fault span.start
    return { nodes := [.classField span modifiers.isStatic modifiers.decorators key.node valueNode],
             abstractPlace :=
               if modifiers.isAbstract && !key.isPrivate then some span.start else none }

/-- A member whose name is a word that was taken for a modifier, if it is one. -/
def namedLike (rules : Rules) (modifiers : Modifiers) (span : Span) (name : String)
    (atBreak : Bool) : Parse (Option Member) := do
  let key : Key := { span, name := some name.toList }
  if ← isMethod then
    let _ ← isTypescript <&&> eat .question
    some <$> plainMethod rules modifiers key
  else if ← isField atBreak <||> (isTypescript <&&> isAt .question) then
    let isOptional ← isTypescript <&&> eat .question
    some <$> field rules modifiers key isOptional
  else return none

/-! ## Constructors -/

/-- An access modifier, if there is one. -/
def accessModifier : Parse Bool := do
  match ← Typing.modifier ["public", "protected", "private", "in", "out"] false with
  | none => return false
  | some name =>
    if name == "in" || name == "out" then
      fault (← previous).start
      return false
    return true

/-- A parameter of a constructor, which may also declare a field. -/
def constructorParameter (rules : Rules) : Parse (Pattern × Bool) := do
  let hasAccess ← accessModifier
  let isOverride := (← Typing.modifier ["override"] false).isSome
  let isReadonly := (← Typing.modifier ["readonly"] false).isSome
  let pattern ← Binding.parameterPattern rules
  let isField := hasAccess || isOverride || isReadonly
  if isField && !pattern.isName && !pattern.isDefault then failAt pattern.start
  return (pattern, isField)

/-- The type parameters of a constructor, which are wrong. -/
def constructorTypes (rules : Rules) : Parse Unit := do
  if ← isTypescript <&&> isAt (.binary .less) then
    let start ← position
    if ← isAhead (.binary .greater) then
      bump
      bump
      fault start
    else
      for (span, _) in ← Typing.parameters rules false true do fault span.start

/-- A constructor, whose key was read. -/
def constructorMethod (rules : Rules) (modifiers : Modifiers) (key : Key) : Parse Member := do
  if modifiers.isOverride then fault modifiers.start
  constructorTypes rules
  expect .parenOpen
  let parameters ← Binding.parametersBy rules false (constructorParameter rules)
  expect .parenClose
  if ← isTypescript <&&> isAt .colon then
    let place ← withinType do
      bump
      let place ← position
      let _ ← rules.type
      return place
    fault place
  let body ← Function.optionalBody rules false false (Binding.areSimple parameters)
  if body.isNone then
    for parameter in parameters do
      if parameter.isField then fault parameter.start
      if parameter.pattern.isDefault then fault parameter.pattern.start
  if modifiers.isAbstract then
    if let some place := modifiers.lastPlace then fault place
  let span ← spanFrom modifiers.start
  let node := Node.plain .classMethod span
    [.one .key key.node, .many .params (Binding.parameterNodes parameters),
      Slot.ofNodes .body body.toList]
  return { nodes := [node], constructorPlace := if body.isSome then some span.start else none }

/-! ## Modifiers -/

/-- Note a modifier of TypeScript. -/
def noteModifier (modifiers : Modifiers) (name : String) : Parse Modifiers := do
  let span ← previous
  let modifiers := { modifiers with lastPlace := some span.start }
  match name with
  | "abstract" =>
    if modifiers.isAbstract || modifiers.isOverride then fault span.start
    return { modifiers with isAbstract := true }
  | "override" =>
    if modifiers.isOverride || modifiers.readonlyWord.isSome || modifiers.declarePlace.isSome
        || !(← context).hasSuperClass then
      fault span.start
    return { modifiers with isOverride := true }
  | "readonly" =>
    if modifiers.readonlyWord.isSome then fault span.start
    return { modifiers with readonlyWord := modifiers.readonlyWord.or (some span) }
  | _ =>
    if modifiers.isOverride then fault span.start
    return { modifiers with isStatic := true }

/-- The modifiers of TypeScript that may come in any order. -/
def typedModifiers (modifiers : Modifiers) : Parse Modifiers :=
  repeating modifiers fun modifiers => do
    match ← Typing.modifier ["abstract", "readonly", "override", "static"] true with
    | some name => return .more (← noteModifier modifiers name)
    | none => return .done modifiers

/-! ## Members -/

/-- A block that runs when the class is made, from its brace on. -/
def staticBlock (rules : Rules) (start : Nat) : Parse Member := do
  let body ← within ({ · with inStaticBlock := true, inClassField := true, allowUsing := true })
    (Block.plain rules)
  return { nodes := [.staticBlock (← spanFrom start) body] }

/-- A generator method, from its star on. -/
def generator (rules : Rules) (modifiers : Modifiers) : Parse Member := do
  bump
  let key ← Key.ofMember rules
  if modifiers.readonlyWord.isSome then fault modifiers.start
  if key.isConstructor then fault modifiers.start
  method rules modifiers key (Binding.parameters rules) false true

/-- An asynchronous method after its word; whether a question mark was there. -/
def asyncMethod (rules : Rules) (modifiers : Modifiers) (isOptional : Bool) : Parse Member := do
  let isOverride := (← Typing.modifier ["override"] false).isSome
  if isOverride then fault (← previous).start
  let isGenerator ← eat (.binary .times)
  let key ← Key.ofMember rules
  if key.isConstructor then fault key.span.start
  if modifiers.readonlyWord.isSome then fault modifiers.start
  let _ ← pure isOptional <||> (isTypescript <&&> eat .question)
  method rules modifiers key (Binding.parameters rules) true isGenerator

/-- A getter or a setter after its word. -/
def accessor (rules : Rules) (modifiers : Modifiers) (word : Key) : Parse Member := do
  let place := word.span.start
  let key ← Key.ofMember rules
  if modifiers.readonlyWord.isSome then fault place
  if key.isConstructor then fault place
  let parameters :=
    if word.isWord "get" then ObjectLiteral.getterParameters rules place
    else ObjectLiteral.setterParameters rules place
  method rules modifiers key parameters false false

/-- A member from its key on. -/
def keyed (rules : Rules) (modifiers : Modifiers) : Parse Member := do
  let key ←
    match modifiers.readonlyWord with
    | some span =>
      if ← sees fun lexeme => lexeme == .bang || lexeme == .colon then
        pure { span, name := some "readonly".toList }
      else Key.ofMember rules
    | none => Key.ofMember rules
  let isOptional ← isTypescript <&&> eat .question
  if ← isMethod then
    if let some place := modifiers.declarePlace then fault place
    if modifiers.readonlyWord.isSome then failAt modifiers.start
    if key.isConstructor && !modifiers.isStatic then
      return ← constructorMethod rules modifiers key
    return ← plainMethod rules modifiers key
  let isAccessorWord ← pure (key.isWord "get" || key.isWord "set")
    <&&> not <$> isField false
    <&&> not <$> (afterBreak <&&> isAt (.binary .times))
  if ← pure !isAccessorWord <&&> isField true then
    return ← field rules modifiers key isOptional
  if ← pure (key.isWord "async") <&&> not <$> afterBreak then
    return ← asyncMethod rules modifiers isOptional
  if isAccessorWord then return ← accessor rules modifiers key
  unexpected

/-- A member from the modifiers of TypeScript on. -/
def afterStatic (rules : Rules) (modifiers : Modifiers) : Parse Member := do
  let modifiers ← typedModifiers { modifiers with isStatic := modifiers.staticPlace.isSome }
  let accessorStart ← position
  let hasAccessor ← isTypescript <&&> eatWord "accessor"
  if hasAccessor then
    let span ← spanFrom accessorStart
    if let some member ← namedLike rules modifiers span "accessor" false then return member
  let modifiers := { modifiers with isAccessor := hasAccessor }
  if ← pure modifiers.isStatic <&&> isAt .braceOpen then
    if let some place := modifiers.declarePlace then fault place
    if modifiers.hasAccess then fault (← span).start
    return ← staticBlock rules modifiers.start
  if ← isWord "static" <&&> isAhead .braceOpen then
    if let some place := modifiers.lastPlace then fault place
    if let some place := modifiers.staticPlace then fault place
    bump
    return ← staticBlock rules modifiers.start
  if ← isTypescript <&&>
      pure (!modifiers.isAbstract && !modifiers.isOverride && !modifiers.hasAccess) then
    if let some nodes ← TypeSyntax.index? rules then return { nodes }
  if ← isAt (.binary .times) then return ← generator rules modifiers
  keyed rules modifiers

/-- The word `static` before a member; a member may also have it as its name. -/
def staticWord (rules : Rules) (modifiers : Modifiers) : Parse Member := do
  let start ← position
  if ← eatWord "static" then
    let span ← spanFrom start
    match ← namedLike rules modifiers span "static" false with
    | some member => return member
    | none => afterStatic rules { modifiers with staticPlace := some start }
  else afterStatic rules modifiers

/-- A member of a class. The word `declare` before or after an access modifier is the
name of a member if nothing follows that it can modify. -/
def member (rules : Rules) : Parse Member := do
  let start ← position
  let decorators ← Decorator.all rules false
  let isDeclared ← isTypescript <&&> eatWord "declare"
  let hasAccess ← accessModifier
  let isDeclared ← pure isDeclared <||> (isTypescript <&&> eatWord "declare")
  let modifiers : Modifiers := { start, decorators, hasAccess }
  unless isDeclared do return ← staticWord rules modifiers
  match ← namedLike rules modifiers (← spanFrom start) "declare" true with
  | some member => return member
  | none => staticWord rules { modifiers with declarePlace := some start }

/-- The members of a class up to its closing brace, which is left. -/
def members (rules : Rules) : Parse (List Member) := do
  let (found, _) ← repeating (([] : List Member), false) fun (found, hasConstructor) => do
    if (← atEnd) || (← isAt .braceClose) then return .done (found, hasConstructor)
    if ← eat .semicolon then return .more (found, hasConstructor)
    let member ← member rules
    match member.constructorPlace with
    | some place =>
      if (← context).inDeclare then return .more (member :: found, hasConstructor)
      if hasConstructor then fault place
      return .more (member :: found, true)
    | none => return .more (member :: found, hasConstructor)
  return found.reverse

end ClassBody

namespace ClassSyntax

/-- The class that another one extends. -/
def superClass (rules : Rules) : Parse Expr := do
  let expr ← LeftHand.read rules
  match expr.form with
  | .instantiated inner => return inner
  | _ =>
    if ← isTypescript <&&> isAt (.binary .less) then
      let _ ← Typing.arguments rules
    return expr

/-- One of the names after `implements` or `extends` in TypeScript, with its place. -/
def heritageItem (rules : Rules) : Parse (Nat × List Node) := do
  let start ← position
  let (span, name) ← Name.word
  let expr ← Access.all rules (.expr (.ofName span name)) true true
  match expr.form with
  | .instantiated inner => return (start, inner.node :: (expr.node.children .children).drop 1)
  | form =>
    let isEntity := match form with
      | .name _ | .member _ => true
      | _ => false
    unless isEntity do fault start
    let types ← if ← isAt (.binary .less) then Prod.snd <$> Typing.arguments rules else pure []
    return (start, expr.node :: types)

/-- The names after `implements` or `extends` in TypeScript. -/
def heritage (rules : Rules) : Parse (List (Nat × List Node)) :=
  Typing.separated
    (isAt .braceOpen <||> isWord "implements" <||> isWord "extends") (heritageItem rules)

/-- The classes and interfaces that a class refers to in its head; the result is the
class that it extends. -/
def references (rules : Rules) : Parse (Option Expr) := do
  let parent ←
    if ← eatWord "extends" then
      let parent ← superClass rules
      if ← isTypescript <&&> eat .comma then
        for (place, _) in ← heritage rules do fault place
      pure (some parent)
    else pure none
  if ← eatWord "extends" then
    fault (← previous).start
    let _ ← superClass rules
  if ← isTypescript <&&> eatWord "implements" then
    let _ ← heritage rules
  if ← isTypescript <&&> eatWord "implements" then
    fault (← previous).start
    let _ ← heritage rules
  if ← isTypescript <&&> eatWord "extends" then
    fault (← previous).start
    let late ← superClass rules
    return parent.or (some late)
  return parent

/-- The names of types that a class or an interface cannot have. -/
def predefinedTypes : List String :=
  ["string", "null", "number", "object", "any", "unknown", "boolean", "bigint", "symbol", "void",
    "never", "intrinsic"]

/-- A class from the word `class` on; where it starts, whether it needs a name, and
whether it is abstract. -/
def read (rules : Rules) (decorators : List Node) (start : Nat) (needsName isAbstract : Bool) :
    Parse Node :=
  within ({ · with strict := true, inClass := true }) do
    expectWord "class"
    let name ← if needsName then some <$> Name.binding true else Name.binding? true
    if let some (span, name) := name then
      if ← isTypescript <&&> pure (predefinedTypes.any (name == ·.toList)) then fault span.start
    if ← isTypescript then
      let _ ← Typing.parameters? rules true true
    let parent ← references rules
    expect .braceOpen
    let members ← within ({ · with hasSuperClass := parent.isSome }) (ClassBody.members rules)
    if ← atEnd then fault (← span).start else expect .braceClose
    unless isAbstract do
      for member in members do
        if let some place := member.abstractPlace then fault place
    let nodes := (members.map ClassBody.Member.nodes).flatten
    return .classDefinition (← spanFrom start) decorators (parent.map Expr.node) nodes

end ClassSyntax

end Unawait
