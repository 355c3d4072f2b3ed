import Unawait.Grammar.Name

/-!
# Types beside names and calls

Annotations, type arguments and type parameters. Of a type only the expressions in
it count: they are the nodes that it gives.
-/

namespace Unawait

open Parse

namespace Typing

/-- A type after a sign that was read. -/
def plain (rules : Rules) : Parse (List Node) := withinType rules.type

/-- A colon, which is at the cursor, and a type. -/
def colon (rules : Rules) : Parse (List Node) :=
  withinType do
    bump
    rules.type

/-- A colon and a type, if a colon is at the cursor. -/
def colon? (rules : Rules) : Parse (Option (List Node)) := do
  if (← isTypescript) && (← isAt .colon) then some <$> colon rules else return none

/-- A sign or word, and the type after it, if it is at the cursor. -/
def after? (rules : Rules) (sees : Parse Bool) : Parse (List Node) :=
  withinType do
    if ← sees then rules.type else return []

/-- Go past the token at the cursor and read a type. What the sign after the type is
is settled only outside of it. -/
def next (rules : Rules) : Parse (List Node) := do
  let nodes ← withinType do
    bump
    rules.type
  unless (← context).inType do
    if (← isAt (.binary .less)) || (← isAt (.binary .greater)) then mergeAngles
  return nodes

/-- The result type of a function after a sign; it may be a statement about an
argument. -/
def result (rules : Rules) (sign : Lexeme) : Parse (List Node) :=
  withinType do
    expect sign
    let asserts ← isWord "asserts" <&&> isNameAhead
    if asserts then bump
    let claims ← isName <&&> isWordAhead "is" <&&> not <$> breakAhead
    if asserts || claims then
      let _ ← Name.word
      if claims then
        bump
        plain rules
      else return []
    else plain rules

/-- The result type of a function after a colon, if a colon is at the cursor. -/
def result? (rules : Rules) : Parse (Option (List Node)) := do
  if (← isTypescript) && (← isAt .colon) then some <$> result rules .colon else return none

/-! ## Lists of types -/

/-- Items with commas between them up to an end, which is left. -/
def separated {α : Type} (isEnd : Parse Bool) (item : Parse α) : Parse (List α) := do
  let items ← repeating ([] : List α) fun items => do
    if ← isEnd then return .done items
    let items := (← item) :: items
    if ← eat .comma then return .more items
    if ← isEnd then return .done items
    unexpected
  return items.reverse

/-- Run a step as if no element were open. -/
def outsideElements {α : Type} (step : Parse α) : Parse α := do
  let nesting := (← get).lexer.nesting
  let setNesting (nesting : List Nesting) : Parse Unit :=
    modify fun cursor => { cursor with lexer := { cursor.lexer with nesting } }
  setNesting (nesting.getLast?.toList)
  let value ← tryCatch step fun place => do
    setNesting nesting
    throw place
  setNesting nesting
  return value

/-- Type arguments with their span and the nodes in them. -/
def arguments (rules : Rules) : Parse (Span × List Node) := do
  let start ← position
  let types ← withinType (outsideElements do
    if ← isAt (.binary .shiftLeft) then cutShift else expect (.binary .less)
    separated (isAt (.binary .greater)) rules.type)
  modify fun cursor => { cursor with lexer := { cursor.lexer with expressionAllowed := false } }
  expect (.binary .greater)
  return (← spanFrom start, types.flatten)

/-- Type arguments in an expression, if there are some and what follows cannot be an
operand. -/
def arguments? (rules : Rules) (startsExpression : Parse Bool) :
    Parse (Option (Span × List Node)) := do
  attemptTyped do
    let types ← arguments rules
    let barred ← sees fun lexeme =>
      lexeme == .binary .less || lexeme == .binary .greater || lexeme == .binary .plus
        || lexeme == .binary .minus || lexeme == .parenOpen || lexeme == .backquote
    if barred then return none
    if (← afterBreak) || (← sees Lexeme.isBinary) || !(← startsExpression) then return some types
    return none

/-! ## Modifiers -/

/-- Whether a modifier can stand before the token at the cursor. -/
def canBeModified : Parse Bool := do
  if ← afterBreak then return false
  sees fun lexeme =>
    match lexeme with
    | .word _ | .string _ _ | .number | .bigint | .bracketOpen | .braceOpen | .ellipsis | .hash
    | .binary .times => true
    | _ => false

/-- One of some modifiers, if it is at the cursor and something to modify follows;
whether a static block is left alone. -/
def modifier (names : List String) (sparesStaticBlocks : Bool) : Parse (Option String) := do
  unless ← isTypescript do return none
  let lexeme ← lexeme
  match names.find? lexeme.isWord with
  | none => return none
  | some name =>
    if sparesStaticBlocks && lexeme.isWord "static" then
      if ← isAhead .braceOpen then return none
    attempt do
      bump
      if ← canBeModified then return some name else return none

/-- Go past a modifier of a parameter. -/
def anyModifier : Parse Bool := do
  unless ← isTypescript do return false
  let names := ["public", "protected", "private", "readonly"]
  unless ← sees (·.isOneOf names) do return false
  unless ← seesAhead (fun lexeme =>
      lexeme.isAnyWord || lexeme == .braceOpen || lexeme == .bracketOpen) do
    return false
  let _ ← modifier names false
  return true

/-! ## Type parameters -/

/-- The modifiers of a type parameter, which were met so far. -/
structure Variance where
  isIn : Bool := false
  isOut : Bool := false

/-- A modifier of a type parameter. -/
def noteModifier (allowVariance allowConst : Bool) (variance : Variance) (name : String) :
    Parse Variance := do
  let place := (← previous).start
  match name with
  | "const" =>
    unless allowConst do fault place
    return variance
  | "in" =>
    if !allowVariance || variance.isIn || variance.isOut then fault place
    return { variance with isIn := true }
  | "out" =>
    if !allowVariance || variance.isOut then fault place
    return { variance with isOut := true }
  | _ =>
    fault place
    return variance

/-- A type parameter with its span. -/
def parameter (rules : Rules) (allowVariance allowConst : Bool) : Parse (Span × List Node) := do
  let start ← position
  let modifiers :=
    ["public", "private", "protected", "readonly", "abstract", "const", "override", "in", "out"]
  repeating ({} : Variance) fun variance => do
    match ← modifier modifiers false with
    | some name => return .more (← noteModifier allowVariance allowConst variance name)
    | none => return .done ()
  let _ ← withinType Name.word
  let bound ← after? rules (eatWord "extends")
  let default ← after? rules (eat .assign)
  return (← spanFrom start, bound ++ default)

/-- Type parameters, whose opening sign is at the cursor. -/
def parameters (rules : Rules) (allowVariance allowConst : Bool) :
    Parse (List (Span × List Node)) :=
  withinType (outsideElements do
    unless (← isAt (.binary .less)) || (← isAt .tagStart) do unexpected
    bump
    let found ←
      separated (isAt (.binary .greater)) (parameter rules allowVariance allowConst)
    expect (.binary .greater)
    return found)

/-- Type parameters, if there are some. -/
def parameters? (rules : Rules) (allowVariance allowConst : Bool) : Parse (List Node) := do
  if ← isAt (.binary .less) then
    return ((← parameters rules allowVariance allowConst).map Prod.snd).flatten
  else return []

end Typing

end Unawait
