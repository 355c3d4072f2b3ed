import Unawait.Grammar.Typing

/-!
# Members, calls and templates

What may follow an expression directly: members by name or by a computed key, calls,
optional chains, tagged templates, and in TypeScript type arguments and the sign for
a value that is not null.
-/

namespace Unawait

open Parse

/-- What a member is taken of, or what is called. -/
inductive Callee where
  | expr (value : Expr)
  /-- The word `super`. -/
  | parent (span : Span)
  /-- The word `import`. -/
  | loader (span : Span)

namespace Callee

def start : Callee → Nat
  | expr value => value.start
  | parent span => span.start
  | loader span => span.start

def node : Callee → Node
  | expr value => value.node
  | parent span => .expression span []
  | loader span => .expression span []

def isLoader : Callee → Bool
  | loader _ => true
  | _ => false

/-- Whether an expression belongs to an optional chain, so that what follows it does
too. -/
def continuesChain : Expr → Bool
  | .mk _ _ (.chain _) => true
  | .mk _ _ (.typed inner) => continuesChain inner
  | _ => false

/-- Whether what follows belongs to an optional chain. -/
def isChained : Callee → Bool
  | expr value => continuesChain value
  | _ => false

end Callee

namespace Access

/-- Whether an expression can start at the cursor. -/
def startsExpression : Parse Bool := do
  if ← isName then return true
  if ← isWord "import" <&&> seesAhead fun lexeme =>
      lexeme == .parenOpen || lexeme == .binary .less || lexeme == .dot then
    return true
  if ← isAt .hash <&&> seesAhead Lexeme.isAnyWord then return true
  sees fun lexeme =>
    match lexeme with
    | .number | .bigint | .string _ _ | .regex _ | .backquote | .parenOpen | .bracketOpen
    | .braceOpen | .binary .plus | .binary .minus | .binary .less | .tilde | .bang | .increment
    | .decrement => true
    | _ =>
      lexeme.isOneOf ["this", "super", "null", "true", "false", "function", "class", "new",
        "delete", "typeof", "void", "await", "yield"]

/-! ## Arguments -/

/-- The arguments of a call with their parentheses. -/
def arguments (rules : Rules) (isImport : Bool) : Parse (List Node) :=
  within ({ · with expectColon := false }) do
    let start ← position
    expect .parenOpen
    let found ← repeating ([] : List Node) fun found => do
      if (← atEnd) || (← isAt .parenClose) then return .done found
      unless found.isEmpty do
        expect .comma
        if ← isAt .parenClose then
          if isImport && !(← isTypescript) then failAt start
          return .done found
      let element ← allowingIn rules.element?
      return .more (element.expr.node :: found)
    expect .parenClose
    return found.reverse

/-! ## Templates -/

/-- A piece of text of a template; whether a bad escape is allowed in it. The result
says whether it is the last one. -/
def templateText (isTagged : Bool) : Parse Bool := do
  match ← lexeme with
  | .template wrong =>
    bump
    if let some place := wrong then
      unless isTagged do throw place
    isAt .backquote
  | _ => unexpected

/-- A template, whose opening sign is at the cursor, with the nodes in its holes. -/
def template (rules : Rules) (isTagged : Bool) : Parse (Span × List Node) :=
  within ({ · with expectColon := false }) do
    let start ← position
    bump
    let isLast ← templateText isTagged
    let (holes, _) ← repeating (([] : List Node), isLast) fun (holes, isLast) => do
      if isLast then return .done (holes, isLast)
      expect .dollarBrace
      let hole ← rules.expressionIn
      expect .braceClose
      return .more (hole.node :: holes, ← templateText isTagged)
    expect .backquote
    return (← spanFrom start, holes.reverse)

/-- A template with what stands before it. -/
def tagged (rules : Rules) (tag : Expr) : Parse Expr := do
  let (_, holes) ← template rules true
  let span ← spanFrom tag.start
  if tag.isChain then fault span.start
  return .mk span (.tagged span tag.node holes) .other

/-! ## Steps -/

/-- A call of what was read. -/
def call (callee : Callee) (start : Nat) (isOptional : Bool) (types : Option Span)
    (arguments : List Node) : Parse Expr := do
  let span ← spanFrom start
  if isOptional || callee.isChained then
    match callee with
    | .expr callee =>
      return .mk span (.call span isOptional callee.node types arguments) (.chain false)
    | _ => failAt (← lookedAt).start
  else return .mk span (.call span false callee.node types arguments) .call

/-- An expression with the type arguments after it, if there are some. -/
def withTypeArguments (expr : Expr) (start : Nat) : Option (Span × List Node) → Parse Expr
  | none => return expr
  | some (_, types) => do
    return .carrier (← spanFrom start) (expr.node :: types) (.instantiated expr)

/-- The type arguments after a member, if there are some. -/
def memberTypes (rules : Rules) : Parse (Option (Span × List Node)) := do
  if ← isTypescript <&&> isAt (.binary .less) then Typing.arguments? rules startsExpression
  else return none

/-- The member of an object with a node of its own. -/
def memberOf (object : Expr) (isOptional : Bool) (span : Span) (node : Node) : Expr :=
  if isOptional || Callee.continuesChain object then .mk span node (.chain true)
  else .mk span node (.member object.hasAssignableMembers)

/-- A member by a computed key, whose opening bracket was read. -/
def computedMember (rules : Rules) (callee : Callee) (start : Nat) (isOptional : Bool) :
    Parse Expr := do
  let property ← rules.expressionIn
  expect .bracketClose
  let span ← spanFrom callee.start
  let types ← memberTypes rules
  match callee with
  | .loader _ => unexpected
  | .parent word =>
    if isOptional then failAt word.start
    return .mk span (.superComputed span property.node) .superMember
  | .expr object =>
    let node := Node.memberComputed span object.node property.node
    withTypeArguments (memberOf object isOptional span node) start types

/-- A member by its name, after the dot. -/
def namedMember (rules : Rules) (callee : Callee) (start : Nat) (isOptional : Bool) :
    Parse Expr := do
  let (isPrivate, name) ← Name.member
  let span ← spanFrom callee.start
  let types ← memberTypes rules
  match callee with
  | .loader _ =>
    if isPrivate || name ≠ "meta".toList then unexpected
    return .carrier span [] .other
  | .parent _ =>
    if isOptional || isPrivate then failAt (← lookedAt).start
    return .mk span (.superNamed span name) .superMember
  | .expr object =>
    let node := Node.member span object.node
    withTypeArguments (memberOf object isOptional span node) start types

/-- What type arguments after an expression make of it. The result says whether more
may follow. -/
def applied (rules : Rules) (expr : Expr) (start : Nat) (noCall : Bool) :
    Parse (Option (Progress Callee Expr)) :=
  within ({ · with anglesAreOperators := false }) (attemptTyped do
    let (typesSpan, types) ← Typing.arguments rules
    if !noCall && (← isAt .parenOpen) then
      let arguments ← arguments rules false
      return some (.more (.expr (← call (.expr expr) start false (some typesSpan) arguments)))
    else if ← isAt .backquote then
      return some (.more (.expr (← tagged rules expr)))
    else if (← isAt .assign) || (← isWord "as") || (← isWord "satisfies") then
      let span ← spanFrom start
      return some (.done (.carrier span (expr.node :: types) (.instantiated expr)))
    else unexpected)

/-- The sign for a value that is not null. -/
def notNull (callee : Callee) (start : Nat) : Parse Callee := do
  modify fun cursor => { cursor with lexer := { cursor.lexer with expressionAllowed := false } }
  bump
  match callee with
  | .expr expr => return .expr (.carrier (← spanFrom start) [expr.node] (.typed expr))
  | _ => unexpected

/-- What follows an expression directly: a member, a call or a template; whether calls
and computed keys are left. -/
def step (rules : Rules) (start : Nat) (noCall noComputed : Bool) (callee : Callee) :
    Parse (Progress Callee Expr) := do
  if ← isTypescript then
    if !(← afterBreak) && (← isAt .bang) then return .more (← notNull callee start)
    if let .expr expr := callee then
      if ← isAt (.binary .less) then
        if let some progress ← applied rules expr start noCall then return progress
  let _ ← token?
  let isOptional ← isAt .question <&&> isAhead .dot
  if isOptional then bump
  let dotted (sign : Lexeme) : Parse Bool := do
    if ← pure isOptional <&&> isAt .dot <&&> isAhead sign then
      bump
      return true
    else return false
  unless noComputed do
    let _ ← dotted .bracketOpen
    if ← eat .bracketOpen then
      return .more (.expr (← computedMember rules callee start isOptional))
  if (← dotted .parenOpen) || (← dotted (.binary .less)) || !noCall && (← isAt .parenOpen) then
    let types ←
      if (← isTypescript) && (← isAt (.binary .less)) then
        some <$> (Prod.fst <$> Typing.arguments rules)
      else pure none
    let arguments ← arguments rules callee.isLoader
    return .more (.expr (← call callee start isOptional types arguments))
  if ← eat .dot then return .more (.expr (← namedMember rules callee start isOptional))
  match callee with
  | .expr expr =>
    if ← isAt .backquote then return .more (.expr (← tagged rules expr)) else return .done expr
  | _ => unexpected

/-- Everything that follows an expression directly. -/
def all (rules : Rules) (callee : Callee) (noCall noComputed : Bool) : Parse Expr :=
  repeating callee (step rules callee.start noCall noComputed)

end Access

/-! ## Decorators -/

namespace Decorator

/-- The arguments of a decorator, if there are some. -/
def withArguments (rules : Rules) (expr : Expr) : Parse Expr := do
  let types ←
    if (← isTypescript) && (← isAt (.binary .less)) then
      some <$> (Prod.fst <$> Typing.arguments rules)
    else pure none
  if types.isNone && !(← isAt .parenOpen) then return expr
  let arguments ← Access.arguments rules false
  let span ← spanFrom expr.start
  return .mk span (.call span false expr.node types arguments) .call

/-- A decorator, whose sign is at the cursor. -/
def one (rules : Rules) : Parse Node := do
  bump
  let expr ←
    if ← eat .parenOpen then
      let expr ← rules.expression
      expect .parenClose
      pure expr
    else
      let (span, name) ← Name.identifier false false
      Access.all rules (.expr (.ofName span name)) false true
  return (← withArguments rules expr).node

/-- Decorators; whether they may stand before `export`. -/
def all (rules : Rules) (allowExport : Bool) : Parse (List Node) := do
  let start ← position
  let decorators ← manyWhile (isAt .atSign) (one rules)
  if !decorators.isEmpty && (← isWord "export") then
    let context ← context
    if !context.inClass && !context.inFunction then
      unless allowExport do unexpected
      unless ← isTypescript do failAt start
  return decorators

end Decorator

end Unawait
