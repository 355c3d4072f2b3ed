import Unawait.Grammar.Rules

/-!
# Expressions that turn out to be patterns

The left side of an assignment and the parameters of an arrow function are read as
expressions first. Once it is known what they are, they are turned into patterns;
whatever cannot be one is a fault at its place.
-/

namespace Unawait

open Parse

/-- Where a pattern stands. -/
inductive Role where
  /-- A parameter. -/
  | binding
  /-- A part of a parameter. -/
  | bindingPart
  /-- The left side of an assignment. -/
  | target
  /-- A part of the left side of an assignment. -/
  | targetPart
deriving DecidableEq

namespace Role

/-- The role of the parts of a pattern. -/
def part : Role → Role
  | binding | bindingPart => bindingPart
  | target | targetPart => targetPart

end Role

namespace Target

/-- Whether TypeScript refuses to change what cannot be assigned to. -/
def isRefused (refuseCalls : Bool) : Expr → Bool
  | .mk _ _ .literal => false
  | .mk _ _ (.string _) => false
  | .mk _ _ (.binary _) => false
  | .mk _ _ .call => refuseCalls
  | .mk _ _ (.parenthesized inner) => isRefused refuseCalls inner
  | _ => true

/-- Check that an expression can be assigned to. -/
def check (expr : Expr) (refuseCalls : Bool) : Parse Unit := do
  let restricted := match expr.form with
    | .name name => Expr.isRestricted name
    | _ => false
  let isTarget := expr.isTarget (← context).strict
  if ← isTypescript then
    if restricted then moduleFault expr.start
    else if !isTarget && isRefused refuseCalls expr then fault expr.start
  else unless isTarget do fault expr.start

/-- The property of an object as a part of a pattern; whether it is the last one, and
the place of a comma after it. -/
def ofProperty (convert : Role → Expr → Parse Pattern) (role : Role) (isLast : Bool)
    (comma : Option Nat) (property : Property) : Parse (List Node × List (Nat × Text)) := do
  match property with
  | .shorthand span name => return ([], [(span.start, name)])
  | .keyed key value =>
    let pattern ← convert role.part value
    return (key ++ pattern.nodes, pattern.names)
  | .defaulted span name value => return ([value.node], [(span.start, name)])
  | .method place _ => failAt place
  | .spread dots expr =>
    if isLast then
      if let some comma := comma then fault comma
    else fault dots
    let pattern ← match role.part, expr.form with
      | .bindingPart, .name name => pure (Pattern.ofName expr.span name)
      | .bindingPart, _ => do
        fault dots
        pure (Pattern.invalid expr.span)
      | part, _ => convert part expr
    if pattern.isDefault then fault dots
    return (pattern.nodes, pattern.names)

/-- The properties of an object as parts of a pattern. -/
def ofProperties (convert : Role → Expr → Parse Pattern) (role : Role) (comma : Option Nat) :
    List Property → Parse (List Node × List (Nat × Text))
  | [] => return ([], [])
  | property :: rest => do
    let (nodes, names) ← ofProperty convert role rest.isEmpty comma property
    let (moreNodes, moreNames) ← ofProperties convert role comma rest
    return (nodes ++ moreNodes, names ++ moreNames)

/-- The element of an array as a part of a pattern; whether it is the last one, and
the place of a comma after it. -/
def ofElement (convert : Role → Expr → Parse Pattern) (role : Role) (isLast : Bool)
    (comma : Option Nat) : Option Element → Parse (List Node × List (Nat × Text))
  | none => return ([], [])
  | some (.mk none expr) => do
    let pattern ← convert role.part expr
    return (pattern.nodes, pattern.names)
  | some (.mk (some dots) expr) => do
    unless isLast do
      fault dots
      return ([], [])
    if expr.isAssignment then fault dots
    if let some comma := comma then fault comma
    let pattern ← convert role.part expr
    return (pattern.nodes, pattern.names)

/-- The elements of an array as parts of a pattern. -/
def ofElements (convert : Role → Expr → Parse Pattern) (role : Role) (comma : Option Nat) :
    List (Option Element) → Parse (List Node × List (Nat × Text))
  | [] => return ([], [])
  | element :: rest => do
    let (nodes, names) ← ofElement convert role rest.isEmpty comma element
    let (moreNodes, moreNames) ← ofElements convert role comma rest
    return (nodes ++ moreNodes, names ++ moreNames)

/-- An expression that is no array, object or assignment as a part of the left side of
an assignment; nothing if it is one of them. -/
def ofTargetPart (expr : Expr) : Parse (Option Pattern) := do
  match expr.form with
  | .array _ _ | .object _ _ | .assignment _ _ _ => return none
  | .name name =>
    unless expr.isTarget (← context).strict do fault expr.start
    return some (.ofName expr.span name)
  | _ =>
    unless expr.isTarget (← context).strict do fault expr.start
    return some (.ofTarget expr)

/-- An array, an object, a name or an assignment as a pattern. -/
def ofCover (convert : Role → Expr → Parse Pattern) (role : Role) (expr : Expr) :
    Parse Pattern := do
  let span := expr.span
  match expr.form with
  | .name name => return .ofName span name
  | .assignment true target value =>
    let pattern ← match target.shape with
      | .target left => convert role left
      | _ => pure target
    return pattern.withDefault span value
  | .object properties comma =>
    let (nodes, names) ← ofProperties convert role comma properties
    return .mk span nodes names .object
  | .array elements comma =>
    let (nodes, names) ← ofElements convert role comma elements
    return .mk span nodes names .array
  | _ =>
    fault span.start
    return .invalid span

/-- One step of turning an expression into a pattern. -/
def convertWith (convert : Role → Expr → Parse Pattern) (role : Role) (expr : Expr) :
    Parse Pattern := do
  match role with
  | .target =>
    match expr.form with
    | .array _ _ | .object _ _ => ofCover convert role expr
    | .name name =>
      check expr true
      return .ofName expr.span name
    | _ =>
      check expr true
      return .ofTarget expr
  | .targetPart =>
    match ← ofTargetPart expr with
    | some pattern => return pattern
    | none => ofCover convert role expr
  | _ => ofCover convert role expr

/-- Turn an expression into a pattern. The first argument bounds its depth. -/
def convertFor : Nat → Role → Expr → Parse Pattern
  | 0, _, _ => do throw (← get).length
  | depth + 1, role, expr => convertWith (convertFor depth) role expr

/-- Turn an expression into a pattern. -/
def ofExpr (role : Role) (expr : Expr) : Parse Pattern := do
  convertFor (← get).limit role expr

/-- Check the names that parameters bind. -/
def checkNames (patterns : List Pattern) : Parse Unit := do
  if (← context).strict then
    for pattern in patterns do
      for (place, name) in pattern.names do
        if Expr.isRestricted name then moduleFault place

/-- Whether a pattern can stand before an assignment sign. -/
def isAssignable (pattern : Pattern) : Bool :=
  match pattern.shape with
  | .name | .array | .object | .rest => true
  | .target expr =>
    match expr.form with
    | .member _ | .superMember | .chain _ | .parenthesized _ | .typed _ | .instantiated _ => true
    | _ => false
  | _ => false

end Target

end Unawait
