import Unawait.Tree.Node

/-!
# Building nodes

The shapes of nodes that reading a program gives. A node that merely carries what is
inside it has a single sequence of children, or no slot at all.
-/

namespace Unawait

namespace Slot

/-- The slot for the nodes inside a node that merely carries them. -/
def carrying : List Node → List Slot
  | [] => []
  | nodes => [many .children nodes]

end Slot

namespace Node

/-- A node that merely carries what is inside it. -/
def carrier (kind : Kind) (span : Span) (nodes : List Node) : Node :=
  plain kind span (Slot.carrying nodes)

/-- A node that starts at another place. -/
def startingAt (node : Node) (start : Nat) : Node :=
  mk { node.head with span := ⟨start, node.stop⟩ } node.slots

/-- A function that is asynchronous. -/
def asAsync (node : Node) : Node :=
  mk { node.head with flags := { node.flags with isAsync := true } } node.slots

def expression (span : Span) (nodes : List Node) : Node := carrier .expression span nodes

def statement (span : Span) (nodes : List Node) : Node := carrier .statement span nodes

def block (span : Span) (nodes : List Node) : Node := carrier .blockStatement span nodes

def pattern (span : Span) (nodes : List Node) : Node := carrier .pattern span nodes

def identifier (span : Span) (name : Text) : Node :=
  mk { kind := .identifier, span, name := some name } []

/-- The key of a property or a member. -/
def key (span : Span) (computed : Bool) (nodes : List Node) : Node :=
  mk { kind := .propertyKey, span, flags := { computed } } (Slot.carrying nodes)

/-- A member reached through `super` by its name. -/
def superNamed (span : Span) (name : Text) : Node :=
  mk { kind := .superMember, span, name := some name } []

/-- A member reached through `super` by a computed key. -/
def superComputed (span : Span) (property : Node) : Node :=
  mk { kind := .superMember, span, flags := { computed := true } } [.one .property property]

/-- A member of an object by its name. -/
def member (span : Span) (object : Node) : Node :=
  plain .memberExpression span [.one .object object]

/-- A member of an object by a computed key. -/
def memberComputed (span : Span) (object property : Node) : Node :=
  mk { kind := .memberExpression, span, flags := { computed := true } }
    [.one .object object, .one .property property]

/-- A call. The type arguments count by their span alone. -/
def call (span : Span) (optional : Bool) (callee : Node) (types : Option Span)
    (arguments : List Node) : Node :=
  mk { kind := .callExpression, span, flags := { optional } }
    ([.one .callee callee]
      ++ (types.map fun types => Slot.one .typeArguments (expression types [])).toList
      ++ [.many .arguments arguments])

/-- A construction of an instance. -/
def construction (span : Span) (callee : Node) (arguments : List Node) : Node :=
  plain .newExpression span [.one .callee callee, .many .arguments arguments]

def assignment (span : Span) (operator : Text) (left right : Node) : Node :=
  mk { kind := .assignmentExpression, span, operator := some operator }
    [.one .left left, .one .right right]

def update (span : Span) (operator : Text) (prefixed : Bool) (argument : Node) : Node :=
  mk { kind := .updateExpression, span, flags := { prefixed }, operator := some operator }
    [.one .argument argument]

def unary (span : Span) (operator : Text) (argument : Node) : Node :=
  mk { kind := .unaryExpression, span, operator := some operator } [.one .argument argument]

def binary (span : Span) (isLogical : Bool) (operator : Text) (left right : Node) : Node :=
  mk { kind := if isLogical then .logicalExpression else .binaryExpression, span,
       operator := some operator }
    [.one .left left, .one .right right]

def conditional (span : Span) (test consequent alternate : Node) : Node :=
  plain .conditionalExpression span
    [.one .test test, .one .consequent consequent, .one .alternate alternate]

def awaiting (span : Span) (argument : Node) : Node :=
  plain .awaitExpression span [.one .argument argument]

def yielding (span : Span) (delegate : Bool) (argument : Option Node) : Node :=
  mk { kind := .yieldExpression, span, flags := { delegate } }
    [Slot.ofNodes .argument argument.toList]

def parenthesized (span : Span) (argument : Node) : Node :=
  plain .parenthesizedExpression span [.one .argument argument]

def tagged (span : Span) (tag : Node) (holes : List Node) : Node :=
  plain .taggedTemplate span [.one .tag tag, .many .quasi holes]

def arrow (span : Span) (isAsync : Bool) (params : List Node) (body : Node) : Node :=
  mk { kind := .arrowFunctionExpression, span, flags := { isAsync } }
    [.many .params params, .one .body body]

def declarator (span : Span) (id : Node) (init : Option Node) : Node :=
  plain .variableDeclarator span [.one .id id, Slot.ofNodes .init init.toList]

def declaration (span : Span) (declarators : List Node) : Node :=
  plain .variableDeclaration span [.many .declarations declarators]

def labeled (span : Span) (body : Node) : Node :=
  plain .labeledStatement span [.one .body body]

def forOf (span : Span) (isAwait : Bool) (left right body : Node) : Node :=
  mk { kind := .forOfStatement, span, flags := { isAwait } }
    [.one .left left, .one .right right, .one .body body]

def staticBlock (span : Span) (body : Node) : Node :=
  plain .staticBlock span [.one .body body]

def classDefinition (span : Span) (decorators : List Node) (superClass : Option Node)
    (body : List Node) : Node :=
  plain .classDefinition span
    [.many .decorators decorators, Slot.ofNodes .superClass superClass.toList, .many .body body]

/-- A field of a class. -/
def classField (span : Span) (isStatic : Bool) (decorators : List Node) (key : Node)
    (value : Option Node) : Node :=
  mk { kind := .classProperty, span, flags := { isStatic } }
    [.many .decorators decorators, .one .key key, Slot.ofNodes .value value.toList]

end Node

end Unawait
