/-!
# Kinds of nodes and names of slots

Only what the lowering treats on its own has a kind of its own. Everything else
is an `expression` or a `statement` that merely carries what is inside it.
-/

namespace Unawait

/-- What a node is. -/
inductive Kind where
  | program
  | functionDeclaration
  | functionExpression
  | arrowFunctionExpression
  | objectMethod
  | classMethod
  /-- A field of a class. Its initial value is computed with the instance as receiver. -/
  | classProperty
  | staticBlock
  | classDefinition
  | awaitExpression
  | yieldExpression
  | thisExpression
  | identifier
  /-- A member reached through `super`, by name or by a computed key. -/
  | superMember
  | assignmentExpression
  | updateExpression
  | unaryExpression
  | binaryExpression
  | logicalExpression
  | conditionalExpression
  | callExpression
  | newExpression
  | memberExpression
  | taggedTemplate
  | parenthesizedExpression
  | forOfStatement
  | blockStatement
  | variableDeclaration
  | variableDeclarator
  | labeledStatement
  | propertyKey
  | pattern
  | expression
  | statement
deriving DecidableEq, Inhabited

namespace Kind

/-- Functions, methods and arrows. -/
def isFunctionLike : Kind → Bool
  | functionDeclaration | functionExpression | arrowFunctionExpression | objectMethod
  | classMethod => true
  | _ => false

/-- Kinds that bind a receiver of their own. -/
def ownsReceiver : Kind → Bool
  | functionDeclaration | functionExpression | objectMethod | classMethod | classProperty
  | staticBlock => true
  | _ => false

/-- Methods of objects and classes. -/
def isMethod : Kind → Bool
  | objectMethod | classMethod => true
  | _ => false

/-- Every kind, in the order of its declaration. -/
def all : List Kind :=
  [program, functionDeclaration, functionExpression, arrowFunctionExpression, objectMethod,
    classMethod, classProperty, staticBlock, classDefinition, awaitExpression, yieldExpression,
    thisExpression, identifier, superMember, assignmentExpression, updateExpression,
    unaryExpression, binaryExpression, logicalExpression, conditionalExpression, callExpression,
    newExpression, memberExpression, taggedTemplate, parenthesizedExpression, forOfStatement,
    blockStatement, variableDeclaration, variableDeclarator, labeledStatement, propertyKey,
    pattern, expression, statement]

/-- The name under which a kind is written. -/
def name : Kind → String
  | program => "Program"
  | functionDeclaration => "FunctionDeclaration"
  | functionExpression => "FunctionExpression"
  | arrowFunctionExpression => "ArrowFunctionExpression"
  | objectMethod => "ObjectMethod"
  | classMethod => "ClassMethod"
  | classProperty => "ClassProperty"
  | staticBlock => "StaticBlock"
  | classDefinition => "Class"
  | awaitExpression => "AwaitExpression"
  | yieldExpression => "YieldExpression"
  | thisExpression => "ThisExpression"
  | identifier => "Identifier"
  | superMember => "SuperMember"
  | assignmentExpression => "AssignmentExpression"
  | updateExpression => "UpdateExpression"
  | unaryExpression => "UnaryExpression"
  | binaryExpression => "BinaryExpression"
  | logicalExpression => "LogicalExpression"
  | conditionalExpression => "ConditionalExpression"
  | callExpression => "CallExpression"
  | newExpression => "NewExpression"
  | memberExpression => "MemberExpression"
  | taggedTemplate => "TaggedTemplate"
  | parenthesizedExpression => "ParenthesizedExpression"
  | forOfStatement => "ForOfStatement"
  | blockStatement => "BlockStatement"
  | variableDeclaration => "VariableDeclaration"
  | variableDeclarator => "VariableDeclarator"
  | labeledStatement => "LabeledStatement"
  | propertyKey => "PropertyKey"
  | pattern => "Pattern"
  | expression => "Expression"
  | statement => "Statement"

end Kind

/-- The slot of its parent in which a node stands. -/
inductive Field where
  | body
  | params
  | id
  | key
  | value
  | argument
  | arguments
  | callee
  | object
  | property
  | test
  | consequent
  | alternate
  | left
  | right
  | init
  | declarations
  | tag
  | quasi
  | superClass
  | decorators
  | label
  | typeArguments
  | children
deriving DecidableEq, Inhabited

namespace Field

/-- Every field, in the order of its declaration. -/
def all : List Field :=
  [body, params, id, key, value, argument, arguments, callee, object, property, test, consequent,
    alternate, left, right, init, declarations, tag, quasi, superClass, decorators, label,
    typeArguments, children]

/-- The name under which a field is written. -/
def name : Field → String
  | body => "Body"
  | params => "Params"
  | id => "Id"
  | key => "Key"
  | value => "Value"
  | argument => "Argument"
  | arguments => "Arguments"
  | callee => "Callee"
  | object => "Object"
  | property => "Property"
  | test => "Test"
  | consequent => "Consequent"
  | alternate => "Alternate"
  | left => "Left"
  | right => "Right"
  | init => "Init"
  | declarations => "Declarations"
  | tag => "Tag"
  | quasi => "Quasi"
  | superClass => "SuperClass"
  | decorators => "Decorators"
  | label => "Label"
  | typeArguments => "TypeArguments"
  | children => "Children"

end Field

end Unawait
