import Unawait.Token.Lexeme
import Unawait.Tree.Build

/-!
# Expressions and patterns as the grammar sees them

An expression is read before it is known whether it will turn out to be a pattern,
the head of an arrow function or the target of an assignment. So next to its node it
keeps a form: what the grammar around it has to know to decide that. A pattern keeps
the nodes that it gives to the node around it; a name that is bound gives none.
-/

namespace Unawait

mutual

/-- An expression that was read. -/
inductive Expr where
  | mk (span : Span) (node : Node) (form : Form)

/-- What the grammar around an expression has to know of it. -/
inductive Form where
  | name (name : Text)
  | literal
  /-- A string, and whether it is the directive that makes code strict. -/
  | string (isUseStrict : Bool)
  /-- An array with its elements and the place of a comma after the last one. -/
  | array (elements : List (Option Element)) (comma : Option Nat)
  /-- An object with its properties and the place of a comma after the last one. -/
  | object (properties : List Property) (comma : Option Nat)
  /-- A member, and whether it can be assigned to. -/
  | member (assignable : Bool)
  | superMember
  /-- An optional chain, and whether it ends with a member. -/
  | chain (isMember : Bool)
  | call
  /-- A `new` without arguments. -/
  | bareNew
  | binary (operator : Operator)
  | unary
  | update
  | await (inner : Expr)
  | conditional
  | arrow
  | parenthesized (inner : Expr)
  /-- An expression with a type assertion. -/
  | typed (inner : Expr)
  /-- An expression with type arguments. -/
  | instantiated (inner : Expr)
  /-- An assignment, and whether its sign is the plain one. -/
  | assignment (plain : Bool) (target : Pattern) (value : Expr)
  | other

/-- An element of an array or an argument, with the place of the dots before it. -/
inductive Element where
  | mk (dots : Option Nat) (expr : Expr)

/-- A property of an object. -/
inductive Property where
  /-- A name that stands for itself. -/
  | shorthand (span : Span) (name : Text)
  /-- A key with the nodes in it, and a value. -/
  | keyed (key : List Node) (value : Expr)
  /-- A name with a default value, which only a pattern can hold. -/
  | defaulted (span : Span) (name : Text) (value : Expr)
  /-- A method or an accessor, with the place that is wrong if it is in a pattern. -/
  | method (place : Nat) (node : Node)
  | spread (dots : Nat) (expr : Expr)

/-- A pattern with the nodes that it gives, and the names that it binds with their
places. -/
inductive Pattern where
  | mk (span : Span) (nodes : List Node) (names : List (Nat × Text)) (shape : Shape)

/-- What the grammar around a pattern has to know of it. -/
inductive Shape where
  | name
  | array
  | object
  | rest
  | default
  /-- An expression that is assigned to. -/
  | target (expr : Expr)
  | invalid

end

namespace Expr

def span : Expr → Span
  | mk span _ _ => span

def node : Expr → Node
  | mk _ node _ => node

def form : Expr → Form
  | mk _ _ form => form

def start (expr : Expr) : Nat := expr.span.start

def stop (expr : Expr) : Nat := expr.span.stop

/-- An expression that merely carries what is inside it. -/
def carrier (span : Span) (nodes : List Node) (form : Form) : Expr :=
  mk span (.expression span nodes) form

def ofName (span : Span) (name : Text) : Expr := mk span (.identifier span name) (.name name)

/-- What stands for an expression that could not be read. -/
def invalid (span : Span) : Expr := carrier span [] .other

def isName (expr : Expr) (name : String) : Bool :=
  match expr.form with
  | .name text => text == name.toList
  | _ => false

def isArrow (expr : Expr) : Bool :=
  match expr.form with
  | .arrow => true
  | _ => false

def isChain (expr : Expr) : Bool :=
  match expr.form with
  | .chain _ => true
  | _ => false

def isAssignment (expr : Expr) : Bool :=
  match expr.form with
  | .assignment _ _ _ => true
  | _ => false

/-- The names that strict code may not bind. -/
def isRestricted (name : Text) : Bool := name == "eval".toList || name == "arguments".toList

/-- Whether an expression can be assigned to. -/
def isTarget (strict : Bool) : Expr → Bool
  | mk _ _ (.name name) => !(strict && isRestricted name)
  | mk _ _ (.parenthesized inner) => isTarget strict inner
  | mk _ _ (.typed inner) => isTarget strict inner
  | mk _ _ (.instantiated inner) => isTarget strict inner
  | mk _ _ (.member assignable) => assignable
  | mk _ _ .superMember => true
  | _ => false

/-- Whether a member of an object can be assigned to. A member of an optional chain
cannot. -/
def hasAssignableMembers (object : Expr) : Bool :=
  match object.form with
  | .member assignable => assignable
  | .chain _ => false
  | _ => true

/-- The expression inside parentheses. -/
def withoutParentheses : Expr → Expr
  | mk _ _ (.parenthesized inner) => withoutParentheses inner
  | expr => expr

end Expr

namespace Element

def dots : Element → Option Nat
  | mk dots _ => dots

def expr : Element → Expr
  | mk _ expr => expr

def start (element : Element) : Nat := element.dots.getD element.expr.start

end Element

namespace Property

/-- The nodes that a property gives to the object. -/
def nodes : Property → List Node
  | shorthand span name => [.identifier span name]
  | keyed key value => key ++ [value.node]
  | defaulted _ _ value => [value.node]
  | method _ node => [node]
  | spread _ expr => [expr.node]

end Property

namespace Pattern

def span : Pattern → Span
  | mk span _ _ _ => span

def nodes : Pattern → List Node
  | mk _ nodes _ _ => nodes

def names : Pattern → List (Nat × Text)
  | mk _ _ names _ => names

def shape : Pattern → Shape
  | mk _ _ _ shape => shape

def start (pattern : Pattern) : Nat := pattern.span.start

def ofName (span : Span) (name : Text) : Pattern := mk span [] [(span.start, name)] .name

def ofTarget (expr : Expr) : Pattern := mk expr.span [expr.node] [] (.target expr)

def invalid (span : Span) : Pattern := mk span [] [] .invalid

/-- A pattern with a default value. -/
def withDefault (pattern : Pattern) (span : Span) (value : Expr) : Pattern :=
  mk span (pattern.nodes ++ [value.node]) pattern.names .default

/-- The rest of what is matched. -/
def asRest (pattern : Pattern) (span : Span) : Pattern :=
  mk span pattern.nodes pattern.names .rest

/-- A pattern with the nodes of its type after its own. -/
def withType (pattern : Pattern) (types : List Node) (span : Span) : Pattern :=
  mk span (pattern.nodes ++ types) pattern.names pattern.shape

def isName (pattern : Pattern) : Bool :=
  match pattern.shape with
  | .name => true
  | _ => false

def isRest (pattern : Pattern) : Bool :=
  match pattern.shape with
  | .rest => true
  | _ => false

def isDefault (pattern : Pattern) : Bool :=
  match pattern.shape with
  | .default => true
  | _ => false

/-- The node of the left side of an assignment. Members stand for themselves; of an
expression with a type only what is inside it counts. -/
def targetNode (pattern : Pattern) : Node :=
  match pattern.shape with
  | .target expr =>
    match expr.form with
    | .member _ | .superMember => expr.node
    | .typed _ | .instantiated _ => .pattern expr.span (expr.node.children .children)
    | _ => .pattern expr.span [expr.node]
  | _ => .pattern pattern.span pattern.nodes

end Pattern

end Unawait
