import Unawait.Text.Basic
import Unawait.Text.Span
import Unawait.Tree.Kind

/-!
# Syntax trees

A node has a kind, a span, a few flags, perhaps a name and an operator, and its
slots in order. A slot holds one node, a sequence of nodes, or nothing. A field
may occur in two slots of one node; looking it up takes the first.
-/

namespace Unawait

/-- The flags of a node. -/
structure Flags where
  isAsync : Bool := false
  isGenerator : Bool := false
  isStatic : Bool := false
  /-- A member or key written with brackets. -/
  computed : Bool := false
  /-- The loop is a `for await`. -/
  isAwait : Bool := false
  /-- The update operator stands before its operand. -/
  prefixed : Bool := false
  /-- The `yield` delegates to another generator. -/
  delegate : Bool := false
  /-- The call is made only if there is something to call. -/
  optional : Bool := false
deriving DecidableEq, Inhabited

/-- Everything about a node but its slots. -/
structure Head where
  kind : Kind
  span : Span
  flags : Flags := {}
  /-- The name of an identifier, or of a member that is not computed. -/
  name : Option Text := none
  /-- The operator of an assignment, update, unary or binary expression. -/
  operator : Option Text := none
deriving DecidableEq, Inhabited

mutual

/-- A syntax tree. -/
inductive Node where
  | mk (head : Head) (slots : List Slot)

/-- A field of a node with what stands in it. -/
inductive Slot where
  | leaf (field : Field)
  | one (field : Field) (node : Node)
  | many (field : Field) (nodes : List Node)

end

instance : Inhabited Slot := ⟨.leaf .body⟩

instance : Inhabited Node := ⟨.mk default []⟩

namespace Slot

/-- The field of a slot. -/
def field : Slot → Field
  | leaf field => field
  | one field _ => field
  | many field _ => field

/-- The slot of a field for what may be any number of nodes: nothing, the only
node, or all of them as a sequence. -/
def ofNodes (field : Field) : List Node → Slot
  | [] => leaf field
  | [node] => one field node
  | nodes => many field nodes

end Slot

namespace Node

/-- A node of a kind with the given slots and no attributes. -/
def plain (kind : Kind) (span : Span) (slots : List Slot) : Node := mk { kind, span } slots

def head : Node → Head
  | mk head _ => head

def slots : Node → List Slot
  | mk _ slots => slots

def kind (node : Node) : Kind := node.head.kind

def span (node : Node) : Span := node.head.span

def start (node : Node) : Nat := node.head.span.start

def stop (node : Node) : Nat := node.head.span.stop

def flags (node : Node) : Flags := node.head.flags

def is (node : Node) (kind : Kind) : Bool := node.kind == kind

/-- The first slot of a field. -/
def slot? (node : Node) (field : Field) : Option Slot :=
  node.slots.find? (fun slot => slot.field == field)

/-- The node in a field that holds a single node. -/
def child? (node : Node) (field : Field) : Option Node :=
  match node.slot? field with
  | some (.one _ child) => some child
  | _ => none

/-- The nodes in a field that holds a sequence; none for any other field. -/
def children (node : Node) (field : Field) : List Node :=
  match node.slot? field with
  | some (.many _ nodes) => nodes
  | _ => []

/-- Whether the node's name is the given one. -/
def hasName (node : Node) (name : Text) : Bool := node.head.name == some name

mutual

/-- The number of nodes of a tree. -/
def count : Node → Nat
  | mk _ slots => 1 + countSlots slots

/-- The number of nodes in slots. -/
def countSlots : List Slot → Nat
  | [] => 0
  | slot :: rest => countSlot slot + countSlots rest

/-- The number of nodes in a slot. -/
def countSlot : Slot → Nat
  | .leaf _ => 0
  | .one _ node => count node
  | .many _ nodes => countAll nodes

/-- The number of nodes of several trees. -/
def countAll : List Node → Nat
  | [] => 0
  | node :: rest => count node + countAll rest

end

end Node

end Unawait
