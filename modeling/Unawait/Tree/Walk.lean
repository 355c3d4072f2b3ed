import Unawait.Tree.Node

/-!
# Walking a tree

A walk enters a node, walks what is in its slots in order, and leaves the node.
Trees may be arbitrarily deep, so the walk keeps its own stack of frames: a frame
is a node with the slots that are still to be walked, or a sequence of nodes of
which some are left. The visitor's first failure ends the walk; its state then
is the state at that moment.
-/

namespace Unawait.Walk

variable {ε σ : Type}

/-- What to do after a node was entered. -/
inductive Visit where
  /-- Walk the slots of the node and leave it. -/
  | descend
  /-- Neither walk the slots nor leave the node. -/
  | skip
deriving DecidableEq

/-- The slot through which a node was reached; the root has none. -/
abbrev Parent := Option (Node × Field)

/-- What a walk does at each node. The state is threaded through all steps and
survives a failure. -/
structure Visitor (ε σ : Type) where
  enter : Node → Parent → EStateM ε σ Visit
  leave : Node → Parent → EStateM ε σ Unit

/-- A node or a sequence that is being walked. -/
inductive Frame where
  | node (node : Node) (parent : Parent) (remaining : List Slot)
  | sequence (owner : Node) (field : Field) (remaining : List Node)

/-- Enter a node, and put it on the stack if it is to be walked. -/
def enter (visitor : Visitor ε σ) (node : Node) (parent : Parent) (stack : List Frame) :
    EStateM ε σ (List Frame) := do
  match ← visitor.enter node parent with
  | .descend => pure (.node node parent node.slots :: stack)
  | .skip => pure stack

/-- One step of the top frame. -/
def step (visitor : Visitor ε σ) : Frame → List Frame → EStateM ε σ (List Frame)
  | .node node parent [], stack => do
    visitor.leave node parent
    pure stack
  | .node node parent (.leaf _ :: remaining), stack =>
    pure (.node node parent remaining :: stack)
  | .node node parent (.one field child :: remaining), stack =>
    enter visitor child (some (node, field)) (.node node parent remaining :: stack)
  | .node node parent (.many field nodes :: remaining), stack =>
    pure (.sequence node field nodes :: .node node parent remaining :: stack)
  | .sequence _ _ [], stack => pure stack
  | .sequence owner field (child :: remaining), stack =>
    enter visitor child (some (owner, field)) (.sequence owner field remaining :: stack)

/-- Step until the stack is empty. The first argument bounds the steps. -/
def run (visitor : Visitor ε σ) : Nat → List Frame → EStateM ε σ Unit
  | 0, _ => pure ()
  | _ + 1, [] => pure ()
  | steps + 1, frame :: stack => do
    run visitor steps (← step visitor frame stack)

mutual

/-- The number of steps that a walk of a tree takes once its root was entered. -/
def stepsOf : Node → Nat
  | .mk _ slots => 1 + stepsOfSlots slots

/-- The number of steps for slots. -/
def stepsOfSlots : List Slot → Nat
  | [] => 0
  | slot :: rest => stepsOfSlot slot + stepsOfSlots rest

/-- The number of steps for one slot, the step that takes it included. -/
def stepsOfSlot : Slot → Nat
  | .leaf _ => 1
  | .one _ node => 1 + stepsOf node
  | .many _ nodes => 2 + stepsOfAll nodes

/-- The number of steps for the nodes of a sequence. -/
def stepsOfAll : List Node → Nat
  | [] => 0
  | node :: rest => 1 + stepsOf node + stepsOfAll rest

end

/-- Walk a tree from its root. -/
def walk (visitor : Visitor ε σ) (root : Node) : EStateM ε σ Unit := do
  run visitor (stepsOf root + 1) (← enter visitor root none [])

end Unawait.Walk
