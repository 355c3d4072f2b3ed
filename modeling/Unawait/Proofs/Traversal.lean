import Mathlib
import Unawait.Tree.Walk

/-!
# A walk without its stack

The walk keeps frames on a stack of its own. Here the same visits are given by
recursion over the tree: enter the node, go through its parts in order, leave the
node. The two agree for every visitor, including visitors that fail or skip, and the
number of steps that the walk allows itself is always enough.

The parts of a node are what its slots hold, flattened; a recursion or an induction
over a tree is a recursion or an induction over parts.
-/

namespace Unawait

/-! ### Parts -/

/-- The nodes in a slot, each with the slot's field. -/
def Slot.parts : Slot → List (Field × Node)
  | leaf _ => []
  | one field node => [(field, node)]
  | many field nodes => nodes.map (Prod.mk field)

/-- The nodes directly below a node, in the order in which they are walked. -/
def Node.parts (node : Node) : List (Field × Node) := node.slots.flatMap Slot.parts

namespace Node

theorem count_le_countAll {node : Node} {nodes : List Node} (member : node ∈ nodes) :
    node.count ≤ countAll nodes := by
  induction nodes with
  | nil => simp at member
  | cons first rest ih =>
    rw [countAll]
    rcases List.mem_cons.mp member with rfl | later
    · omega
    · have := ih later
      omega

theorem countSlot_le_countSlots {slot : Slot} {slots : List Slot} (member : slot ∈ slots) :
    countSlot slot ≤ countSlots slots := by
  induction slots with
  | nil => simp at member
  | cons first rest ih =>
    rw [countSlots]
    rcases List.mem_cons.mp member with rfl | later
    · omega
    · have := ih later
      omega

theorem count_le_countSlot {slot : Slot} {part : Field × Node} (member : part ∈ slot.parts) :
    part.2.count ≤ countSlot slot := by
  cases slot with
  | leaf field => simp [Slot.parts] at member
  | one field node =>
    obtain rfl : part = (field, node) := by simpa [Slot.parts] using member
    simp [countSlot]
  | many field nodes =>
    obtain ⟨node, inside, rfl⟩ := List.mem_map.mp member
    simpa [countSlot] using count_le_countAll inside

/-- A part has fewer nodes than the whole. -/
theorem count_lt_of_mem_parts {node : Node} {part : Field × Node} (member : part ∈ node.parts) :
    part.2.count < node.count := by
  obtain ⟨slot, inside, held⟩ := List.mem_flatMap.mp member
  have part_le := count_le_countSlot held
  have slot_le := countSlot_le_countSlots inside
  obtain ⟨head, slots⟩ := node
  rw [count]
  dsimp only [Node.slots] at slot_le
  omega

/-- What follows for a node from the same for its parts holds for every node. -/
theorem parts_induction {motive : Node → Prop}
    (node_of_parts : ∀ node : Node, (∀ part ∈ node.parts, motive part.2) → motive node)
    (node : Node) : motive node := by
  induction size : node.count using Nat.strong_induction_on generalizing node with
  | _ size ih =>
    apply node_of_parts
    intro part member
    exact ih _ (size ▸ count_lt_of_mem_parts member) part.2 rfl

/-! ### Values by recursion over parts -/

section Fold

variable {α : Type} (compose : Node → List ((Field × Node) × α) → α)

mutual

/-- Give every node a value that is made of the node and the values of its parts. -/
def fold : Node → α
  | .mk head slots => compose (.mk head slots) (foldSlots slots)

/-- The values of what is in slots. -/
def foldSlots : List Slot → List ((Field × Node) × α)
  | [] => []
  | slot :: rest => foldSlot slot ++ foldSlots rest

/-- The values of what is in a slot. -/
def foldSlot : Slot → List ((Field × Node) × α)
  | .leaf _ => []
  | .one field node => [((field, node), fold node)]
  | .many field nodes => foldAll field nodes

/-- The values of the nodes of a sequence. -/
def foldAll (field : Field) : List Node → List ((Field × Node) × α)
  | [] => []
  | node :: rest => ((field, node), fold node) :: foldAll field rest

end

theorem foldAll_eq (field : Field) (nodes : List Node) :
    foldAll compose field nodes =
      (nodes.map (Prod.mk field)).map fun part => (part, fold compose part.2) := by
  induction nodes with
  | nil => rfl
  | cons node rest ih => simp [foldAll, ih]

theorem foldSlots_eq (slots : List Slot) :
    foldSlots compose slots =
      (slots.flatMap Slot.parts).map fun part => (part, fold compose part.2) := by
  induction slots with
  | nil => rfl
  | cons slot rest ih =>
    rw [foldSlots, ih, List.flatMap_cons, List.map_append]
    congr 1
    cases slot with
    | leaf field => rfl
    | one field node => rfl
    | many field nodes => rw [foldSlot, foldAll_eq, Slot.parts]

/-- The value of a node is made of the values of its parts. -/
theorem fold_eq (node : Node) :
    fold compose node =
      compose node (node.parts.map fun part => (part, fold compose part.2)) := by
  obtain ⟨head, slots⟩ := node
  rw [fold, foldSlots_eq]
  rfl

end Fold

end Node

namespace Walk

variable {ε σ : Type}

/-! ### Recursion over a tree -/

section Recursion

variable (visitor : Visitor ε σ)

mutual

/-- Visit a tree: enter the root, visit what is in its slots, leave it. -/
def traverse : Node → Parent → EStateM ε σ Unit
  | .mk head slots, parent => do
    match ← visitor.enter (.mk head slots) parent with
    | .descend => do
      traverseSlots (.mk head slots) slots
      visitor.leave (.mk head slots) parent
    | .skip => pure ()

/-- Visit what is in slots. -/
def traverseSlots (owner : Node) : List Slot → EStateM ε σ Unit
  | [] => pure ()
  | slot :: rest => do
    traverseSlot owner slot
    traverseSlots owner rest

/-- Visit what is in a slot. -/
def traverseSlot (owner : Node) : Slot → EStateM ε σ Unit
  | .leaf _ => pure ()
  | .one field node => traverse node (some (owner, field))
  | .many field nodes => traverseAll owner field nodes

/-- Visit the nodes of a sequence. -/
def traverseAll (owner : Node) (field : Field) : List Node → EStateM ε σ Unit
  | [] => pure ()
  | node :: rest => do
    traverse node (some (owner, field))
    traverseAll owner field rest

end

/-- Visit parts one after another. -/
def traverseParts (owner : Node) : List (Field × Node) → EStateM ε σ Unit
  | [] => pure ()
  | (field, node) :: rest => do
    traverse visitor node (some (owner, field))
    traverseParts owner rest

theorem traverseParts_append (owner : Node) (first second : List (Field × Node)) :
    traverseParts visitor owner (first ++ second) = (do
      traverseParts visitor owner first
      traverseParts visitor owner second) := by
  induction first with
  | nil => simp [traverseParts]
  | cons part rest ih => simp [traverseParts, ih]

theorem traverseAll_eq (owner : Node) (field : Field) (nodes : List Node) :
    traverseAll visitor owner field nodes =
      traverseParts visitor owner (nodes.map (Prod.mk field)) := by
  induction nodes with
  | nil => rfl
  | cons node rest ih => simp [traverseAll, traverseParts, ih]

theorem traverseSlots_eq (owner : Node) (slots : List Slot) :
    traverseSlots visitor owner slots =
      traverseParts visitor owner (slots.flatMap Slot.parts) := by
  induction slots with
  | nil => rfl
  | cons slot rest ih =>
    rw [traverseSlots, ih, List.flatMap_cons, traverseParts_append]
    cases slot with
    | leaf field => simp [traverseSlot, Slot.parts, traverseParts]
    | one field node => simp [traverseSlot, Slot.parts, traverseParts]
    | many field nodes => rw [traverseSlot, traverseAll_eq, Slot.parts]

/-- A visit goes through the parts of a node between entering and leaving it. -/
theorem traverse_eq (node : Node) (parent : Parent) :
    traverse visitor node parent = (do
      match ← visitor.enter node parent with
      | .descend => do
        traverseParts visitor node node.parts
        visitor.leave node parent
      | .skip => pure ()) := by
  obtain ⟨head, slots⟩ := node
  rw [traverse, traverseSlots_eq]
  rfl

end Recursion

/-! ### The stack -/

/-- What is left to do for a stack of frames. -/
def unwind (visitor : Visitor ε σ) : List Frame → EStateM ε σ Unit
  | [] => pure ()
  | .node node parent remaining :: rest => do
    traverseSlots visitor node remaining
    visitor.leave node parent
    unwind visitor rest
  | .sequence owner field remaining :: rest => do
    traverseAll visitor owner field remaining
    unwind visitor rest

/-- The number of steps for a frame. -/
def stepsOfFrame : Frame → Nat
  | .node _ _ remaining => 1 + stepsOfSlots remaining
  | .sequence _ _ remaining => 1 + stepsOfAll remaining

/-- The number of steps for a stack. -/
def stepsOfStack (stack : List Frame) : Nat := (stack.map stepsOfFrame).sum

@[simp] theorem stepsOfStack_nil : stepsOfStack [] = 0 := rfl

@[simp] theorem stepsOfStack_cons (frame : Frame) (stack : List Frame) :
    stepsOfStack (frame :: stack) = stepsOfFrame frame + stepsOfStack stack := by
  simp [stepsOfStack]

theorem stepsOfFrame_node (node : Node) (parent : Parent) :
    stepsOfFrame (.node node parent node.slots) = stepsOf node := by
  obtain ⟨head, slots⟩ := node
  rfl

/-- Entering a node and going on is visiting the node and going on. -/
theorem enter_unwind (visitor : Visitor ε σ) (node : Node) (parent : Parent)
    (stack : List Frame) :
    (enter visitor node parent stack >>= unwind visitor) = (do
      traverse visitor node parent
      unwind visitor stack) := by
  rw [enter, traverse_eq, bind_assoc, bind_assoc]
  congr 1
  funext visit
  cases visit with
  | descend => simp [unwind, traverseSlots_eq, Node.parts]
  | skip => simp

/-- A step of the top frame leaves the rest of the work as it was. -/
theorem step_unwind (visitor : Visitor ε σ) (frame : Frame) (stack : List Frame) :
    (step visitor frame stack >>= unwind visitor) = unwind visitor (frame :: stack) := by
  cases frame with
  | node node parent remaining =>
    cases remaining with
    | nil => simp [step, unwind, traverseSlots]
    | cons slot rest =>
      cases slot with
      | leaf field => simp [step, unwind, traverseSlots, traverseSlot]
      | one field child => simp [step, enter_unwind, unwind, traverseSlots, traverseSlot]
      | many field nodes => simp [step, unwind, traverseSlots, traverseSlot]
  | sequence owner field remaining =>
    cases remaining with
    | nil => simp [step, unwind, traverseAll]
    | cons child rest => simp [step, enter_unwind, unwind, traverseAll]

/-- A node that was entered is on the stack with all its steps, or it was skipped. -/
theorem enter_eq_ok {visitor : Visitor ε σ} {node : Node} {parent : Parent}
    {stack next : List Frame} {state after : σ}
    (entered : enter visitor node parent stack state = .ok next after) :
    (visitor.enter node parent state = .ok .descend after ∧
        next = .node node parent node.slots :: stack) ∨
      (visitor.enter node parent state = .ok .skip after ∧ next = stack) := by
  simp only [enter, bind, EStateM.bind] at entered
  cases visited : visitor.enter node parent state with
  | error failure stopped => simp [visited] at entered
  | ok visit later =>
    cases visit with
    | descend =>
      left
      simp only [visited, pure, EStateM.pure, EStateM.Result.ok.injEq] at entered
      exact ⟨by rw [entered.2], entered.1.symm⟩
    | skip =>
      right
      simp only [visited, pure, EStateM.pure, EStateM.Result.ok.injEq] at entered
      exact ⟨by rw [entered.2], entered.1.symm⟩

theorem enter_steps {visitor : Visitor ε σ} {node : Node} {parent : Parent}
    {stack next : List Frame} {state after : σ}
    (entered : enter visitor node parent stack state = .ok next after) :
    stepsOfStack next ≤ stepsOf node + stepsOfStack stack := by
  rcases enter_eq_ok entered with ⟨-, rfl⟩ | ⟨-, rfl⟩
  · rw [stepsOfStack_cons, stepsOfFrame_node]
  · omega

/-- What a step of the top frame can do: leave a node without further slots, pass over an empty
slot, enter the node in a slot, begin a sequence, end it, or enter the next node of it. -/
inductive Advances (visitor : Visitor ε σ) : Frame → List Frame → σ → List Frame → σ → Prop
  | leave {node : Node} {parent : Parent} {stack : List Frame} {state after : σ}
      (left : visitor.leave node parent state = .ok () after) :
      Advances visitor (.node node parent []) stack state stack after
  | leaf {node : Node} {parent : Parent} {field : Field} {rest : List Slot} {stack : List Frame}
      {state : σ} :
      Advances visitor (.node node parent (.leaf field :: rest)) stack state
        (.node node parent rest :: stack) state
  | one {node child : Node} {parent : Parent} {field : Field} {rest : List Slot}
      {stack next : List Frame} {state after : σ}
      (entered : enter visitor child (some (node, field)) (.node node parent rest :: stack) state =
        .ok next after) :
      Advances visitor (.node node parent (.one field child :: rest)) stack state next after
  | many {node : Node} {parent : Parent} {field : Field} {nodes : List Node} {rest : List Slot}
      {stack : List Frame} {state : σ} :
      Advances visitor (.node node parent (.many field nodes :: rest)) stack state
        (.sequence node field nodes :: .node node parent rest :: stack) state
  | done {owner : Node} {field : Field} {stack : List Frame} {state : σ} :
      Advances visitor (.sequence owner field []) stack state stack state
  | item {owner child : Node} {field : Field} {others : List Node} {stack next : List Frame}
      {state after : σ}
      (entered : enter visitor child (some (owner, field)) (.sequence owner field others :: stack)
        state = .ok next after) :
      Advances visitor (.sequence owner field (child :: others)) stack state next after

theorem advances_of_step {visitor : Visitor ε σ} {frame : Frame} {stack next : List Frame}
    {state after : σ} (stepped : step visitor frame stack state = .ok next after) :
    Advances visitor frame stack state next after := by
  cases frame with
  | node node parent remaining =>
    cases remaining with
    | nil =>
      simp only [step, bind, EStateM.bind] at stepped
      cases left : visitor.leave node parent state with
      | error failure stopped => simp [left] at stepped
      | ok value later =>
        rw [left] at stepped
        obtain ⟨rfl, rfl⟩ := EStateM.Result.ok.inj stepped
        exact .leave left
    | cons slot rest =>
      cases slot with
      | leaf field =>
        obtain ⟨rfl, rfl⟩ := EStateM.Result.ok.inj stepped
        exact .leaf
      | one field child => exact .one stepped
      | many field nodes =>
        obtain ⟨rfl, rfl⟩ := EStateM.Result.ok.inj stepped
        exact .many
  | sequence owner field remaining =>
    cases remaining with
    | nil =>
      obtain ⟨rfl, rfl⟩ := EStateM.Result.ok.inj stepped
      exact .done
    | cons child others => exact .item stepped

/-- Every step brings the end nearer. -/
theorem step_steps {visitor : Visitor ε σ} {frame : Frame} {stack next : List Frame}
    {state after : σ} (stepped : step visitor frame stack state = .ok next after) :
    stepsOfStack next < stepsOfStack (frame :: stack) := by
  rw [stepsOfStack_cons]
  cases advances_of_step stepped with
  | leave left =>
    rw [stepsOfFrame]
    omega
  | leaf =>
    simp only [stepsOfStack_cons, stepsOfFrame, stepsOfSlots, stepsOfSlot]
    omega
  | one entered =>
    have bound := enter_steps entered
    simp only [stepsOfStack_cons, stepsOfFrame] at bound
    simp only [stepsOfFrame, stepsOfSlots, stepsOfSlot]
    omega
  | many =>
    simp only [stepsOfStack_cons, stepsOfFrame, stepsOfSlots, stepsOfSlot]
    omega
  | done =>
    rw [stepsOfFrame]
    omega
  | item entered =>
    have bound := enter_steps entered
    simp only [stepsOfStack_cons, stepsOfFrame] at bound
    simp only [stepsOfFrame, stepsOfAll]
    omega

/-- With enough steps the stack is worked off. -/
theorem run_eq_unwind (visitor : Visitor ε σ) (steps : Nat) (stack : List Frame) (state : σ)
    (enough : stepsOfStack stack ≤ steps) :
    run visitor steps stack state = unwind visitor stack state := by
  induction steps generalizing stack state with
  | zero =>
    cases stack with
    | nil => rfl
    | cons frame rest =>
      rw [stepsOfStack_cons] at enough
      cases frame <;> simp only [stepsOfFrame] at enough <;> omega
  | succ steps ih =>
    cases stack with
    | nil => rfl
    | cons frame rest =>
      rw [← step_unwind, run]
      simp only [bind, EStateM.bind]
      cases stepped : step visitor frame rest state with
      | error failure stopped => rfl
      | ok next after =>
        have := step_steps stepped
        exact ih next after (by omega)

/-- The walk of a tree visits it. -/
theorem walk_eq_traverse_apply (visitor : Visitor ε σ) (root : Node) (state : σ) :
    walk visitor root state = traverse visitor root none state := by
  have visited : traverse visitor root none =
      enter visitor root none [] >>= unwind visitor := by
    rw [enter_unwind]
    simp [unwind]
  rw [visited, walk]
  simp only [bind, EStateM.bind]
  cases entered : enter visitor root none [] state with
  | error failure stopped => rfl
  | ok next after =>
    have bound := enter_steps entered
    rw [stepsOfStack_nil] at bound
    exact run_eq_unwind visitor _ next after (by omega)

end Walk

end Unawait
