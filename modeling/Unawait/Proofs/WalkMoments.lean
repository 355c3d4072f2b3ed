import Mathlib
import Unawait.Proofs.Traversal

/-!
# Every moment of a walk

The walk with its stack of frames and the recursion over the tree agree for every
visitor, in the result and in the state that is left. The bound on the steps never
ends a walk, and a visitor that neither fails nor skips is called twice for every node.

They also agree on the way. Whenever the walk holds a stack of frames, the recursion
could be stopped at the same place: every node on the stack was entered, and the slots
of it that are no longer on the stack were visited by the recursion. So what the
recursion says about the slots of a node holds at the moment in which the node is left.
-/

namespace Unawait

theorem Node.countAll_eq (nodes : List Node) : Node.countAll nodes = (nodes.map Node.count).sum := by
  induction nodes with
  | nil => rfl
  | cons node rest ih => simp [Node.countAll, ih]

/-- A tree has its root and the nodes of its parts. -/
theorem Node.count_eq (node : Node) :
    node.count = 1 + (node.parts.map fun part => part.2.count).sum := by
  obtain ⟨head, slots⟩ := node
  rw [Node.count, Node.parts]
  congr 1
  dsimp only [Node.slots]
  induction slots with
  | nil => rfl
  | cons slot rest ih =>
    rw [Node.countSlots, ih, List.flatMap_cons, List.map_append, List.sum_append]
    congr 1
    cases slot with
    | leaf field => rfl
    | one field node => simp [Node.countSlot, Slot.parts]
    | many field nodes =>
      rw [Node.countSlot, Node.countAll_eq, Slot.parts, List.map_map]
      rfl

namespace Walk

variable {ε σ : Type}

/-! ### Counting the calls of a visitor -/

/-- A visitor that never fails and never skips a node. -/
structure Visitor.Thorough (visitor : Visitor ε σ) : Prop where
  enters : ∀ node parent state, ∃ next, visitor.enter node parent state = .ok .descend next
  leaves : ∀ node parent state, ∃ next, visitor.leave node parent state = .ok () next

/-- How often a visitor was called. -/
structure Calls where
  entered : Nat := 0
  left : Nat := 0

/-- Run a step on the first part of a state and change the second part. -/
def alongside {τ α : Type} (step : EStateM ε σ α) (change : τ → τ) : EStateM ε (σ × τ) α :=
  fun state => match step state.1 with
    | .ok value next => .ok value (next, change state.2)
    | .error failure next => .error failure (next, change state.2)

/-- A visitor that also counts how often it is called. -/
def Visitor.counting (visitor : Visitor ε σ) : Visitor ε (σ × Calls) where
  enter node parent :=
    alongside (visitor.enter node parent) fun calls => { calls with entered := calls.entered + 1 }
  leave node parent :=
    alongside (visitor.leave node parent) fun calls => { calls with left := calls.left + 1 }

/-- After a step that succeeds the next one goes on from its state. -/
theorem bind_of_ok {α β : Type} {step : EStateM ε σ α} {state after : σ} {value : α}
    (next : α → EStateM ε σ β) (done : step state = .ok value after) :
    (step >>= next) state = next value after := by
  simp only [bind, EStateM.bind, done]

/-- Steps that succeed one after the other succeed one by one. -/
theorem bind_eq_ok {α β : Type} {step : EStateM ε σ α} {next : α → EStateM ε σ β}
    {state after : σ} {value : β} (done : (step >>= next) state = .ok value after) :
    ∃ first middle, step state = .ok first middle ∧ next first middle = .ok value after := by
  simp only [bind, EStateM.bind] at done
  cases stepped : step state with
  | error failure stopped => simp [stepped] at done
  | ok first middle =>
    rw [stepped] at done
    exact ⟨first, middle, rfl, done⟩

theorem alongside_of_ok {τ α : Type} {step : EStateM ε σ α} {state next : σ} {value : α}
    (change : τ → τ) (other : τ) (done : step state = .ok value next) :
    alongside step change (state, other) = .ok value (next, change other) := by
  simp only [alongside, done]

section Counting

variable {visitor : Visitor ε σ}

/-- A visit of a node that enters and leaves it and visits its parts in between. -/
theorem traverse_of_ok {node : Node} {parent : Parent} {state first second third : σ}
    (entered : visitor.enter node parent state = .ok .descend first)
    (visited : traverseParts visitor node node.parts first = .ok () second)
    (left : visitor.leave node parent second = .ok () third) :
    traverse visitor node parent state = .ok () third := by
  rw [traverse_eq, bind_of_ok _ entered]
  dsimp only
  rw [bind_of_ok _ visited, left]

/-- A thorough visitor is called for every node of the parts, if it is for each part. -/
theorem traverseParts_counting (owner : Node) {parts : List (Field × Node)}
    (counts : ∀ part ∈ parts, ∀ parent state calls, ∃ next,
      traverse visitor part.2 parent state = .ok () next ∧
        traverse visitor.counting part.2 parent (state, calls) =
          .ok () (next, ⟨calls.entered + part.2.count, calls.left + part.2.count⟩))
    (state : σ) (calls : Calls) :
    ∃ next, traverseParts visitor owner parts state = .ok () next ∧
      traverseParts visitor.counting owner parts (state, calls) =
        .ok () (next, ⟨calls.entered + (parts.map fun part => part.2.count).sum,
          calls.left + (parts.map fun part => part.2.count).sum⟩) := by
  induction parts generalizing state calls with
  | nil => exact ⟨state, rfl, rfl⟩
  | cons part rest ih =>
    obtain ⟨middle, plain, counted⟩ := counts part (by simp) (some (owner, part.1)) state calls
    obtain ⟨next, plainRest, countedRest⟩ := ih (fun other member => counts other (by simp [member]))
      middle ⟨calls.entered + part.2.count, calls.left + part.2.count⟩
    refine ⟨next, ?_, ?_⟩
    · rw [traverseParts, bind_of_ok _ plain, plainRest]
    · rw [traverseParts, bind_of_ok _ counted, countedRest]
      simp [Nat.add_assoc]

/-- A thorough visitor enters and leaves every node once. -/
theorem traverse_counting (thorough : visitor.Thorough) (node : Node) (parent : Parent) (state : σ)
    (calls : Calls) :
    ∃ next, traverse visitor node parent state = .ok () next ∧
      traverse visitor.counting node parent (state, calls) =
        .ok () (next, ⟨calls.entered + node.count, calls.left + node.count⟩) := by
  induction node using Node.parts_induction generalizing parent state calls with
  | _ node ih =>
    obtain ⟨first, entered⟩ := thorough.enters node parent state
    obtain ⟨second, visited, counted⟩ := traverseParts_counting node ih first
      ⟨calls.entered + 1, calls.left⟩
    obtain ⟨third, left⟩ := thorough.leaves node parent second
    have entersBoth : visitor.counting.enter node parent (state, calls) =
        .ok .descend (first, ⟨calls.entered + 1, calls.left⟩) := by
      simp only [Visitor.counting]
      exact alongside_of_ok _ calls entered
    have leavesBoth (calls : Calls) : visitor.counting.leave node parent (second, calls) =
        .ok () (third, ⟨calls.entered, calls.left + 1⟩) := by
      simp only [Visitor.counting]
      exact alongside_of_ok _ calls left
    refine ⟨third, traverse_of_ok entered visited left, ?_⟩
    rw [traverse_of_ok entersBoth counted (leavesBoth _), node.count_eq]
    simp [Nat.add_assoc, Nat.add_comm, Nat.add_left_comm]

end Counting

/-- The walk with its stack is the recursion over the tree, for every visitor, from every
state: it ends in the same way and leaves the same state. It ends of itself, since more
steps change nothing, and a visitor that neither fails nor skips enters and leaves as many
nodes as the tree has. -/
theorem walk_eq_traverse (visitor : Visitor ε σ) (root : Node) (state : σ) :
    walk visitor root state = traverse visitor root none state ∧
      (∀ stack after, enter visitor root none [] state = .ok stack after →
        ∀ steps, stepsOf root + 1 ≤ steps →
          run visitor steps stack after = run visitor (stepsOf root + 1) stack after) ∧
      (visitor.Thorough → ∃ final, walk visitor root state = .ok () final ∧
        walk visitor.counting root (state, {}) = .ok () (final, ⟨root.count, root.count⟩)) := by
  refine ⟨walk_eq_traverse_apply visitor root state, ?_, ?_⟩
  · intro stack after entered steps enough
    have bound := enter_steps entered
    rw [stepsOfStack_nil] at bound
    rw [run_eq_unwind visitor steps stack after (by omega),
      run_eq_unwind visitor _ stack after (by omega)]
  · intro thorough
    obtain ⟨final, plain, counted⟩ := traverse_counting thorough root none state {}
    refine ⟨final, ?_, ?_⟩
    · rw [walk_eq_traverse_apply, plain]
    · rw [walk_eq_traverse_apply, counted]
      simp

/-- A visitor that notes where nodes start and stop, in the order of its calls. -/
def recorder : Visitor Unit (List Nat) where
  enter node _ := do
    modify (· ++ [node.start])
    pure .descend
  leave node _ := modify (· ++ [node.stop])

theorem recorder_thorough : recorder.Thorough :=
  ⟨fun node _ state => ⟨state ++ [node.start], rfl⟩, fun node _ state => ⟨state ++ [node.stop], rfl⟩⟩

/-- The tree of `f(a, b)`, with an empty slot between callee and arguments. -/
def recordedCall : Node :=
  .plain .callExpression ⟨0, 7⟩
    [.one .callee (.plain .identifier ⟨0, 1⟩ []), .leaf .typeArguments,
      .many .arguments [.plain .identifier ⟨2, 3⟩ [], .plain .identifier ⟨5, 6⟩ []]]

theorem walk_eq_traverse_recorder :
    recorder.Thorough ∧
      walk recorder recordedCall [] = .ok () [0, 0, 1, 2, 3, 5, 6, 7] ∧
      walk recorder.counting recordedCall ([], {}) =
        .ok () ([0, 0, 1, 2, 3, 5, 6, 7], ⟨4, 4⟩) := by
  refine ⟨recorder_thorough, rfl, ?_⟩
  obtain ⟨final, walked, counted⟩ :=
    (walk_eq_traverse recorder recordedCall []).2.2 recorder_thorough
  obtain rfl : [0, 0, 1, 2, 3, 5, 6, 7] = final := (EStateM.Result.ok.inj walked).2
  exact counted

/-! ### The recursion at a moment of the walk -/

theorem enter_of_ok (visitor : Visitor ε σ) {node : Node} {parent : Parent} {state first : σ}
    (stack : List Frame) (entered : visitor.enter node parent state = .ok .descend first) :
    enter visitor node parent stack state = .ok (.node node parent node.slots :: stack) first := by
  rw [enter, bind_of_ok _ entered]
  rfl

section Moments

variable {visitor : Visitor ε σ}

theorem traverseSlots_concat (owner : Node) (done : List Slot) (slot : Slot) :
    traverseSlots visitor owner (done ++ [slot]) = (do
      traverseSlots visitor owner done
      traverseSlot visitor owner slot) := by
  induction done with
  | nil => simp [traverseSlots]
  | cons first rest ih => simp [traverseSlots, ih]

theorem traverseAll_concat (owner : Node) (field : Field) (done : List Node) (node : Node) :
    traverseAll visitor owner field (done ++ [node]) = (do
      traverseAll visitor owner field done
      traverse visitor node (some (owner, field))) := by
  induction done with
  | nil => simp [traverseAll]
  | cons first rest ih => simp [traverseAll, ih]

/-- A node was entered in a state, and its slots up to the remaining ones were visited. -/
def Begun (visitor : Visitor ε σ) (node : Node) (parent : Parent) (before : σ)
    (remaining : List Slot) (state : σ) : Prop :=
  ∃ first done, visitor.enter node parent before = .ok .descend first ∧
    node.slots = done ++ remaining ∧ traverseSlots visitor node done first = .ok () state

theorem Begun.of_enter {node : Node} {parent : Parent} {before first : σ}
    (entered : visitor.enter node parent before = .ok .descend first) :
    Begun visitor node parent before node.slots first :=
  ⟨first, [], entered, rfl, rfl⟩

theorem Begun.next {node : Node} {parent : Parent} {before state after : σ} {slot : Slot}
    {remaining : List Slot} (begun : Begun visitor node parent before (slot :: remaining) state)
    (visited : traverseSlot visitor node slot state = .ok () after) :
    Begun visitor node parent before remaining after := by
  obtain ⟨first, done, entered, split, earlier⟩ := begun
  refine ⟨first, done ++ [slot], entered, by simp [split], ?_⟩
  rw [traverseSlots_concat, bind_of_ok _ earlier, visited]

/-- A node that was begun and has no slots left was visited once it is left. -/
theorem Begun.traverse {node : Node} {parent : Parent} {before state after : σ}
    (begun : Begun visitor node parent before [] state)
    (left : visitor.leave node parent state = .ok () after) :
    traverse visitor node parent before = .ok () after := by
  obtain ⟨first, done, entered, split, visited⟩ := begun
  rw [List.append_nil] at split
  subst split
  rw [traverseSlots_eq] at visited
  exact traverse_of_ok entered visited left

/-- The recursion stopped where the walk of a tree has reached a stack. The slot or the
node that a frame is at was begun in the state in which the frame below was. -/
inductive Ongoing (visitor : Visitor ε σ) (root : Node) (start : σ) : List Frame → σ → Prop
  | root {remaining : List Slot} {state : σ}
      (begun : Begun visitor root none start remaining state) :
      Ongoing visitor root start [.node root none remaining] state
  | one {owner child : Node} {parent : Parent} {field : Field} {remaining rest : List Slot}
      {stack : List Frame} {before state : σ}
      (below : Ongoing visitor root start
        (.node owner parent (.one field child :: remaining) :: stack) before)
      (begun : Begun visitor child (some (owner, field)) before rest state) :
      Ongoing visitor root start
        (.node child (some (owner, field)) rest :: .node owner parent remaining :: stack) state
  | many {owner : Node} {parent : Parent} {field : Field} {remaining : List Slot}
      {done rest : List Node} {stack : List Frame} {before state : σ}
      (below : Ongoing visitor root start
        (.node owner parent (.many field (done ++ rest) :: remaining) :: stack) before)
      (visited : traverseAll visitor owner field done before = .ok () state) :
      Ongoing visitor root start
        (.sequence owner field rest :: .node owner parent remaining :: stack) state
  | item {owner child : Node} {field : Field} {others : List Node} {rest : List Slot}
      {stack : List Frame} {before state : σ}
      (below : Ongoing visitor root start (.sequence owner field (child :: others) :: stack) before)
      (begun : Begun visitor child (some (owner, field)) before rest state) :
      Ongoing visitor root start
        (.node child (some (owner, field)) rest :: .sequence owner field others :: stack) state

namespace Ongoing

variable {root : Node} {start state after : σ} {stack : List Frame}

theorem next_slot {node : Node} {parent : Parent} {slot : Slot} {remaining : List Slot}
    (ongoing : Ongoing visitor root start (.node node parent (slot :: remaining) :: stack) state)
    (visited : traverseSlot visitor node slot state = .ok () after) :
    Ongoing visitor root start (.node node parent remaining :: stack) after := by
  cases ongoing with
  | root begun => exact .root (begun.next visited)
  | one below begun => exact .one below (begun.next visited)
  | item below begun => exact .item below (begun.next visited)

theorem next_item {owner child : Node} {field : Field} {others : List Node}
    (ongoing : Ongoing visitor root start (.sequence owner field (child :: others) :: stack) state)
    (visited : traverse visitor child (some (owner, field)) state = .ok () after) :
    Ongoing visitor root start (.sequence owner field others :: stack) after := by
  cases ongoing with
  | @many _ _ _ remaining done _ _ before _ below earlier =>
    have longer : traverseAll visitor owner field (done ++ [child]) before = .ok () after := by
      rw [traverseAll_concat, bind_of_ok _ earlier, visited]
    rw [List.append_cons] at below
    exact .many below longer

/-- A node whose visit succeeds is skipped, or it is on top of the stack. -/
theorem traverse_of_skip {node : Node} {parent : Parent}
    (entered : visitor.enter node parent state = .ok .skip after) :
    traverse visitor node parent state = .ok () after := by
  rw [traverse_eq, bind_of_ok _ entered]
  rfl

/-- Leaving the node on top of the stack goes on with the frame below. -/
theorem of_leave {node : Node} {parent : Parent}
    (ongoing : Ongoing visitor root start (.node node parent [] :: stack) state)
    (left : visitor.leave node parent state = .ok () after) :
    stack = [] ∨ Ongoing visitor root start stack after := by
  cases ongoing with
  | root begun => exact .inl rfl
  | one below begun =>
    have visited := begun.traverse left
    exact .inr (below.next_slot (by rw [traverseSlot]; exact visited))
  | item below begun => exact .inr (below.next_item (begun.traverse left))

/-- The recursion can be stopped at every step of the walk. -/
theorem of_step {frame : Frame} {next : List Frame}
    (ongoing : Ongoing visitor root start (frame :: stack) state)
    (stepped : step visitor frame stack state = .ok next after) :
    next = [] ∨ Ongoing visitor root start next after := by
  cases advances_of_step stepped with
  | leave left => exact ongoing.of_leave left
  | leaf => exact .inr (ongoing.next_slot rfl)
  | one entered =>
    rcases enter_eq_ok entered with ⟨visited, rfl⟩ | ⟨skipped, rfl⟩
    · exact .inr (.one ongoing (.of_enter visited))
    · exact .inr (ongoing.next_slot (by rw [traverseSlot]; exact traverse_of_skip skipped))
  | @many node parent field nodes rest =>
    have none : traverseAll visitor node field [] state = .ok () state := rfl
    rw [← List.nil_append nodes] at ongoing
    exact .inr (.many ongoing none)
  | done =>
    cases ongoing with
    | many below visited =>
      rw [List.append_nil] at below
      exact .inr (below.next_slot (by rw [traverseSlot]; exact visited))
  | item entered =>
    rcases enter_eq_ok entered with ⟨visited, rfl⟩ | ⟨skipped, rfl⟩
    · exact .inr (.item ongoing (.of_enter visited))
    · exact .inr (ongoing.next_item (traverse_of_skip skipped))

end Ongoing

end Moments

end Walk

end Unawait
