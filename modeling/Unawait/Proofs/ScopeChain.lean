import Mathlib
import Unawait.Proofs.RuleEffects
import Unawait.Proofs.Traversal

/-!
# The scope in which a node is evaluated

Where a node is evaluated can be read off the slots that lead to it from the root. A
part of a construct with a record of its own belongs to that record, except computed
keys, decorators and the parameters of an arrow; these belong to wherever the
construct itself belongs. What is left over belongs to the program.

A ledger keeps one record for each construct around a place and knows nothing of
stacks: a construct gets its record when it is entered, and what a node takes is
charged to the record of the node's scope. The records that the walk holds are shown
to be an arrangement of the ledger at every moment of a walk, on every tree: the
records of the scopes around the node are on the stack, the innermost one on top, and
the records of the constructs that the node stands in but is not evaluated in are put
aside.
-/

namespace Unawait.Lowering

/-! ### Scopes read off the tree -/

/-- The slots that lead from a node up to the root, the innermost one first. -/
abbrev Trail := List (Node × Field)

/-- Slots lead from the root to a node when every one of them holds the next node. -/
inductive Leads (root : Node) : Trail → Node → Prop
  | root : Leads root [] root
  | part {trail : Trail} {owner child : Node} {field : Field} (above : Leads root trail owner)
      (held : (field, child) ∈ owner.parts) : Leads root ((owner, field) :: trail) child

/-- Whether the node in a slot belongs to the record of the slot's owner. -/
def belongs (slot : Node × Field) : Bool :=
  slot.1.opensScope && slot.2 != .key && slot.2 != .decorators
    && !(slot.1.is .arrowFunctionExpression && slot.2 == .params)

/-- The constructs around a node in whose records it is evaluated, the innermost one
first. The program is not among them. -/
def scopeChain (trail : Trail) : Trail := trail.filter belongs

/-- The slots from the one that belongs to the innermost scope on; none if that is the
program. -/
def home (trail : Trail) : Trail := trail.dropWhile fun slot => !belongs slot

/-- Whether a node lies under the parameters of its innermost scope. -/
def underParams (trail : Trail) : Bool := (home trail).head?.any fun slot => slot.2 == .params

theorem home_length_le (trail : Trail) : (home trail).length ≤ trail.length :=
  (List.dropWhile_sublist _).length_le

theorem home_of_belongs {slot : Node × Field} (trail : Trail) (own : belongs slot = true) :
    home (slot :: trail) = slot :: trail := by
  simp [home, own]

theorem home_of_not_belongs {slot : Node × Field} (trail : Trail) (other : belongs slot = false) :
    home (slot :: trail) = home trail := by
  simp [home, other]

theorem underParams_of_belongs {slot : Node × Field} (trail : Trail) (own : belongs slot = true) :
    underParams (slot :: trail) = (slot.2 == .params) := by
  simp [underParams, home_of_belongs trail own]

theorem underParams_of_not_belongs {slot : Node × Field} (trail : Trail)
    (other : belongs slot = false) : underParams (slot :: trail) = underParams trail := by
  simp [underParams, home_of_not_belongs trail other]

/-- The slots of which the walk puts the owner's record aside. -/
theorem evaluatedOutside_eq (owner : Node) (field : Field) :
    evaluatedOutside (some (owner, field)) = (owner.opensScope && !belongs (owner, field)) := by
  cases field <;> simp [evaluatedOutside, belongs]
  cases owner.opensScope <;> simp

theorem isOwnParameter_eq (owner : Node) (field : Field) :
    isOwnParameter (some (owner, field)) =
      (owner.opensScope && belongs (owner, field) && field == .params) := by
  cases field <;> simp [isOwnParameter, belongs]
  cases owned : owner.kind.ownsReceiver <;> simp [Node.opensScope, owned, Node.is]
  · intro arrow
    simp [arrow]
  · cases kind : owner.kind <;> simp_all [Kind.ownsReceiver]

theorem opensScope_of_belongs {slot : Node × Field} (own : belongs slot = true) :
    slot.1.opensScope = true := by
  simp only [belongs, Bool.and_eq_true] at own
  exact own.1.1.1

/-! ### Ledgers -/

/-- The records of the constructs around a place. A construct is known by the number of
slots that lead from its parts to the root; the program has the number 0. -/
abbrev Ledger := Nat → Scope

/-- What entering a node charges to the record of its scope. -/
def captured (node : Node) : Scope :=
  match node.kind with
  | .thisExpression => { usesThis := true }
  | .identifier => if node.hasName "arguments".toList then { usesArguments := true } else {}
  | _ => {}

namespace Ledger

/-- No one has taken anything. -/
def blank : Ledger := fun _ => {}

/-- Charge what was taken to one record. -/
def charge (ledger : Ledger) (construct : Nat) (taken : Scope) : Ledger :=
  Function.update ledger construct ((ledger construct).charge taken)

/-- The record of the scope in which a node is evaluated. -/
def record (ledger : Ledger) (trail : Trail) : Scope :=
  { ledger (home trail).length with inParams := underParams trail }

/-- A node is entered: a construct gets its record, and what any other node takes is
charged to its scope. -/
def enter (ledger : Ledger) (trail : Trail) (node : Node) : Ledger :=
  if node.opensScope then Function.update ledger (trail.length + 1) (Scope.ofNode node)
  else ledger.charge (home trail).length (captured node)

/-- A node is left: what an arrow has taken is charged to its scope, and so is what the
rule for a node that is no construct takes. -/
def leave (ledger : Ledger) (trail : Trail) (node : Node) : Ledger :=
  if node.opensScope then
    if (ledger (trail.length + 1)).isArrow then
      ledger.charge (home trail).length (ledger (trail.length + 1))
    else ledger
  else ledger.charge (home trail).length (ruleTaken (ledger.record trail) node trail.head?)

end Ledger

/-! ### Arrangements -/

/-- The records as the walk holds them for a node: those of the node's scopes on the
stack, those of the other constructs around it put aside. -/
def arrange (ledger : Ledger) : Trail → Scopes
  | [] => { current := { ledger 0 with inParams := false } }
  | (owner, field) :: rest =>
    if belongs (owner, field) then
      (arrange ledger rest).push { ledger (rest.length + 1) with inParams := field == .params }
    else if owner.opensScope then
      { arrange ledger rest with
        suspended := { ledger (rest.length + 1) with inParams := false }
          :: (arrange ledger rest).suspended }
    else arrange ledger rest

/-- The records as the walk holds them between the parts of a node. -/
def arrangeInside (ledger : Ledger) (trail : Trail) (node : Node) : Scopes :=
  if node.opensScope then
    (arrange ledger trail).push { ledger (trail.length + 1) with inParams := false }
  else arrange ledger trail

theorem arrange_current (ledger : Ledger) (trail : Trail) :
    (arrange ledger trail).current = ledger.record trail := by
  induction trail with
  | nil => rfl
  | cons slot rest ih =>
    obtain ⟨owner, field⟩ := slot
    rw [arrange]
    split
    next own => simp [Scopes.push, Ledger.record, home_of_belongs rest own,
        underParams_of_belongs rest own]
    next other =>
      have kept : ledger.record ((owner, field) :: rest) = ledger.record rest := by
        simp [Ledger.record, home_of_not_belongs rest (by simpa using other),
          underParams_of_not_belongs rest (by simpa using other)]
      rw [kept, ← ih]
      split <;> rfl

theorem arrange_depth (ledger : Ledger) (trail : Trail) :
    (arrange ledger trail).depth = (scopeChain trail).length := by
  induction trail with
  | nil => rfl
  | cons slot rest ih =>
    obtain ⟨owner, field⟩ := slot
    rw [arrange]
    split
    next own => simpa [Scopes.push, Scopes.depth, scopeChain, own] using ih
    next other =>
      have kept : scopeChain ((owner, field) :: rest) = scopeChain rest := by
        simp [scopeChain, other]
      rw [kept, ← ih]
      split <;> rfl

/-- The records of constructs further in play no part. -/
theorem arrange_update (ledger : Ledger) (construct : Nat) (record : Scope) (trail : Trail)
    (further : trail.length < construct) :
    arrange (Function.update ledger construct record) trail = arrange ledger trail := by
  induction trail with
  | nil =>
    have other : 0 ≠ construct := by simp at further; omega
    simp [arrange, Function.update_of_ne other]
  | cons slot rest ih =>
    rw [List.length_cons] at further
    have other : rest.length + 1 ≠ construct := by omega
    simp only [arrange, ih (by omega), Function.update_of_ne other]

/-- Charging the record of the innermost scope charges the record on top of the stack. -/
theorem arrange_charge (ledger : Ledger) (trail : Trail) (taken : Scope) :
    arrange (ledger.charge (home trail).length taken) trail =
      (arrange ledger trail).charge taken := by
  induction trail with
  | nil => simp [arrange, home, Ledger.charge, Scopes.charge, Scope.charge]
  | cons slot rest ih =>
    obtain ⟨owner, field⟩ := slot
    by_cases own : belongs (owner, field)
    · have below := arrange_update ledger (rest.length + 1)
        ((ledger (rest.length + 1)).charge taken) rest (by omega)
      simp only [arrange, own, if_true, home_of_belongs rest own, List.length_cons, Ledger.charge,
        below, Function.update_self]
      rfl
    · have bound := home_length_le rest
      have other : rest.length + 1 ≠ (home rest).length := by omega
      simp only [arrange, own, Bool.false_eq_true, if_false,
        home_of_not_belongs rest (by simpa using own), ih]
      simp only [Ledger.charge, Function.update_of_ne other]
      split <;> rfl

/-! ### Slots -/

/-- The records after the step into a slot. -/
def slotEntered (parent : Walk.Parent) (scopes : Scopes) : Scopes :=
  if evaluatedOutside parent then scopes.suspend
  else if isOwnParameter parent then scopes.enterParams
  else scopes

/-- The records after the step out of a slot. -/
def slotLeft (parent : Walk.Parent) (scopes : Scopes) : Scopes :=
  if evaluatedOutside parent then scopes.resume
  else if isOwnParameter parent then scopes.leaveParams
  else scopes

theorem enterSlot_apply (parent : Walk.Parent) (state : State) :
    enterSlot parent state = .ok () { state with scopes := slotEntered parent state.scopes } := by
  unfold enterSlot slotEntered
  split
  · rfl
  · split <;> rfl

theorem leaveSlot_apply (parent : Walk.Parent) (state : State) :
    leaveSlot parent state = .ok () { state with scopes := slotLeft parent state.scopes } := by
  unfold leaveSlot slotLeft
  split
  · rfl
  · split <;> rfl

/-- The step into a slot gives the arrangement for the nodes in it. -/
theorem slotEntered_inside (ledger : Ledger) (owner : Node) (field : Field) (rest : Trail) :
    slotEntered (some (owner, field)) (arrangeInside ledger rest owner) =
      arrange ledger ((owner, field) :: rest) := by
  rw [slotEntered, arrangeInside, evaluatedOutside_eq, isOwnParameter_eq, arrange]
  by_cases opens : owner.opensScope
  case neg =>
    have other : belongs (owner, field) = false := by simp [belongs, opens]
    simp [opens, other]
  by_cases own : belongs (owner, field)
  · cases field == .params <;>
      simp [opens, own, Scopes.push, Scopes.enterParams]
  · simp [opens, own, Scopes.push, Scopes.suspend]

/-- The step out of a slot gives the arrangement between the parts of its owner back. -/
theorem slotLeft_arrange (ledger : Ledger) (owner : Node) (field : Field) (rest : Trail) :
    slotLeft (some (owner, field)) (arrange ledger ((owner, field) :: rest)) =
      arrangeInside ledger rest owner := by
  rw [slotLeft, arrangeInside, evaluatedOutside_eq, isOwnParameter_eq, arrange]
  by_cases opens : owner.opensScope
  case neg =>
    have other : belongs (owner, field) = false := by simp [belongs, opens]
    simp [opens, other]
  by_cases own : belongs (owner, field)
  · cases field == .params <;>
      simp [opens, own, Scopes.push, Scopes.leaveParams]
  · simp [opens, own, Scopes.push, Scopes.resume]

/-! ### Entering and leaving -/

theorem captured_of_opensScope {node : Node} (opens : node.opensScope = true) :
    captured node = {} := by
  cases kind : node.kind <;>
    simp_all [captured, Node.opensScope, Node.is, Kind.ownsReceiver]

theorem capture_apply (node : Node) (state : State) :
    capture node state =
      .ok () { state with scopes := state.scopes.charge (captured node) } := by
  unfold capture captured
  cases node.kind
  case thisExpression =>
    rw [← Scopes.markThis_eq]
    rfl
  case identifier =>
    by_cases named : node.hasName "arguments".toList
    · simp only [named, if_true, ← Scopes.markArguments_eq]
      rfl
    · simp only [named, Bool.false_eq_true, if_false, Scopes.charge_empty]
      rfl
  all_goals
    rw [Scopes.charge_empty]
    rfl

/-- The buffer after a node's ends were asked for. -/
def markedBuffer (node : Node) (state : State) : Edit.Buffer :=
  if state.sourceMap then (state.buffer.mark node.start).mark node.stop else state.buffer

/-- The records after a node was entered from a slot. -/
def nodeEntered (node : Node) (scopes : Scopes) : Scopes :=
  if node.opensScope then scopes.push (Scope.ofNode node) else scopes.charge (captured node)

/-- Entering a node always succeeds. -/
theorem enter_apply (node : Node) (parent : Walk.Parent) (state : State) :
    enter node parent state = .ok .descend
      { state with
        buffer := markedBuffer node state
        scopes := nodeEntered node (slotEntered parent state.scopes) } := by
  have ends : markEnds node state = .ok () { state with buffer := markedBuffer node state } := by
    have read : (get : Step State) state = .ok state state := rfl
    rw [markEnds, bind_apply_of_ok _ read, markedBuffer]
    split <;> rfl
  rw [enter, bind_apply_of_ok _ ends, bind_apply_of_ok _ (enterSlot_apply _ _), nodeEntered]
  by_cases opens : node.opensScope
  · simp only [opens, if_true]
    have pushed (state : State) : modifyScopes (fun scopes => scopes.push (Scope.ofNode node)) state =
        .ok () { state with scopes := state.scopes.push (Scope.ofNode node) } := rfl
    rw [bind_apply_of_ok _ (pushed _), bind_apply_of_ok _ (capture_apply node _),
      captured_of_opensScope opens, Scopes.charge_empty]
    rfl
  · simp only [opens, Bool.false_eq_true, if_false]
    rw [bind_apply_of_ok _ (capture_apply node _)]
    rfl

/-- What leaving a node does to the records. -/
theorem leave_scopes {node : Node} {parent : Walk.Parent} {state after : State}
    (left : leave node parent state = .ok () after) :
    after.scopes = slotLeft parent
      (if node.opensScope then state.scopes.pop.2
        else state.scopes.charge (ruleTaken state.scopes.current node parent)) := by
  have done : result (leave node parent) state = .ok after := by
    simp [result, outcome, left]
  rw [result, leave, outcome_bind, outcome_eq_result] at done
  cases lowered : result (lowerNode node parent) state with
  | error failure => simp [lowered] at done
  | ok middle =>
    obtain rfl : { middle with scopes := slotLeft parent middle.scopes } = after := by
      simpa [lowered, outcome, leaveSlot_apply] using done
    split
    next opens =>
      rw [result_lowerNode_of_opensScope node parent state opens] at lowered
      obtain ⟨-, -, settled⟩ := Effect.apply_eq_ok lowered
      rw [settled]
      simp [Effect.settle, taken_dropEffect]
    next plain =>
      rw [result_lowerNode node parent state (by simpa using plain)] at lowered
      obtain ⟨done, -, settled⟩ := Effect.apply_eq_ok lowered
      rw [settled, ← taken_ruleEffect done]
      rfl

/-- Entering a node arranges the records for its parts. -/
theorem nodeEntered_arrange (ledger : Ledger) (trail : Trail) (node : Node) :
    nodeEntered node (arrange ledger trail) =
      arrangeInside (ledger.enter trail node) trail node := by
  rw [nodeEntered, arrangeInside, Ledger.enter]
  by_cases opens : node.opensScope
  · simp only [opens, if_true, Function.update_self, arrange_update _ _ _ trail (Nat.lt_succ_self _)]
    rfl
  · simp only [opens, Bool.false_eq_true, if_false, arrange_charge]

/-- Leaving a node arranges the records for its slot, before they are put back. -/
theorem leave_arranged {ledger : Ledger} {trail : Trail} {node : Node} {state after : State}
    (left : leave node trail.head? state = .ok () after)
    (arranged : state.scopes = arrangeInside ledger trail node) :
    after.scopes = slotLeft trail.head? (arrange (ledger.leave trail node) trail) := by
  rw [leave_scopes left, arranged, arrangeInside, Ledger.leave]
  congr 1
  by_cases opens : node.opensScope
  · simp only [opens, if_true, Scopes.push, Scopes.pop]
    split
    · rw [arrange_charge]
      rfl
    · rfl
  · simp only [opens, Bool.false_eq_true, if_false, arrange_charge, arrange_current]

/-! ### Moments of a walk -/

/-- The slot through which the node of a frame was reached. -/
def slotOf : Walk.Frame → Option (Node × Field)
  | .node _ parent _ => parent
  | .sequence _ _ _ => none

/-- The slots that lead to the node that is being walked. -/
def trailOf (stack : List Walk.Frame) : Trail := stack.filterMap slotOf

/-- The ledger after the next step of a walk. -/
def Ledger.advance (ledger : Ledger) (frame : Walk.Frame) (stack : List Walk.Frame) : Ledger :=
  match frame with
  | .node node parent [] => ledger.leave (trailOf (.node node parent [] :: stack)) node
  | .node owner _ (.one field child :: _) =>
    ledger.enter ((owner, field) :: trailOf (frame :: stack)) child
  | .sequence owner field (child :: _) =>
    ledger.enter ((owner, field) :: trailOf (frame :: stack)) child
  | _ => ledger

/-- A walk from the root reaches a stack of frames in a state, with the ledger that was
kept on the way. -/
inductive Reaches (root : Node) (start : State) : List Walk.Frame → State → Ledger → Prop
  | begun {stack : List Walk.Frame} {state : State}
      (entered : Walk.enter visitor root none [] start = .ok stack state) :
      Reaches root start stack state (Ledger.blank.enter [] root)
  | stepped {frame : Walk.Frame} {stack next : List Walk.Frame} {state after : State}
      {ledger : Ledger} (reached : Reaches root start (frame :: stack) state ledger)
      (step : Walk.step visitor frame stack state = .ok next after) :
      Reaches root start next after (ledger.advance frame stack)

/-- A node is about to be entered. -/
inductive Entering (root : Node) (start : State) : Trail → Node → State → Ledger → Prop
  | root : Entering root start [] root start Ledger.blank
  | one {owner child : Node} {parent : Walk.Parent} {field : Field} {remaining : List Slot}
      {stack : List Walk.Frame} {state : State} {ledger : Ledger}
      (reached : Reaches root start (.node owner parent (.one field child :: remaining) :: stack)
        state ledger) :
      Entering root start ((owner, field) :: (parent.toList ++ trailOf stack)) child state ledger
  | many {owner child : Node} {field : Field} {remaining : List Node}
      {stack : List Walk.Frame} {state : State} {ledger : Ledger}
      (reached : Reaches root start (.sequence owner field (child :: remaining) :: stack)
        state ledger) :
      Entering root start ((owner, field) :: trailOf stack) child state ledger

/-- A node is about to be left. -/
inductive Leaving (root : Node) (start : State) : Trail → Node → State → Ledger → Prop
  | node {node : Node} {parent : Walk.Parent} {stack : List Walk.Frame} {state : State}
      {ledger : Ledger} (reached : Reaches root start (.node node parent [] :: stack) state ledger) :
      Leaving root start (parent.toList ++ trailOf stack) node state ledger

/-- The frames of a walk are those of the nodes on the way to the node that is being
walked. -/
inductive Open (root : Node) : List Walk.Frame → Trail → Node → Prop
  | root {remaining : List Slot} (rest : remaining ⊆ root.slots) :
      Open root [.node root none remaining] [] root
  | part {stack : List Walk.Frame} {trail : Trail} {owner child : Node} {field : Field}
      {remaining : List Slot} (below : Open root stack trail owner)
      (held : (field, child) ∈ owner.parts) (rest : remaining ⊆ child.slots) :
      Open root (.node child (some (owner, field)) remaining :: stack) ((owner, field) :: trail)
        child
  | sequence {stack : List Walk.Frame} {trail : Trail} {owner : Node} {field : Field}
      {remaining : List Node} (below : Open root stack trail owner)
      (rest : ∀ child ∈ remaining, (field, child) ∈ owner.parts) :
      Open root (.sequence owner field remaining :: stack) trail owner

section Open

variable {root : Node} {stack : List Walk.Frame} {trail : Trail} {node : Node}

theorem Open.trail_eq (opened : Open root stack trail node) : trailOf stack = trail := by
  induction opened with
  | root _ => rfl
  | part _ _ _ ih =>
    rw [trailOf, List.filterMap_cons, ← ih]
    rfl
  | sequence _ _ ih =>
    rw [trailOf, List.filterMap_cons, ← ih]
    rfl

theorem Open.leads (opened : Open root stack trail node) : Leads root trail node := by
  induction opened with
  | root _ => exact .root
  | part _ held _ ih => exact .part ih held
  | sequence _ _ ih => exact ih

/-- A frame of a node that has slots left may skip the first of them. -/
theorem Open.next {current : Node} {parent : Walk.Parent} {slot : Slot} {remaining : List Slot}
    (opened : Open root (.node current parent (slot :: remaining) :: stack) trail node) :
    node = current ∧ slot ∈ current.slots ∧
      Open root (.node current parent remaining :: stack) trail current := by
  cases opened with
  | root rest =>
    exact ⟨rfl, rest (List.mem_cons_self ..), .root fun _ later => rest (List.mem_cons_of_mem _ later)⟩
  | part below held rest =>
    exact ⟨rfl, rest (List.mem_cons_self ..),
      .part below held fun _ later => rest (List.mem_cons_of_mem _ later)⟩

/-- Below the frame of a node is the frame of its owner, unless it is the root. -/
theorem Open.outer {current : Node} {parent : Walk.Parent} {remaining : List Slot}
    (opened : Open root (.node current parent remaining :: stack) trail node) :
    node = current ∧ parent = trail.head? ∧
      ((stack = [] ∧ trail = []) ∨
        ∃ owner field rest, trail = (owner, field) :: rest ∧ Open root stack rest owner) := by
  cases opened with
  | root rest => exact ⟨rfl, rfl, .inl ⟨rfl, rfl⟩⟩
  | part below held rest => exact ⟨rfl, rfl, .inr ⟨_, _, _, rfl, below⟩⟩

end Open

theorem mem_parts_of_one {node child : Node} {field : Field}
    (member : Slot.one field child ∈ node.slots) : (field, child) ∈ node.parts :=
  List.mem_flatMap.mpr ⟨_, member, by simp [Slot.parts]⟩

theorem mem_parts_of_many {node : Node} {nodes : List Node} {field : Field}
    (member : Slot.many field nodes ∈ node.slots) :
    ∀ child ∈ nodes, (field, child) ∈ node.parts := fun child inside =>
  List.mem_flatMap.mpr ⟨_, member, by simpa [Slot.parts] using inside⟩

/-- The records are arranged for the node that is being walked, or the walk is over and
the program's record is left. -/
def Arranged (root : Node) (stack : List Walk.Frame) (state : State) (ledger : Ledger) : Prop :=
  (stack = [] ∧ state.scopes = arrange ledger []) ∨
    ∃ trail node, Open root stack trail node ∧ state.scopes = arrangeInside ledger trail node

/-- Entering a node from a slot for which the records are arranged puts it on the stack. -/
theorem arranged_of_enter {root child : Node} {trail : Trail} {stack next : List Walk.Frame}
    {state after : State} {ledger : Ledger}
    (opens : Open root (.node child trail.head? child.slots :: stack) trail child)
    (arranged : slotEntered trail.head? state.scopes = arrange ledger trail)
    (entered : Walk.enter visitor child trail.head? stack state = .ok next after) :
    Arranged root next after (ledger.enter trail child) := by
  have applied := enter_apply child trail.head? state
  rcases Walk.enter_eq_ok entered with ⟨visited, rfl⟩ | ⟨visited, rfl⟩
  · obtain ⟨-, rfl⟩ := EStateM.Result.ok.inj (applied.symm.trans visited)
    refine .inr ⟨trail, child, opens, ?_⟩
    dsimp only
    rw [arranged, nodeEntered_arrange]
  · simp [visitor, applied] at visited

/-- Entering a part of the node that is being walked. -/
theorem arranged_of_enter_part {root owner child : Node} {field : Field} {trail : Trail}
    {stack next : List Walk.Frame} {state after : State} {ledger : Ledger}
    (below : Open root stack trail owner) (held : (field, child) ∈ owner.parts)
    (scopes : state.scopes = arrangeInside ledger trail owner)
    (entered : Walk.enter visitor child (some (owner, field)) stack state = .ok next after) :
    Arranged root next after (ledger.enter ((owner, field) :: trail) child) := by
  apply arranged_of_enter (.part below held (List.Subset.refl _)) _ entered
  rw [scopes]
  exact slotEntered_inside ledger owner field trail

/-- Leaving a node gives back the arrangement between the parts of its owner. -/
theorem arranged_of_leave {root node : Node} {parent : Walk.Parent} {trail : Trail}
    {stack : List Walk.Frame} {state after : State} {ledger : Ledger}
    (opened : Open root (.node node parent [] :: stack) trail node)
    (scopes : state.scopes = arrangeInside ledger trail node)
    (left : leave node parent state = .ok () after) :
    Arranged root stack after (ledger.leave trail node) := by
  obtain ⟨-, rfl, ⟨rfl, rfl⟩ | ⟨owner, field, rest, rfl, below⟩⟩ := opened.outer
  · exact .inl ⟨rfl, leave_arranged left scopes⟩
  · refine .inr ⟨rest, owner, below, ?_⟩
    rw [leave_arranged left scopes]
    exact slotLeft_arrange _ owner field rest

/-- One step of the walk keeps the records arranged. -/
theorem arranged_of_step {root : Node} {frame : Walk.Frame} {stack next : List Walk.Frame}
    {state after : State} {ledger : Ledger}
    (arranged : Arranged root (frame :: stack) state ledger)
    (step : Walk.step visitor frame stack state = .ok next after) :
    Arranged root next after (ledger.advance frame stack) := by
  obtain ⟨empty, -⟩ | ⟨trail, node, opened, scopes⟩ := arranged
  · simp at empty
  have along := opened.trail_eq
  cases Walk.advances_of_step step with
  | leave left =>
    obtain ⟨rfl, -, -⟩ := opened.outer
    rw [Ledger.advance, along]
    exact arranged_of_leave opened scopes left
  | leaf =>
    obtain ⟨rfl, -, further⟩ := opened.next
    exact .inr ⟨trail, node, further, scopes⟩
  | one entered =>
    obtain ⟨rfl, member, further⟩ := opened.next
    rw [Ledger.advance, along]
    exact arranged_of_enter_part further (mem_parts_of_one member) scopes entered
  | many =>
    obtain ⟨rfl, member, further⟩ := opened.next
    exact .inr ⟨trail, node, .sequence further (mem_parts_of_many member), scopes⟩
  | done =>
    obtain _ | _ | ⟨below, rest⟩ := opened
    exact .inr ⟨trail, node, below, scopes⟩
  | @item owner child field others stack next state after entered =>
    obtain _ | _ | ⟨below, rest⟩ := opened
    rw [Ledger.advance, along]
    have further : Open root (.sequence node field others :: stack) trail node :=
      .sequence below fun other later => rest other (List.mem_cons_of_mem _ later)
    exact arranged_of_enter_part further (rest child (List.mem_cons_self ..)) scopes entered

/-- The records are arranged at every moment of a walk. -/
theorem Reaches.arranged {root : Node} {start : State} {stack : List Walk.Frame} {state : State}
    {ledger : Ledger} (reached : Reaches root start stack state ledger)
    (fresh : start.scopes = {}) : Arranged root stack state ledger := by
  induction reached with
  | begun entered =>
    have opened : Open root [.node root none root.slots] [] root := .root (List.Subset.refl _)
    apply arranged_of_enter opened _ entered
    rw [fresh]
    rfl
  | stepped _ step ih => exact arranged_of_step ih step

/-! ### The program's record -/

theorem Ledger.charge_isAsync (ledger : Ledger) (construct : Nat) (taken : Scope) (key : Nat) :
    (ledger.charge construct taken key).isAsync = (ledger key).isAsync := by
  by_cases same : key = construct
  · subst same
    simp [Ledger.charge, Scope.charge]
  · simp [Ledger.charge, Function.update_of_ne same]

theorem Ledger.enter_program (ledger : Ledger) (trail : Trail) (node : Node) :
    (ledger.enter trail node 0).isAsync = (ledger 0).isAsync := by
  rw [Ledger.enter]
  split
  · rw [Function.update_of_ne (by omega)]
  · exact Ledger.charge_isAsync ..

theorem Ledger.leave_program (ledger : Ledger) (trail : Trail) (node : Node) :
    (ledger.leave trail node 0).isAsync = (ledger 0).isAsync := by
  rw [Ledger.leave]
  split
  · split
    · exact Ledger.charge_isAsync ..
    · rfl
  · exact Ledger.charge_isAsync ..

/-- The program is never async. -/
theorem Reaches.program {root : Node} {start : State} {stack : List Walk.Frame} {state : State}
    {ledger : Ledger} (reached : Reaches root start stack state ledger) :
    (ledger 0).isAsync = false := by
  induction reached with
  | begun _ => exact Ledger.enter_program ..
  | @stepped frame stack _ _ _ ledger _ _ ih =>
    rw [← ih]
    unfold Ledger.advance
    split
    · exact Ledger.leave_program ..
    · exact Ledger.enter_program ..
    · exact Ledger.enter_program ..
    · rfl

/-- A walk that ends well reaches an empty stack. -/
theorem Reaches.ends {root : Node} {start : State} {steps : Nat} {stack : List Walk.Frame}
    {state final : State} {ledger : Ledger} (reached : Reaches root start stack state ledger)
    (enough : Walk.stepsOfStack stack ≤ steps)
    (ran : Walk.run visitor steps stack state = .ok () final) :
    ∃ last, Reaches root start [] final last := by
  induction steps generalizing stack state ledger with
  | zero =>
    cases stack with
    | nil =>
      obtain rfl : state = final := by simpa [Walk.run, pure, EStateM.pure] using ran
      exact ⟨ledger, reached⟩
    | cons frame rest =>
      rw [Walk.stepsOfStack_cons] at enough
      cases frame <;> simp only [Walk.stepsOfFrame] at enough <;> omega
  | succ steps ih =>
    cases stack with
    | nil =>
      obtain rfl : state = final := by simpa [Walk.run, pure, EStateM.pure] using ran
      exact ⟨ledger, reached⟩
    | cons frame rest =>
      rw [Walk.run] at ran
      simp only [bind, EStateM.bind] at ran
      cases step : Walk.step visitor frame rest state with
      | error failure stopped => simp [step] at ran
      | ok next after =>
        rw [step] at ran
        have nearer := Walk.step_steps step
        exact ih (reached.stepped step) (by omega) ran

theorem reaches_of_walk {root : Node} {start final : State}
    (walked : Walk.walk visitor root start = .ok () final) :
    ∃ ledger, Reaches root start [] final ledger := by
  rw [Walk.walk] at walked
  simp only [bind, EStateM.bind] at walked
  cases entered : Walk.enter visitor root none [] start with
  | error failure stopped => simp [entered] at walked
  | ok stack state =>
    rw [entered] at walked
    have bound := Walk.enter_steps entered
    rw [Walk.stepsOfStack_nil] at bound
    exact (Reaches.begun entered).ends (by omega) walked

/-! ### The records at every moment -/

/-- The records follow the scopes that can be read off the slots leading to a node. -/
structure Follows (ledger : Ledger) (trail : Trail) (scopes : Scopes) : Prop where
  arranged : scopes = arrange ledger trail
  current : scopes.current = ledger.record trail
  depth : scopes.depth = (scopeChain trail).length
  inParams : scopes.current.inParams = underParams trail

theorem follows_arrange (ledger : Ledger) (trail : Trail) :
    Follows ledger trail (arrange ledger trail) where
  arranged := rfl
  current := arrange_current ledger trail
  depth := arrange_depth ledger trail
  inParams := by rw [arrange_current]; rfl

/-- The records for a node that is about to be entered, once the step into its slot is
made. -/
theorem Entering.follows {root node : Node} {start state : State} {trail : Trail}
    {ledger : Ledger} (entering : Entering root start trail node state ledger)
    (fresh : start.scopes = {}) :
    Leads root trail node ∧ Follows ledger trail (slotEntered trail.head? state.scopes) := by
  cases entering with
  | root =>
    refine ⟨.root, ?_⟩
    rw [fresh]
    exact follows_arrange _ []
  | @one owner _ parent field remaining stack _ _ reached =>
    obtain ⟨empty, -⟩ | ⟨trail, current, opened, scopes⟩ := reached.arranged fresh
    · simp at empty
    obtain ⟨rfl, member, further⟩ := opened.next
    have along : parent.toList ++ trailOf stack = trail := by
      rw [← further.trail_eq]
      cases parent <;> rfl
    rw [along]
    refine ⟨.part further.leads (mem_parts_of_one member), ?_⟩
    rw [scopes, List.head?_cons, slotEntered_inside]
    exact follows_arrange ledger _
  | @many owner _ field remaining stack _ _ reached =>
    obtain ⟨empty, -⟩ | ⟨trail, current, opened, scopes⟩ := reached.arranged fresh
    · simp at empty
    obtain _ | _ | ⟨below, rest⟩ := opened
    rw [below.trail_eq]
    refine ⟨.part below.leads (rest node (List.mem_cons_self ..)), ?_⟩
    rw [scopes, List.head?_cons, slotEntered_inside]
    exact follows_arrange ledger _

/-- The records for a node that is about to be left, if it is no construct. -/
theorem Leaving.follows {root node : Node} {start state : State} {trail : Trail}
    {ledger : Ledger} (leaving : Leaving root start trail node state ledger)
    (fresh : start.scopes = {}) (plain : node.opensScope = false) :
    Leads root trail node ∧ Follows ledger trail state.scopes := by
  cases leaving with
  | @node _ parent stack _ _ reached =>
    obtain ⟨empty, -⟩ | ⟨trail, current, opened, scopes⟩ := reached.arranged fresh
    · simp at empty
    obtain ⟨rfl, -, -⟩ := opened.outer
    have along : parent.toList ++ trailOf stack = trail := by
      rw [← opened.trail_eq]
      cases parent <;> rfl
    rw [along]
    refine ⟨opened.leads, ?_⟩
    rw [scopes, arrangeInside, plain]
    exact follows_arrange ledger trail

/-- At every moment of a walk of any tree, the records are those of the scopes that can be
read off the tree: when a node that is no construct is entered or left, the record on top
of the stack is the one of the scope in which the node is evaluated, the others are those
of the scopes around it, and the parameters flag says whether the node lies under the
parameters of its scope. A walk that ends well is left with the program's record alone. -/
theorem scopes_follow_chain (root : Node) (start : State) (fresh : start.scopes = {}) :
    (∀ trail node state ledger, Entering root start trail node state ledger →
      node.opensScope = false → ∀ after, enterSlot trail.head? state = .ok () after →
        Leads root trail node ∧ Follows ledger trail after.scopes) ∧
    (∀ trail node state ledger, Leaving root start trail node state ledger →
      node.opensScope = false → Leads root trail node ∧ Follows ledger trail state.scopes) ∧
    (∀ final, Walk.walk visitor root start = .ok () final →
      final.scopes.enclosing = [] ∧ final.scopes.suspended = [] ∧
        final.scopes.current.isAsync = false) := by
  refine ⟨?_, ?_, ?_⟩
  · intro trail node state ledger entering _ after stepped
    rw [enterSlot_apply] at stepped
    obtain ⟨-, rfl⟩ := EStateM.Result.ok.inj stepped
    exact entering.follows fresh
  · intro trail node state ledger leaving plain
    exact leaving.follows fresh plain
  · intro final walked
    obtain ⟨ledger, reached⟩ := reaches_of_walk walked
    obtain ⟨-, scopes⟩ | ⟨_, _, opened, -⟩ := reached.arranged fresh
    · rw [scopes]
      exact ⟨rfl, rfl, reached.program⟩
    · cases opened

/-- A computed key that says `this`. -/
def receiverKey : Node := .plain .thisExpression ⟨7, 11⟩ []

/-- A parameter whose default says `arguments`. -/
def argumentsParameter : Node :=
  .mk { kind := .identifier, span := ⟨15, 24⟩, name := some "arguments".toList } []

/-- The method `async [this](a=arguments){}`. -/
def keyedMethod : Node :=
  .mk { kind := .objectMethod, span := ⟨0, 27⟩, flags := { isAsync := true } }
    [.one .key receiverKey, .many .params [argumentsParameter]]

/-- The parameter of a method that is async belongs to the method, after a key that
belonged to the program. -/
theorem scopes_follow_chain_parameter :
    let root := Node.plain .program ⟨0, 27⟩ [.one .body keyedMethod]
    let start := State.ofSource [] default default false
    let trail := [(keyedMethod, Field.params), (root, Field.body)]
    start.scopes = {} ∧ ∃ state ledger,
      Entering root start trail argumentsParameter state ledger ∧
        (ledger 0).usesThis = true ∧ (ledger.record trail).isAsync = true ∧
        ∀ after, enterSlot trail.head? state = .ok () after →
          Leads root trail argumentsParameter ∧ Follows ledger trail after.scopes := by
  intro root start trail
  have program : Reaches root start [.node root none [.one .body keyedMethod]] _ _ := .begun rfl
  have method : Reaches root start
      [.node keyedMethod (some (root, .body)) keyedMethod.slots, .node root none []] _ _ :=
    .stepped program rfl
  have key : Reaches root start
      [.node receiverKey (some (keyedMethod, .key)) [],
        .node keyedMethod (some (root, .body)) [.many .params [argumentsParameter]],
        .node root none []] _ _ := .stepped method rfl
  have after : Reaches root start
      [.node keyedMethod (some (root, .body)) [.many .params [argumentsParameter]],
        .node root none []] _ _ := .stepped key rfl
  have parameters : Reaches root start
      [.sequence keyedMethod .params [argumentsParameter],
        .node keyedMethod (some (root, .body)) [], .node root none []] _ _ := .stepped after rfl
  exact ⟨rfl, _, _, .many parameters, rfl, rfl,
    (scopes_follow_chain root start rfl).1 trail argumentsParameter _ _ (.many parameters) rfl⟩

end Unawait.Lowering
