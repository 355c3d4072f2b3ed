import Mathlib
import Unawait.Proofs.WalkEffect
import Unawait.Proofs.WalkMoments

/-!
# What the record of a construct has taken

What a record says when its construct is left can be read off the tree. A node needs a
receiver, the arguments or a member of `super`, and the need is met by the record of
the scope in which the node is evaluated. An arrow passes the needs of its code on to
the scope around it, so the record of a construct has taken what is needed by the nodes
below it from which only arrows lead out to it.

The records are known at every moment of a walk: the recursion over the tree could be
stopped there, and a visit charges to a record what the visited subtree takes.
-/

namespace Unawait

/-! ### Captures -/

/-- What code can take from the construct that it stands in. -/
inductive Capture where
  | receiver
  | arguments
  | superRead
  | superWrite
deriving DecidableEq, Inhabited

namespace Scope

/-- Whether the code of a construct has taken something. -/
def takes (scope : Scope) : Capture → Bool
  | .receiver => scope.usesThis
  | .arguments => scope.usesArguments
  | .superRead => scope.usesSuper
  | .superWrite => scope.assignsSuper

variable (capture : Capture)

@[simp] theorem takes_charge (scope taken : Scope) :
    (scope.charge taken).takes capture = (scope.takes capture || taken.takes capture) := by
  cases capture <;> rfl

@[simp] theorem takes_empty : ({} : Scope).takes capture = false := by
  cases capture <;> rfl

@[simp] theorem takes_ofNode (node : Node) : (Scope.ofNode node).takes capture = false := by
  cases capture <;> rfl

theorem takes_chargeAll (records : List Scope) :
    (Scope.chargeAll records).takes capture = records.any fun record => record.takes capture := by
  induction records with
  | nil => exact takes_empty capture
  | cons record rest ih => rw [List.any_cons, ← ih, ← takes_charge]; rfl

end Scope

/-- The text that a call brings. -/
def Edit.Operation.text : Edit.Operation → Text
  | .overwrite _ _ text => text
  | .insertBefore _ text => text
  | .insertAfter _ text => text
  | .append text => text
  | _ => []

end Unawait

namespace Unawait.Lowering

/-! ### Trails below a node -/

/-- The slots that lead to a node below a part are those below the part and the slot of
the part. -/
theorem leads_iff {root node : Node} {trail : Trail} :
    Leads root trail node ↔ (trail = [] ∧ node = root) ∨
      ∃ part ∈ root.parts, ∃ inner, Leads part.2 inner node ∧ trail = inner ++ [(root, part.1)] := by
  constructor
  · intro leads
    induction leads with
    | root => exact .inl ⟨rfl, rfl⟩
    | @part trail owner child field above held ih =>
      right
      obtain ⟨rfl, rfl⟩ | ⟨part, member, inner, below, rfl⟩ := ih
      · exact ⟨(field, child), held, [], .root, rfl⟩
      · exact ⟨part, member, (owner, field) :: inner, .part below held, rfl⟩
  · rintro (⟨rfl, rfl⟩ | ⟨part, member, inner, below, rfl⟩)
    · exact .root
    · induction below with
      | root => exact .part .root member
      | part above held ih => exact .part ih held

theorem Leads.append {root middle node : Node} {outer inner : Trail} (above : Leads root outer middle)
    (below : Leads middle inner node) : Leads root (inner ++ outer) node := by
  induction below with
  | root => exact above
  | part _ held ih => exact .part ih held

/-- The owner of a slot on the way to a node is on the way itself. -/
theorem Leads.split {root node : Node} {inner outer : Trail} {slot : Node × Field}
    (leads : Leads root (inner ++ slot :: outer) node) :
    Leads root outer slot.1 ∧ Leads slot.1 (inner ++ [slot]) node := by
  induction inner generalizing node with
  | nil =>
    obtain _ | ⟨above, held⟩ := leads
    exact ⟨above, .part .root held⟩
  | cons next rest ih =>
    obtain _ | ⟨above, held⟩ := leads
    obtain ⟨outside, inside⟩ := ih above
    exact ⟨outside, .part inside held⟩

/-- The kind of the scope at the end of the slots that lead to a node. -/
def scopeAlong (outer : Scope) (trail : Trail) : Scope :=
  trail.foldr (fun slot scope => scopeOf scope slot) outer

@[simp] theorem scopeAlong_nil (outer : Scope) : scopeAlong outer [] = outer := rfl

@[simp] theorem scopeAlong_cons (outer : Scope) (slot : Node × Field) (trail : Trail) :
    scopeAlong outer (slot :: trail) = scopeOf (scopeAlong outer trail) slot := rfl

@[simp] theorem scopeAlong_append (outer : Scope) (inner trail : Trail) :
    scopeAlong outer (inner ++ trail) = scopeAlong (scopeAlong outer trail) inner := by
  simp [scopeAlong]

/-- Where a node is evaluated decides the kind of its scope. -/
theorem scopeAlong_eq (outer : Scope) (trail : Trail) :
    scopeAlong outer trail = (home trail).head?.elim outer fun slot =>
      { Scope.ofNode slot.1 with inParams := slot.2 == .params } := by
  induction trail with
  | nil => rfl
  | cons slot rest ih =>
    rw [scopeAlong_cons, scopeOf]
    split
    next own => simp [home_of_belongs rest own]
    next other => rw [home_of_not_belongs rest (by simpa using other), ih]

/-! ### What a record has taken -/

/-- What a node itself takes from the scope in which it is evaluated. -/
def contribution (scope : Scope) (node : Node) (parent : Walk.Parent) : Scope :=
  (captured node).charge (ruleTaken scope node parent)

theorem contribution_of_opensScope {node : Node} (opens : node.opensScope = true) (scope : Scope)
    (parent : Walk.Parent) : contribution scope node parent = {} := by
  rw [contribution, captured_of_opensScope opens]
  cases kind : node.kind <;>
    simp_all [ruleTaken, Node.opensScope, Node.is, Kind.ownsReceiver, Scope.charge]

/-- Whether only arrows are among the scopes that slots lead through. -/
def throughArrows (trail : Trail) : Bool :=
  (scopeChain trail).all fun slot => slot.1.is .arrowFunctionExpression

/-- Whether what the node at the end of a trail takes reaches the record of the construct
at its beginning: the trail begins in the construct's own scope, and from there on only
arrows lead to the node. -/
def reachesRecord (trail : Trail) : Bool :=
  trail.getLast?.any belongs && throughArrows trail.dropLast

theorem throughArrows_append (inner outer : Trail) :
    throughArrows (inner ++ outer) = (throughArrows inner && throughArrows outer) := by
  simp [throughArrows, scopeChain]

theorem throughArrows_single (slot : Node × Field) :
    throughArrows [slot] = (!belongs slot || slot.1.is .arrowFunctionExpression) := by
  by_cases own : belongs slot <;> simp [throughArrows, scopeChain, own]

theorem reachesRecord_concat (inner : Trail) (slot : Node × Field) :
    reachesRecord (inner ++ [slot]) = (belongs slot && throughArrows inner) := by
  simp [reachesRecord]

theorem takes_partsTaken (node : Node) (scope : Scope) (own : Bool) (parts : List (Field × Node))
    (capture : Capture) :
    (partsTaken node scope own parts).takes capture = true ↔
      ∃ part ∈ parts, belongs (node, part.1) = own ∧
        (takenIn part.2 (scopeOf scope (node, part.1)) (some (node, part.1))).takes capture = true := by
  simp [partsTaken, Scope.takes_chargeAll]

/-- A subtree takes what its nodes take of which only arrows stand in the way. -/
theorem takes_takenIn (node : Node) (scope : Scope) (parent : Walk.Parent) (capture : Capture) :
    (takenIn node scope parent).takes capture = true ↔
      ∃ trail inner, Leads node trail inner ∧ throughArrows trail = true ∧
        (contribution (scopeAlong scope trail) inner (trail.head?.or parent)).takes capture = true := by
  induction node using Node.parts_induction generalizing scope parent with
  | _ node ih =>
    -- The nodes below a part are those that the part takes something for.
    have below (part : Field × Node) (member : part ∈ node.parts) :
        (takenIn part.2 (scopeOf scope (node, part.1)) (some (node, part.1))).takes capture = true ↔
          ∃ trail inner, Leads part.2 trail inner ∧ throughArrows trail = true ∧
            (contribution (scopeAlong scope (trail ++ [(node, part.1)])) inner
              ((trail ++ [(node, part.1)]).head?.or parent)).takes capture = true := by
      rw [ih part member]
      simp [List.head?_append]
    have whole : (takenIn node scope parent).takes capture = true ↔
        (contribution scope node parent).takes capture = true ∨
          ∃ part ∈ node.parts, throughArrows [(node, part.1)] = true ∧
            (takenIn part.2 (scopeOf scope (node, part.1)) (some (node, part.1))).takes capture
              = true := by
      rw [takenIn_eq]
      split
      next opens =>
        rw [contribution_of_opensScope opens]
        by_cases arrow : node.is .arrowFunctionExpression
        · simp only [arrow, if_true, ownRecord, Scope.takes_charge, Scope.takes_ofNode,
            Scope.takes_empty, Bool.or_eq_true, takes_partsTaken, throughArrows_single]
          grind
        · simp only [arrow, Bool.false_eq_true, if_false, Scope.takes_charge, Scope.takes_empty, Bool.or_eq_true,
            takes_partsTaken, throughArrows_single]
          grind
      next plain =>
        have outside (field : Field) : belongs (node, field) = false := by simp [belongs, plain]
        simp only [contribution, Scope.takes_charge, Bool.or_eq_true, takes_partsTaken,
          throughArrows_single, outside]
        grind
    rw [whole]
    constructor
    · rintro (here | ⟨part, member, passes, taken⟩)
      · exact ⟨[], node, .root, rfl, here⟩
      · obtain ⟨trail, inner, leads, arrows, taken⟩ := (below part member).mp taken
        exact ⟨trail ++ [(node, part.1)], inner, leads_iff.mpr (.inr ⟨part, member, trail, leads, rfl⟩),
          by rw [throughArrows_append, arrows, passes]; rfl, taken⟩
    · rintro ⟨trail, inner, leads, arrows, taken⟩
      obtain ⟨rfl, rfl⟩ | ⟨part, member, trail, deeper, rfl⟩ := leads_iff.mp leads
      · exact .inl taken
      · rw [throughArrows_append, Bool.and_eq_true] at arrows
        exact .inr ⟨part, member, arrows.2,
          (below part member).mpr ⟨trail, inner, deeper, arrows.1, taken⟩⟩

/-- The record of a construct has taken what is taken by the nodes that reach it. -/
theorem takes_ownRecord (node : Node) (scope outer : Scope) (capture : Capture) :
    (ownRecord node scope).takes capture = true ↔
      ∃ trail inner, Leads node trail inner ∧ reachesRecord trail = true ∧
        (contribution (scopeAlong outer trail) inner trail.head?).takes capture = true := by
  have along (trail : Trail) (slot : Node × Field) (own : belongs slot = true) :
      scopeAlong outer (trail ++ [slot]) = scopeAlong (scopeOf scope slot) trail := by
    simp [scopeAlong, scopeOf, own]
  have parent (trail : Trail) (slot : Node × Field) :
      (trail ++ [slot]).head? = trail.head?.or (some slot) := by
    simp [List.head?_append]
  rw [ownRecord, Scope.takes_charge, Scope.takes_ofNode, Bool.false_or, takes_partsTaken]
  constructor
  · rintro ⟨part, member, own, taken⟩
    obtain ⟨trail, inner, leads, arrows, taken⟩ := (takes_takenIn _ _ _ capture).mp taken
    refine ⟨trail ++ [(node, part.1)], inner,
      leads_iff.mpr (.inr ⟨part, member, trail, leads, rfl⟩), ?_, ?_⟩
    · rw [reachesRecord_concat, own, arrows]
      rfl
    · rw [along trail _ own, parent]
      exact taken
  · rintro ⟨trail, inner, leads, reaches, taken⟩
    obtain ⟨rfl, rfl⟩ | ⟨part, member, trail, deeper, rfl⟩ := leads_iff.mp leads
    · simp [reachesRecord] at reaches
    · rw [reachesRecord_concat, Bool.and_eq_true] at reaches
      rw [along trail _ reaches.1, parent] at taken
      exact ⟨part, member, reaches.1, (takes_takenIn _ _ _ capture).mpr
        ⟨trail, inner, deeper, reaches.2, taken⟩⟩

/-! ### The records at a moment of a walk -/

/-- The records between the parts of a node that is evaluated in a scope of some kind. -/
def Between (node : Node) (scope : Scope) (scopes : Scopes) : Prop :=
  ∃ outer own, scopes = inside node outer own ∧ outer.current.bare = scope ∧
    own.bare = Scope.ofNode node

/-- The records for a part of a node. -/
theorem Between.part {node : Node} {scope : Scope} {scopes : Scopes}
    (between : Between node scope scopes) (field : Field) :
    (slotEntered (some (node, field)) scopes).current.bare = scopeOf scope (node, field) := by
  obtain ⟨outer, own, rfl, around, kept⟩ := between
  exact slotEntered_bare field around kept

/-- Visiting parts charges to the node's own record what they take. -/
theorem scopes_traverseParts {node : Node} {parts : List (Field × Node)} {state after : State}
    {outer : Scopes} {own : Scope} (arranged : state.scopes = inside node outer own)
    (kept : own.bare = Scope.ofNode node)
    (visited : Walk.traverseParts visitor node parts state = .ok () after) :
    after.scopes = inside node (outer.charge (partsTaken node outer.current.bare false parts))
      (own.charge (partsTaken node outer.current.bare true parts)) := by
  have done := result_of_ok visited
  rw [result_traverseParts parts (fun part _ => visits state.reading state.sourceMap part.2) state
    outer own rfl rfl arranged rfl kept] at done
  cases applied : (partsEffect state.reading state.sourceMap
      (placesFrom node outer.current.bare state.loops parts)).apply state with
  | error failure => simp [applied] at done
  | ok next =>
    rw [applied, ok_bind] at done
    rw [← Except.ok.inj done]

theorem Between.traverseParts {node : Node} {scope : Scope} {parts : List (Field × Node)}
    {state after : State} (between : Between node scope state.scopes)
    (visited : Walk.traverseParts visitor node parts state = .ok () after) :
    Between node scope after.scopes := by
  obtain ⟨outer, own, arranged, around, kept⟩ := between
  exact ⟨_, _, scopes_traverseParts arranged kept visited, around, kept⟩

/-- The records of a node that was begun: its own one has taken what the visited parts
take. -/
theorem scopes_of_begun {node : Node} {parent : Walk.Parent} {before state : State} {scope : Scope}
    {remaining : List Slot} (begun : Walk.Begun visitor node parent before remaining state)
    (around : (slotEntered parent before.scopes).current.bare = scope) :
    ∃ outer done, node.slots = done ++ remaining ∧ outer.current.bare = scope ∧
      state.scopes = inside node outer
        ((Scope.ofNode node).charge (partsTaken node scope true (done.flatMap Slot.parts))) := by
  obtain ⟨first, done, entered, split, visited⟩ := begun
  have started : first.scopes = inside node
      ((slotEntered parent before.scopes).charge (captured node)) (Scope.ofNode node) := by
    rw [← nodeEntered_eq]
    exact congrArg State.scopes (EStateM.Result.ok.inj (entered.symm.trans (enter_apply ..))).2
  rw [Walk.traverseSlots_eq] at visited
  subst around
  have finished := scopes_traverseParts started rfl visited
  refine ⟨_, done, split, ?_, finished⟩
  rfl

/-- The records at a moment of a walk, from the slots that lead to the node that is being
walked. -/
def Placed (stack : List Walk.Frame) (state : State) : Walk.Frame → Prop
  | .node node parent remaining => ∃ before, Walk.Begun visitor node parent before remaining state ∧
      (slotEntered parent before.scopes).current.bare =
        scopeAlong {} (parent.toList ++ trailOf stack)
  | .sequence owner _ _ => Between owner (scopeAlong {} (trailOf stack)) state.scopes

theorem between_of_placed {node : Node} {parent : Walk.Parent} {remaining : List Slot}
    {stack : List Walk.Frame} {state : State}
    (placed : Placed stack state (.node node parent remaining)) :
    Between node (scopeAlong {} (parent.toList ++ trailOf stack)) state.scopes := by
  obtain ⟨before, begun, around⟩ := placed
  obtain ⟨outer, done, -, outside, arranged⟩ := scopes_of_begun begun around
  exact ⟨outer, _, arranged, outside, rfl⟩

theorem trailOf_node (node : Node) (parent : Walk.Parent) (remaining : List Slot)
    (stack : List Walk.Frame) :
    trailOf (.node node parent remaining :: stack) = parent.toList ++ trailOf stack := by
  cases parent <;> rfl

theorem trailOf_sequence (owner : Node) (field : Field) (remaining : List Node)
    (stack : List Walk.Frame) :
    trailOf (.sequence owner field remaining :: stack) = trailOf stack := rfl

theorem placed_of_ongoing {root : Node} {start state : State} {stack : List Walk.Frame}
    (fresh : start.scopes = {}) (ongoing : Walk.Ongoing visitor root start stack state) :
    ∃ frame rest, stack = frame :: rest ∧ Placed rest state frame := by
  induction ongoing with
  | root begun =>
    refine ⟨_, _, rfl, start, begun, ?_⟩
    rw [fresh]
    rfl
  | @one owner child parent field remaining rest stack before state below begun ih =>
    obtain ⟨frame, others, same, placed⟩ := ih
    obtain ⟨rfl, rfl⟩ := List.cons.inj same
    refine ⟨_, _, rfl, before, begun, ?_⟩
    rw [(between_of_placed placed).part field, trailOf_node]
    rfl
  | @many owner parent field remaining done rest stack before state below visited ih =>
    obtain ⟨frame, others, same, placed⟩ := ih
    obtain ⟨rfl, rfl⟩ := List.cons.inj same
    rw [Walk.traverseAll_eq] at visited
    refine ⟨_, _, rfl, ?_⟩
    rw [Placed, trailOf_node]
    exact (between_of_placed placed).traverseParts visited
  | @item owner child field others rest stack before state below begun ih =>
    obtain ⟨frame, under, same, placed⟩ := ih
    obtain ⟨rfl, rfl⟩ := List.cons.inj same
    refine ⟨_, _, rfl, before, begun, ?_⟩
    rw [Between.part placed field, trailOf_sequence]
    rfl

/-- The recursion can be stopped at every moment of the walk. -/
theorem Reaches.ongoing {root : Node} {start state : State} {stack : List Walk.Frame}
    {ledger : Ledger} (reached : Reaches root start stack state ledger) :
    stack = [] ∨ Walk.Ongoing visitor root start stack state := by
  induction reached with
  | begun entered =>
    rcases Walk.enter_eq_ok entered with ⟨visited, rfl⟩ | ⟨-, rfl⟩
    · exact .inr (.root (.of_enter visited))
    · exact .inl rfl
  | stepped _ step ih =>
    rcases ih with empty | ongoing
    · simp at empty
    · exact ongoing.of_step step

section Leaving

variable {root node : Node} {start state : State} {trail : Trail} {ledger : Ledger}

theorem Leaving.placed (leaving : Leaving root start trail node state ledger)
    (fresh : start.scopes = {}) :
    ∃ parent before, Walk.Begun visitor node parent before [] state ∧
      (slotEntered parent before.scopes).current.bare = scopeAlong {} trail := by
  obtain ⟨reached⟩ := leaving
  rcases reached.ongoing with empty | ongoing
  · simp at empty
  obtain ⟨frame, rest, same, placed⟩ := placed_of_ongoing fresh ongoing
  obtain ⟨rfl, rfl⟩ := List.cons.inj same
  exact ⟨_, placed⟩

/-- The records when a node is left: its own one, which has taken what its parts take, on
top of one of the kind of its scope. -/
theorem Leaving.scopes (leaving : Leaving root start trail node state ledger)
    (fresh : start.scopes = {}) :
    ∃ outer, outer.current.bare = scopeAlong {} trail ∧
      state.scopes = inside node outer (ownRecord node (scopeAlong {} trail)) := by
  obtain ⟨parent, before, begun, around⟩ := leaving.placed fresh
  obtain ⟨outer, done, split, outside, arranged⟩ := scopes_of_begun begun around
  rw [List.append_nil] at split
  refine ⟨outer, outside, ?_⟩
  rw [arranged, ← split]
  rfl

/-- The record that is dropped when a construct is left, and the kind of the one below. -/
theorem Leaving.pop (leaving : Leaving root start trail node state ledger)
    (fresh : start.scopes = {}) (opens : node.opensScope = true) :
    state.scopes.pop.1 = ownRecord node (scopeAlong {} trail) ∧
      state.scopes.pop.2.current.bare = scopeAlong {} trail := by
  obtain ⟨outer, around, arranged⟩ := leaving.scopes fresh
  rw [arranged, inside, if_pos opens, ← around]
  refine ⟨rfl, ?_⟩
  by_cases arrow : (ownRecord node outer.current.bare).isArrow <;>
    simp [Scopes.push, Scopes.pop, arrow]

/-- The kind of the record on top when a node that is no construct is left. -/
theorem Leaving.current (leaving : Leaving root start trail node state ledger)
    (fresh : start.scopes = {}) (plain : node.opensScope = false) :
    state.scopes.current.bare = scopeAlong {} trail := by
  obtain ⟨outer, around, arranged⟩ := leaving.scopes fresh
  rw [arranged, inside, plain]
  exact around

theorem Leaving.leads (leaving : Leaving root start trail node state ledger)
    (fresh : start.scopes = {}) : Leads root trail node := by
  cases leaving with
  | @node _ parent stack _ _ reached =>
    obtain ⟨empty, -⟩ | ⟨trail, current, opened, -⟩ := reached.arranged fresh
    · simp at empty
    obtain ⟨rfl, -, -⟩ := opened.outer
    rw [← trailOf_node current parent [] stack, opened.trail_eq]
    exact opened.leads

end Leaving

/-! ### Every node is left -/

/-- A node is left at some moment of a walk, and leaving it succeeds. -/
def Left (root : Node) (start : State) (trail : Trail) (node : Node) : Prop :=
  ∃ state ledger after, Leaving root start trail node state ledger ∧
    leave node trail.head? state = .ok () after

/-- The walk comes back from a subtree whose visit succeeds, and every node of it is left on
the way. -/
def Passes (root : Node) (start : State) (node : Node) : Prop :=
  ∀ (parent : Walk.Parent) (stack : List Walk.Frame) (first state after : State) (ledger : Ledger),
    Reaches root start (.node node parent node.slots :: stack) first ledger →
    visitor.enter node parent state = .ok .descend first →
    Walk.traverse visitor node parent state = .ok () after →
    (∃ later, Reaches root start stack after later) ∧
      ∀ inner below, Leads node inner below →
        Left root start (inner ++ (parent.toList ++ trailOf stack)) below

section Passes

variable {root : Node} {start : State}

/-- The next node to enter is passed. -/
theorem Passes.next {child : Node} {slot : Node × Field} {frame : Walk.Frame}
    {stack next : List Walk.Frame} {state after : State} {ledger : Ledger}
    (passes : Passes root start child)
    (reached : Reaches root start (frame :: stack) state ledger)
    (entering : Walk.step visitor frame stack = Walk.enter visitor child (some slot) next)
    (visited : Walk.traverse visitor child (some slot) state = .ok () after) :
    (∃ later, Reaches root start next after later) ∧
      ∀ inner below, Leads child inner below →
        Left root start (inner ++ slot :: trailOf next) below := by
  have entered := enter_apply child (some slot) state
  have stepped := Walk.enter_of_ok visitor next entered
  rw [← entering] at stepped
  exact passes _ _ _ _ _ _ (reached.stepped stepped) entered visited

theorem passes_all {owner : Node} {field : Field} {nodes : List Node} {stack : List Walk.Frame}
    {state after : State} {ledger : Ledger} (children : ∀ child ∈ nodes, Passes root start child)
    (reached : Reaches root start (.sequence owner field nodes :: stack) state ledger)
    (visited : Walk.traverseAll visitor owner field nodes state = .ok () after) :
    (∃ later, Reaches root start stack after later) ∧
      ∀ child ∈ nodes, ∀ inner below, Leads child inner below →
        Left root start (inner ++ (owner, field) :: trailOf stack) below := by
  induction nodes generalizing state ledger with
  | nil =>
    obtain rfl : state = after := by
      simpa [Walk.traverseAll, pure, EStateM.pure] using visited
    exact ⟨⟨_, reached.stepped rfl⟩, by simp⟩
  | cons child rest ih =>
    rw [Walk.traverseAll] at visited
    obtain ⟨_, middle, first, others⟩ := Walk.bind_eq_ok visited
    obtain ⟨⟨later, between⟩, here⟩ := (children child (by simp)).next reached rfl first
    obtain ⟨finished, there⟩ := ih (fun other member => children other (by simp [member])) between others
    refine ⟨finished, fun other member => ?_⟩
    rcases List.mem_cons.mp member with rfl | member
    · exact here
    · exact there other member

theorem passes_slots {owner : Node} {parent : Walk.Parent} {slots : List Slot}
    {stack : List Walk.Frame} {state after : State} {ledger : Ledger}
    (children : ∀ part ∈ slots.flatMap Slot.parts, Passes root start part.2)
    (reached : Reaches root start (.node owner parent slots :: stack) state ledger)
    (visited : Walk.traverseSlots visitor owner slots state = .ok () after) :
    (∃ later, Reaches root start (.node owner parent [] :: stack) after later) ∧
      ∀ part ∈ slots.flatMap Slot.parts, ∀ inner below, Leads part.2 inner below →
        Left root start (inner ++ (owner, part.1) :: (parent.toList ++ trailOf stack)) below := by
  induction slots generalizing state ledger with
  | nil =>
    obtain rfl : state = after := by
      simpa [Walk.traverseSlots, pure, EStateM.pure] using visited
    exact ⟨⟨_, reached⟩, by simp⟩
  | cons slot rest ih =>
    rw [Walk.traverseSlots] at visited
    obtain ⟨_, middle, first, others⟩ := Walk.bind_eq_ok visited
    rw [List.flatMap_cons] at children
    have within (part) (member : part ∈ slot.parts) := children part (List.mem_append_left _ member)
    obtain ⟨⟨later, between⟩, here⟩ :
        (∃ later, Reaches root start (.node owner parent rest :: stack) middle later) ∧
          ∀ part ∈ slot.parts, ∀ inner below, Leads part.2 inner below →
            Left root start (inner ++ (owner, part.1) :: (parent.toList ++ trailOf stack)) below := by
      cases slot with
      | leaf field =>
        obtain rfl : state = middle := by
          simpa [Walk.traverseSlot, pure, EStateM.pure] using first
        exact ⟨⟨_, reached.stepped rfl⟩, by simp [Slot.parts]⟩
      | one field child =>
        have passed := (within (field, child) (by simp [Slot.parts])).next reached rfl
          (by rw [Walk.traverseSlot] at first; exact first)
        rw [trailOf_node] at passed
        simpa [Slot.parts] using passed
      | many field nodes =>
        have passed := passes_all (fun child member => within (field, child) (by simpa [Slot.parts]))
          (reached.stepped rfl) (by rw [Walk.traverseSlot] at first; exact first)
        rw [trailOf_node] at passed
        simpa [Slot.parts] using passed
    obtain ⟨finished, there⟩ :=
      ih (fun part member => children part (List.mem_append_right _ member)) between others
    refine ⟨finished, fun part member => ?_⟩
    rcases List.mem_append.mp (by rwa [List.flatMap_cons] at member) with member | member
    · exact here part member
    · exact there part member

theorem passes (fresh : start.scopes = {}) (node : Node) : Passes root start node := by
  induction node using Node.parts_induction with
  | _ node ih =>
    intro parent stack first state after ledger reached entered visited
    rw [Walk.traverse_eq, Walk.bind_of_ok _ entered] at visited
    obtain ⟨_, last, parts, left⟩ := Walk.bind_eq_ok visited
    obtain ⟨⟨later, leaving⟩, below⟩ :=
      passes_slots ih reached (by rw [Walk.traverseSlots_eq]; exact parts)
    have here : Left root start (parent.toList ++ trailOf stack) node := by
      refine ⟨last, later, after, .node leaving, ?_⟩
      obtain ⟨empty, -⟩ | ⟨trail, current, opened, -⟩ := leaving.arranged fresh
      · simp at empty
      obtain ⟨rfl, rfl, -⟩ := opened.outer
      rw [← trailOf_node current _ [] stack, opened.trail_eq]
      exact left
    have stepped : Walk.step visitor (.node node parent []) stack last = .ok stack after := by
      rw [Walk.step, Walk.bind_of_ok _ left]
      rfl
    refine ⟨⟨_, leaving.stepped stepped⟩, fun inner deeper leads => ?_⟩
    obtain ⟨rfl, rfl⟩ | ⟨part, member, trail, under, rfl⟩ := leads_iff.mp leads
    · exact here
    · simpa using below part member trail deeper under

/-- Every node of a tree is left in a walk that succeeds. -/
theorem left_of_walk {final : State} {trail : Trail} {node : Node} (fresh : start.scopes = {})
    (walked : Walk.walk visitor root start = .ok () final) (leads : Leads root trail node) :
    Left root start trail node := by
  rw [Walk.walk_eq_traverse_apply] at walked
  have entered := enter_apply root none start
  have begun := Walk.enter_of_ok visitor [] entered
  simpa [trailOf] using (passes fresh root _ _ _ _ _ _ (.begun begun) entered walked).2 trail node leads

end Passes

/-! ### What is passed to a generator -/

/-- The names of a generator's parameters. -/
def parameters (scope : Scope) : List Text :=
  (if scope.usesArguments then ["arguments".toList] else [])
    ++ (if scope.usesSuper then ["$uper".toList] else [])
    ++ (if scope.assignsSuper then ["$uperEq".toList] else [])

/-- What is passed for them. -/
def passed (scope : Scope) (inherited : Bool) : List Text :=
  (if scope.usesArguments then ["arguments".toList] else [])
    ++ (if scope.usesSuper then
        [if inherited then "$uper".toList else "p=>super[p]".toList] else [])
    ++ (if scope.assignsSuper then
        [if inherited then "$uperEq".toList else "(p,v)=>(super[p]=v)".toList] else [])

theorem bindings_eq (scope : Scope) (inherited : Bool) :
    bindings scope inherited =
      (Text.joined [','] (parameters scope), Text.joined [','] (passed scope inherited)) := by
  unfold bindings parameters passed
  cases scope.usesArguments <;> cases scope.usesSuper <;> cases scope.assignsSuper <;>
    cases inherited <;> rfl

/-- The call that closes the generator of a function at the end of its body. -/
def closer (node body : Node) (closing : Text) : Edit.Operation :=
  if node.is .arrowFunctionExpression then
    if body.is .blockStatement then .overwrite (offsetBefore body.stop) body.stop closing
    else .insertBefore body.stop closing
  else .insertBefore (offsetBefore body.stop) closing

theorem Effect.mem_edits_andThen {first second : Effect} {edit : Edit.Operation}
    (member : edit ∈ (first.andThen second).edits) : edit ∈ first.edits ∨ edit ∈ second.edits := by
  cases failed : first.failure with
  | none => simpa [Effect.edits_andThen second failed] using member
  | some failure => exact .inl (by simpa [Effect.andThen, failed] using member)

/-- The edits of a function open its generator, and the last one closes it. -/
theorem edits_functionEffect {reading : Reading} {scope outer : Scope} {node body : Node}
    (found : node.child? .body = some body)
    (done : (functionEffect reading scope outer node).failure = none) :
    (∃ edit ∈ (functionEffect reading scope outer node).edits,
      generatorOpening scope (Text.joined [','] (parameters scope)) <:+ edit.text) ∧
    (functionEffect reading scope outer node).edits.getLast? =
      some (closer node body (generatorClosing scope (Text.joined [',']
        (passed scope (scope.isArrow && (outer.isAsync && !outer.inParams)))))) := by
  simp only [functionEffect, found, bindings_eq] at done ⊢
  obtain ⟨wrapped, -⟩ := by simpa only [Effect.failure_andThen] using done
  rw [Effect.edits_andThen _ wrapped]
  by_cases arrow : node.is .arrowFunctionExpression
  · simp only [arrow, if_true] at wrapped ⊢
    obtain ⟨stripped, closed⟩ := by simpa only [Effect.failure_andThen] using wrapped
    rw [Effect.edits_andThen _ stripped, closer, if_pos arrow]
    unfold wrapArrowEffect at closed ⊢
    split
    · refine ⟨⟨.overwrite body.start (body.start + 1)
          (generatorOpening scope (Text.joined [','] (parameters scope))), ?_, List.suffix_rfl⟩, ?_⟩ <;>
        simp [Effect.ofEdits, Effect.noting]
    · cases given : reading.tokens.findBackward body.start "=>".toList with
      | none => simp_all [Effect.failing]
      | some index =>
        refine ⟨⟨.insertBefore (((reading.tokens.get? index).map Span.stop).getD body.start)
          (generatorOpening scope (Text.joined [','] (parameters scope))), ?_, List.suffix_rfl⟩, ?_⟩ <;>
        simp [Effect.ofEdits, Effect.noting]
  · simp only [arrow, Bool.false_eq_true, if_false] at wrapped ⊢
    obtain ⟨stripped, -⟩ := by simpa only [Effect.failure_andThen] using wrapped
    rw [Effect.edits_andThen _ stripped, closer, if_neg arrow]
    refine ⟨⟨.insertBefore (body.start + 1)
        ("return ".toList ++ generatorOpening scope (Text.joined [','] (parameters scope))), ?_,
        List.suffix_append _ _⟩, ?_⟩ <;>
      simp [Effect.ofEdits, Effect.noting]

/-- The generator is called with the receiver of the function if its code needs that. -/
theorem call_prefix_closing (scope : Scope) (arguments : Text) :
    "\x7d.call(this".toList <+: generatorClosing scope arguments ↔ scope.usesThis = true := by
  unfold generatorClosing
  cases scope.usesThis with
  | false => simp
  | true =>
    simp only [if_true, iff_true]
    split
    · exact ⟨"))".toList, rfl⟩
    · exact ⟨',' :: arguments ++ "))".toList, by simp⟩

theorem arguments_mem_passed (scope : Scope) (inherited : Bool) :
    "arguments".toList ∈ passed scope inherited ↔ scope.usesArguments = true := by
  unfold passed
  cases scope.usesArguments <;> cases scope.usesSuper <;> cases scope.assignsSuper <;>
    cases inherited <;> decide

/-- Whether the construct whose record is on top passes on the accessors of the scope around
it. -/
def inherits (scopes : Scopes) : Bool :=
  scopes.pop.1.isArrow && scopes.pop.2.replacesSuper

/-- What leaving an async function does to the text: its generator is opened with the
parameters of its record, and at last closed with what is passed for them. -/
theorem perform_of_leave {node body : Node} {parent : Walk.Parent} {state after : State}
    (opens : node.opensScope = true) (async : state.scopes.pop.1.isAsync = true)
    (function : node.kind.isFunctionLike = true) (found : node.child? .body = some body)
    (left : leave node parent state = .ok () after) :
    ∃ edits, state.buffer.perform edits = .ok after.buffer ∧
      (∃ edit ∈ edits, generatorOpening state.scopes.pop.1
        (Text.joined [','] (parameters state.scopes.pop.1)) <:+ edit.text) ∧
      edits.getLast? = some (closer node body (generatorClosing state.scopes.pop.1
        (Text.joined [','] (passed state.scopes.pop.1 (inherits state.scopes))))) := by
  rw [leave] at left
  obtain ⟨_, middle, lowered, outside⟩ := Walk.bind_eq_ok left
  rw [leaveSlot_apply] at outside
  obtain ⟨-, rfl⟩ := EStateM.Result.ok.inj outside
  have done := result_of_ok lowered
  rw [result_lowerNode_of_opensScope node parent state opens, dropEffect, async, function] at done
  obtain ⟨succeeds, performed, -⟩ := Effect.apply_eq_ok done
  exact ⟨_, performed, edits_functionEffect found succeeds⟩

/-! ### Exactness -/

/-- Whether a node is the name `arguments`. -/
def saysArguments (node : Node) : Bool := node.is .identifier && node.hasName "arguments".toList

/-- Whether slots lead into the body of an async construct, where members of `super` are
replaced. -/
def inLoweredBody (trail : Trail) : Bool :=
  (home trail).head?.any fun slot => slot.1.flags.isAsync && slot.2 != .params

/-- Whether a node at the end of a trail needs the receiver: it is `this`, or a member of
`super` that is replaced and called. -/
def needsReceiver (trail : Trail) (node : Node) : Bool :=
  node.is .thisExpression ||
    node.is .superMember && inLoweredBody trail && (calledBy? trail.head?).isSome

/-- Some node below a construct has a need that reaches the record of the construct. -/
def Needed (construct : Node) (needs : Trail → Node → Bool) : Prop :=
  ∃ trail node, Leads construct trail node ∧ reachesRecord trail = true ∧ needs trail node = true

theorem replaces_scopeAlong (trail : Trail) :
    ((scopeAlong {} trail).isAsync && !(scopeAlong {} trail).inParams) = inLoweredBody trail := by
  rw [scopeAlong_eq, inLoweredBody]
  cases (home trail).head? with
  | none => rfl
  | some slot => rfl

theorem isWritten_of_called {parent : Walk.Parent} (called : (calledBy? parent).isSome = true) :
    isWritten parent = false := by
  unfold calledBy? at called
  split at called
  · rfl
  · simp at called

theorem takes_arguments_contribution (scope : Scope) (node : Node) (parent : Walk.Parent) :
    (contribution scope node parent).takes .arguments = saysArguments node := by
  have rule : (ruleTaken scope node parent).usesArguments = false := by
    unfold ruleTaken
    split
    · split <;> rfl
    · split <;> rfl
    · split <;> rfl
    · rfl
  rw [contribution, Scope.takes_charge, Scope.takes, Scope.takes, rule, Bool.or_false, captured,
    saysArguments, Node.is]
  cases node.kind
  case identifier => cases node.hasName "arguments".toList <;> rfl
  all_goals rfl

theorem takes_receiver_contribution (trail : Trail) (node : Node) :
    (contribution (scopeAlong {} trail) node trail.head?).takes .receiver =
      needsReceiver trail node := by
  rw [contribution, Scope.takes_charge, Scope.takes, Scope.takes, needsReceiver, captured, ruleTaken,
    replaces_scopeAlong, Node.is, Node.is]
  cases node.kind
  case superMember =>
    cases called : (calledBy? trail.head?).isSome with
    | false => cases inLoweredBody trail && !isWritten trail.head? <;> simp
    | true => cases inLoweredBody trail <;> simp [isWritten_of_called called]
  case identifier => cases node.hasName "arguments".toList <;> rfl
  case assignmentExpression =>
    cases superTarget? { current := scopeAlong {} trail } node .left <;>
      cases node.child? .right <;> rfl
  case updateExpression =>
    cases superTarget? { current := scopeAlong {} trail } node .argument <;> rfl
  all_goals rfl

/-- In a walk that succeeds every construct with a record is left, and the record that is
dropped then says exactly what is needed below the construct: the arguments, if the name
`arguments` stands there and only arrows lead out to the construct, and the receiver, if so
does `this` or a member of `super` that is called in a body where members are replaced. The
generator of a lowered function is closed accordingly. -/
theorem record_takes_iff_needed (root : Node) (start final : State) (fresh : start.scopes = {})
    (walked : Walk.walk visitor root start = .ok () final) (trail : Trail) (construct : Node)
    (leads : Leads root trail construct) (opens : construct.opensScope = true) :
    Left root start trail construct ∧
    ∀ state ledger, Leaving root start trail construct state ledger →
      (state.scopes.pop.1.usesArguments = true ↔
        Needed construct fun _ node => saysArguments node) ∧
      (state.scopes.pop.1.usesThis = true ↔ Needed construct needsReceiver) ∧
      ∀ body after, construct.flags.isAsync = true → construct.kind.isFunctionLike = true →
        construct.child? .body = some body → leave construct trail.head? state = .ok () after →
        ∃ edits,
          let arguments := passed state.scopes.pop.1 (inherits state.scopes)
          let closing := generatorClosing state.scopes.pop.1 (Text.joined [','] arguments)
          state.buffer.perform edits = .ok after.buffer ∧
          edits.getLast? = some (closer construct body closing) ∧
          ("\x7d.call(this".toList <+: closing ↔ Needed construct needsReceiver) ∧
          ("arguments".toList ∈ arguments ↔ Needed construct fun _ node => saysArguments node) := by
  refine ⟨left_of_walk fresh walked leads, ?_⟩
  intro state ledger leaving
  obtain ⟨record, -⟩ := leaving.pop fresh opens
  have arguments : state.scopes.pop.1.usesArguments = true ↔
      Needed construct fun _ node => saysArguments node := by
    rw [record]
    have exact := takes_ownRecord construct (scopeAlong {} trail) {} .arguments
    simp only [takes_arguments_contribution] at exact
    exact exact
  have receiver : state.scopes.pop.1.usesThis = true ↔ Needed construct needsReceiver := by
    rw [record]
    have exact := takes_ownRecord construct (scopeAlong {} trail) {} .receiver
    simp only [takes_receiver_contribution] at exact
    exact exact
  refine ⟨arguments, receiver, ?_⟩
  intro body after async function found left
  have isAsync : state.scopes.pop.1.isAsync = true := by
    rw [record]
    exact async
  obtain ⟨edits, performed, -, last⟩ := perform_of_leave opens isAsync function found left
  exact ⟨edits, performed, last, (call_prefix_closing _ _).trans receiver,
    (arguments_mem_passed _ _).trans arguments⟩

/-- The receiver in `async function f(){async()=>this}`. -/
def nestedReceiver : Node := .plain .thisExpression ⟨28, 32⟩ []

/-- The arrow in `async function f(){async()=>this}`. -/
def nestedArrow : Node :=
  .mk { kind := .arrowFunctionExpression, span := ⟨19, 32⟩, flags := { isAsync := true } }
    [.one .body nestedReceiver]

/-- The function `async function f(){async()=>this}`. -/
def nestedFunction : Node :=
  .mk { kind := .functionDeclaration, span := ⟨0, 33⟩, flags := { isAsync := true } }
    [.one .body (.plain .blockStatement ⟨18, 33⟩ [.many .body [nestedArrow]])]

/-- A program that is this function. -/
def nestedProgram : Node := .plain .program ⟨0, 33⟩ [.one .body nestedFunction]

/-- The state before its walk. -/
def nestedStart : State :=
  let source := "async function f()\x7basync()=>this\x7d".toList
  .ofSource source ⟨source, #[⟨0, 5⟩, ⟨6, 14⟩, ⟨15, 16⟩, ⟨16, 17⟩, ⟨17, 18⟩, ⟨18, 19⟩, ⟨19, 24⟩,
    ⟨24, 25⟩, ⟨25, 26⟩, ⟨26, 28⟩, ⟨28, 32⟩, ⟨32, 33⟩]⟩ default false

/-- The walk of this program ends. -/
def nestedWalk : Evaluated (result (Walk.walk visitor nestedProgram) nestedStart)
    (fun final => final.buffer.code)
    ("function f()\x7breturn __async(function*()\x7b()=>" ++
      "__async(function*()\x7breturn this\x7d.call(this))\x7d.call(this))\x7d").toList :=
  .ofView (by decide +kernel)

/-- The receiver that an async arrow needs is passed to the generator of the function
around it. -/
theorem record_takes_iff_needed_nested :
    ∃ final, Walk.walk visitor nestedProgram nestedStart = .ok () final ∧
      final.buffer.code = ("function f()\x7breturn __async(function*()\x7b()=>" ++
        "__async(function*()\x7breturn this\x7d.call(this))\x7d.call(this))\x7d").toList ∧
      ∃ state ledger, Leaving nestedProgram nestedStart [(nestedProgram, .body)] nestedFunction
          state ledger ∧ state.scopes.pop.1.usesThis = true := by
  obtain ⟨final, done, code⟩ := nestedWalk
  have walked := of_result_eq_ok done
  have below : Leads nestedProgram [(nestedProgram, .body)] nestedFunction := .part .root (.head _)
  obtain ⟨⟨state, ledger, after, leaving, -⟩, exactly⟩ :=
    record_takes_iff_needed nestedProgram nestedStart final rfl walked _ nestedFunction below rfl
  refine ⟨final, walked, code, state, ledger, leaving, ?_⟩
  obtain ⟨-, receiver, -⟩ := exactly state ledger leaving
  rw [receiver]
  exact ⟨_, nestedReceiver, .part (.part (.part .root (.head _)) (.head _)) (.head _), rfl, rfl⟩

end Unawait.Lowering
