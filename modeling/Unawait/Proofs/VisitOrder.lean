import Mathlib
import Unawait.Proofs.Frontier
import Unawait.Proofs.HelperUsage

/-!
# The order of a walk

A walk leaves a node after all its parts. So the nodes of a tree have an order, in which the
rules are applied, and what a walk does is what the rules do in this order: the calls of a walk
are those of its nodes one after another, and a walk fails as the first node does whose rule
fails.

Loops are numbered in this order. The number of a lowered loop is the number of lowered loops
that are left before it, wherever in the tree these are.
-/

namespace Unawait.Lowering

open Edit (Operation)

/-! ### Nodes in the order in which they are left -/

/-- The nodes of a subtree in the order in which a walk leaves them, each with the slots that
lead to it. The given slots lead to the subtree. -/
def postorder : Node → Trail → List (Trail × Node) :=
  Node.fold fun node parts trail =>
    (parts.flatMap fun part => part.2 ((node, part.1.1) :: trail)) ++ [(trail, node)]

theorem postorder_eq (node : Node) (trail : Trail) :
    postorder node trail =
      (node.parts.flatMap fun part => postorder part.2 ((node, part.1) :: trail)) ++
        [(trail, node)] := by
  rw [postorder, Node.fold_eq, List.flatMap_map]

theorem mem_postorder {node : Node} {outer : Trail} {visited : Trail × Node} :
    visited ∈ postorder node outer ↔
      ∃ inner, Leads node inner visited.2 ∧ visited.1 = inner ++ outer := by
  induction node using Node.parts_induction generalizing outer with
  | _ node ih =>
    rw [postorder_eq, List.mem_append, List.mem_flatMap, List.mem_singleton]
    constructor
    · rintro (⟨part, held, inside⟩ | rfl)
      · obtain ⟨inner, leads, same⟩ := (ih part held).mp inside
        exact ⟨inner ++ [(node, part.1)], leads_iff.mpr (.inr ⟨part, held, inner, leads, rfl⟩),
          by simp [same]⟩
      · exact ⟨[], .root, rfl⟩
    · rintro ⟨inner, leads, same⟩
      obtain ⟨rfl, whole⟩ | ⟨part, held, below, deeper, rfl⟩ := leads_iff.mp leads
      · exact .inr (Prod.ext same whole)
      · exact .inl ⟨part, held, (ih part held).mpr ⟨below, deeper, by simp [same]⟩⟩

/-- All nodes of a tree are left. -/
theorem mem_postorder_iff_leads {root : Node} {visited : Trail × Node} :
    visited ∈ postorder root [] ↔ Leads root visited.1 visited.2 := by
  simp [mem_postorder]

/-! ### Places along slots -/

/-- The place at the end of slots. -/
def Place.along (trail : Trail) (number : Nat) : Place := ⟨scopeAlong {} trail, trail.head?, number⟩

/-- The effect of leaving a node, where a number of loops was lowered before. -/
def leavingEffect (reading : Reading) (visited : Trail × Node) (number : Nat) : Effect :=
  let scope := scopeAlong {} visited.1
  if visited.2.opensScope then dropEffect reading (ownRecord visited.2 scope) scope visited.2
  else ruleEffect reading scope number visited.2 visited.1.head?

/-- Whether a node is a loop that is lowered. -/
def isLoweredLoop (visited : Trail × Node) : Bool := lowersLoop (scopeAlong {} visited.1) visited.2

/-- Whether a loop is lowered can be read off the slots that lead to it. -/
theorem isLoweredLoop_iff {visited : Trail × Node} :
    isLoweredLoop visited = true ↔
      inAsyncScope visited.1 = true ∧ visited.2.is .forOfStatement = true ∧
        visited.2.flags.isAwait = true ∧ (visited.2.child? .left).isSome = true ∧
        (visited.2.child? .right).isSome = true ∧ (visited.2.child? .body).isSome = true := by
  rw [isLoweredLoop, lowersLoop, isAsync_scopeAlong]
  simp only [Bool.and_eq_true]
  tauto

theorem nodeEffect_along (reading : Reading) (node : Node) (trail : Trail) (number : Nat) :
    nodeEffect reading node (.along trail number) =
      leavingEffect reading (trail, node)
        (number + loopsInParts node (scopeAlong {} trail) node.parts) := rfl

/-- Lowered loops of a subtree are counted in its order. -/
theorem loopsIn_eq_countP (node : Node) (trail : Trail) :
    loopsIn node (scopeAlong {} trail) = (postorder node trail).countP isLoweredLoop := by
  induction node using Node.parts_induction generalizing trail with
  | _ node ih =>
    rw [loopsIn_eq, postorder_eq, List.countP_append, List.countP_flatMap, List.countP_singleton,
      loopsInParts]
    congr 2
    apply List.map_congr_left
    intro part held
    exact ih part held ((node, part.1) :: trail)

/-- The number of lowered loops in the parts of a node. -/
theorem loopsInParts_eq_countP (node : Node) (trail : Trail) (parts : List (Field × Node)) :
    loopsInParts node (scopeAlong {} trail) parts =
      (parts.flatMap fun part => postorder part.2 ((node, part.1) :: trail)).countP
        isLoweredLoop := by
  rw [loopsInParts, List.countP_flatMap]
  congr 1
  apply List.map_congr_left
  intro part held
  exact loopsIn_eq_countP part.2 ((node, part.1) :: trail)

/-- The nodes of a tree that fits its text lie inside it and fit it too. -/
theorem inside_of_leads {tokens : Tokens} {node inner : Node} {trail : Trail}
    (wellFormed : node.wellFormed tokens = true) (leads : Leads node trail inner) :
    inner.wellFormed tokens = true ∧ node.start ≤ inner.start ∧ inner.stop ≤ node.stop := by
  induction leads with
  | root => exact ⟨wellFormed, le_rfl, le_rfl⟩
  | part above held ih =>
    obtain ⟨fits, first, last⟩ := ih
    obtain ⟨nested, -, parts⟩ := (Node.wellFormed_iff _ _).mp fits
    obtain ⟨low, high⟩ := nested.2.1 _ held
    exact ⟨parts _ held, first.trans low, high.trans last⟩

/-- A node of a tree that fits its text fits it too, and so does its parent. -/
theorem Fit.along {reading : Reading} {root node : Node} {trail : Trail} (fit : Fit reading root {})
    (leads : Leads root trail node) (number : Nat) :
    Fit reading node (.along trail number) := by
  induction leads with
  | root => exact ⟨fit.wellFormed, by simp [Seated, Place.along]⟩
  | @part trail owner child field above held ih =>
    obtain ⟨nested, shaped, parts⟩ := (Node.wellFormed_iff _ _).mp ih.wellFormed
    refine ⟨parts _ held, ?_⟩
    rintro slot ⟨rfl⟩
    exact ⟨held, nested, shaped⟩

theorem children_of_isLoweredLoop {visited : Trail × Node} (lowered : isLoweredLoop visited = true) :
    ∃ left right body, visited.2.child? .left = some left ∧ visited.2.child? .right = some right ∧
      visited.2.child? .body = some body := by
  obtain ⟨-, -, -, hasLeft, hasRight, hasBody⟩ := isLoweredLoop_iff.mp lowered
  obtain ⟨left, target⟩ := Option.isSome_iff_exists.mp hasLeft
  obtain ⟨right, iterable⟩ := Option.isSome_iff_exists.mp hasRight
  obtain ⟨body, inner⟩ := Option.isSome_iff_exists.mp hasBody
  exact ⟨left, right, body, target, iterable, inner⟩

/-- A lowered loop is left by the rule for loops. -/
theorem leavingEffect_of_isLoweredLoop {visited : Trail × Node}
    (lowered : isLoweredLoop visited = true) (reading : Reading) (number : Nat)
    {left right body : Node}
    (target : visited.2.child? .left = some left) (iterable : visited.2.child? .right = some right)
    (inner : visited.2.child? .body = some body) :
    leavingEffect reading visited number =
      match findParticles reading.tokens visited.2 body with
      | .error failure => .failing failure
      | .ok particles =>
        (Effect.ofEdits (loopEdits number (scopeAlong {} visited.1).isAsyncGenerator
          (wrapStart visited.2 visited.1.head?) particles visited.2 left right body)).andThen
            (.noting { forAwait := true } 1) := by
  obtain ⟨async, kind, awaits, -⟩ := isLoweredLoop_iff.mp lowered
  have named : visited.2.kind = .forOfStatement := by simpa [Node.is] using kind
  have plain : visited.2.opensScope = false := by
    simp [Node.opensScope, Node.is, named, Kind.ownsReceiver]
  have isAsync : (scopeAlong {} visited.1).isAsync = true :=
    (isAsync_scopeAlong visited.1).trans async
  cases found : findParticles reading.tokens visited.2 body <;>
    simp [leavingEffect, plain, ruleEffect, named, awaits, loopEffect, isAsync, target, iterable,
      inner, found]

/-- The keyword of a lowered loop, in a tree that fits its text. -/
theorem keyword_of_isLoweredLoop {reading : Reading} {node : Node} {place : Place} {trail : Trail}
    (fit : Fit reading node place) (lowered : isLoweredLoop (trail, node) = true) :
    Shape.Loop reading.tokens node ∧
      node.HasParticle reading.tokens ⟨node.start, node.start + 3⟩ "for" := by
  obtain ⟨-, kind, awaits, -⟩ := isLoweredLoop_iff.mp lowered
  have named : node.kind = .forOfStatement := by simpa [Node.is] using kind
  have shape : Shape.Loop reading.tokens node := by
    simpa [Node.shaped, named, show node.flags.isAwait = true from awaits] using
      ((Node.wellFormed_iff _ _).mp fit.wellFormed).2.1
  obtain ⟨left, right, body, target, iterable, inner⟩ := children_of_isLoweredLoop lowered
  exact ⟨shape, (shape left target right iterable body inner).2.1⟩

/-- The calls for a lowered loop, in a tree that fits its text. -/
theorem edits_of_isLoweredLoop {reading : Reading} {root node : Node} {trail : Trail}
    (ordered : reading.tokens.Ordered) (fit : Fit reading root {}) (leads : Leads root trail node)
    (lowered : isLoweredLoop (trail, node) = true) :
    ∃ particles left right body, node.child? .left = some left ∧ node.child? .right = some right ∧
      node.child? .body = some body ∧
      LoopFits node (labelledAt? trail.head?) particles left right body ∧
      ∀ number, (leavingEffect reading (trail, node) number).edits =
        loopEdits number (scopeAlong {} trail).isAsyncGenerator (wrapStart node trail.head?) particles
          node left right body := by
  obtain ⟨-, kind, awaits, -⟩ := isLoweredLoop_iff.mp lowered
  obtain ⟨left, right, body, target, iterable, inner⟩ := children_of_isLoweredLoop lowered
  have fits := fit.along leads 0
  obtain ⟨shape, -, first, wide, last, -⟩ := keyword_of_isLoweredLoop fits lowered
  obtain ⟨particles, found, loopFits⟩ := findParticles_ok ordered shape target iterable inner
  have nonempty : node.start < node.stop := by
    dsimp only at last
    omega
  refine ⟨particles, left, right, body, target, iterable, inner,
    loopFits _ (labelledAt_lt fits.seated kind awaits nonempty), fun number => ?_⟩
  rw [leavingEffect_of_isLoweredLoop lowered reading number target iterable inner]
  simp [found, Effect.ofEdits, Effect.andThen, Effect.noting]

/-! ### Loops in order -/

/-- Nodes one after another, each with the number of loops that were lowered before it. -/
def numberedFrom : Nat → List (Trail × Node) → List ((Trail × Node) × Nat)
  | _, [] => []
  | number, visited :: rest =>
    (visited, number) :: numberedFrom (number + if isLoweredLoop visited then 1 else 0) rest

theorem numberedFrom_append (number : Nat) (first second : List (Trail × Node)) :
    numberedFrom number (first ++ second) =
      numberedFrom number first ++ numberedFrom (number + first.countP isLoweredLoop) second := by
  induction first generalizing number with
  | nil => rfl
  | cons visited rest ih =>
    simp only [List.cons_append, numberedFrom, ih, List.countP_cons]
    rw [Nat.add_assoc, Nat.add_comm (ite _ _ _)]

theorem numberedFrom_fst (number : Nat) (order : List (Trail × Node)) :
    (numberedFrom number order).map Prod.fst = order := by
  induction order generalizing number with
  | nil => rfl
  | cons visited rest ih => simp [numberedFrom, ih]

/-- The calls of a subtree are those of its nodes in order, with their loops numbered. -/
theorem calls_eq_postorder (reading : Reading) (node : Node) (trail : Trail) (number : Nat) :
    calls reading (node, .along trail number) =
      (numberedFrom number (postorder node trail)).flatMap fun visit =>
        (leavingEffect reading visit.1 visit.2).edits := by
  induction node using Node.parts_induction generalizing trail number with
  | _ node ih =>
    have inside : ∀ parts ⊆ node.parts, ∀ number,
        partsScript reading false (placesFrom node (scopeAlong {} trail) number parts) =
          (numberedFrom number (parts.flatMap fun part =>
            postorder part.2 ((node, part.1) :: trail))).flatMap fun visit =>
              (leavingEffect reading visit.1 visit.2).edits := by
      intro parts held number
      induction parts generalizing number with
      | nil => rfl
      | cons part rest restInside =>
        obtain ⟨member, others⟩ := List.cons_subset.mp held
        have here := ih part member ((node, part.1) :: trail) number
        rw [List.flatMap_cons, numberedFrom_append, List.flatMap_append, ← here,
          ← restInside others, ← loopsIn_eq_countP]
        rfl
    rw [calls, script_eq, postorder_eq, numberedFrom_append, List.flatMap_append,
      ← inside node.parts (List.Subset.refl _), nodeEffect_along, loopsInParts_eq_countP]
    simp [markEdits, numberedFrom, places, Place.along]

/-! ### The first failure -/

theorem Effect.failure_andThen_eq (first second : Effect) :
    (first.andThen second).failure = first.failure.or second.failure := by
  cases failed : first.failure <;> simp [Effect.andThen, failed]

/-- Whether the rule for a loop fails does not depend on the number of the loop. -/
theorem failure_leavingEffect (reading : Reading) (visited : Trail × Node) (number : Nat) :
    (leavingEffect reading visited number).failure = (leavingEffect reading visited 0).failure := by
  have loop (scope : Scope) (node : Node) (parent : Walk.Parent) :
      (loopEffect reading scope number node parent).failure =
        (loopEffect reading scope 0 node parent).failure := by
    unfold loopEffect
    repeat' split
    all_goals rfl
  unfold leavingEffect ruleEffect
  dsimp only
  split
  · rfl
  · split <;> try rfl
    split
    · exact loop _ _ _
    · rfl

/-- A visit fails as the first node does whose rule fails. -/
theorem failure_visitEffect_along (reading : Reading) (sourceMap : Bool) (node : Node)
    (trail : Trail) (number : Nat) :
    (visitEffect reading sourceMap node (.along trail number)).failure =
      (postorder node trail).findSome? fun visited => (leavingEffect reading visited 0).failure := by
  induction node using Node.parts_induction generalizing trail number with
  | _ node ih =>
    have inside : ∀ parts ⊆ node.parts, ∀ number,
        (partsEffect reading sourceMap
          (placesFrom node (scopeAlong {} trail) number parts)).failure =
          (parts.flatMap fun part => postorder part.2 ((node, part.1) :: trail)).findSome?
            fun visited => (leavingEffect reading visited 0).failure := by
      intro parts held number
      induction parts generalizing number with
      | nil => rfl
      | cons part rest restInside =>
        obtain ⟨member, others⟩ := List.cons_subset.mp held
        rw [List.flatMap_cons, List.findSome?_append, placesFrom, partsEffect_cons,
          Effect.failure_andThen_eq, restInside others]
        congr 1
        exact ih part member ((node, part.1) :: trail) number
    rw [visitEffect_eq, postorder_eq, List.findSome?_append, Effect.failure_andThen_eq,
      Effect.failure_andThen_eq, ← inside node.parts (List.Subset.refl _) number, nodeEffect_along]
    simp [Effect.ofEdits, Effect.scopeless, places, Place.along,
      failure_leavingEffect reading (trail, node)]

end Unawait.Lowering
