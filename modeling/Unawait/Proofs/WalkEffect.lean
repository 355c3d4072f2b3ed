import Mathlib
import Unawait.Proofs.ScopeChain

/-!
# The effect of a whole walk

What a walk does at a node depends on few things around the node: the kind of scope
that the node is evaluated in, the slot that it stands in, and the number of loops
lowered before it. These make up its place, and the places of a node's parts follow
from the node and its own place. So the effect of visiting a subtree is a function of
the subtree and its place: the marks of the node, the effects of its parts one after
another, and the effect of the rule for the node.

What a subtree takes from the scope that it is evaluated in, and the number of loops
in it, are functions of the tree alone; neither the source nor its tokens matter. The
walk is shown to let exactly this effect take place, from every state of the buffer.
-/

namespace Unawait

/-- A record without what was taken: the kind of a scope. -/
def Scope.bare (scope : Scope) : Scope :=
  { isAsync := scope.isAsync, isGenerator := scope.isGenerator, isArrow := scope.isArrow,
    inParams := scope.inParams }

@[simp] theorem Scope.bare_charge (scope taken : Scope) : (scope.charge taken).bare = scope.bare :=
  rfl

@[simp] theorem Scope.bare_ofNode (node : Node) : (Scope.ofNode node).bare = Scope.ofNode node :=
  rfl

/-- All that several records have taken. -/
def Scope.chargeAll (records : List Scope) : Scope := records.foldr Scope.charge {}

end Unawait

namespace Unawait.Lowering

open Edit (Operation)

/-! ### Places -/

/-- Where a node stands in a walk. -/
structure Place where
  /-- The kind of the scope in which the node is evaluated. -/
  scope : Scope := {}
  parent : Walk.Parent := none
  /-- The number of loops lowered before. -/
  number : Nat := 0

/-- The kind of the scope in which a part is evaluated, from that of its owner. -/
def scopeOf (scope : Scope) (slot : Node × Field) : Scope :=
  if belongs slot then { Scope.ofNode slot.1 with inParams := slot.2 == .params } else scope

/-- Whether a loop is lowered in a scope. -/
def lowersLoop (scope : Scope) (node : Node) : Bool :=
  node.is .forOfStatement && node.flags.isAwait && scope.isAsync && (node.child? .left).isSome
    && (node.child? .right).isSome && (node.child? .body).isSome

/-- The number of loops that are lowered in a subtree. -/
def loopsIn : Node → Scope → Nat :=
  Node.fold fun node parts scope =>
    (parts.map fun part => part.2 (scopeOf scope (node, part.1.1))).sum
      + if lowersLoop scope node then 1 else 0

/-- What a subtree takes from the scope that it is evaluated in. -/
def takenIn : Node → Scope → Walk.Parent → Scope :=
  Node.fold fun node parts scope parent =>
    let taken (own : Bool) := Scope.chargeAll
      ((parts.filter fun part => belongs (node, part.1.1) == own).map fun part =>
        part.2 (scopeOf scope (node, part.1.1)) (some (node, part.1.1)))
    if node.opensScope then
      (taken false).charge
        (if node.is .arrowFunctionExpression then (Scope.ofNode node).charge (taken true) else {})
    else ((captured node).charge (taken false)).charge (ruleTaken scope node parent)

/-- What the parts of a node take: those evaluated in the node's own scope, or the
others. -/
def partsTaken (node : Node) (scope : Scope) (own : Bool) (parts : List (Field × Node)) : Scope :=
  Scope.chargeAll ((parts.filter fun part => belongs (node, part.1) == own).map fun part =>
    takenIn part.2 (scopeOf scope (node, part.1)) (some (node, part.1)))

/-- The number of loops in the parts of a node. -/
def loopsInParts (node : Node) (scope : Scope) (parts : List (Field × Node)) : Nat :=
  (parts.map fun part => loopsIn part.2 (scopeOf scope (node, part.1))).sum

/-- The record of a construct when all its parts were visited. -/
def ownRecord (node : Node) (scope : Scope) : Scope :=
  (Scope.ofNode node).charge (partsTaken node scope true node.parts)

theorem loopsIn_eq (node : Node) (scope : Scope) :
    loopsIn node scope =
      loopsInParts node scope node.parts + if lowersLoop scope node then 1 else 0 := by
  rw [loopsIn, Node.fold_eq, List.map_map]
  rfl

theorem takenIn_eq (node : Node) (scope : Scope) (parent : Walk.Parent) :
    takenIn node scope parent =
      if node.opensScope then
        (partsTaken node scope false node.parts).charge
          (if node.is .arrowFunctionExpression then ownRecord node scope else {})
      else ((captured node).charge (partsTaken node scope false node.parts)).charge
        (ruleTaken scope node parent) := by
  rw [takenIn, Node.fold_eq]
  simp only [List.filter_map, List.map_map]
  rfl

/-- The places of parts from a number of loops on. -/
def placesFrom (node : Node) (scope : Scope) :
    Nat → List (Field × Node) → List ((Field × Node) × Place)
  | _, [] => []
  | number, part :: rest =>
    let inner := scopeOf scope (node, part.1)
    (part, ⟨inner, some (node, part.1), number⟩)
      :: placesFrom node scope (number + loopsIn part.2 inner) rest

/-- The parts of a node with their places. -/
def places (node : Node) (place : Place) : List ((Field × Node) × Place) :=
  placesFrom node place.scope place.number node.parts

/-- Give a node in a place a value that is made of the values of its parts in theirs. -/
def placedFold {α : Type} (compose : Node → Place → List (((Field × Node) × Place) × α) → α) :
    Node → Place → α :=
  Node.fold fun node parts place =>
    compose node place
      (List.zipWith (fun placed part => (placed, part.2 placed.2)) (places node place) parts)

theorem placesFrom_fst (node : Node) (scope : Scope) (number : Nat) (parts : List (Field × Node)) :
    (placesFrom node scope number parts).map Prod.fst = parts := by
  induction parts generalizing number with
  | nil => rfl
  | cons part rest ih => simp [placesFrom, ih]

theorem mem_placesFrom {node : Node} {scope : Scope} {number : Nat} {parts : List (Field × Node)}
    {placed : (Field × Node) × Place} (member : placed ∈ placesFrom node scope number parts) :
    placed.2.scope = scopeOf scope (node, placed.1.1) ∧
      placed.2.parent = some (node, placed.1.1) := by
  induction parts generalizing number with
  | nil => simp [placesFrom] at member
  | cons part rest ih =>
    rcases List.mem_cons.mp member with rfl | later
    · exact ⟨rfl, rfl⟩
    · exact ih later

theorem mem_parts_of_places {node : Node} {place : Place} {placed : (Field × Node) × Place}
    (member : placed ∈ places node place) : placed.1 ∈ node.parts := by
  rw [← placesFrom_fst node place.scope place.number node.parts]
  exact List.mem_map_of_mem member

theorem placedFold_eq {α : Type}
    (compose : Node → Place → List (((Field × Node) × Place) × α) → α) (node : Node)
    (place : Place) :
    placedFold compose node place =
      compose node place
        ((places node place).map fun placed => (placed, placedFold compose placed.1.2 placed.2)) := by
  rw [placedFold, Node.fold_eq]
  congr 1
  have same : node.parts = (places node place).map Prod.fst :=
    (placesFrom_fst node place.scope place.number node.parts).symm
  rw [same, List.map_map, List.zipWith_map_right, List.zipWith_self]
  rfl

/-! ### Effects of subtrees -/

namespace Effect

/-- An effect that leaves the records alone. -/
def scopeless (effect : Effect) : Effect := { effect with taken := {} }

/-- Several effects one after another. -/
def sequence (effects : List Effect) : Effect := effects.foldr andThen {}

end Effect

/-- The calls that ask for the places of a node's ends. -/
def markEdits (sourceMap : Bool) (node : Node) : List Operation :=
  if sourceMap then [.mark node.start, .mark node.stop] else []

/-- The effect of the rule for a node in a place, after its parts. -/
def nodeEffect (reading : Reading) (node : Node) (place : Place) : Effect :=
  if node.opensScope then dropEffect reading (ownRecord node place.scope) place.scope node
  else
    ruleEffect reading place.scope
      (place.number + loopsInParts node place.scope node.parts) node place.parent

/-- The effect of visiting a subtree. -/
def visitEffect (reading : Reading) (sourceMap : Bool) : Node → Place → Effect :=
  placedFold fun node place parts =>
    (Effect.ofEdits (markEdits sourceMap node)).andThen
      ((Effect.sequence (parts.map Prod.snd)).andThen (nodeEffect reading node place).scopeless)

/-- The effect of visiting parts one after another. -/
def partsEffect (reading : Reading) (sourceMap : Bool)
    (parts : List ((Field × Node) × Place)) : Effect :=
  Effect.sequence (parts.map fun placed => visitEffect reading sourceMap placed.1.2 placed.2)

section VisitEffect

variable (reading : Reading) (sourceMap : Bool)

theorem visitEffect_eq (node : Node) (place : Place) :
    visitEffect reading sourceMap node place =
      (Effect.ofEdits (markEdits sourceMap node)).andThen
        ((partsEffect reading sourceMap (places node place)).andThen
          (nodeEffect reading node place).scopeless) := by
  rw [visitEffect, placedFold_eq, List.map_map]
  rfl

@[simp] theorem partsEffect_nil : partsEffect reading sourceMap [] = {} := rfl

@[simp] theorem partsEffect_cons (placed : (Field × Node) × Place)
    (rest : List ((Field × Node) × Place)) :
    partsEffect reading sourceMap (placed :: rest) =
      (visitEffect reading sourceMap placed.1.2 placed.2).andThen
        (partsEffect reading sourceMap rest) := rfl

end VisitEffect

/-! ### What an effect does not depend on -/

theorem ruleEffect_bare (reading : Reading) (scope : Scope) (number : Nat) (node : Node)
    (parent : Walk.Parent) :
    ruleEffect reading scope.bare number node parent =
      ruleEffect reading scope number node parent := rfl

theorem dropEffect_bare (reading : Reading) (scope outer : Scope) (node : Node) :
    dropEffect reading scope outer.bare node = dropEffect reading scope outer node := rfl

namespace Effect

theorem loops_andThen {first : Effect} (second : Effect) (done : first.failure = none) :
    (first.andThen second).loops = first.loops + second.loops := by
  simp [andThen, done]

theorem loops_andThen_zero {first second : Effect} (here : first.loops = 0)
    (after : second.loops = 0) : (first.andThen second).loops = 0 := by
  cases failed : first.failure <;> simp [andThen, failed, here, after]

/-- An effect that leaves the records alone does the same whatever they are. -/
theorem apply_scopes {effect : Effect} (scopeless : effect.taken = {}) (state : State)
    (scopes : Scopes) :
    effect.apply { state with scopes } =
      effect.apply state >>= fun next => .ok { next with scopes } := by
  simp only [apply]
  cases state.buffer.perform effect.edits with
  | error refusal => rfl
  | ok buffer => cases effect.failure <;> simp [settle, scopeless]

/-- An effect changes the records only by what it takes. -/
theorem apply_scopeless (effect : Effect) (state : State) :
    effect.apply state =
      effect.scopeless.apply state >>= fun next =>
        .ok { next with scopes := state.scopes.charge effect.taken } := by
  simp only [apply, scopeless]
  cases state.buffer.perform effect.edits with
  | error refusal => rfl
  | ok buffer => cases effect.failure <;> simp [settle]

theorem taken_sequence {effects : List Effect} (scopeless : ∀ effect ∈ effects, effect.taken = {}) :
    (sequence effects).taken = {} := by
  induction effects with
  | nil => rfl
  | cons effect rest ih =>
    exact taken_andThen_empty (scopeless effect (by simp))
      (ih fun later member => scopeless later (by simp [member]))

end Effect

section VisitEffect

variable {reading : Reading} {sourceMap : Bool}

theorem taken_visitEffect (node : Node) (place : Place) :
    (visitEffect reading sourceMap node place).taken = {} := by
  induction node using Node.parts_induction generalizing place with
  | _ node ih =>
    rw [visitEffect_eq]
    apply Effect.taken_andThen_empty rfl
    apply Effect.taken_andThen_empty _ rfl
    apply Effect.taken_sequence
    intro effect member
    obtain ⟨placed, inside, rfl⟩ := List.mem_map.mp member
    have part : placed.1 ∈ node.parts := by
      rw [← placesFrom_fst node place.scope place.number node.parts]
      exact List.mem_map_of_mem inside
    exact ih placed.1 part placed.2

theorem taken_partsEffect (parts : List ((Field × Node) × Place)) :
    (partsEffect reading sourceMap parts).taken = {} := by
  apply Effect.taken_sequence
  intro effect member
  obtain ⟨placed, -, rfl⟩ := List.mem_map.mp member
  exact taken_visitEffect placed.1.2 placed.2

theorem loops_awaitEffect (scope : Scope) (node : Node) (parent : Walk.Parent) :
    (awaitEffect reading scope node parent).loops = 0 := by
  unfold awaitEffect
  split
  · rfl
  · split
    · split <;> rfl
    · rfl

theorem loops_superMemberEffect (scope : Scope) (node : Node) (parent : Walk.Parent) :
    (superMemberEffect reading scope node parent).loops = 0 := by
  unfold superMemberEffect
  split
  · apply Effect.loops_andThen_zero
    · unfold readEffect
      split
      · split <;> rfl
      · rfl
    · apply Effect.loops_andThen_zero rfl
      unfold finishEffect
      split
      · apply Effect.loops_andThen_zero rfl
        split <;> rfl
      · split <;> rfl
  · rfl

theorem loops_assignmentEffect (scope : Scope) (node : Node) :
    (assignmentEffect reading scope node).loops = 0 := by
  unfold assignmentEffect
  split
  · dsimp only
    split
    · apply Effect.loops_andThen_zero _ rfl
      split
      · split <;> rfl
      · rfl
    · unfold compoundAssignmentEffect
      split <;> rfl
  · rfl

theorem loops_updateEffect (scope : Scope) (node : Node) :
    (updateEffect reading scope node).loops = 0 := by
  unfold updateEffect
  split
  · rfl
  · split <;> rfl

theorem loops_loopEffect {scope : Scope} {number : Nat} {node : Node} {parent : Walk.Parent}
    (done : (loopEffect reading scope number node parent).failure = none) :
    (loopEffect reading scope number node parent).loops =
      if scope.isAsync && (node.child? .left).isSome && (node.child? .right).isSome
        && (node.child? .body).isSome then 1 else 0 := by
  unfold loopEffect at done ⊢
  revert done
  cases scope.isAsync with
  | false => exact fun _ => rfl
  | true =>
    cases node.child? .left <;> cases node.child? .right <;> cases node.child? .body <;>
      try exact fun _ => rfl
    rename_i left right body
    cases found : findParticles reading.tokens node body with
    | error failure => simp [found, Effect.failing]
    | ok particles => exact fun _ => by simp [found]; rfl

/-- A rule that does not fail counts the loop that it lowers. -/
theorem loops_ruleEffect {scope : Scope} {number : Nat} {node : Node} {parent : Walk.Parent}
    (done : (ruleEffect reading scope number node parent).failure = none) :
    (ruleEffect reading scope number node parent).loops =
      if lowersLoop scope node then 1 else 0 := by
  unfold ruleEffect lowersLoop Node.is at *
  revert done
  cases node.kind
  case awaitExpression => exact fun _ => loops_awaitEffect scope node parent
  case superMember => exact fun _ => loops_superMemberEffect scope node parent
  case assignmentExpression => exact fun _ => loops_assignmentEffect scope node
  case updateExpression => exact fun _ => loops_updateEffect scope node
  case forOfStatement =>
    cases node.flags.isAwait with
    | false => exact fun _ => rfl
    | true =>
      intro done
      simpa using loops_loopEffect (by simpa using done)
  all_goals exact fun _ => rfl

theorem loops_dropEffect (scope outer : Scope) (node : Node) :
    (dropEffect reading scope outer node).loops = 0 := by
  unfold dropEffect functionEffect
  split
  · split
    · rfl
    · apply Effect.loops_andThen_zero _ rfl
      split
      · apply Effect.loops_andThen_zero
        · unfold stripArrowEffect
          dsimp only
          split <;> rfl
        · unfold wrapArrowEffect
          split
          · rfl
          · split <;> rfl
      · apply Effect.loops_andThen_zero _ rfl
        split
        · unfold stripMethodEffect
          split
          · rfl
          · dsimp only
            split <;> rfl
        · unfold stripFunctionEffect
          dsimp only
          split
          · rfl
          · split
            · rfl
            · apply Effect.loops_andThen_zero rfl
              split
              · split <;> rfl
              · rfl
  · rfl

/-- Visits of parts that do not fail count the loops of the parts, if each visit does. -/
theorem loops_partsEffect_of_visits {node : Node} {scope : Scope} {parts : List (Field × Node)}
    (counts : ∀ part ∈ parts, ∀ place : Place,
      (visitEffect reading sourceMap part.2 place).failure = none →
      (visitEffect reading sourceMap part.2 place).loops = loopsIn part.2 place.scope)
    {number : Nat}
    (done : (partsEffect reading sourceMap (placesFrom node scope number parts)).failure = none) :
    (partsEffect reading sourceMap (placesFrom node scope number parts)).loops =
      loopsInParts node scope parts := by
  induction parts generalizing number with
  | nil => rfl
  | cons part rest ih =>
    rw [placesFrom, partsEffect_cons] at done ⊢
    obtain ⟨first, later⟩ := by simpa only [Effect.failure_andThen] using done
    rw [Effect.loops_andThen _ first, counts part (by simp) _ first,
      ih (fun other member => counts other (by simp [member])) later]
    simp [loopsInParts]

theorem loops_nodeEffect {node : Node} {place : Place}
    (done : (nodeEffect reading node place).failure = none) :
    (nodeEffect reading node place).loops = if lowersLoop place.scope node then 1 else 0 := by
  unfold nodeEffect at done ⊢
  split
  next opens =>
    have other : lowersLoop place.scope node = false := by
      cases kind : node.kind <;>
        simp_all [lowersLoop, Node.opensScope, Node.is, Kind.ownsReceiver]
    rw [other]
    exact loops_dropEffect _ _ node
  next plain =>
    rw [if_neg plain] at done
    exact loops_ruleEffect done

/-- A visit that does not fail counts the loops of the subtree. -/
theorem loops_visitEffect {node : Node} {place : Place}
    (done : (visitEffect reading sourceMap node place).failure = none) :
    (visitEffect reading sourceMap node place).loops = loopsIn node place.scope := by
  induction node using Node.parts_induction generalizing place with
  | _ node ih =>
    rw [visitEffect_eq] at done ⊢
    obtain ⟨marked, visited, lowered⟩ := by simpa only [Effect.failure_andThen] using done
    have own : (nodeEffect reading node place).scopeless.loops =
        if lowersLoop place.scope node then 1 else 0 := loops_nodeEffect lowered
    rw [Effect.loops_andThen _ marked, Effect.loops_andThen _ visited, places,
      loops_partsEffect_of_visits (fun part member place => ih part member) visited, own, loopsIn_eq]
    simp [Effect.ofEdits]

theorem loops_partsEffect {node : Node} {place : Place}
    (done : (partsEffect reading sourceMap (places node place)).failure = none) :
    (partsEffect reading sourceMap (places node place)).loops =
      loopsInParts node place.scope node.parts :=
  loops_partsEffect_of_visits (fun _ _ _ => loops_visitEffect) done

end VisitEffect

/-! ### The walk lets the effect take place -/

/-- The records between the parts of a node: the node's own record, if it has one, on top
of those around it. -/
def inside (node : Node) (outer : Scopes) (own : Scope) : Scopes :=
  if node.opensScope then outer.push own else outer

theorem slotEntered_bare {node : Node} {outer : Scopes} {own scope : Scope} (field : Field)
    (around : outer.current.bare = scope) (kept : own.bare = Scope.ofNode node) :
    (slotEntered (some (node, field)) (inside node outer own)).current.bare =
      scopeOf scope (node, field) := by
  rw [slotEntered, inside, evaluatedOutside_eq, isOwnParameter_eq, scopeOf]
  by_cases opens : node.opensScope
  case neg =>
    have other : belongs (node, field) = false := by simp [belongs, opens]
    simpa [opens, other] using around
  by_cases held : belongs (node, field)
  · rw [← kept]
    have outside : own.inParams = false := congrArg Scope.inParams kept
    cases field == .params <;>
      simp [opens, held, Scopes.push, Scopes.enterParams, Scope.bare, outside]
  · simpa [opens, held, Scopes.push, Scopes.suspend] using around

/-- What a part takes is charged to the record that it belongs to. -/
theorem slotLeft_charge (node : Node) (outer : Scopes) {own : Scope} (field : Field)
    (taken : Scope) (visited : own.inParams = false) :
    slotLeft (some (node, field))
        ((slotEntered (some (node, field)) (inside node outer own)).charge taken) =
      inside node (outer.charge (if belongs (node, field) then {} else taken))
        (own.charge (if belongs (node, field) then taken else {})) := by
  rw [slotLeft, slotEntered, inside, inside, evaluatedOutside_eq, isOwnParameter_eq]
  by_cases opens : node.opensScope
  case neg =>
    have other : belongs (node, field) = false := by simp [belongs, opens]
    simp [opens, other]
  by_cases own : belongs (node, field)
  · cases field == .params <;>
      simp [opens, own, Scopes.push, Scopes.enterParams, Scopes.leaveParams, Scopes.charge,
        Scope.charge, visited]
  · simp [opens, own, Scopes.push, Scopes.suspend, Scopes.resume, Scopes.charge, Scope.charge]

theorem charge_partsTaken_cons (record : Scope) (node : Node) (scope : Scope) (own : Bool)
    (part : Field × Node) (rest : List (Field × Node)) :
    record.charge (partsTaken node scope own (part :: rest)) =
      (record.charge (if belongs (node, part.1) = own then
          takenIn part.2 (scopeOf scope (node, part.1)) (some (node, part.1))
        else {})).charge (partsTaken node scope own rest) := by
  rw [partsTaken, List.filter_cons, Scope.charge_assoc]
  by_cases same : belongs (node, part.1) = own
  · simp [same, partsTaken, Scope.chargeAll]
  · simp [same, partsTaken, Scope.charge]

/-- The records after a visit of a node in a place. -/
def scopesAfter (node : Node) (place : Place) (scopes : Scopes) : Scopes :=
  slotLeft place.parent
    ((slotEntered place.parent scopes).charge (takenIn node place.scope place.parent))

/-- Visits of a subtree let its effect take place and charge what it takes. -/
def Visits (reading : Reading) (sourceMap : Bool) (node : Node) : Prop :=
  ∀ (place : Place) (state : State), state.reading = reading → state.sourceMap = sourceMap →
    state.loops = place.number →
    (slotEntered place.parent state.scopes).current.bare = place.scope →
    result (Walk.traverse visitor node place.parent) state =
      (visitEffect reading sourceMap node place).apply state >>= fun next =>
        .ok { next with scopes := scopesAfter node place state.scopes }

/-- The parts of a node are visited with their effects, and what they take is charged to
the node's own record or to the one around it. -/
theorem result_traverseParts {reading : Reading} {sourceMap : Bool} {node : Node} {scope : Scope}
    (parts : List (Field × Node)) (visits : ∀ part ∈ parts, Visits reading sourceMap part.2)
    (state : State) (outer : Scopes) (own : Scope) (read : state.reading = reading)
    (asked : state.sourceMap = sourceMap) (arranged : state.scopes = inside node outer own)
    (around : outer.current.bare = scope) (kept : own.bare = Scope.ofNode node) :
    result (Walk.traverseParts visitor node parts) state =
      (partsEffect reading sourceMap (placesFrom node scope state.loops parts)).apply state >>=
        fun next => .ok
          { next with
            scopes := inside node (outer.charge (partsTaken node scope false parts))
              (own.charge (partsTaken node scope true parts)) } := by
  induction parts generalizing state outer own with
  | nil =>
    simp [Walk.traverseParts, placesFrom, partsTaken, Scope.chargeAll, ← arranged]
  | cons part rest ih =>
    let place : Place := ⟨scopeOf scope (node, part.1), some (node, part.1), state.loops⟩
    have first := visits part (by simp) place state read asked rfl
      (by rw [arranged]; exact slotEntered_bare part.1 around kept)
    have visited : own.inParams = false := congrArg Scope.inParams kept
    rw [arranged, scopesAfter, slotLeft_charge node outer part.1 _ visited] at first
    rw [Walk.traverseParts, placesFrom, partsEffect_cons, result, outcome_bind, outcome_eq_result,
      first, Effect.apply_andThen]
    cases applied : (visitEffect reading sourceMap part.2 place).apply state with
    | error failure => rfl
    | ok next =>
      obtain ⟨done, -, settled⟩ := Effect.apply_eq_ok applied
      have counted : next.loops = state.loops + loopsIn part.2 place.scope := by
        rw [settled, ← loops_visitEffect done]
        rfl
      -- The rest is visited from the records that the first part has left.
      have later := ih (fun other member => visits other (by simp [member]))
        { next with
          scopes := inside node
            (outer.charge (if belongs (node, part.1) then {} else
              takenIn part.2 place.scope place.parent))
            (own.charge (if belongs (node, part.1) then
              takenIn part.2 place.scope place.parent else {})) }
        _ _ ((Effect.reading_eq applied).trans read) (by rw [← asked, settled]; rfl) rfl around kept
      have scopeless : (partsEffect reading sourceMap
          (placesFrom node scope next.loops rest)).taken = {} := taken_partsEffect _
      simp only [ok_bind]
      rw [← result, later, Effect.apply_scopes scopeless]
      simp only [Scopes.charge, charge_partsTaken_cons]
      rw [← counted]
      cases (partsEffect reading sourceMap (placesFrom node scope next.loops rest)).apply next with
      | error failure => rfl
      | ok last =>
        cases belongs (node, part.1) <;> rfl

theorem apply_markEdits (node : Node) (state : State) :
    (Effect.ofEdits (markEdits state.sourceMap node)).apply state =
      .ok { state with buffer := markedBuffer node state } := by
  rw [markEdits, markedBuffer]
  split <;> simp [Operation.apply]

theorem nodeEntered_eq (node : Node) (scopes : Scopes) :
    nodeEntered node scopes = inside node (scopes.charge (captured node)) (Scope.ofNode node) := by
  rw [nodeEntered, inside]
  split
  next opens => rw [captured_of_opensScope opens, Scopes.charge_empty]
  next => rfl

/-- Leaving a node lets the effect of its rule take place and charges what was taken. -/
theorem result_leave {reading : Reading} {node : Node} {place : Place} {state : State}
    {outer : Scopes} (read : state.reading = reading)
    (counted : state.loops = place.number + loopsInParts node place.scope node.parts)
    (arranged : state.scopes = inside node outer (ownRecord node place.scope))
    (around : outer.current.bare = place.scope) :
    result (leave node place.parent) state =
      (nodeEffect reading node place).scopeless.apply state >>= fun next => .ok
        { next with
          scopes := slotLeft place.parent (outer.charge
            (if node.opensScope then
              if node.is .arrowFunctionExpression then ownRecord node place.scope else {}
            else ruleTaken place.scope node place.parent)) } := by
  have left (next : State) : outcome (leaveSlot place.parent) next =
      .ok ((), { next with scopes := slotLeft place.parent next.scopes }) := by
    rw [outcome, leaveSlot_apply]
  rw [result, leave, outcome_bind, outcome_eq_result, nodeEffect]
  by_cases opens : node.opensScope
  · simp only [opens, if_true]
    have popped : state.scopes.pop = (ownRecord node place.scope, outer.charge
        (if node.is .arrowFunctionExpression then ownRecord node place.scope else {})) := by
      have same : (ownRecord node place.scope).isArrow = node.is .arrowFunctionExpression := rfl
      rw [arranged, inside, if_pos opens]
      simp only [Scopes.push, Scopes.pop, same]
      split
      · rfl
      · rw [Scopes.charge_empty]
    have bare : (outer.charge (if node.is .arrowFunctionExpression then
        ownRecord node place.scope else {})).current.bare = place.scope := around
    rw [result_lowerNode_of_opensScope node _ state opens, popped, read, ← dropEffect_bare, bare,
      Effect.apply_scopes (taken_dropEffect _ _ _ _)]
    have scopeless : (dropEffect reading (ownRecord node place.scope) place.scope node).scopeless =
        dropEffect reading (ownRecord node place.scope) place.scope node := by
      rw [Effect.scopeless, ← taken_dropEffect reading (ownRecord node place.scope) place.scope node]
    rw [scopeless]
    cases (dropEffect reading (ownRecord node place.scope) place.scope node).apply state with
    | error failure => rfl
    | ok next => simp [left]
  · have plain : node.opensScope = false := by simpa using opens
    simp only [plain, Bool.false_eq_true, if_false]
    have current : state.scopes = outer := by rw [arranged, inside, if_neg opens]
    rw [result_lowerNode node _ state plain, read, counted, current, ← ruleEffect_bare, around,
      Effect.apply_scopeless]
    cases applied : (ruleEffect reading place.scope
        (place.number + loopsInParts node place.scope node.parts) node
        place.parent).scopeless.apply state with
    | error failure => rfl
    | ok next =>
      obtain ⟨done, -, -⟩ := Effect.apply_eq_ok applied
      have taken : (ruleEffect reading place.scope
          (place.number + loopsInParts node place.scope node.parts) node place.parent).taken =
          ruleTaken place.scope node place.parent := taken_ruleEffect done
      simp [left, taken, current]

/-- A visit enters the node, visits its parts and leaves the node. -/
theorem result_traverse (node : Node) (parent : Walk.Parent) (state : State) :
    result (Walk.traverse visitor node parent) state =
      result (Walk.traverseParts visitor node node.parts)
          { state with
            buffer := markedBuffer node state
            scopes := nodeEntered node (slotEntered parent state.scopes) } >>=
        result (leave node parent) := by
  have begun : outcome (visitor.enter node parent) state = .ok (.descend,
      { state with
        buffer := markedBuffer node state
        scopes := nodeEntered node (slotEntered parent state.scopes) }) := by
    change outcome (enter node parent) state = _
    rw [outcome, enter_apply]
  rw [Walk.traverse_eq, result, outcome_bind, begun, ok_bind]
  exact result_bind _ _ _

/-- A visit lets the effect of the subtree take place, from every state. -/
theorem visits (reading : Reading) (sourceMap : Bool) (node : Node) :
    Visits reading sourceMap node := by
  induction node using Node.parts_induction with
  | _ node ih =>
    intro place state read asked numbered around
    let marking : State := { state with buffer := markedBuffer node state }
    let outer : Scopes := (slotEntered place.parent state.scopes).charge (captured node)
    have marked : (Effect.ofEdits (markEdits sourceMap node)).apply state = .ok marking := by
      rw [← asked]
      exact apply_markEdits node state
    have numbers : placesFrom node place.scope marking.loops node.parts = places node place := by
      rw [places, ← numbered]
    have parts := result_traverseParts node.parts ih
      { marking with scopes := nodeEntered node (slotEntered place.parent state.scopes) }
      outer (Scope.ofNode node) read asked (nodeEntered_eq node _) around rfl
    rw [Effect.apply_scopes (taken_partsEffect _), numbers] at parts
    rw [result_traverse, parts, visitEffect_eq, Effect.apply_andThen, marked, ok_bind,
      Effect.apply_andThen]
    cases applied : (partsEffect reading sourceMap (places node place)).apply marking with
    | error failure => rfl
    | ok next =>
      obtain ⟨done, -, settled⟩ := Effect.apply_eq_ok applied
      have counted : next.loops = place.number + loopsInParts node place.scope node.parts := by
        rw [settled, ← loops_partsEffect done, ← numbered]
        rfl
      have left := fun arranged => @result_leave reading node place
        { next with
          scopes := inside node (outer.charge (partsTaken node place.scope false node.parts))
            (ownRecord node place.scope) }
        (outer.charge (partsTaken node place.scope false node.parts))
        ((Effect.reading_eq applied).trans read) counted arranged around
      simp only [ok_bind]
      rw [← ownRecord, left rfl, Effect.apply_scopes rfl]
      cases (nodeEffect reading node place).scopeless.apply next with
      | error failure => rfl
      | ok last =>
        have charged : ((slotEntered place.parent state.scopes).charge
            (takenIn node place.scope place.parent)) =
            (outer.charge (partsTaken node place.scope false node.parts)).charge
              (if node.opensScope then
                if node.is .arrowFunctionExpression then ownRecord node place.scope else {}
              else ruleTaken place.scope node place.parent) := by
          rw [takenIn_eq]
          simp only [outer]
          split
          next opens =>
            rw [captured_of_opensScope opens, Scopes.charge_empty, Scopes.charge_assoc]
          next => rw [Scopes.charge_assoc, Scopes.charge_assoc, Scope.charge_assoc]
        simp only [ok_bind, scopesAfter, charged]

/-- A walk from the beginning lets the effect of the tree take place. -/
theorem result_walk (program : Node) (state : State) (fresh : state.scopes = {})
    (none : state.loops = 0) :
    result (Walk.walk visitor program) state =
      (visitEffect state.reading state.sourceMap program {}).apply state >>= fun next =>
        .ok { next with scopes := scopesAfter program {} state.scopes } := by
  have visited := visits state.reading state.sourceMap program {} state rfl rfl none
    (by rw [fresh]; rfl)
  rw [← visited, result, result, outcome, outcome, Walk.walk_eq_traverse_apply]

end Unawait.Lowering
