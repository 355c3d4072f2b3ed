import Mathlib
import Unawait.Proofs.Resolution

/-!
# The nearest rewritten nodes

A node that is kept is transparent: the calls made in it are those made in its parts.
So all that a node has to do with the calls made below it goes through its frontier,
the nearest rewritten nodes below. They fit their text as the whole tree does, they
lie inside the node, they are not empty and have no byte in common.

Two rules also make calls outside their node, for a parent that is rewritten too: a
member passes the receiver in the parentheses of its call, and a loop opens its block
in front of its label. No other node makes calls on behalf of another.
-/

namespace Unawait.Lowering

open Edit (Operation)

def Rewrite.isKeep : Rewrite → Bool
  | .keep => true
  | _ => false

/-- The outermost rewritten nodes of a subtree. -/
def frontier (reading : Reading) : Node → Place → List (Node × Place) :=
  placedFold fun node place parts =>
    if (rewrite reading node place).isKeep then parts.flatMap Prod.snd else [(node, place)]

/-- The nearest rewritten nodes below a node. -/
def below (reading : Reading) (node : Node) (place : Place) : List (Node × Place) :=
  (places node place).flatMap fun placed => frontier reading placed.1.2 placed.2

/-- The calls made in a subtree, without marks. -/
def calls (reading : Reading) (inner : Node × Place) : List Operation :=
  script reading false inner.1 inner.2

/-! ### Calls for another node -/

/-- The calls that finish a member outside of it. -/
def Use.guests : Use → List Operation
  | .called binding => binding.edits
  | _ => []

/-- The calls of a rule that are made outside its node, for the parent. -/
def Rewrite.guests : Rewrite → List Operation
  | .name _ use => use.guests
  | .key _ use => use.guests
  | .loop _ _ (some offset) _ _ _ _ => [.insertAfter offset "try\x7b".toList]
  | _ => []

/-- The calls that the rule for a part makes in a node. -/
def Rewrite.hosted (node : Node) : Rewrite → List Operation
  | .call binding => binding.edits
  | .label => [.insertAfter node.start "try\x7b".toList]
  | _ => []

/-- No rewritten node lies inside a range that is replaced for a node around it. -/
def Visible (reading : Reading) : Node → Place → Prop :=
  placedFold fun node place parts =>
    (∀ inner ∈ below reading node place,
      ∀ edit ∈ (rewrite reading node place).edits node ++ (rewrite reading node place).hosted node,
        ∀ own ∈ edit.replaced?, ¬ (own.1.start ≤ inner.1.start ∧ inner.1.stop ≤ own.1.stop)) ∧
      ∀ part ∈ parts, part.2

theorem visible_iff (reading : Reading) (node : Node) (place : Place) :
    Visible reading node place ↔
      (∀ inner ∈ below reading node place,
        ∀ edit ∈ (rewrite reading node place).edits node ++ (rewrite reading node place).hosted node,
          ∀ own ∈ edit.replaced?, ¬ (own.1.start ≤ inner.1.start ∧ inner.1.stop ≤ own.1.stop)) ∧
        ∀ placed ∈ places node place, Visible reading placed.1.2 placed.2 := by
  rw [Visible, placedFold_eq]
  exact and_congr_right fun _ => List.forall_mem_map

/-- The subtree fits its text, and so does the parent of its root. -/
structure Fit (reading : Reading) (node : Node) (place : Place) : Prop where
  wellFormed : node.wellFormed reading.tokens = true
  seated : Seated reading.tokens node place.parent

section Frontier

variable {reading : Reading} {node : Node} {place : Place}

/-- Marks apart, a script is the same with and without them. -/
theorem filter_script (sourceMap : Bool) (node : Node) (place : Place) :
    (script reading sourceMap node place).filter (fun edit => !edit.isMark) =
      (calls reading (node, place)).filter (fun edit => !edit.isMark) := by
  induction node using Node.parts_induction generalizing place with
  | _ node ih =>
    have none : (markEdits sourceMap node).filter (fun edit => !edit.isMark) = [] := by
      cases sourceMap <;> rfl
    rw [calls, script_eq, script_eq, List.filter_append, List.filter_append, none,
      List.filter_append, List.filter_append, partsScript, partsScript, List.filter_flatMap,
      List.filter_flatMap]
    congr 2
    apply List.flatMap_congr
    intro placed part
    exact ih placed.1 (mem_parts_of_places part) placed.2

theorem frontier_of_keep (keep : (rewrite reading node place).isKeep = true) :
    frontier reading node place = below reading node place := by
  rw [frontier, placedFold_eq, if_pos keep, List.flatMap_map]
  rfl

theorem frontier_of_rewritten (rewritten : (rewrite reading node place).isKeep = false) :
    frontier reading node place = [(node, place)] := by
  rw [frontier, placedFold_eq, if_neg (by simp [rewritten])]

theorem mem_below {inner : Node × Place} :
    inner ∈ below reading node place ↔
      ∃ placed ∈ places node place, inner ∈ frontier reading placed.1.2 placed.2 :=
  List.mem_flatMap

/-- What follows for a node from the same for the nearest rewritten nodes below holds for
every node. -/
theorem below_induction {motive : Node → Place → Prop}
    (node_of_below : ∀ node place,
      (∀ inner ∈ below reading node place, motive inner.1 inner.2) → motive node place)
    (node : Node) (place : Place) : motive node place := by
  -- the nodes below a kept part are not the part itself, so they are carried along
  suffices both : ∀ place, motive node place ∧
      ∀ inner ∈ below reading node place, motive inner.1 inner.2 from (both place).1
  induction node using Node.parts_induction with
  | _ node ih =>
    intro place
    have inside : ∀ inner ∈ below reading node place, motive inner.1 inner.2 := by
      intro inner member
      obtain ⟨placed, part, here⟩ := mem_below.mp member
      obtain ⟨whole, deeper⟩ := ih placed.1 (mem_parts_of_places part) placed.2
      cases kept : (rewrite reading placed.1.2 placed.2).isKeep with
      | true => exact deeper inner (frontier_of_keep kept ▸ here)
      | false =>
        rw [frontier_of_rewritten kept, List.mem_singleton] at here
        exact here ▸ whole
    exact ⟨node_of_below node place inside, inside⟩

theorem rewritten_of_frontier {inner : Node × Place} (member : inner ∈ frontier reading node place) :
    (rewrite reading inner.1 inner.2).isKeep = false := by
  induction node using Node.parts_induction generalizing place with
  | _ node ih =>
    cases kept : (rewrite reading node place).isKeep with
    | false =>
      rw [frontier_of_rewritten kept, List.mem_singleton] at member
      exact member ▸ kept
    | true =>
      rw [frontier_of_keep kept] at member
      obtain ⟨placed, part, here⟩ := mem_below.mp member
      exact ih placed.1 (mem_parts_of_places part) here

theorem rewritten_of_below {inner : Node × Place} (member : inner ∈ below reading node place) :
    (rewrite reading inner.1 inner.2).isKeep = false := by
  obtain ⟨placed, part, here⟩ := mem_below.mp member
  exact rewritten_of_frontier here

/-- What parts have from their node, the nearest rewritten nodes below have too. -/
theorem inherited {property : Node → Place → Prop}
    (part : ∀ node place, property node place →
      ∀ placed ∈ places node place, property placed.1.2 placed.2)
    (here : property node place) {inner : Node × Place}
    (member : inner ∈ below reading node place) : property inner.1 inner.2 := by
  induction node using Node.parts_induction generalizing place with
  | _ node ih =>
    obtain ⟨placed, held, deeper⟩ := mem_below.mp member
    have there := part node place here placed held
    cases kept : (rewrite reading placed.1.2 placed.2).isKeep with
    | true => exact ih placed.1 (mem_parts_of_places held) there (frontier_of_keep kept ▸ deeper)
    | false =>
      rw [frontier_of_rewritten kept, List.mem_singleton] at deeper
      exact deeper ▸ there

theorem Fit.part (fit : Fit reading node place) {placed : (Field × Node) × Place}
    (member : placed ∈ places node place) : Fit reading placed.1.2 placed.2 := by
  obtain ⟨nested, shaped, parts⟩ := (Node.wellFormed_iff _ _).mp fit.wellFormed
  have part := mem_parts_of_places member
  refine ⟨parts _ part, ?_⟩
  rw [Seated, (mem_placesFrom member).2]
  rintro slot ⟨rfl⟩
  exact ⟨part, nested, shaped⟩

theorem Fit.nested (fit : Fit reading node place) : node.Nested :=
  ((Node.wellFormed_iff _ _).mp fit.wellFormed).1

theorem Fit.carries (fit : Fit reading node place) (ordered : reading.tokens.Ordered) :
    (nodeEffect reading node place).Carries node (rewrite reading node place) := by
  obtain ⟨nested, shaped, parts⟩ := (Node.wellFormed_iff _ _).mp fit.wellFormed
  refine nodeEffect_carries ordered nested shaped (fun part member => ?_) fit.seated
  exact ((Node.wellFormed_iff _ _).mp (parts part member)).2.1

/-- A rewritten node is not empty. -/
theorem Fit.nonempty (fit : Fit reading node place) (ordered : reading.tokens.Ordered)
    (rewritten : (rewrite reading node place).isKeep = false) : node.start < node.stop := by
  have fits := (fit.carries ordered).fits
  obtain ⟨-, inside, -⟩ := fit.nested
  cases form : rewrite reading node place <;> rw [form] at fits rewritten
  case keep => simp [Rewrite.isKeep] at rewritten
  case await => obtain ⟨-, -, within, -⟩ := fits; dsimp only at within; omega
  case name => exact fits.1
  case key => obtain ⟨-, first, second, third, -⟩ := fits; omega
  case assignName left right head tail =>
    obtain ⟨leftPart, -, nonempty, -, -⟩ := fits
    have := inside _ leftPart
    dsimp only at this
    omega
  case assignKey left property right =>
    obtain ⟨child, -, -, -, first, second, third, -, -⟩ := fits
    have := inside _ (Node.mem_parts_of_child child)
    dsimp only at this
    omega
  case call binding => obtain ⟨⟨first, second, third, -⟩, -⟩ := fits; omega
  case label => obtain ⟨first, second, third, -⟩ := fits; dsimp only at *; omega
  case loop => obtain ⟨first, second, third, -⟩ := fits.keyword; dsimp only at *; omega
  case function removed star body opening closing =>
    have wide := fits.block.wide
    have := inside _ (Node.mem_parts_of_child fits.bodyPart)
    dsimp only at this
    omega
  case arrowBlock removed body opening closing =>
    have wide := fits.2.wide
    have := inside _ (Node.mem_parts_of_child fits.1.bodyPart)
    dsimp only at this
    omega
  case arrowValue removed arrowStop body opening closing =>
    have := inside _ (Node.mem_parts_of_child fits.1.bodyPart)
    have wide := fits.2.1
    dsimp only at this
    omega

/-- What is known of a rewritten node inside a range. -/
structure Inner (reading : Reading) (low high : Nat) (inner : Node × Place) : Prop where
  fit : Fit reading inner.1 inner.2
  first : low ≤ inner.1.start
  nonempty : inner.1.start < inner.1.stop
  last : inner.1.stop ≤ high

theorem Inner.mono {low high first last : Nat} {inner : Node × Place}
    (found : Inner reading low high inner) (above : first ≤ low) (under : high ≤ last) :
    Inner reading first last inner :=
  { found with first := by have := found.first; omega, last := by have := found.last; omega }

theorem inner_of_frontier (ordered : reading.tokens.Ordered) (fit : Fit reading node place)
    {inner : Node × Place} (member : inner ∈ frontier reading node place) :
    Inner reading node.start node.stop inner := by
  induction node using Node.parts_induction generalizing place with
  | _ node ih =>
    cases kept : (rewrite reading node place).isKeep with
    | false =>
      rw [frontier_of_rewritten kept, List.mem_singleton] at member
      subst member
      exact ⟨fit, le_rfl, fit.nonempty ordered kept, le_rfl⟩
    | true =>
      rw [frontier_of_keep kept] at member
      obtain ⟨placed, part, here⟩ := mem_below.mp member
      have held := mem_parts_of_places part
      obtain ⟨first, last⟩ := fit.nested.2.1 _ held
      exact (ih placed.1 held (fit.part part) here).mono first last

/-- The nearest rewritten nodes below a node are each inside a part. -/
theorem inner_of_below (ordered : reading.tokens.Ordered) (fit : Fit reading node place)
    {inner : Node × Place} (member : inner ∈ below reading node place) :
    ∃ placed ∈ places node place, inner ∈ frontier reading placed.1.2 placed.2 ∧
      Inner reading placed.1.2.start placed.1.2.stop inner := by
  obtain ⟨placed, part, here⟩ := mem_below.mp member
  exact ⟨placed, part, here, inner_of_frontier ordered (fit.part part) here⟩

/-- The calls made in a subtree are those made in its outermost rewritten nodes. -/
theorem calls_eq_frontier (ordered : reading.tokens.Ordered)
    (fit : Fit reading node place) :
    calls reading (node, place) = (frontier reading node place).flatMap (calls reading) := by
  induction node using Node.parts_induction generalizing place with
  | _ node ih =>
    cases kept : (rewrite reading node place).isKeep with
    | false => rw [frontier_of_rewritten kept]; simp
    | true =>
      -- a kept node makes no call of its own
      have none : (nodeEffect reading node place).edits = [] := by
        rw [(fit.carries ordered).edits]
        cases form : rewrite reading node place <;> rw [form] at kept <;>
          first | rfl | simp [Rewrite.isKeep] at kept
      rw [frontier_of_keep kept, calls, script_eq, none, below, List.flatMap_assoc]
      simp only [markEdits, Bool.false_eq_true, if_false, List.nil_append, List.append_nil]
      apply List.flatMap_congr
      intro placed part
      exact ih placed.1 (mem_parts_of_places part) (fit.part part)

/-- A node is rewritten after the nearest rewritten nodes below. -/
theorem calls_eq (ordered : reading.tokens.Ordered) (fit : Fit reading node place) :
    calls reading (node, place) = (below reading node place).flatMap (calls reading) ++
      (rewrite reading node place).edits node := by
  rw [calls, script_eq, (fit.carries ordered).edits, below, List.flatMap_assoc]
  simp only [markEdits, Bool.false_eq_true, if_false, List.nil_append]
  congr 1
  apply List.flatMap_congr
  intro placed part
  exact calls_eq_frontier ordered (fit.part part)

/-! ### Hosts -/

theorem scopeOf_of_plain {scope : Scope} {field : Field} (plain : node.opensScope = false) :
    scopeOf scope (node, field) = scope := by
  simp [scopeOf, belongs, plain]

/-- In a list with one element of a kind the first of them is the one at hand. -/
theorem find_of_single {parts : List (Field × Node)} {kind chosen : Field × Node → Bool}
    {part : Field × Node} (single : (parts.filter kind).length = 1) (member : part ∈ parts)
    (ofKind : kind part = true) (implies : ∀ other, chosen other = true → kind other = true)
    (here : chosen part = true) : parts.find? chosen = some part := by
  obtain ⟨only, whole⟩ := List.length_eq_one_iff.mp single
  have unique : ∀ other ∈ parts, kind other = true → other = only := by
    intro other inside same
    have held : other ∈ parts.filter kind := List.mem_filter.mpr ⟨inside, same⟩
    rw [whole] at held
    exact List.mem_singleton.mp held
  cases found : parts.find? chosen with
  | none => exact absurd here (List.find?_eq_none.mp found part member)
  | some other =>
    have first := unique other (List.mem_of_find?_eq_some found)
      (implies other (List.find?_some found))
    rw [first, unique part member ofKind]

/-- The use of a member makes calls for its parent only if that is a call with the member as
its callee. -/
theorem guests_useOf {parent : Walk.Parent} (guests : (useOf reading.tokens node parent).guests ≠ []) :
    ∃ call, parent = some (call, .callee) ∧ call.is .callExpression = true ∧
      (useOf reading.tokens node parent).guests = (bindingOf reading.tokens node call).edits := by
  unfold useOf at guests ⊢
  cases called : calledBy? parent with
  | none =>
    rw [called] at guests
    dsimp only at guests
    cases constructed : isConstructed parent <;> simp [constructed, Use.guests] at guests
  | some call =>
    obtain ⟨slot, kind⟩ := parent_of_calledBy called
    exact ⟨call, slot, kind, rfl⟩

/-- A member makes calls for its parent only as the callee of a call. -/
theorem guests_memberRewrite {scope : Scope} {parent : Walk.Parent}
    (guests : (memberRewrite reading scope node parent).guests ≠ []) :
    replaces scope = true ∧ ∃ call, parent = some (call, .callee) ∧
      call.is .callExpression = true ∧
      (memberRewrite reading scope node parent).guests =
        (bindingOf reading.tokens node call).edits := by
  unfold memberRewrite at guests ⊢
  split at guests
  next applies =>
    rw [if_pos applies]
    rw [Bool.and_eq_true] at applies
    refine ⟨applies.1, ?_⟩
    dsimp only at guests ⊢
    split at guests
    next computed =>
      rw [if_pos computed]
      cases keyed : node.child? .property with
      | none => simp [keyed, Rewrite.guests] at guests
      | some property =>
        rw [keyed] at guests
        exact guests_useOf guests
    next computed =>
      rw [if_neg computed]
      exact guests_useOf guests
  next => simp [Rewrite.guests] at guests

/-- A loop makes a call for its parent only as the body of a label. -/
theorem guests_loopRewrite {scope : Scope} {number : Nat} {parent : Walk.Parent}
    (guests : (loopRewrite reading scope number node parent).guests ≠ []) :
    scope.isAsync = true ∧ (node.child? .left).isSome = true ∧ (node.child? .right).isSome = true ∧
      (node.child? .body).isSome = true ∧ ∃ label, parent = some (label, .body) ∧
      label.is .labeledStatement = true ∧
      (loopRewrite reading scope number node parent).guests =
        [.insertAfter label.start "try\x7b".toList] := by
  unfold loopRewrite at guests ⊢
  cases async : scope.isAsync with
  | false => simp [async, Rewrite.guests] at guests
  | true =>
    simp only [async, if_true] at guests ⊢
    cases target : node.child? .left with
    | none => simp [target, Rewrite.guests] at guests
    | some left =>
      cases iterable : node.child? .right with
      | none => simp [target, iterable, Rewrite.guests] at guests
      | some right =>
        cases inner : node.child? .body with
        | none => simp [target, iterable, inner, Rewrite.guests] at guests
        | some body =>
          simp only [target, iterable, inner] at guests ⊢
          cases found : findParticles reading.tokens node body with
          | error failure => simp [found, Rewrite.guests] at guests
          | ok particles =>
            simp only [found] at guests ⊢
            unfold labelledAt? at guests ⊢
            split at guests
            next owner =>
              split at guests
              next label =>
                exact ⟨trivial, rfl, rfl, rfl, owner, rfl, label, by simp [label, Rewrite.guests]⟩
              next => simp [Rewrite.guests] at guests
            next => simp [Rewrite.guests] at guests

theorem callRewrite_eq {callee : Node} (part : (Field.callee, callee) ∈ node.parts)
    (member : callee.is .superMember = true) (shape : Shape.Call reading.tokens node)
    {scope : Scope} (replaced : replaces scope = true) :
    callRewrite reading scope node = .call (bindingOf reading.tokens callee node) := by
  have found : node.parts.find? (fun part => part.1 == .callee && part.2.is .superMember) =
      some (.callee, callee) := by
    refine find_of_single (shape _ part rfl member).1 part (by simp) ?_ (by simp [member])
    intro other chosen
    rw [Bool.and_eq_true] at chosen
    exact chosen.1
  simp only [callRewrite, found, replaced, if_true]

/-- Only members and loops make calls outside their node. -/
theorem guests_rewrite (guests : (rewrite reading node place).guests ≠ []) :
    (node.is .superMember = true ∧
        rewrite reading node place = memberRewrite reading place.scope node place.parent) ∨
      (node.is .forOfStatement = true ∧ node.flags.isAwait = true ∧ ∃ number,
        rewrite reading node place = loopRewrite reading place.scope number node place.parent) := by
  unfold rewrite at guests ⊢
  cases opens : node.opensScope with
  | true =>
    have none : (functionRewrite reading (ownRecord node place.scope) place.scope node).guests = [] := by
      unfold functionRewrite
      repeat' split
      all_goals rfl
    simp only [opens, if_true] at guests
    split at guests
    · exact absurd none guests
    · simp [Rewrite.guests] at guests
  | false =>
    simp only [opens, Bool.false_eq_true, if_false] at guests ⊢
    cases named : node.kind <;> simp only [named] at guests ⊢ <;>
      try exact absurd rfl guests
    case superMember => exact .inl ⟨by simp [Node.is, named], trivial⟩
    case forOfStatement =>
      cases loop : node.flags.isAwait with
      | false => simp [loop, Rewrite.guests] at guests
      | true => exact .inr ⟨by simp [Node.is, named], rfl, _, rfl⟩
    case awaitExpression =>
      refine absurd ?_ guests
      unfold awaitRewrite
      repeat' split
      all_goals rfl
    case assignmentExpression =>
      refine absurd ?_ guests
      unfold assignmentRewrite
      dsimp only
      repeat' split
      all_goals rfl
    case updateExpression =>
      refine absurd ?_ guests
      unfold updateRewrite
      repeat' split
      all_goals rfl
    case callExpression =>
      refine absurd ?_ guests
      unfold callRewrite
      repeat' split
      all_goals rfl
    case labeledStatement =>
      refine absurd ?_ guests
      unfold labelRewrite
      split <;> rfl

/-- The field of a node in which a rule makes calls for it. -/
def hostField (node : Node) : Field := if node.is .callExpression then .callee else .body

/-- At the root there is no parent to make calls for. -/
theorem guests_root (root : Node) : (rewrite reading root {}).guests = [] := by
  by_contra guests
  rcases guests_rewrite guests with ⟨-, same⟩ | ⟨-, -, number, same⟩
  · rw [same] at guests
    obtain ⟨-, call, slot, -⟩ := guests_memberRewrite guests
    simp at slot
  · rw [same] at guests
    obtain ⟨-, -, -, -, label, slot, -⟩ := guests_loopRewrite guests
    simp at slot

/-- A rule makes calls outside its node only for a parent that is rewritten for it: a call of
which the node is the callee, or a label of which it is the body. -/
theorem guests_of_part {placed : (Field × Node) × Place} (fit : Fit reading node place)
    (part : placed ∈ places node place)
    (guests : (rewrite reading placed.1.2 placed.2).guests ≠ []) :
    (rewrite reading placed.1.2 placed.2).guests = (rewrite reading node place).hosted node ∧
      placed.1.1 = hostField node ∧
      (node.parts.filter fun other => other.1 == hostField node).length = 1 := by
  obtain ⟨⟨field, inner⟩, ⟨scope, parent, number⟩⟩ := placed
  obtain ⟨inherited, slot⟩ := mem_placesFrom part
  have held := mem_parts_of_places part
  dsimp only at inherited slot held guests ⊢
  have shaped := ((Node.wellFormed_iff _ _).mp fit.wellFormed).2.1
  rw [Node.shaped] at shaped
  rcases guests_rewrite guests with ⟨member, same⟩ | ⟨kind, loop, count, same⟩
  · rw [same] at guests ⊢
    obtain ⟨replaced, call, slotted, isCall, finished⟩ := guests_memberRewrite guests
    obtain ⟨rfl, rfl⟩ : node = call ∧ field = .callee := by simpa [slot] using slotted
    have named : node.kind = .callExpression := by simpa [Node.is] using isCall
    have plain : node.opensScope = false := by simp [Node.opensScope, Node.is, named, Kind.ownsReceiver]
    rw [scopeOf_of_plain plain] at inherited
    have shape : Shape.Call reading.tokens node := by simpa [named] using shaped
    have whole : rewrite reading node place = .call (bindingOf reading.tokens inner node) := by
      simp only [rewrite, plain, named, Bool.false_eq_true, if_false]
      exact callRewrite_eq held member shape (inherited ▸ replaced)
    have field : hostField node = .callee := by simp [hostField, isCall]
    rw [finished, whole, field]
    exact ⟨rfl, rfl, (shape _ held rfl member).1⟩
  · rw [same] at guests ⊢
    obtain ⟨async, left, right, body, label, slotted, isLabel, finished⟩ := guests_loopRewrite guests
    obtain ⟨rfl, rfl⟩ : node = label ∧ field = .body := by simpa [slot] using slotted
    have named : node.kind = .labeledStatement := by simpa [Node.is] using isLabel
    have plain : node.opensScope = false := by simp [Node.opensScope, Node.is, named, Kind.ownsReceiver]
    rw [scopeOf_of_plain plain] at inherited
    have shape : Shape.Label node := by simpa [named] using shaped
    have lowered : lowersLoop place.scope inner = true := by
      rw [← inherited]
      simp [lowersLoop, kind, loop, show scope.isAsync = true from async, left, right, body]
    have whole : rewrite reading node place = .label := by
      simp only [rewrite, plain, named, Bool.false_eq_true, if_false, labelRewrite]
      exact if_pos (List.any_eq_true.mpr ⟨_, held, by simp [lowered]⟩)
    have field : hostField node = .body := by simp [hostField, Node.is, named]
    rw [finished, whole, field]
    exact ⟨rfl, rfl, (shape _ held rfl kind loop).1⟩

theorem hosted_of_keep (keep : (rewrite reading node place).isKeep = true) :
    (rewrite reading node place).hosted node = [] := by
  cases form : rewrite reading node place <;> rw [form] at keep <;>
    first | rfl | simp [Rewrite.isKeep] at keep

/-- No call is made for a node that is kept. -/
theorem rewritten_of_guests {inner : Node × Place} (fit : Fit reading node place)
    (member : inner ∈ below reading node place)
    (guests : (rewrite reading inner.1 inner.2).guests ≠ []) :
    (rewrite reading node place).isKeep = false := by
  induction node using Node.parts_induction generalizing place with
  | _ node ih =>
    obtain ⟨placed, part, here⟩ := mem_below.mp member
    cases kept : (rewrite reading placed.1.2 placed.2).isKeep with
    | true =>
      rw [frontier_of_keep kept] at here
      simp [ih placed.1 (mem_parts_of_places part) (fit.part part) here] at kept
    | false =>
      rw [frontier_of_rewritten kept, List.mem_singleton] at here
      subst here
      obtain ⟨same, -⟩ := guests_of_part fit part guests
      cases keep : (rewrite reading node place).isKeep with
      | false => rfl
      | true => exact absurd (same.trans (hosted_of_keep keep)) guests

/-- The calls made for a node are made by the rules for its parts. -/
theorem eq_of_guests {placed : (Field × Node) × Place} {inner : Node × Place}
    (fit : Fit reading node place) (part : placed ∈ places node place)
    (member : inner ∈ frontier reading placed.1.2 placed.2)
    (guests : (rewrite reading inner.1 inner.2).guests ≠ []) :
    inner = (placed.1.2, placed.2) := by
  cases kept : (rewrite reading placed.1.2 placed.2).isKeep with
  | true =>
    rw [frontier_of_keep kept] at member
    simp [rewritten_of_guests (fit.part part) member guests] at kept
  | false =>
    rw [frontier_of_rewritten kept] at member
    exact List.mem_singleton.mp member

/-- The calls that a rewritten node makes outside are those made in the node above. -/
theorem guests_eq_hosted {inner : Node × Place} (fit : Fit reading node place)
    (member : inner ∈ below reading node place)
    (guests : (rewrite reading inner.1 inner.2).guests ≠ []) :
    (rewrite reading inner.1 inner.2).guests = (rewrite reading node place).hosted node := by
  obtain ⟨placed, part, here⟩ := mem_below.mp member
  obtain rfl := eq_of_guests fit part here guests
  exact (guests_of_part fit part guests).1

/-! ### Distinct nodes -/

/-- Two rewritten nodes have no byte in common, and at most one makes calls outside. -/
def Distinct (reading : Reading) (first second : Node × Place) : Prop :=
  first.1.span.Disjoint second.1.span ∧
    ((rewrite reading first.1 first.2).guests = [] ∨ (rewrite reading second.1 second.2).guests = [])

theorem places_pairwise {relation : Field × Node → Field × Node → Prop}
    (pairs : node.parts.Pairwise relation) :
    (places node place).Pairwise fun first second => relation first.1 second.1 := by
  rw [← placesFrom_fst node place.scope place.number node.parts] at pairs
  exact List.pairwise_map.mp pairs

/-- A node with two parts in the field of its host has not one such part. -/
theorem hosts_pairwise (node : Node) :
    node.parts.Pairwise fun first second =>
      first.1 = hostField node → second.1 = hostField node →
        (node.parts.filter fun other => other.1 == hostField node).length ≠ 1 := by
  by_cases single : (node.parts.filter fun other => other.1 == hostField node).length = 1
  case neg => exact List.pairwise_of_forall fun _ _ _ _ => single
  obtain ⟨only, whole⟩ := List.length_eq_one_iff.mp single
  have none : (node.parts.filter fun other => other.1 == hostField node).Pairwise
      fun _ _ => False := by
    rw [whole]
    exact List.pairwise_singleton _ _
  refine (List.pairwise_filter.mp none).imp ?_
  intro first second apart here there
  exact (apart (by simp [here]) (by simp [there])).elim

theorem frontier_pairwise (ordered : reading.tokens.Ordered) (fit : Fit reading node place) :
    (frontier reading node place).Pairwise (Distinct reading) ∧
      (below reading node place).Pairwise (Distinct reading) := by
  induction node using Node.parts_induction generalizing place with
  | _ node ih =>
    have spread : (below reading node place).Pairwise (Distinct reading) := by
      refine List.pairwise_flatMap.mpr ⟨?_, ?_⟩
      · intro placed part
        exact (ih placed.1 (mem_parts_of_places part) (fit.part part)).1
      · have disjoint := @places_pairwise node place _ fit.nested.2.2
        refine (disjoint.and (places_pairwise (hosts_pairwise node))).imp_of_mem ?_
        rintro first second firstPart secondPart ⟨apart, hosts⟩ inner here other there
        have left := inner_of_frontier ordered (fit.part firstPart) here
        have right := inner_of_frontier ordered (fit.part secondPart) there
        refine ⟨?_, ?_⟩
        · have separate : min first.1.2.stop second.1.2.stop ≤ max first.1.2.start second.1.2.start :=
            apart
          obtain ⟨-, firstLow, firstFull, firstHigh⟩ := left
          obtain ⟨-, secondLow, secondFull, secondHigh⟩ := right
          change min inner.1.stop other.1.stop ≤ max inner.1.start other.1.start
          omega
        · -- a node hosts the calls of one part only
          by_contra both
          obtain ⟨innerGuests, otherGuests⟩ := not_or.mp both
          obtain rfl := eq_of_guests fit firstPart here innerGuests
          obtain rfl := eq_of_guests fit secondPart there otherGuests
          obtain ⟨-, firstField, single⟩ := guests_of_part fit firstPart innerGuests
          obtain ⟨-, secondField, -⟩ := guests_of_part fit secondPart otherGuests
          exact hosts firstField secondField single
    refine ⟨?_, spread⟩
    cases kept : (rewrite reading node place).isKeep with
    | true => rwa [frontier_of_keep kept]
    | false =>
      rw [frontier_of_rewritten kept]
      exact List.pairwise_singleton _ _

/-! ### What is replaced as a whole -/

/-- The construct that a rewrite is for. -/
def Rewrite.Of (node : Node) : Rewrite → Prop
  | .name _ _ =>
    (node.is .superMember = true ∧ node.flags.computed = false) ∨
      (node.is .updateExpression = true ∧ ∃ target, node.child? .argument = some target ∧
        target.is .superMember = true ∧ target.flags.computed = false)
  | .key _ _ => node.is .superMember = true ∧ node.flags.computed = true
  | .assignName left _ _ _ =>
    node.is .assignmentExpression = true ∧ node.child? .left = some left ∧
      left.is .superMember = true ∧ left.flags.computed = false
  | .assignKey left _ _ =>
    node.is .assignmentExpression = true ∧ node.child? .left = some left ∧
      left.is .superMember = true ∧ left.flags.computed = true
  | .call binding =>
    node.is .callExpression = true ∧ (∃ callee, (Field.callee, callee) ∈ node.parts ∧
      callee.is .superMember = true) ∧ binding.dropped = (node.child? .typeArguments).map Node.span
  | .label => node.is .labeledStatement = true
  | _ => True

theorem rewrite_of (reading : Reading) (node : Node) (place : Place) :
    (rewrite reading node place).Of node := by
  unfold rewrite
  split
  · split
    · unfold functionRewrite
      repeat' split
      all_goals trivial
    · trivial
  · split <;> try trivial
    next kind =>
      unfold awaitRewrite
      repeat' split
      all_goals trivial
    next kind =>
      have member : node.is .superMember = true := by simp [Node.is, kind]
      unfold memberRewrite
      split <;> [skip; trivial]
      dsimp only
      split
      next computed =>
        split
        · trivial
        · exact ⟨member, computed⟩
      next computed => exact .inl ⟨member, by simpa using computed⟩
    next kind =>
      have assigns : node.is .assignmentExpression = true := by simp [Node.is, kind]
      unfold assignmentRewrite
      split <;> [skip; trivial]
      next found _ =>
        obtain ⟨child, member⟩ := superTarget_eq_some found
        dsimp only
        split
        next computed =>
          split <;> [trivial; skip]
          split
          · exact ⟨assigns, child, member, computed⟩
          · trivial
        next computed =>
          rw [Bool.not_eq_true] at computed
          split
          · exact ⟨assigns, child, member, computed⟩
          · exact ⟨assigns, child, member, computed⟩
    next kind =>
      have updates : node.is .updateExpression = true := by simp [Node.is, kind]
      unfold updateRewrite
      split <;> [trivial; skip]
      next found =>
        obtain ⟨child, member⟩ := superTarget_eq_some found
        split
        · trivial
        next computed => exact .inr ⟨updates, _, child, member, by simpa using computed⟩
    next kind =>
      have calls : node.is .callExpression = true := by simp [Node.is, kind]
      unfold callRewrite
      split <;> [trivial; skip]
      next part found =>
        split <;> [skip; trivial]
        have chosen := List.find?_some found
        have held := List.mem_of_find?_eq_some found
        obtain ⟨field, callee⟩ := part
        obtain ⟨rfl, super⟩ : field = .callee ∧ callee.is .superMember = true := by
          simpa using chosen
        exact ⟨calls, ⟨callee, held, super⟩, rfl⟩
    next kind =>
      unfold labelRewrite
      split
      · simp [Rewrite.Of, Node.is, kind]
      · trivial
    next kind =>
      split <;> [skip; trivial]
      unfold loopRewrite
      repeat' split
      all_goals trivial

end Frontier

end Unawait.Lowering
