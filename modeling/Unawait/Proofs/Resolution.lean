import Mathlib
import Unawait.Proofs.Rewrite

/-!
# The calls behind a rewrite

In a tree that fits its text every lookup of a rule finds its particle, and the calls
that the rule makes are those of the node's rewrite. What is left of the tokens are a few
facts about offsets: which ranges are the node's own bytes, and in which order they and
the parts stand.
-/

namespace Unawait.Lowering

open Edit (Operation)

/-! ### Calls -/

/-- The calls that pass the receiver to a call. -/
def Binding.edits (binding : Binding) : List Operation :=
  binding.dropped.toList.map (fun span => .remove span.start span.stop)
    ++ [.overwrite binding.parenthesis.start binding.parenthesis.stop binding.text]

/-- The calls that finish a member. -/
def Use.edits (node : Node) : Use → List Operation
  | .value => []
  | .constructed => [.insertAfter node.start "(".toList, .insertBefore node.stop ")".toList]
  | .called binding => binding.edits

/-- The calls that carry out a rewrite. -/
def Rewrite.edits (node : Node) : Rewrite → List Operation
  | .keep => []
  | .await opening closing =>
    .overwrite node.start (node.start + 5) opening
      :: if closing = [] then [] else [.insertBefore node.stop closing]
  | .name text use => .overwrite node.start node.stop text :: use.edits node
  | .key property use =>
    .overwrite node.start property.start "$uper(".toList
      :: .overwrite property.stop node.stop ")".toList :: use.edits node
  | .assignName left right head tail =>
    [.overwrite left.start right.start head, .insertBefore node.stop tail]
  | .assignKey left property right =>
    [.overwrite left.start property.start "$uperEq(".toList,
      .overwrite property.stop right.start ",".toList, .insertBefore node.stop ")".toList]
  | .call _ => []
  | .label => []
  | .loop number marker labelled particles left right body =>
    loopEdits number marker (labelled.getD node.start) particles node left right body
  | .function removed star body opening closing =>
    .remove removed.start removed.stop
      :: star.toList.map (fun replaced => .overwrite replaced.1.start replaced.1.stop replaced.2)
      ++ [.insertBefore (body.start + 1) opening, .insertBefore (body.stop - 1) closing]
  | .arrowBlock removed body opening closing =>
    [.remove removed.start removed.stop, .overwrite body.start (body.start + 1) opening,
      .overwrite (body.stop - 1) body.stop closing]
  | .arrowValue removed arrowStop body opening closing =>
    [.remove removed.start removed.stop, .insertBefore arrowStop opening,
      .insertAfter body.start "return ".toList, .insertBefore body.stop closing]

/-! ### Offsets -/

/-- A block has braces of its own. -/
structure BlockFits (body : Node) : Prop where
  block : body.is .blockStatement = true
  wide : body.start + 2 ≤ body.stop
  opening : body.Owns ⟨body.start, body.start + 1⟩
  closing : body.Owns ⟨body.stop - 1, body.stop⟩

theorem blockFits_of_braced {tokens : Tokens} {body : Node} (braced : Shape.Braced tokens body) :
    BlockFits body :=
  ⟨braced.1, braced.2.1, braced.2.2.1.2, braced.2.2.2.2⟩

/-- What is changed for a callee is beside the callee. -/
structure Binding.Beside (binding : Binding) (callee : Node) : Prop where
  nonempty : binding.parenthesis.start < binding.parenthesis.stop
  apart : binding.parenthesis.stop ≤ callee.start ∨ callee.stop ≤ binding.parenthesis.start
  dropped : ∀ span ∈ binding.dropped, span.start < span.stop ∧
    span.stop ≤ binding.parenthesis.start ∧ (span.stop ≤ callee.start ∨ callee.stop ≤ span.start)

/-- The parenthesis is the call's own, and a part in front of it is dropped. -/
structure Binding.Fits (binding : Binding) (call : Node) : Prop where
  owns : call.Owns binding.parenthesis
  dropped : ∀ span ∈ binding.dropped, span.start < span.stop ∧
    span.stop ≤ binding.parenthesis.start ∧ ∃ part ∈ call.parts, part.2.span = span

/-- Target, iterable and body of a loop stand between its particles. -/
structure LoopFits (node : Node) (labelled : Option Nat) (particles : LoopParticles)
    (left right body : Node) : Prop where
  leftPart : (Field.left, left) ∈ node.parts
  rightPart : (Field.right, right) ∈ node.parts
  bodyPart : node.child? .body = some body
  outside : ∀ offset ∈ labelled, offset < node.start
  begun : node.start + 3 ≤ particles.keyword.start
  opened : particles.keyword.start < particles.opening.start
  keyword : node.Owns ⟨particles.keyword.start, particles.opening.stop⟩
  opening : particles.opening.start ≤ particles.opening.stop
  beforeLeft : particles.opening.stop ≤ left.start
  leftNonempty : left.start < left.stop
  between : node.Owns ⟨left.stop, right.start⟩
  rightNonempty : right.start < right.stop
  closing : node.Owns ⟨right.stop, particles.closing.stop⟩
  beforeBody : particles.closing.stop ≤ body.start
  bodyNonempty : body.start < body.stop
  block : body.is .blockStatement = true → BlockFits body

/-- The range that a function loses, and the star, are in front of the body. -/
structure FunctionFits (node : Node) (removed : Span) (star : Option (Span × Text)) (body : Node) :
    Prop where
  bodyPart : node.child? .body = some body
  block : BlockFits body
  owns : node.Owns removed
  beforeBody : removed.stop ≤ body.start
  star : ∀ replaced ∈ star, removed.stop ≤ replaced.1.start ∧ node.Owns replaced.1 ∧
    replaced.1.stop ≤ body.start

/-- The range that an arrow loses is in front of the arrow, and the body behind it. -/
structure ArrowFits (node : Node) (removed : Span) (body : Node) : Prop where
  bodyPart : node.child? .body = some body
  owns : node.Owns removed
  beforeBody : removed.stop ≤ body.start

/-- The facts about offsets on which a rewrite relies. -/
def Rewrite.Fits (node : Node) : Rewrite → Prop
  | .keep => True
  | .await _ _ => node.Owns ⟨node.start, node.start + 5⟩
  | .name _ use => node.start < node.stop ∧ ∀ binding, use = .called binding → binding.Beside node
  | .key property use =>
    (Field.property, property) ∈ node.parts ∧ node.start < property.start ∧
      property.start < property.stop ∧ property.stop < node.stop ∧
      ∀ binding, use = .called binding → binding.Beside node
  | .assignName left right _ _ =>
    (Field.left, left) ∈ node.parts ∧ (Field.right, right) ∈ node.parts ∧
      left.start < left.stop ∧ node.Owns ⟨left.stop, right.start⟩ ∧ right.start < right.stop
  | .assignKey left property right =>
    node.child? .left = some left ∧ left.is .superMember ∧ (Field.right, right) ∈ node.parts ∧
      (Field.property, property) ∈ left.parts ∧ left.start < property.start ∧
      property.start < property.stop ∧ property.stop < left.stop ∧
      node.Owns ⟨left.stop, right.start⟩ ∧ right.start < right.stop
  | .call binding => binding.Fits node
  | .label => node.Owns ⟨node.start, node.start + 1⟩
  | .loop _ _ labelled particles left right body => LoopFits node labelled particles left right body
  | .function removed star body _ _ => FunctionFits node removed star body
  | .arrowBlock removed body _ _ => ArrowFits node removed body ∧ BlockFits body
  | .arrowValue removed arrowStop body _ _ =>
    ArrowFits node removed body ∧ body.start < body.stop ∧ removed.stop < arrowStop ∧
      arrowStop ≤ body.start ∧ node.IsCut arrowStop

/-! ### Lookups that find their particles -/

/-- An effect makes the calls of a rewrite, and fails only where there is no lowered form. -/
structure Effect.Carries (effect : Effect) (node : Node) (rewrite : Rewrite) : Prop where
  edits : effect.edits = rewrite.edits node
  failure : ∀ failure, effect.failure = some failure →
    ∃ construct line column, failure = .unsupported construct line column
  fits : rewrite.Fits node

/-- The node stands in its parent, which fits its text. -/
def Seated (tokens : Tokens) (node : Node) (parent : Walk.Parent) : Prop :=
  ∀ slot ∈ parent, (slot.2, node) ∈ slot.1.parts ∧ slot.1.Nested ∧ slot.1.shaped tokens = true

theorem parent_of_calledBy {parent : Walk.Parent} {call : Node} (called : calledBy? parent = some call) :
    (call, Field.callee) ∈ parent ∧ call.is .callExpression = true := by
  unfold calledBy? at called
  split at called
  next owner =>
    split at called
    next kind =>
      obtain rfl := Option.some.inj called
      exact ⟨rfl, kind⟩
    next => simp at called
  next => simp at called

theorem Effect.Carries.none (node : Node) : ({} : Effect).Carries node .keep :=
  ⟨rfl, by simp, trivial⟩

section Resolution

variable {reading : Reading} (ordered : reading.tokens.Ordered) {node : Node}

include ordered

theorem awaitEffect_carries (shape : Shape.Await reading.tokens node) (scope : Scope)
    (parent : Walk.Parent) :
    (awaitEffect reading scope node parent).Carries node
      (awaitRewrite reading scope node parent) := by
  obtain ⟨has, owns⟩ := shape
  obtain ⟨index, found, labelled⟩ := has.exists_index
  have located : reading.tokens.locate node.start = some index :=
    ordered.locate_eq found (by simp [Span.contains])
  unfold awaitEffect awaitRewrite
  cases node.child? .argument with
  | none => exact .none node
  | some argument =>
    cases scope.isAsync with
    | false => exact .none node
    | true =>
      simp only [located, Option.any_some, labelled, if_true]
      exact ⟨rfl, by simp [Effect.ofEdits], owns⟩

/-- The parenthesis of a call is found. -/
theorem bindEffect_edits {call : Node} {callee : Node} (shaped : call.shaped reading.tokens = true)
    (kind : call.is .callExpression = true) (part : (Field.callee, callee) ∈ call.parts)
    (member : callee.is .superMember = true) (nested : call.Nested)
    (nonempty : callee.start < callee.stop) :
    (bindEffect reading.tokens callee call).edits = (bindingOf reading.tokens callee call).edits ∧
      (bindEffect reading.tokens callee call).failure = none ∧
      (bindingOf reading.tokens callee call).Beside callee ∧
      (bindingOf reading.tokens callee call).Fits call := by
  have shape : Shape.Call reading.tokens call := by
    simpa [Node.shaped, show call.kind = .callExpression by simpa [Node.is] using kind] using shaped
  obtain ⟨-, filled, parenthesis, -, first, owns⟩ := shape _ part rfl member
  obtain ⟨index, forward, found, -⟩ := first.findForward_eq ordered
  have after := first.2.1
  have looked : ((reading.tokens.findForward (Shape.argumentsFrom call callee) "(".toList).bind
      reading.tokens.get?) = some parenthesis := by
    rw [forward]
    exact found
  have bound : (bindingOf reading.tokens callee call).parenthesis = parenthesis := by
    simp only [bindingOf, looked, Option.getD_some]
  have effect : bindEffect reading.tokens callee call =
      (Effect.ofEdits (((call.child? .typeArguments).map Node.span).toList.map
        fun span => .remove span.start span.stop)).andThen
        ((Effect.ofEdits [.overwrite parenthesis.start parenthesis.stop
          (bindingOf reading.tokens callee call).text]).andThen (.taking { usesThis := true })) := by
    unfold bindEffect
    dsimp only
    rw [show ((call.child? .typeArguments).map Node.stop).getD callee.stop =
      Shape.argumentsFrom call callee from rfl, forward]
    simp only [found, Option.getD_some]
    cases call.child? .typeArguments <;> rfl
  have dropped : ∀ span ∈ (bindingOf reading.tokens callee call).dropped,
      span.start < span.stop ∧ span.stop ≤ parenthesis.start ∧
        (∃ inner ∈ call.parts, inner.2.span = span) ∧
        (span.stop ≤ callee.start ∨ callee.stop ≤ span.start) := by
    intro span given
    obtain ⟨arguments, child, rfl⟩ := Option.map_eq_some_iff.mp given
    have inside := Node.mem_parts_of_child child
    have wide := filled arguments child
    have separate : min callee.stop arguments.stop ≤ max callee.start arguments.start :=
      nested.disjoint part inside (by simp)
    have behind : arguments.stop ≤ parenthesis.start := by
      simpa [Shape.argumentsFrom, child] using after
    refine ⟨wide, behind, ⟨_, inside, rfl⟩, ?_⟩
    change arguments.stop ≤ callee.start ∨ callee.stop ≤ arguments.start
    omega
  have disjoint : min callee.stop parenthesis.stop ≤ max callee.start parenthesis.start :=
    owns.2.2.2 _ part
  have wide := owns.2.1
  refine ⟨?_, ?_, ⟨?_, ?_, ?_⟩, ⟨?_, ?_⟩⟩
  · rw [effect, Binding.edits, bound]
    rfl
  · rw [effect]
    rfl
  · rw [bound]
    exact wide
  · rw [bound]
    omega
  · rw [bound]
    intro span given
    obtain ⟨ordered, behind, -, apart⟩ := dropped span given
    exact ⟨ordered, behind, apart⟩
  · rw [bound]
    exact owns
  · rw [bound]
    intro span given
    obtain ⟨ordered, behind, inner, -⟩ := dropped span given
    exact ⟨ordered, behind, inner⟩

theorem superMemberEffect_carries (shape : Shape.Member node) (kind : node.is .superMember = true)
    (scope : Scope) {parent : Walk.Parent} (seated : Seated reading.tokens node parent) :
    (superMemberEffect reading scope node parent).Carries node
      (memberRewrite reading scope node parent) := by
  obtain ⟨nonempty, computed⟩ := shape
  unfold superMemberEffect memberRewrite replaces
  cases applies : scope.isAsync && !scope.inParams && !isWritten parent with
  | false => exact .none node
  | true =>
    simp only [if_true]
    have use : (finishEffect reading.tokens node parent).edits =
          (useOf reading.tokens node parent).edits node ∧
        (finishEffect reading.tokens node parent).failure = none ∧
        ∀ binding, useOf reading.tokens node parent = .called binding → binding.Beside node := by
      unfold finishEffect useOf
      cases called : calledBy? parent with
      | none =>
        dsimp only
        cases isConstructed parent <;> simp [Use.edits, Effect.ofEdits]
      | some call =>
        obtain ⟨slot, kindCall⟩ := parent_of_calledBy called
        obtain ⟨part, nested, shaped⟩ := seated _ slot
        obtain ⟨edits, failure, beside, -⟩ :=
          bindEffect_edits ordered shaped kindCall part kind nested nonempty
        refine ⟨edits, failure, ?_⟩
        rintro binding ⟨rfl⟩
        exact beside
    obtain ⟨edits, finished, beside⟩ := use
    unfold readEffect
    cases keyed : node.flags.computed with
    | false =>
      simp only [Bool.false_eq_true, if_false]
      refine ⟨?_, ?_, nonempty, beside⟩
      · simp [Effect.andThen, Effect.ofEdits, Effect.taking, Rewrite.edits, edits]
      · simp [Effect.andThen, Effect.ofEdits, Effect.taking, finished]
    | true =>
      obtain ⟨property, child, above, inner, below⟩ := computed keyed
      simp only [if_true, show node.child? .property = some property from child]
      refine ⟨?_, ?_, Node.mem_parts_of_child child, above, inner, below, beside⟩
      · simp [Effect.andThen, Effect.ofEdits, Effect.taking, Rewrite.edits, edits]
      · simp [Effect.andThen, Effect.ofEdits, Effect.taking, finished]

omit ordered in
theorem superTarget_eq_some {scopes : Scopes} {field : Field} {target : Node}
    (found : superTarget? scopes node field = some target) :
    node.child? field = some target ∧ target.is .superMember = true := by
  unfold superTarget? at found
  split at found
  · exact Option.filter_eq_some_iff.mp found
  · simp at found

omit ordered in
theorem shape_of_member {tokens : Tokens} (kind : node.is .superMember = true)
    (shaped : node.shaped tokens = true) : Shape.Member node := by
  simpa [Node.shaped, show node.kind = .superMember by simpa [Node.is] using kind] using shaped

omit ordered in
theorem assignmentEffect_carries (shape : Shape.Assignment node)
    (parts : ∀ part ∈ node.parts, part.2.shaped reading.tokens = true) (scope : Scope) :
    (assignmentEffect reading scope node).Carries node (assignmentRewrite scope node) := by
  unfold assignmentEffect assignmentRewrite
  cases target : superTarget? { current := scope } node .left with
  | none => exact .none node
  | some left =>
    cases value : node.child? .right with
    | none => exact .none node
    | some right =>
      obtain ⟨child, member⟩ := superTarget_eq_some target
      have leftPart := Node.mem_parts_of_child child
      have rightPart := Node.mem_parts_of_child value
      obtain ⟨behind, rightNonempty⟩ := shape left child member right value
      obtain ⟨leftNonempty, keyed⟩ := shape_of_member member (parts _ leftPart)
      dsimp only at leftNonempty keyed ⊢
      cases computed : left.flags.computed with
      | false =>
        unfold plainAssignmentEffect compoundAssignmentEffect
        simp only [computed, Bool.false_eq_true, if_false]
        split
        · exact ⟨rfl, by simp [Effect.andThen, Effect.ofEdits, Effect.taking], leftPart, rightPart,
            leftNonempty, behind, rightNonempty⟩
        · exact ⟨rfl, by simp [Effect.andThen, Effect.ofEdits, Effect.taking], leftPart, rightPart,
            leftNonempty, behind, rightNonempty⟩
      | true =>
        obtain ⟨property, inner, above, wide, below⟩ := keyed computed
        unfold plainAssignmentEffect compoundAssignmentEffect
        simp only [computed, if_true, show left.child? .property = some property from inner]
        split
        · exact ⟨rfl, by simp [Effect.andThen, Effect.ofEdits, Effect.taking], child, member, rightPart,
            Node.mem_parts_of_child inner, above, wide, below, behind, rightNonempty⟩
        · refine ⟨rfl, ?_, trivial⟩
          intro failure failed
          obtain rfl : unsupportedAt reading.lines .compoundAssignment node.start = failure := by
            simpa [Effect.failing] using failed
          exact ⟨_, _, _, rfl⟩

omit ordered in
theorem updateEffect_carries (nested : node.Nested)
    (parts : ∀ part ∈ node.parts, part.2.shaped reading.tokens = true) (scope : Scope) :
    (updateEffect reading scope node).Carries node (updateRewrite scope node) := by
  unfold updateEffect updateRewrite
  cases found : superTarget? { current := scope } node .argument with
  | none => exact .none node
  | some target =>
    obtain ⟨child, member⟩ := superTarget_eq_some found
    have part := Node.mem_parts_of_child child
    obtain ⟨first, last⟩ := nested.2.1 _ part
    obtain ⟨nonempty, -⟩ := shape_of_member member (parts _ part)
    dsimp only at first last nonempty ⊢
    cases computed : target.flags.computed with
    | false =>
      simp only [Bool.false_eq_true, if_false]
      exact ⟨rfl, by simp [Effect.andThen, Effect.ofEdits, Effect.taking], by omega, by simp⟩
    | true =>
      simp only [if_true]
      refine ⟨rfl, ?_, trivial⟩
      intro failure failed
      obtain rfl : unsupportedAt reading.lines .update node.start = failure := by
        simpa [Effect.failing] using failed
      exact ⟨_, _, _, rfl⟩

omit ordered in
theorem wrapStart_eq (parent : Walk.Parent) :
    wrapStart node parent = (labelledAt? parent).getD node.start := by
  rcases parent with _ | ⟨owner, field⟩
  · rfl
  · cases field <;> try rfl
    by_cases label : owner.is .labeledStatement <;> simp [wrapStart, labelledAt?, label]

omit ordered in
/-- A label around a loop begins before the loop. -/
theorem labelledAt_lt {tokens : Tokens} {parent : Walk.Parent} (seated : Seated tokens node parent)
    (kind : node.is .forOfStatement = true) (loop : node.flags.isAwait = true)
    (nonempty : node.start < node.stop) : ∀ offset ∈ labelledAt? parent, offset < node.start := by
  intro offset found
  unfold labelledAt? at found
  split at found
  next owner =>
    split at found
    next label =>
      obtain rfl : owner.start = offset := by simpa using found
      obtain ⟨part, nested, shaped⟩ := seated _ rfl
      have shape : Shape.Label owner := by
        simpa [Node.shaped, show owner.kind = .labeledStatement by simpa [Node.is] using label]
          using shaped
      obtain ⟨-, -, -, -, apart⟩ := shape _ part rfl kind loop
      have disjoint : min node.stop (owner.start + 1) ≤ max node.start owner.start := apart _ part
      have inside : owner.start ≤ node.start := (nested.2.1 _ part).1
      omega
    next => simp at found
  next => simp at found

/-- The particles of a loop are found. -/
theorem findParticles_ok {left right body : Node} (shape : Shape.Loop reading.tokens node)
    (target : node.child? .left = some left) (iterable : node.child? .right = some right)
    (inner : node.child? .body = some body) :
    ∃ particles, findParticles reading.tokens node body = .ok particles ∧
      ∀ labelled : Option Nat, (∀ offset ∈ labelled, offset < node.start) →
        LoopFits node labelled particles left right body := by
  obtain ⟨⟨leftNonempty, between, rightNonempty, bodyNonempty, braced⟩, ⟨first, own⟩,
    keyword, -, afterFirst, named, opening, token, afterKeyword, parenthesis, ownHead,
    beforeLeft, closing, -, last, -, ownClosing, beforeBody⟩ :=
    shape left target right iterable body inner
  have from' : reading.tokens.FirstFrom node.start "await".toList keyword :=
    afterFirst.firstFrom ordered first named (by decide)
  obtain ⟨index, forward, found, -⟩ := from'.findForward_eq ordered
  have next := afterKeyword.get_eq ordered found
  have opened : reading.tokens.is (index + 1) "(".toList = true :=
    (Tokens.is_iff next).mpr parenthesis.2
  obtain ⟨place, backward, foundClosing, -⟩ := last.findBackward_eq ordered
  obtain ⟨spot, at', -⟩ := first.exists_index
  have begun := ordered.before at' (afterFirst.get_eq ordered at') (Nat.lt_succ_self spot)
  have follows := ordered.before found next (Nat.lt_succ_self index)
  refine ⟨{ keyword, opening, closing }, ?_, fun labelled outside => ?_⟩
  · unfold findParticles
    rw [forward]
    simp only [opened, if_true, backward, found, next, foundClosing]
  · exact
      { leftPart := Node.mem_parts_of_child target
        rightPart := Node.mem_parts_of_child iterable
        bodyPart := inner
        outside := outside
        begun := begun.1
        opened := follows.2
        keyword := ownHead
        opening := ordered.1 opening token
        beforeLeft := beforeLeft
        leftNonempty := leftNonempty
        between := between
        rightNonempty := rightNonempty
        closing := ownClosing
        beforeBody := beforeBody
        bodyNonempty := bodyNonempty
        block := fun block => blockFits_of_braced (braced block) }

theorem loopEffect_carries (shape : Shape.Loop reading.tokens node) (nested : node.Nested)
    (kind : node.is .forOfStatement = true) (loop : node.flags.isAwait = true) (scope : Scope)
    (number : Nat) {parent : Walk.Parent} (seated : Seated reading.tokens node parent) :
    (loopEffect reading scope number node parent).Carries node
      (loopRewrite reading scope number node parent) := by
  unfold loopEffect loopRewrite
  cases scope.isAsync with
  | false => exact .none node
  | true =>
    cases target : node.child? .left with
    | none => exact .none node
    | some left =>
      cases iterable : node.child? .right with
      | none => exact .none node
      | some right =>
        cases inner : node.child? .body with
        | none => exact .none node
        | some body =>
          obtain ⟨particles, found, fits⟩ := findParticles_ok ordered shape target iterable inner
          simp only [if_true, found, wrapStart_eq]
          refine ⟨by simp [Effect.andThen, Effect.ofEdits, Effect.noting, Rewrite.edits],
            by simp [Effect.andThen, Effect.ofEdits, Effect.noting],
            fits _ (labelledAt_lt seated kind loop ?_)⟩
          have wide := (fits none (by simp)).leftNonempty
          have inside := nested.2.1 _ (Node.mem_parts_of_child target)
          dsimp only at inside
          omega

/-- `async`, `function` and the star of a function are found. -/
theorem stripFunctionEffect_edits {body : Node} (shape : Shape.Function reading.tokens node)
    (inner : node.child? .body = some body) :
    (stripFunctionEffect reading node).failure = none ∧
      (stripFunctionEffect reading node).edits =
        .remove (functionParticles reading node).1.start (functionParticles reading node).1.stop
          :: (functionParticles reading node).2.toList.map
            (fun replaced => .overwrite replaced.1.start replaced.1.stop replaced.2) ∧
      FunctionFits node (functionParticles reading node).1 (functionParticles reading node).2 body := by
  obtain ⟨braced, named, function, token, adjacent, keyword, own, beforeBody, generator⟩ :=
    shape body inner
  obtain ⟨index, found, labelled⟩ := named.exists_index
  have next := adjacent.get_eq ordered found
  have first : reading.tokens.FirstFrom node.start "function".toList function :=
    adjacent.firstFrom ordered named keyword (by decide)
  obtain ⟨place, forward, foundFunction, -⟩ := first.findForward_eq ordered
  obtain rfl : place = index + 1 := ordered.index_unique foundFunction next
  have follows := ordered.before found next (Nat.lt_succ_self index)
  have starts : tokenStart reading.tokens index node.start = node.start := by
    rw [tokenStart, found]
    rfl
  have stops : tokenStart reading.tokens (index + 1) node.start = function.start := by
    rw [tokenStart, next]
    rfl
  have wide := ordered.1 function token
  have ownRemoved : node.Owns ⟨node.start, function.start⟩ := own.mono le_rfl follows.2 wide
  have removed : (functionParticles reading node).1 = ⟨node.start, function.start⟩ := by
    unfold functionParticles
    simp only [forward, Option.getD_some, stops]
  unfold stripFunctionEffect
  simp only [forward, before?, Option.filter, labelled, if_true, starts, stops, removed]
  cases generates : node.flags.isGenerator with
  | false =>
    have none : (functionParticles reading node).2 = none := by
      unfold functionParticles
      simp only [generates, Bool.false_eq_true, if_false]
    rw [none]
    refine ⟨rfl, rfl, ?_⟩
    exact
      { bodyPart := inner
        block := blockFits_of_braced braced
        owns := ownRemoved
        beforeBody := by dsimp only; omega
        star := by simp }
  | true =>
    obtain ⟨star, -, afterFunction, ⟨asterisk, ownStar⟩, starBeforeBody⟩ := generator generates
    have third := afterFunction.get_eq ordered next
    have starred : reading.tokens.is (index + 1 + 1) "*".toList = true :=
      (Tokens.is_iff third).mpr asterisk.2
    have some' : (functionParticles reading node).2 = some (star,
        if isSolid reading.source (before? star.start) && isSolid reading.source (some star.stop)
        then [' '] else []) := by
      unfold functionParticles
      simp only [forward, Option.getD_some, generates, if_true, third]
    have order := ordered.before next third (Nat.lt_succ_self _)
    simp only [if_true, starred, third, Option.getD_some, some']
    refine ⟨rfl, rfl, ?_⟩
    exact
      { bodyPart := inner
        block := blockFits_of_braced braced
        owns := ownRemoved
        beforeBody := by dsimp only; omega
        star := by
          rintro replaced ⟨rfl⟩
          exact ⟨order.2.le, ownStar, starBeforeBody⟩ }

/-- `async` in front of the key of a method is found. -/
theorem stripMethodEffect_edits {body : Node} (shape : Shape.Method reading.tokens node)
    (inner : node.child? .body = some body) :
    ∃ key, node.child? .key = some key ∧
      (stripMethodEffect reading.tokens node).failure = none ∧
      (stripMethodEffect reading.tokens node).edits =
        [.remove (methodParticles reading.tokens node key).start
          (methodParticles reading.tokens node key).stop] ∧
      FunctionFits node (methodParticles reading.tokens node key) none body := by
  obtain ⟨braced, key, child, keyNonempty, beforeBody, first, firstToken, starts, keyword, -,
    named, own, star⟩ := shape body inner
  obtain ⟨index, found, labelled⟩ := named.exists_index
  refine ⟨key, child, ?_⟩
  have fits : FunctionFits node ⟨keyword.start, first.start⟩ none body :=
    { bodyPart := inner
      block := blockFits_of_braced braced
      owns := starts ▸ own
      beforeBody := by dsimp only; omega
      star := by simp }
  have startOf (place : Nat) (span : Span) (at' : reading.tokens.get? place = some span) :
      tokenStart reading.tokens place first.start = span.start := by
    rw [tokenStart, at']
    rfl
  unfold stripMethodEffect methodParticles
  simp only [show node.child? .key = some key from child, ← starts]
  cases generates : node.flags.isGenerator with
  | false =>
    have adjacent : reading.tokens.Adjacent keyword first := by simpa [generates] using star
    have next := adjacent.get_eq ordered found
    have here := ordered.firstFrom_eq next
    have order := ordered.before found next (Nat.lt_succ_self index)
    rw [here]
    simp only [before?, Bool.false_eq_true, if_false, Option.filter, labelled, if_true,
      Nat.add_sub_cancel, startOf _ _ found, startOf _ _ next]
    exact ⟨rfl, rfl, fits⟩
  | true =>
    obtain ⟨asterisk, -, after, starred, adjacent⟩ : ∃ star ∈ reading.tokens.spans.toList,
        reading.tokens.Adjacent keyword star ∧ reading.tokens.Has star "*".toList ∧
          reading.tokens.Adjacent star first := by simpa [generates] using star
    have middle := after.get_eq ordered found
    have next := adjacent.get_eq ordered middle
    have here := ordered.firstFrom_eq next
    have order := ordered.before found next (by omega)
    have isStar : reading.tokens.is (index + 1) "*".toList = true :=
      (Tokens.is_iff middle).mpr starred.2
    rw [here]
    simp only [before?, if_true, Option.filter, isStar, Option.bind_some, labelled,
      show index + 1 + 1 - 2 = index from rfl, startOf _ _ found, startOf _ _ next]
    exact ⟨rfl, rfl, fits⟩

/-- `async` at the start of an arrow is found. -/
theorem stripArrowEffect_edits {body : Node} (shape : Shape.Arrow reading.tokens node)
    (inner : node.child? .body = some body) :
    (stripArrowEffect reading.tokens node).failure = none ∧
      (stripArrowEffect reading.tokens node).edits =
        [.remove (arrowParticles reading.tokens node).start
          (arrowParticles reading.tokens node).stop] ∧
      ArrowFits node (arrowParticles reading.tokens node) body := by
  obtain ⟨named, second, -, adjacent, own, beforeBody, -⟩ := shape body inner
  obtain ⟨index, found, labelled⟩ := named.exists_index
  have next := adjacent.get_eq ordered found
  have here := ordered.firstFrom_eq found
  dsimp only at here
  have order := ordered.before found next (Nat.lt_succ_self index)
  have starts : tokenStart reading.tokens index node.start = node.start := by
    rw [tokenStart, found]
    rfl
  have stops : tokenStart reading.tokens (index + 1) node.stop = second.start := by
    rw [tokenStart, next]
    rfl
  unfold stripArrowEffect arrowParticles
  simp only [here, List.find?_cons, labelled, starts, stops]
  exact ⟨rfl, rfl, inner, own, beforeBody⟩

/-- The body of an arrow is wrapped, behind its `=>` where it is no block. -/
theorem wrapArrowEffect_carries {body : Node} (shape : Shape.Arrow reading.tokens node)
    (inner : node.child? .body = some body) (opening closing : Text) :
    let removed := arrowParticles reading.tokens node
    let arrow := (reading.tokens.findBackward body.start "=>".toList).bind reading.tokens.get?
    ((stripArrowEffect reading.tokens node).andThen
      (wrapArrowEffect reading.tokens body opening closing)).Carries node
      (if body.is .blockStatement then .arrowBlock removed body opening closing
        else .arrowValue removed ((arrow.map Span.stop).getD body.start) body opening closing) := by
  obtain ⟨done, edits, fits⟩ := stripArrowEffect_edits ordered shape inner
  obtain ⟨named, second, -, adjacent, -, -, form⟩ := shape body inner
  obtain ⟨index, found, -⟩ := named.exists_index
  have here := ordered.firstFrom_eq found
  dsimp only at here
  have removed : (arrowParticles reading.tokens node).stop = second.start := by
    unfold arrowParticles
    rw [here, tokenStart, adjacent.get_eq ordered found]
    rfl
  dsimp only
  cases block : body.is .blockStatement with
  | true =>
    have braced : Shape.Braced reading.tokens body := by simpa [block] using form
    have wide := braced.2.1
    simp only [wrapArrowEffect, block, if_true, offsetBefore, if_neg (show ¬ body.stop = 0 by omega)]
    refine ⟨?_, ?_, fits, blockFits_of_braced braced⟩
    · simp only [Effect.andThen, done, edits, Rewrite.edits, Effect.ofEdits]
      rfl
    · simp [Effect.andThen, done, Effect.ofEdits]
  | false =>
    simp only [block, Bool.false_eq_true, if_false] at form
    obtain ⟨nonempty, arrow, -, last, own, behind, beforeBody⟩ := form
    obtain ⟨place, backward, foundArrow, -⟩ := last.findBackward_eq ordered
    have wide := own.2.1
    simp only [wrapArrowEffect, block, Bool.false_eq_true, if_false, backward, Option.bind_some,
      foundArrow, Option.map_some, Option.getD_some]
    refine ⟨?_, ?_, fits, nonempty, by omega, beforeBody, own.isCut_stop⟩
    · simp only [Effect.andThen, done, edits, Rewrite.edits, Effect.ofEdits]
      rfl
    · simp [Effect.andThen, done, Effect.ofEdits]

omit ordered in
/-- Wrapping the body of a function or method whose particles were found. -/
theorem wrapped_carries {strip : Effect} {removed : Span} {star : Option (Span × Text)} {body : Node}
    (done : strip.failure = none)
    (edits : strip.edits = .remove removed.start removed.stop ::
      star.toList.map (fun replaced => .overwrite replaced.1.start replaced.1.stop replaced.2))
    (fits : FunctionFits node removed star body) (opening closing : Text) :
    (strip.andThen (.ofEdits [.insertBefore (body.start + 1) opening,
      .insertBefore (offsetBefore body.stop) closing])).Carries node
      (.function removed star body opening closing) := by
  have wide := fits.block.wide
  rw [offsetBefore, if_neg (by omega)]
  refine ⟨?_, ?_, fits⟩
  · rw [Effect.edits_andThen _ done, edits]
    rfl
  · simp [Effect.andThen, done, Effect.ofEdits]

omit ordered in
theorem Effect.Carries.noting {effect : Effect} {rewrite : Rewrite} (carries : effect.Carries node rewrite)
    (usage : Usage) (loops : Nat) : (effect.andThen (.noting usage loops)).Carries node rewrite := by
  obtain ⟨edits, failure, fits⟩ := carries
  refine ⟨?_, fun failed found => ?_, fits⟩
  · cases done : effect.failure <;> simp [Effect.andThen, done, Effect.noting, edits]
  · rcases Effect.failure_of_andThen found with here | later
    · exact failure failed here
    · simp [Effect.noting] at later

theorem functionEffect_carries (shaped : node.shaped reading.tokens = true)
    (async : node.flags.isAsync = true) (kind : node.kind.isFunctionLike = true)
    (record outer : Scope) :
    (functionEffect reading record outer node).Carries node
      (functionRewrite reading record outer node) := by
  unfold functionEffect functionRewrite replaces
  cases inner : node.child? .body with
  | none => exact .none node
  | some body =>
    dsimp only
    apply Effect.Carries.noting
    rw [Node.shaped] at shaped
    cases named : node.kind <;> rw [named] at kind shaped <;> try contradiction
    case arrowFunctionExpression =>
      have shape : Shape.Arrow reading.tokens node := by simpa [async] using shaped
      simp only [Node.is, named, BEq.rfl, if_true]
      exact wrapArrowEffect_carries ordered shape inner _ _
    case functionDeclaration | functionExpression =>
      have shape : Shape.Function reading.tokens node := by simpa [async] using shaped
      obtain ⟨done, edits, fits⟩ := stripFunctionEffect_edits ordered shape inner
      simp only [Node.is, named, Kind.isMethod, Bool.false_eq_true, if_false, reduceCtorEq, beq_iff_eq]
      exact wrapped_carries done edits fits _ _
    case objectMethod | classMethod =>
      have shape : Shape.Method reading.tokens node := by simpa [async] using shaped
      obtain ⟨key, child, done, edits, fits⟩ := stripMethodEffect_edits ordered shape inner
      simp only [Node.is, named, Kind.isMethod, if_true, if_false, reduceCtorEq, beq_iff_eq, child]
      exact wrapped_carries done edits fits _ _

theorem callRewrite_fits (nested : node.Nested) (kind : node.is .callExpression = true)
    (shaped : node.shaped reading.tokens = true)
    (parts : ∀ part ∈ node.parts, part.2.shaped reading.tokens = true) (scope : Scope) :
    (callRewrite reading scope node).Fits node := by
  unfold callRewrite
  cases found : node.parts.find? fun part => part.1 == .callee && part.2.is .superMember with
  | none => trivial
  | some part =>
    cases replaces scope with
    | false => trivial
    | true =>
      have member := List.mem_of_find?_eq_some found
      have chosen := List.find?_some found
      obtain ⟨field, callee⟩ := part
      obtain ⟨rfl, super⟩ : field = .callee ∧ callee.is .superMember = true := by
        simpa using chosen
      have nonempty := (shape_of_member super (parts _ member)).1
      exact (bindEffect_edits ordered shaped kind member super nested nonempty).2.2.2

omit ordered in
theorem labelRewrite_fits (kind : node.is .labeledStatement = true)
    (shaped : node.shaped reading.tokens = true) (scope : Scope) :
    (labelRewrite scope node).Fits node := by
  have shape : Shape.Label node := by
    simpa [Node.shaped, show node.kind = .labeledStatement by simpa [Node.is] using kind] using shaped
  unfold labelRewrite
  cases lowered : node.parts.any fun part => part.1 == .body && lowersLoop scope part.2 with
  | false => trivial
  | true =>
    obtain ⟨part, member, chosen⟩ := List.any_eq_true.mp lowered
    simp only [lowersLoop, Bool.and_eq_true, beq_iff_eq] at chosen
    exact (shape part member chosen.1 chosen.2.1.1.1.1.1 chosen.2.1.1.1.1.2).2

/-- Every rule finds what it looks up, makes the calls of the node's rewrite and fails only
where a construct has no lowered form. -/
theorem nodeEffect_carries {place : Place} (nested : node.Nested)
    (shaped : node.shaped reading.tokens = true)
    (parts : ∀ part ∈ node.parts, part.2.shaped reading.tokens = true)
    (seated : Seated reading.tokens node place.parent) :
    (nodeEffect reading node place).Carries node (rewrite reading node place) := by
  unfold nodeEffect rewrite
  cases opens : node.opensScope with
  | true =>
    simp only [if_true, dropEffect]
    change Effect.Carries (if (node.flags.isAsync && node.kind.isFunctionLike) = true then _ else _) _ _
    by_cases lowered : (node.flags.isAsync && node.kind.isFunctionLike) = true
    · rw [if_pos lowered, if_pos lowered]
      rw [Bool.and_eq_true] at lowered
      exact functionEffect_carries ordered shaped lowered.1 lowered.2 _ _
    · rw [if_neg lowered, if_neg lowered]
      exact .none node
  | false =>
    simp only [Bool.false_eq_true, if_false, ruleEffect]
    have shape := shaped
    rw [Node.shaped] at shape
    cases named : node.kind <;> rw [named] at shape <;> dsimp only at shape ⊢ <;>
      try exact .none node
    case awaitExpression =>
      exact awaitEffect_carries ordered (of_decide_eq_true shape) place.scope place.parent
    case superMember =>
      exact superMemberEffect_carries ordered (of_decide_eq_true shape) (by simp [Node.is, named])
        place.scope seated
    case assignmentExpression =>
      exact assignmentEffect_carries (of_decide_eq_true shape) parts place.scope
    case updateExpression => exact updateEffect_carries nested parts place.scope
    case callExpression =>
      have fits := callRewrite_fits ordered nested (by simp [Node.is, named]) shaped parts place.scope
      refine ⟨?_, by simp, fits⟩
      unfold callRewrite
      split <;> [rfl; split] <;> rfl
    case labeledStatement =>
      have fits := labelRewrite_fits (by simp [Node.is, named]) shaped place.scope
      refine ⟨?_, by simp, fits⟩
      unfold labelRewrite
      split <;> rfl
    case forOfStatement =>
      cases loop : node.flags.isAwait with
      | false => exact .none node
      | true =>
        have shape : Shape.Loop reading.tokens node := by simpa [loop] using shape
        exact loopEffect_carries ordered shape nested (by simp [Node.is, named]) loop place.scope _
          seated

end Resolution

end Unawait.Lowering
