import Mathlib
import Unawait.Proofs.ConflictFreedom
import Unawait.Proofs.RunCalls
import Unawait.Proofs.VisitOrder

/-!
# Constructs without a lowered form

An assignment with an operator and an update read their target before they write it. In a
lowered body a member of `super` is read and written by calls that are given its key, so with a
computed key the key would be evaluated twice, and there is no lowered form.

In a tree that fits its text this is the only reason for which a rule fails: every other failure
is for want of a particle, and the particles are where they are looked for. So a run reports such
a construct exactly if the tree has one, it reports the first one in the order in which nodes are
left, and a run that reports none, and in which no edit is refused, succeeds.
-/

namespace Unawait

/-- Whether a field of a node holds a member of `super` with a computed key. -/
def Node.holdsComputedMember (node : Node) (field : Field) : Bool :=
  (node.child? field).any fun target => target.is .superMember && target.flags.computed

/-- The construct that a node is if it would read and write a member of `super` with a computed
key: an assignment with an operator other than `=`, or an update. -/
def Node.rereadsKey? (node : Node) : Option Construct :=
  if node.is .assignmentExpression && node.head.operator.getD ['='] != ['=']
      && node.holdsComputedMember .left && (node.child? .right).isSome then
    some .compoundAssignment
  else if node.is .updateExpression && node.holdsComputedMember .argument then some .update
  else none

namespace Lowering

/-- The construct without a lowered form that a node at the end of slots is. Outside of the
bodies of async functions, in their parameters too, members of `super` stay as they are. -/
def unlowered? (visited : Trail × Node) : Option Construct :=
  if inLoweredBody visited.1 then visited.2.rereadsKey? else none

/-! ### Failures for want of a particle -/

/-- An effect fails, if it does, because a particle is not found. -/
def Effect.OnlyMisses (effect : Effect) : Prop :=
  ∀ failure, effect.failure = some failure →
    ∃ expected offset, failure = .missingToken expected offset

namespace Effect.OnlyMisses

theorem of_done {effect : Effect} (done : effect.failure = none) : effect.OnlyMisses := by
  simp [OnlyMisses, done]

theorem missing (expected : String) (offset : Nat) :
    (Effect.failing (.missingToken expected offset)).OnlyMisses := by
  intro failure failed
  exact ⟨expected, offset, (Option.some.inj failed).symm⟩

theorem andThen {first second : Effect} (here : first.OnlyMisses) (after : second.OnlyMisses) :
    (first.andThen second).OnlyMisses := fun failure failed =>
  (Effect.failure_of_andThen failed).elim (here failure) (after failure)

/-- In a tree that fits its text such an effect does not fail. -/
theorem failure_eq_none {effect : Effect} (misses : effect.OnlyMisses) {node : Node}
    {rewrite : Rewrite} (carries : effect.Carries node rewrite) : effect.failure = none := by
  cases failed : effect.failure with
  | none => rfl
  | some failure =>
    obtain ⟨expected, offset, missing⟩ := misses failure failed
    obtain ⟨construct, line, column, unsupported⟩ := carries.failure failure failed
    simp [missing] at unsupported

end Effect.OnlyMisses

section Misses

variable {reading : Reading} {scope : Scope} {node : Node} {parent : Walk.Parent}

open Effect (OnlyMisses)

theorem awaitEffect_onlyMisses : (awaitEffect reading scope node parent).OnlyMisses := by
  unfold awaitEffect
  split
  · exact .of_done rfl
  · split
    · split
      · exact .of_done rfl
      · exact .missing _ _
    · exact .of_done rfl

theorem bindEffect_onlyMisses {tokens : Tokens} {callee call : Node} :
    (bindEffect tokens callee call).OnlyMisses := by
  unfold bindEffect
  refine .andThen (.of_done rfl) ?_
  split
  · exact .missing _ _
  · exact .of_done rfl

theorem superMemberEffect_onlyMisses :
    (superMemberEffect reading scope node parent).OnlyMisses := by
  unfold superMemberEffect
  split
  · refine .andThen ?_ (.andThen (.of_done rfl) ?_)
    · unfold readEffect
      split
      · split
        · exact .missing _ _
        · exact .of_done rfl
      · exact .of_done rfl
    · unfold finishEffect
      split
      · exact bindEffect_onlyMisses
      · split <;> exact .of_done rfl
  · exact .of_done rfl

theorem plainAssignmentEffect_onlyMisses {left right : Node} :
    (plainAssignmentEffect node left right).OnlyMisses := by
  unfold plainAssignmentEffect
  refine .andThen ?_ (.of_done rfl)
  split
  · split
    · exact .missing _ _
    · exact .of_done rfl
  · exact .of_done rfl

theorem loopEffect_onlyMisses {number : Nat} :
    (loopEffect reading scope number node parent).OnlyMisses := by
  unfold loopEffect
  split <;> [skip; exact .of_done rfl]
  split <;> [skip; exact .of_done rfl]
  split
  next failure found =>
    unfold findParticles at found
    repeat' split at found
    all_goals
      cases found
      try exact .missing _ _
  next => exact .of_done rfl

theorem stripFunctionEffect_onlyMisses : (stripFunctionEffect reading node).OnlyMisses := by
  unfold stripFunctionEffect
  dsimp only
  split
  · exact .missing _ _
  · split
    · exact .missing _ _
    · refine .andThen (.of_done rfl) ?_
      split
      · split
        · exact .of_done rfl
        · exact .missing _ _
      · exact .of_done rfl

theorem stripMethodEffect_onlyMisses {tokens : Tokens} :
    (stripMethodEffect tokens node).OnlyMisses := by
  unfold stripMethodEffect
  dsimp only
  split
  · exact .missing _ _
  · split
    · exact .missing _ _
    · exact .of_done rfl

theorem wrapArrowEffect_onlyMisses {tokens : Tokens} {body : Node} {opening closing : Text} :
    (wrapArrowEffect tokens body opening closing).OnlyMisses := by
  unfold wrapArrowEffect
  split
  · exact .of_done rfl
  · split
    · exact .missing _ _
    · exact .of_done rfl

theorem functionEffect_onlyMisses {outer : Scope} :
    (functionEffect reading scope outer node).OnlyMisses := by
  unfold functionEffect
  split
  · exact .of_done rfl
  · refine .andThen ?_ (.of_done rfl)
    split
    · refine .andThen ?_ wrapArrowEffect_onlyMisses
      unfold stripArrowEffect
      dsimp only
      split
      · exact .missing _ _
      · exact .of_done rfl
    · refine .andThen ?_ (.of_done rfl)
      split
      · exact stripMethodEffect_onlyMisses
      · exact stripFunctionEffect_onlyMisses

end Misses

/-! ### Failures of the rules -/

section Failures

variable {reading : Reading} {root node : Node} {trail : Trail}

/-- In a lowered body the computed members in a field are the targets that are replaced. -/
theorem holdsComputedMember_eq (field : Field) :
    (inLoweredBody trail && node.holdsComputedMember field) =
      (superTarget? { current := scopeAlong {} trail } node field).any
        fun target => target.flags.computed := by
  have replaced : ({ current := scopeAlong {} trail } : Scopes).replacesSuper = inLoweredBody trail :=
    replaces_scopeAlong trail
  rw [superTarget?, replaced, Node.holdsComputedMember]
  cases inLoweredBody trail with
  | false => rfl
  | true =>
    cases node.child? field with
    | none => rfl
    | some target => cases member : target.is .superMember <;> simp [Option.filter, member]

/-- The rule for an assignment fails only where the computed key would be evaluated twice. -/
theorem failure_assignmentEffect (kind : node.kind = .assignmentExpression) {rewrite : Rewrite}
    (carries : (assignmentEffect reading (scopeAlong {} trail) node).Carries node rewrite) :
    (assignmentEffect reading (scopeAlong {} trail) node).failure =
      (unlowered? (trail, node)).map fun construct =>
        unsupportedAt reading.lines construct node.start := by
  have unlowered : unlowered? (trail, node) =
      if (inLoweredBody trail && node.holdsComputedMember .left)
          && (node.head.operator.getD ['='] != ['='] && (node.child? .right).isSome) then
        some .compoundAssignment
      else none := by
    rw [unlowered?, Node.rereadsKey?]
    cases inLoweredBody trail <;> simp [Node.is, kind, and_assoc, and_left_comm]
  rw [unlowered, holdsComputedMember_eq]
  unfold assignmentEffect at carries ⊢
  cases target : superTarget? { current := scopeAlong {} trail } node .left with
  | none => simp
  | some left =>
    cases value : node.child? .right with
    | none => simp
    | some right =>
      by_cases plain : node.head.operator.getD ['='] = ['=']
      · simp only [target, value, plain, if_true] at carries ⊢
        rw [plainAssignmentEffect_onlyMisses.failure_eq_none carries]
        simp
      · cases computed : left.flags.computed <;>
          simp [plain, computed, compoundAssignmentEffect, Effect.andThen, Effect.ofEdits,
            Effect.taking, Effect.failing]

theorem failure_updateEffect (kind : node.kind = .updateExpression) :
    (updateEffect reading (scopeAlong {} trail) node).failure =
      (unlowered? (trail, node)).map fun construct =>
        unsupportedAt reading.lines construct node.start := by
  have unlowered : unlowered? (trail, node) =
      if inLoweredBody trail && node.holdsComputedMember .argument then some .update else none := by
    rw [unlowered?, Node.rereadsKey?]
    cases inLoweredBody trail <;> simp [Node.is, kind]
  rw [unlowered, holdsComputedMember_eq, updateEffect]
  cases superTarget? { current := scopeAlong {} trail } node .argument with
  | none => simp
  | some target =>
    cases computed : target.flags.computed <;>
      simp [computed, Effect.andThen, Effect.ofEdits, Effect.taking, Effect.failing]

theorem rereadsKey_eq_none (assigns : node.kind ≠ .assignmentExpression)
    (updates : node.kind ≠ .updateExpression) : node.rereadsKey? = none := by
  simp [Node.rereadsKey?, Node.is, assigns, updates]

/-- In a tree that fits its text the rule for a node fails exactly if there is no lowered form. -/
theorem failure_leavingEffect_eq (ordered : reading.tokens.Ordered) (fit : Fit reading root {})
    (leads : Leads root trail node) :
    (leavingEffect reading (trail, node) 0).failure =
      (unlowered? (trail, node)).map fun construct =>
        unsupportedAt reading.lines construct node.start := by
  have carries := (fit.along leads 0).carries ordered
  rw [nodeEffect_along] at carries
  generalize 0 + loopsInParts node (scopeAlong {} trail) node.parts = number at carries
  rw [← failure_leavingEffect reading (trail, node) number]
  have never (assigns : node.kind ≠ .assignmentExpression) (updates : node.kind ≠ .updateExpression)
      (misses : (leavingEffect reading (trail, node) number).OnlyMisses) :
      (leavingEffect reading (trail, node) number).failure =
        (unlowered? (trail, node)).map fun construct =>
          unsupportedAt reading.lines construct node.start := by
    rw [misses.failure_eq_none carries, unlowered?, rereadsKey_eq_none assigns updates]
    simp
  cases opens : node.opensScope with
  | true =>
    have other : node.kind ≠ .assignmentExpression ∧ node.kind ≠ .updateExpression := by
      constructor <;> rintro kind <;> simp [Node.opensScope, Node.is, kind, Kind.ownsReceiver] at opens
    refine never other.1 other.2 ?_
    simp only [leavingEffect, opens, if_true, dropEffect]
    split
    · exact functionEffect_onlyMisses
    · exact .of_done rfl
  | false =>
    simp only [leavingEffect, opens, Bool.false_eq_true, if_false, ruleEffect] at carries never ⊢
    cases kind : node.kind <;> simp only [kind] at carries never ⊢
    case assignmentExpression => exact failure_assignmentEffect kind carries
    case updateExpression => exact failure_updateEffect kind
    case awaitExpression => exact never (by simp) (by simp) awaitEffect_onlyMisses
    case superMember => exact never (by simp) (by simp) superMemberEffect_onlyMisses
    case forOfStatement =>
      refine never (by simp) (by simp) ?_
      split
      · exact loopEffect_onlyMisses
      · exact .of_done rfl
    all_goals exact never (by simp) (by simp) (.of_done rfl)

/-- A walk through a tree that fits its text fails at the first node without a lowered form. -/
theorem failure_visitEffect_eq (sourceMap : Bool) (ordered : reading.tokens.Ordered)
    (fit : Fit reading root {}) :
    (visitEffect reading sourceMap root {}).failure =
      (postorder root []).findSome? fun visited =>
        (unlowered? visited).map fun construct =>
          unsupportedAt reading.lines construct visited.2.start := by
  have walked := failure_visitEffect_along reading sourceMap root [] 0
  have same : ∀ visited ∈ postorder root [], (leavingEffect reading visited 0).failure =
      (unlowered? visited).map fun construct =>
        unsupportedAt reading.lines construct visited.2.start :=
    fun visited member => failure_leavingEffect_eq ordered fit (mem_postorder_iff_leads.mp member)
  rw [show (visitEffect reading sourceMap root {}).failure = _ from walked]
  generalize postorder root [] = order at same
  induction order with
  | nil => rfl
  | cons visited rest ih =>
    rw [List.findSome?_cons, List.findSome?_cons, same visited (by simp),
      ih fun later member => same later (by simp [member])]

end Failures

end Lowering

open Lowering

/-- In a run on a tree that fits its text, with the lines of the text, in which no edit is
refused, a construct is reported exactly if the body of an async function holds a node that would
evaluate the computed key of a member of `super` twice. The report names the first such node in
the order in which nodes are left, with its line and its column. Otherwise the run succeeds. -/
theorem unsupported_iff_key_reread (parse : Text → Options → Except Failure Parsed) (source : Text)
    (options : Options) (parsed : Parsed) (isRead : Transform.skips source options = false)
    (parses : parse source options = .ok parsed) (lined : parsed.lines = .ofText source)
    (ordered : parsed.tokens.Ordered) (wellFormed : parsed.program.wellFormed parsed.tokens = true)
    (accepted : ∀ refusal, transformWith parse source options ≠ .error (.refused refusal)) :
    ((∃ construct line column,
        transformWith parse source options = .error (.unsupported construct line column)) ↔
      ∃ trail node, Leads parsed.program trail node ∧ inLoweredBody trail = true ∧
        node.rereadsKey?.isSome = true) ∧
    (∀ construct line column,
      transformWith parse source options = .error (.unsupported construct line column) →
      ∃ before trail node after,
        postorder parsed.program [] = before ++ (trail, node) :: after ∧
        (∀ earlier ∈ before, unlowered? earlier = none) ∧
        unlowered? (trail, node) = some construct ∧ source.Position node.start line column) ∧
    ((∃ construct line column,
        transformWith parse source options = .error (.unsupported construct line column)) ∨
      ∃ transformed, transformWith parse source options = .ok transformed) := by
  rw [Transform.transformWith_eq_lower isRead parses] at accepted ⊢
  have fit : Fit ⟨source, parsed.tokens, parsed.lines⟩ parsed.program {} :=
    ⟨wellFormed, by simp [Seated]⟩
  have failure := failure_visitEffect_eq options.sourceMap ordered fit
  have lacks : (∃ trail node, Leads parsed.program trail node ∧ inLoweredBody trail = true ∧
      node.rereadsKey?.isSome = true) ↔
      ∃ visited ∈ postorder parsed.program [], unlowered? visited ≠ none := by
    constructor
    · rintro ⟨trail, node, leads, body, key⟩
      exact ⟨(trail, node), mem_postorder_iff_leads.mpr leads,
        by simpa [unlowered?, body, Option.isSome_iff_ne_none] using key⟩
    · rintro ⟨⟨trail, node⟩, member, key⟩
      cases body : inLoweredBody trail with
      | false => simp [unlowered?, body] at key
      | true =>
        exact ⟨trail, node, mem_postorder_iff_leads.mp member, body,
          by simpa [unlowered?, body, Option.isSome_iff_ne_none] using key⟩
  rw [lacks]
  obtain ⟨refusal, -, refused⟩ | ⟨failed, first, ends⟩ | ⟨none, transformed, done⟩ :=
    Transform.lower_cases source options parsed
  · exact absurd refused (accepted refusal)
  · obtain ⟨before, ⟨trail, node⟩, after, order, reported, earlier⟩ :=
      List.findSome?_eq_some_iff.mp (failure.symm.trans first)
    obtain ⟨construct, unlowered, rfl⟩ := Option.map_eq_some_iff.mp reported
    have member : (trail, node) ∈ postorder parsed.program [] := by simp [order]
    refine ⟨⟨fun _ => ⟨_, member, by simp [unlowered]⟩, fun _ => ⟨_, _, _, ends⟩⟩, ?_,
      .inl ⟨_, _, _, ends⟩⟩
    intro other line column again
    rw [ends, unsupportedAt, lined] at again
    injection again with again
    injection again with sameConstruct sameLine sameColumn
    refine ⟨before, trail, node, after, order, fun visited inside => ?_, sameConstruct ▸ unlowered, ?_⟩
    · simpa using earlier visited inside
    · rw [← sameLine, ← sameColumn]
      exact Lines.position_spec source node.start
  · rw [none, eq_comm, List.findSome?_eq_none_iff] at failure
    have absent : ¬ ∃ construct line column,
        Transform.lower source options parsed = .error (.unsupported construct line column) := by
      rintro ⟨construct, line, column, failed⟩
      simp [done] at failed
    refine ⟨⟨fun failed => absurd failed absent, ?_⟩, ?_, .inr ⟨transformed, done⟩⟩
    · rintro ⟨visited, member, key⟩
      exact absurd (by simpa using failure visited member) key
    · intro construct line column failed
      exact absurd ⟨construct, line, column, failed⟩ absent

/-- The update in `({async m(){↵super[k]+=super[j]++}})`, where `↵` is a line feed. -/
def innerUpdate : Node :=
  .mk { kind := .updateExpression, span := ⟨23, 33⟩, operator := some "++".toList }
    [.one .argument (.mk { kind := .superMember, span := ⟨23, 31⟩, flags := { computed := true } }
      [.one .property (.plain .identifier ⟨29, 30⟩ [])])]

/-- The program `({async m(){↵super[k]+=super[j]++}})`. -/
def nestedRereads : Parsed :=
  let source := "(\x7basync m()\x7b\nsuper[k]+=super[j]++\x7d\x7d)".toList
  let target := .mk { kind := .superMember, span := ⟨13, 21⟩, flags := { computed := true } }
    [.one .property (.plain .identifier ⟨19, 20⟩ [])]
  let assignment := .mk
    { kind := .assignmentExpression, span := ⟨13, 33⟩, operator := some "+=".toList }
    [.one .left target, .one .right innerUpdate]
  let method := .mk { kind := .objectMethod, span := ⟨2, 34⟩, flags := { isAsync := true } }
    [.one .key (.plain .propertyKey ⟨8, 9⟩ []), .many .params [],
      .one .body (.plain .blockStatement ⟨11, 34⟩ [.many .children [assignment]])]
  { program := .plain .program ⟨0, 36⟩ [.many .children
      [.plain .expression ⟨1, 35⟩ [.many .children [method]]]]
    tokens := ⟨source, #[⟨0, 1⟩, ⟨1, 2⟩, ⟨2, 7⟩, ⟨8, 9⟩, ⟨9, 10⟩, ⟨10, 11⟩, ⟨11, 12⟩, ⟨13, 18⟩,
      ⟨18, 19⟩, ⟨19, 20⟩, ⟨20, 21⟩, ⟨21, 23⟩, ⟨23, 28⟩, ⟨28, 29⟩, ⟨29, 30⟩, ⟨30, 31⟩, ⟨31, 33⟩,
      ⟨33, 34⟩, ⟨34, 35⟩, ⟨35, 36⟩]⟩
    lines := .ofText source }

/-- An assignment and an update on its right are both without a lowered form. The update begins
later and is reported, since it is left first. -/
theorem unsupported_iff_key_reread_nested :
    let source := nestedRereads.tokens.source
    transformWith (fun _ _ => .ok nestedRereads) source {} = .error (.unsupported .update 2 11) ∧
      ∃ before trail node after,
        postorder nestedRereads.program [] = before ++ (trail, node) :: after ∧
        (∀ earlier ∈ before, unlowered? earlier = none) ∧
        unlowered? (trail, node) = some .update ∧ source.Position node.start 2 11 := by
  intro source
  have ends : transformWith (fun _ _ => .ok nestedRereads) source {} =
      .error (.unsupported .update 2 11) := Transform.eq_error (by decide)
  obtain ⟨-, reports, -⟩ := unsupported_iff_key_reread (fun _ _ => .ok nestedRereads) source {}
    nestedRereads (by decide) rfl rfl (by decide) (by decide)
    (by simp [ends])
  exact ⟨ends, reports _ _ _ ends⟩

end Unawait
