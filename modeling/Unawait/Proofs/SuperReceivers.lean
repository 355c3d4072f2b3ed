import Mathlib
import Unawait.Proofs.LeadingParentheses
import Unawait.Proofs.Rewrite
import Unawait.Proofs.SuperAccessors
import Unawait.Proofs.SuperTargets

/-!
# Receivers of calls through `super`

A member of `super` in a lowered body becomes the result of an accessor, which has no receiver of
its own. Where the member is the callee of a call the rule passes the receiver of the code
around it, and the record of that code says that a receiver is used. Here is said exactly where
this happens: at the parenthesis of each call right above a member, and nowhere else in a run.
A call of a member in parentheses and a template with a member for its tag invoke the result
of the accessor without the receiver.
-/

namespace Unawait.Lowering

open Edit (Operation Made)
open Edit.History (Becomes)

/-! ### Texts that pass the receiver -/

/-- Whether a text passes the receiver to the function that stands before it. -/
def passesReceiver (text : Text) : Bool :=
  ["call(this", ".call(this"].any fun method => method.toList.isPrefixOf text

theorem passesReceiver_eq_false {text : Text}
    (other : text.head? ≠ some 'c' ∧ text.head? ≠ some '.') : passesReceiver text = false := by
  cases text with
  | nil => rfl
  | cons first rest =>
    obtain ⟨letter, dot⟩ : first ≠ 'c' ∧ first ≠ '.' := by simpa using other
    simp [passesReceiver, List.isPrefixOf, letter.symm, dot.symm]

theorem passesReceiver_binding (tokens : Tokens) (callee call : Node) :
    passesReceiver (bindingOf tokens callee call).text = true := by
  dsimp only [bindingOf]
  cases call.flags.optional <;> cases (call.children .arguments).isEmpty <;> decide

/-- No call of an effect brings a text that passes the receiver. -/
def Effect.PassesNone (effect : Effect) : Prop :=
  ∀ edit ∈ effect.edits, passesReceiver edit.text = false

section Rules

variable {reading : Reading} {scope : Scope} {number : Nat} {node : Node} {parent : Walk.Parent}

theorem passesNone_awaitEffect : (awaitEffect reading scope node parent).PassesNone := by
  have texts (marker parentheses newline : Bool) :
      passesReceiver (awaitTexts marker parentheses newline).1 = false ∧
        passesReceiver (awaitTexts marker parentheses newline).2 = false := by
    cases marker <;> cases parentheses <;> cases newline <;> decide
  intro edit member
  unfold awaitEffect at member
  split at member
  · simp at member
  · split at member
    · dsimp only at member
      split at member
      · rcases List.mem_cons.mp member with rfl | member
        · exact (texts ..).1
        · split at member
          · simp at member
          · obtain rfl := List.mem_singleton.mp member
            exact (texts ..).2
      · simp [Effect.failing] at member
    · simp at member

theorem passesNone_readEffect : (readEffect node).PassesNone := by
  intro edit member
  apply passesReceiver_eq_false
  rcases texts_readEffect member with whole | piece
  · simp [whole]
  · rcases by simpa using piece with opened | closed
    · simp [opened]
    · simp [closed]

theorem passesNone_assignmentEffect : (assignmentEffect reading scope node).PassesNone := by
  intro edit member
  apply passesReceiver_eq_false
  unfold assignmentEffect at member
  split at member
  next left right _ _ =>
    dsimp only at member
    split at member
    · rcases texts_plainAssignmentEffect member with whole | piece
      · simp [whole]
      · rcases by simpa using piece with text | text | text <;> simp [text]
    · unfold compoundAssignmentEffect at member
      split at member
      · simp [Effect.failing] at member
      · rcases Effect.mem_edits_andThen member with replaced | taken
        · rcases by simpa [Effect.ofEdits] using replaced with rfl | rfl
          · unfold compoundHead
            dsimp only
            split <;> simp [Operation.text]
          · simp [Operation.text]
        · simp [Effect.taking] at taken
  next => simp at member

theorem passesNone_updateEffect : (updateEffect reading scope node).PassesNone := by
  intro edit member
  apply passesReceiver_eq_false
  unfold updateEffect at member
  split at member
  · simp at member
  · split at member
    · simp [Effect.failing] at member
    · rcases Effect.mem_edits_andThen member with replaced | taken
      · obtain rfl := by simpa [Effect.ofEdits] using replaced
        unfold updateText
        dsimp only
        split <;> simp [Operation.text]
      · simp [Effect.taking] at taken

theorem passesNone_loopEffect : (loopEffect reading scope number node parent).PassesNone := by
  have assigned (template : String) (listed : template ∈ ["=$s#.value;", "=$s#.value);"]) :
      (numbered number template).head? = some '=' := by
    rcases by simpa using listed with rfl | rfl <;> exact head_numbered number _ rfl (by decide)
  intro edit member
  apply passesReceiver_eq_false
  unfold loopEffect at member
  split at member
  case isFalse => simp at member
  split at member
  case h_2 => simp at member
  next left right body _ _ _ =>
    split at member
    case h_1 => simp [Effect.failing] at member
    rcases Effect.mem_edits_andThen member with made | noted
    · clear member
      rw [Effect.ofEdits] at made
      revert edit
      cases block : body.is .blockStatement <;> cases declared : left.is .variableDeclaration <;>
        simp [loopEdits, block, declared, Operation.text, assigned, head_loopHead, head_loopTest,
          head_loopCleanup]
    · simp [Effect.noting] at noted

theorem passesNone_dropEffect (reading : Reading) (scope outer : Scope) (node : Node) :
    (dropEffect reading scope outer node).PassesNone := by
  intro edit member
  apply passesReceiver_eq_false
  have listed := head_dropEffect member
  constructor
  · intro first
    simpa using listed 'c' (by simp [first])
  · intro first
    simpa using listed '.' (by simp [first])

end Rules

/-! ### Calls of members -/

/-- The call that passes the receiver to a member in place of a parenthesis. -/
def receiverCall (tokens : Tokens) (member call : Node) : Operation :=
  let binding := bindingOf tokens member call
  .overwrite binding.parenthesis.start binding.parenthesis.stop binding.text

theorem edits_bindEffect {tokens : Tokens} {member call : Node} {index : Nat}
    (found : tokens.findForward (Shape.argumentsFrom call member) "(".toList = some index) :
    (bindEffect tokens member call).edits =
      (bindingOf tokens member call).dropped.toList.map (fun span => .remove span.start span.stop)
        ++ [receiverCall tokens member call] := by
  unfold receiverCall bindingOf bindEffect
  simp only [Shape.argumentsFrom] at found ⊢
  rw [found, Effect.edits_andThen _ rfl, Effect.edits_andThen _ rfl]
  cases call.child? .typeArguments <;> rfl

theorem edits_bindEffect_missing {tokens : Tokens} {member call : Node}
    (missing : tokens.findForward (Shape.argumentsFrom call member) "(".toList = none) :
    (bindEffect tokens member call).failure ≠ none ∧
      (bindEffect tokens member call).edits =
        (bindingOf tokens member call).dropped.toList.map fun span =>
          .remove span.start span.stop := by
  unfold bindingOf bindEffect
  simp only [Shape.argumentsFrom] at missing ⊢
  rw [missing, Effect.edits_andThen _ rfl]
  cases call.child? .typeArguments <;>
    simp [Effect.failing, Effect.ofEdits, Node.start, Node.stop, Node.span]

theorem eq_receiverCall {tokens : Tokens} {member call : Node} {edit : Operation}
    (made : edit ∈ (bindEffect tokens member call).edits)
    (passes : passesReceiver edit.text = true) : edit = receiverCall tokens member call := by
  have removed (spans : List Span) : edit ∉ spans.map fun span => .remove span.start span.stop := by
    intro listed
    obtain ⟨span, -, rfl⟩ := List.mem_map.mp listed
    simp [passesReceiver, Operation.text] at passes
  cases found : tokens.findForward (Shape.argumentsFrom call member) "(".toList with
  | none =>
    rw [(edits_bindEffect_missing found).2] at made
    exact (removed _ made).elim
  | some index =>
    rw [edits_bindEffect found] at made
    exact List.mem_singleton.mp ((List.mem_append.mp made).resolve_left (removed _))

/-- The rule for a node makes a call that passes the receiver only if the node is a member in a
lowered body and the callee of a call. -/
theorem called_of_passesReceiver {reading : Reading} {node : Node} {place : Place}
    {edit : Operation} (made : edit ∈ (nodeEffect reading node place).edits)
    (passes : passesReceiver edit.text = true) :
    node.is .superMember = true ∧ (place.scope.isAsync && !place.scope.inParams) = true ∧
      ∃ call, calledBy? place.parent = some call ∧
        edit = receiverCall reading.tokens node call := by
  have absent {effect : Effect} (none : effect.PassesNone) : edit ∉ effect.edits := by
    intro member
    simp [none edit member] at passes
  unfold nodeEffect at made
  split at made
  case isTrue => exact (absent (passesNone_dropEffect _ _ _ _) made).elim
  unfold ruleEffect at made
  split at made
  case h_1 => exact (absent passesNone_awaitEffect made).elim
  case h_3 => exact (absent passesNone_assignmentEffect made).elim
  case h_4 => exact (absent passesNone_updateEffect made).elim
  case h_5 =>
    split at made
    · exact (absent passesNone_loopEffect made).elim
    · simp at made
  case h_6 => simp at made
  case h_2 kind =>
    unfold superMemberEffect at made
    split at made
    case isFalse => simp at made
    case isTrue applies =>
      refine ⟨by simp [Node.is, kind], (Bool.and_eq_true _ _ ▸ applies).1, ?_⟩
      rcases Effect.mem_edits_andThen made with read | later
      · exact (absent passesNone_readEffect read).elim
      rcases Effect.mem_edits_andThen later with taken | finished
      · simp [Effect.taking] at taken
      unfold finishEffect at finished
      split at finished
      next call called => exact ⟨call, called, eq_receiverCall finished passes⟩
      next =>
        split at finished
        · rcases by simpa [Effect.ofEdits] using finished with rfl | rfl <;>
            simp [passesReceiver, Operation.text, List.isPrefixOf] at passes
        · simp at finished

/-- A member is called with the receiver in the result of calls: it is read, the type arguments of
the call are gone, and the parenthesis of its arguments has become a text that passes the
receiver. -/
structure CalledAt (source : Text) (calls : List Operation) (tokens : Tokens) (member call : Node) :
    Prop where
  read : ReadAt source calls member
  dropped : ∀ span ∈ (bindingOf tokens member call).dropped, Becomes source calls span []
  parenthesis : tokens.Has (bindingOf tokens member call).parenthesis "(".toList
  first : tokens.Ordered → tokens.FirstFrom (Shape.argumentsFrom call member) "(".toList
    (bindingOf tokens member call).parenthesis
  passed : Becomes source calls (bindingOf tokens member call).parenthesis
    (bindingOf tokens member call).text

theorem calledAt_of_bindEffect {source code : Text} {calls : List Operation} {tokens : Tokens}
    {member call : Node} (made : Made source calls code) (read : ReadAt source calls member)
    (done : (bindEffect tokens member call).failure = none)
    (within : (bindEffect tokens member call).edits ⊆ calls) :
    CalledAt source calls tokens member call ∧ receiverCall tokens member call ∈ calls := by
  cases found : tokens.findForward (Shape.argumentsFrom call member) "(".toList with
  | none => exact ((edits_bindEffect_missing found).1 done).elim
  | some index =>
    rw [edits_bindEffect found] at within
    obtain ⟨removed, passed⟩ := List.append_subset.mp within
    have replaced : receiverCall tokens member call ∈ calls := passed (.head _)
    obtain ⟨span, here, has, first⟩ := Tokens.has_of_findForward found
    have same : (bindingOf tokens member call).parenthesis = span := by
      rw [bindingOf, found, Option.bind_some, here, Option.getD_some]
    refine ⟨⟨read, ?_, by rwa [same], by rwa [same], made.becomes replaced rfl⟩, replaced⟩
    intro span held
    exact made.becomes (removed (List.mem_map.mpr ⟨span, by simpa using held, rfl⟩)) rfl

/-- The construct in whose code a trail ends is left in a walk, and its record says then that the
code uses the receiver. -/
def RecordsReceiver (root : Node) (start : State) (trail : Trail) : Prop :=
  ∃ slot rest, home trail = slot :: rest ∧ Left root start rest slot.1 ∧
    ∀ state ledger, Leaving root start rest slot.1 state ledger →
      state.scopes.pop.1.usesThis = true

theorem recordsReceiver_of_called {root member : Node} {start final : State} {trail : Trail}
    (fresh : start.scopes = {}) (walked : Walk.walk visitor root start = .ok () final)
    (leads : Leads root trail member) (lowered : inLoweredBody trail = true)
    (isMember : member.is .superMember = true) (called : (calledBy? trail.head?).isSome = true) :
    RecordsReceiver root start trail := by
  have taken : (takenIn member (scopeAlong {} trail) trail.head?).takes .receiver = true := by
    rw [takes_takenIn]
    refine ⟨[], member, .root, rfl, ?_⟩
    have needs : needsReceiver trail member = true := by
      simp [needsReceiver, isMember, lowered, called]
    simpa [takes_receiver_contribution] using needs
  obtain ⟨slot, rest, homed, -, -⟩ := exists_home_of_inLoweredBody lowered
  obtain ⟨above, opens, takes⟩ := takes_enclosing leads homed taken (scopeAlong {} rest)
  refine ⟨slot, rest, homed, left_of_walk fresh walked above, fun state ledger leaving => ?_⟩
  obtain ⟨record, -⟩ := leaving.pop fresh opens
  rw [record]
  exact takes

/-- Whether slots lead to what is invoked with a receiver though it is not the callee of a call
itself: to a callee in parentheses, or to the tag of a template. -/
def isIndirectCallee (trail : Trail) : Bool :=
  let inside (slot : Node × Field) := slot.1.is .parenthesizedExpression
  (trail.dropWhile inside).head?.any fun slot =>
    slot.1.is .taggedTemplate && slot.2 == .tag
      || trail.head?.any inside && slot.1.is .callExpression && slot.2 == .callee

theorem calledBy_of_isIndirectCallee {trail : Trail} (indirect : isIndirectCallee trail = true) :
    calledBy? trail.head? = none ∧ isWritten trail.head? = false := by
  cases trail with
  | nil => exact ⟨rfl, rfl⟩
  | cons slot rest =>
    obtain ⟨owner, field⟩ := slot
    unfold isIndirectCallee at indirect
    by_cases inside : owner.is .parenthesizedExpression = true
    · have kind : owner.kind = .parenthesizedExpression := by simpa [Node.is] using inside
      cases field <;> simp [calledBy?, isWritten, Node.is, kind]
    · obtain ⟨-, rfl⟩ : owner.is .taggedTemplate = true ∧ field = .tag := by
        simpa [inside] using indirect
      exact ⟨rfl, rfl⟩

end Unawait.Lowering

namespace Unawait

open Lowering

/-- In a run that reads its source and succeeds, a member of `super` that is the callee of a call
in a lowered body is called with the receiver, and the record of the code around it says that
the receiver is used. A member that is neither a callee nor written is read and takes no
receiver, so this holds of a callee in parentheses and of the tag of a template. The calls of the
run that pass a receiver are exactly those for the callees. -/
theorem receiver_passed_iff_called_directly (parse : Text → Options → Except Failure Parsed)
    (source : Text) (options : Options) (parsed : Parsed) (transformed : Transformed)
    (isRead : Transform.skips source options = false)
    (parses : parse source options = .ok parsed)
    (done : transformWith parse source options = .ok transformed) :
    Edit.Made source (Transform.calls source options parsed) transformed.code ∧
    (∀ trail member call, Leads parsed.program trail member → inLoweredBody trail = true →
      member.is .superMember = true → calledBy? trail.head? = some call →
      CalledAt source (Transform.calls source options parsed) parsed.tokens member call ∧
      RecordsReceiver parsed.program
        (.ofSource source parsed.tokens parsed.lines options.sourceMap) trail) ∧
    (∀ trail member, Leads parsed.program trail member → inLoweredBody trail = true →
      member.is .superMember = true →
      isIndirectCallee trail = true ∨ calledBy? trail.head? = none ∧ isWritten trail.head? = false →
      ReadAt source (Transform.calls source options parsed) member ∧
      (contribution (scopeAlong {} trail) member trail.head?).takes .receiver = false) ∧
    ∀ edit, edit ∈ Transform.calls source options parsed ∧ passesReceiver edit.text = true ↔
      ∃ trail member call, Leads parsed.program trail member ∧ inLoweredBody trail = true ∧
        member.is .superMember = true ∧ calledBy? trail.head? = some call ∧
        edit = receiverCall parsed.tokens member call := by
  rw [Transform.transformWith_eq_lower isRead parses] at done
  have made := Transform.made_of_lower done
  have bound (trail member call) (leads : Leads parsed.program trail member)
      (lowered : inLoweredBody trail = true) (isMember : member.is .superMember = true)
      (called : calledBy? trail.head? = some call) :
      CalledAt source (Transform.calls source options parsed) parsed.tokens member call ∧
        receiverCall parsed.tokens member call ∈ Transform.calls source options parsed := by
    obtain ⟨read, finished, within⟩ := edits_of_member done leads isMember lowered
      (isWritten_of_called (by simp [called]))
    obtain ⟨reads, finishes⟩ := List.append_subset.mp within.subset
    simp only [finishEffect, called] at finished finishes
    exact calledAt_of_bindEffect made (readAt_of_readEffect made read reads) finished finishes
  refine ⟨made, ?_, ?_, ?_⟩
  · intro trail member call leads lowered isMember called
    obtain ⟨final, walked⟩ := Transform.walked_of_lower done
    exact ⟨(bound trail member call leads lowered isMember called).1,
      recordsReceiver_of_called rfl walked leads lowered isMember (by simp [called])⟩
  · intro trail member leads lowered isMember apart
    obtain ⟨uncalled, unwritten⟩ := apart.elim calledBy_of_isIndirectCallee id
    obtain ⟨read, -, within⟩ := edits_of_member done leads isMember lowered unwritten
    refine ⟨readAt_of_readEffect made read (List.append_subset.mp within.subset).1, ?_⟩
    have kind : member.kind = .superMember := by simpa [Node.is] using isMember
    simp [takes_receiver_contribution, needsReceiver, Node.is, kind, uncalled]
  · intro edit
    constructor
    · rintro ⟨member, passes⟩
      have unmarked : edit.isMark = false := by
        cases edit with
        | mark => simp [passesReceiver, Edit.Operation.text] at passes
        | _ => rfl
      obtain ⟨trail, inner, number, leads, edited⟩ := nodeEffect_of_mem_script member unmarked
      obtain ⟨isMember, replaces, call, called, same⟩ := called_of_passesReceiver edited passes
      rw [replaces_scopeAlong] at replaces
      exact ⟨trail, inner, call, leads, replaces, isMember, by simpa using called, same⟩
    · rintro ⟨trail, member, call, leads, lowered, isMember, called, rfl⟩
      exact ⟨(bound trail member call leads lowered isMember called).2,
        passesReceiver_binding parsed.tokens member call⟩

/-- The callee of the first call in `super.x(1);(super.x)(2)`. -/
def directCallee : Node := .superNamed ⟨28, 35⟩ ['x']

/-- The first call there. -/
def directCall : Node := .call ⟨28, 38⟩ false directCallee none [.expression ⟨36, 37⟩ []]

/-- The member in the second call, which is in parentheses. -/
def indirectCallee : Node := .superNamed ⟨40, 47⟩ ['x']

/-- A method with these two calls. -/
def callingMethod : Parsed :=
  asyncMethod "class A extends B\x7basync m()\x7bsuper.x(1);(super.x)(2)\x7d\x7d".toList
    #[⟨0, 5⟩, ⟨6, 7⟩, ⟨8, 15⟩, ⟨16, 17⟩, ⟨17, 18⟩, ⟨18, 23⟩, ⟨24, 25⟩, ⟨25, 26⟩, ⟨26, 27⟩, ⟨27, 28⟩,
      ⟨28, 33⟩, ⟨33, 34⟩, ⟨34, 35⟩, ⟨35, 36⟩, ⟨36, 37⟩, ⟨37, 38⟩, ⟨38, 39⟩, ⟨39, 40⟩, ⟨40, 45⟩,
      ⟨45, 46⟩, ⟨46, 47⟩, ⟨47, 48⟩, ⟨48, 49⟩, ⟨49, 50⟩, ⟨50, 51⟩, ⟨51, 52⟩, ⟨52, 53⟩]
    [.statement ⟨28, 39⟩ [directCall],
      .statement ⟨39, 51⟩ [.call ⟨39, 51⟩ false (.parenthesized ⟨39, 48⟩ indirectCallee) none
        [.expression ⟨49, 50⟩ []]]]

/-- What lowering this method gives. -/
def callingMethodRun : Evaluated (transformWith (fun _ _ => .ok callingMethod)
    callingMethod.tokens.source { includeHelper := false }) Transformed.code
    ("class A extends B\x7bm()\x7breturn __async(function*($uper)\x7b" ++
      "$uper(\"x\").call(this,1);($uper(\"x\"))(2)\x7d.call(this,p=>super[p]))\x7d\x7d").toList :=
  .ofView (by decide +kernel)

/-- The first call gets the receiver. The second one is made of the result of the accessor
alone. -/
theorem receiver_passed_iff_called_directly_parenthesized :
    let source := callingMethod.tokens.source
    let calls := Transform.calls source { includeHelper := false } callingMethod
    ∃ transformed,
      transformWith (fun _ _ => .ok callingMethod) source { includeHelper := false } =
        .ok transformed ∧
      transformed.code = ("class A extends B\x7bm()\x7breturn __async(function*($uper)\x7b" ++
        "$uper(\"x\").call(this,1);($uper(\"x\"))(2)\x7d.call(this,p=>super[p]))\x7d\x7d").toList ∧
      CalledAt source calls callingMethod.tokens directCallee directCall ∧
      ReadAt source calls indirectCallee ∧
      receiverCall callingMethod.tokens directCallee directCall =
        .overwrite 35 36 ".call(this,".toList := by
  intro source calls
  obtain ⟨transformed, done, code⟩ := callingMethodRun
  obtain ⟨-, direct, others, -⟩ := receiver_passed_iff_called_directly _ source
    { includeHelper := false } callingMethod transformed (by decide +kernel) rfl done
  have body : Leads callingMethod.program _ _ :=
    .part (.part (.part .root (.head _)) (.tail _ (.head _))) (.tail _ (.head _))
  have callee : Leads callingMethod.program _ directCallee :=
    .part (.part (.part body (.head _)) (.head _)) (.head _)
  have inside : Leads callingMethod.program _ indirectCallee :=
    .part (.part (.part (.part body (.tail _ (.head _))) (.head _)) (.head _)) (.head _)
  exact ⟨transformed, done, code, (direct _ _ _ callee rfl rfl rfl).1,
    (others _ _ inside rfl rfl (.inl rfl)).1, by decide +kernel⟩

end Unawait
