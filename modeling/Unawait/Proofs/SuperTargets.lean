import Mathlib
import Unawait.Proofs.Captures
import Unawait.Proofs.RunCalls
import Unawait.Tree.Build

/-!
# Members of `super` that are written

A member of `super` that is the target of an assignment or an update is replaced together
with it, and the write goes through the accessor `$uperEq`. The rules look for such a target in
one place only, right below the assignment or the update. A target inside parentheses, in a
pattern, or in the head of a loop is no such target, and like every other member in a lowered
body it is replaced by a read through the accessor `$uper`, which is a call and cannot be
written.
-/

namespace Unawait.Lowering

open Edit (Operation Made)
open Edit.History (Becomes textBefore)

/-! ### Reads and writes in a result -/

/-- A member is read through `$uper` in the result of calls. -/
inductive ReadAt (source : Text) (calls : List Operation) (member : Node) : Prop
  /-- A member with a name is replaced as a whole. -/
  | named (plain : member.flags.computed = false)
      (read : Becomes source calls ⟨member.start, member.stop⟩
        ("$uper(".toList ++ keyLiteral member ++ ")".toList))
  /-- Of a member with a computed key the key stays. -/
  | computed {property : Node} (key : member.flags.computed = true)
      (held : member.child? .property = some property)
      (opened : Becomes source calls ⟨member.start, property.start⟩ "$uper(".toList)
      (closed : Becomes source calls ⟨property.stop, member.stop⟩ ")".toList)

/-- A member is written through `$uperEq` in the result of calls, in place of the assignment or
update of which it is the target. -/
inductive WrittenAt (source : Text) (calls : List Operation) (owner member : Node) : Prop
  /-- A plain assignment to a member with a name. -/
  | assigned {right : Node} (kind : owner.is .assignmentExpression = true)
      (value : owner.child? .right = some right) (plain : member.flags.computed = false)
      (opened : Becomes source calls ⟨member.start, right.start⟩
        ("$uperEq(".toList ++ keyLiteral member ++ ",".toList))
      (closed : ")".toList <:+: textBefore calls owner.stop)
  /-- A plain assignment to a member with a computed key, which stays. -/
  | assignedComputed {right property : Node} (kind : owner.is .assignmentExpression = true)
      (value : owner.child? .right = some right) (key : member.flags.computed = true)
      (held : member.child? .property = some property)
      (opened : Becomes source calls ⟨member.start, property.start⟩ "$uperEq(".toList)
      (divided : Becomes source calls ⟨property.stop, right.start⟩ ",".toList)
      (closed : ")".toList <:+: textBefore calls owner.stop)
  /-- A compound assignment to a member with a name: the text up to the value holds the write. -/
  | compound {right : Node} {text : Text} (kind : owner.is .assignmentExpression = true)
      (value : owner.child? .right = some right) (plain : member.flags.computed = false)
      (opened : Becomes source calls ⟨member.start, right.start⟩ text)
      (writes : "$uperEq(".toList ++ keyLiteral member ++ ",".toList <:+: text)
      (closed : "))".toList <:+: textBefore calls owner.stop)
  /-- An update of a member with a name: the text in its place holds the write. -/
  | updated {text : Text} (kind : owner.is .updateExpression = true)
      (plain : member.flags.computed = false)
      (replaced : Becomes source calls ⟨owner.start, owner.stop⟩ text)
      (writes : "$uperEq(".toList ++ keyLiteral member ++ ",".toList <:+: text)

/-- The node that an assignment or an update writes. -/
def written? (owner : Node) : Option Node :=
  match owner.kind with
  | .assignmentExpression => if (owner.child? .right).isSome then owner.child? .left else none
  | .updateExpression => owner.child? .argument
  | _ => none

/-- Whether slots lead to a target of an assignment, an update or a loop through parentheses or
patterns. -/
def isIndirectTarget (trail : Trail) : Bool :=
  let through (slot : Node × Field) := slot.1.is .parenthesizedExpression || slot.1.is .pattern
  trail.head?.any through && (trail.dropWhile through).head?.any fun slot =>
    slot.1.is .assignmentExpression && slot.2 == .left
      || slot.1.is .updateExpression && slot.2 == .argument
      || slot.1.is .forOfStatement && slot.2 == .left

theorem isWritten_of_isIndirectTarget {trail : Trail} (indirect : isIndirectTarget trail = true) :
    isWritten trail.head? = false := by
  obtain ⟨through, -⟩ := Bool.and_eq_true_iff.mp indirect
  cases first : trail.head? with
  | none => rfl
  | some slot =>
    obtain ⟨owner, field⟩ := slot
    simp only [first, Option.any_some, Node.is, Bool.or_eq_true, beq_iff_eq] at through
    unfold isWritten
    split <;> rcases through with kind | kind <;> simp_all [Node.is]

section Rules

variable {source code : Text} {calls : List Operation} {owner member : Node}

theorem readAt_of_readEffect (made : Made source calls code)
    (done : (readEffect member).failure = none) (within : (readEffect member).edits ⊆ calls) :
    ReadAt source calls member := by
  unfold readEffect at done within
  cases key : member.flags.computed with
  | false =>
    rw [key] at within
    exact .named key (made.becomes (within (.head _)) rfl)
  | true =>
    rw [key] at done within
    cases held : member.child? .property with
    | none => simp [held, Effect.failing] at done
    | some property =>
      simp only [if_true, held] at within
      exact .computed key held (made.becomes (within (.head _)) rfl)
        (made.becomes (within (.tail _ (.head _))) rfl)

theorem compoundHead_writes (member : Node) (operator : Text) :
    "$uperEq(".toList ++ keyLiteral member ++ ",".toList <:+: compoundHead member operator := by
  unfold compoundHead
  dsimp only
  split
  · exact (List.suffix_append _ _).isInfix
  · exact List.infix_append_of_infix_left (List.infix_append_of_infix_left List.infix_append_left)

theorem updateText_writes (owner member : Node) :
    "$uperEq(".toList ++ keyLiteral member ++ ",".toList <:+: updateText owner member := by
  have comma : ",+$uper(".toList = ",".toList ++ "+$uper(".toList := rfl
  unfold updateText
  dsimp only
  rw [comma, ← List.append_assoc]
  split
  · iterate 4 apply List.infix_append_of_infix_left
    exact List.infix_append_left
  · iterate 2 apply List.infix_append_of_infix_left
    apply List.infix_append_of_infix_right
    iterate 4 apply List.infix_append_of_infix_left
    exact List.infix_append_left

theorem writtenAt_of_plain {right : Node} (made : Made source calls code)
    (kind : owner.is .assignmentExpression = true) (value : owner.child? .right = some right)
    (done : (plainAssignmentEffect owner member right).failure = none)
    (within : (plainAssignmentEffect owner member right).edits ⊆ calls) :
    WrittenAt source calls owner member := by
  unfold plainAssignmentEffect at done within
  obtain ⟨opens, -⟩ := (Effect.failure_andThen _ _).mp done
  rw [Effect.edits_andThen _ opens] at within
  obtain ⟨begun, ended⟩ := List.append_subset.mp within
  have closed : ")".toList <:+: textBefore calls owner.stop :=
    Edit.textBefore_of_mem (ended (by simp [Effect.ofEdits, Effect.taking, Effect.andThen]))
  cases key : member.flags.computed with
  | false =>
    rw [key] at begun
    exact .assigned kind value key (made.becomes (begun (.head _)) rfl) closed
  | true =>
    rw [key] at opens begun
    cases held : member.child? .property with
    | none => simp [held, Effect.failing] at opens
    | some property =>
      simp only [if_true, held] at begun
      exact .assignedComputed kind value key held (made.becomes (begun (.head _)) rfl)
        (made.becomes (begun (.tail _ (.head _))) rfl) closed

theorem writtenAt_of_compound {right : Node} {lines : Lines} {operator : Text}
    (made : Made source calls code) (kind : owner.is .assignmentExpression = true)
    (value : owner.child? .right = some right)
    (done : (compoundAssignmentEffect lines owner member right operator).failure = none)
    (within : (compoundAssignmentEffect lines owner member right operator).edits ⊆ calls) :
    WrittenAt source calls owner member := by
  unfold compoundAssignmentEffect at done within
  cases key : member.flags.computed with
  | true => simp [key, Effect.failing] at done
  | false =>
    simp only [key, Bool.false_eq_true, if_false] at within
    rw [Effect.edits_andThen _ rfl] at within
    exact .compound kind value key (made.becomes (within (.head _)) rfl)
      (compoundHead_writes member operator)
      (Edit.textBefore_of_mem (within (.tail _ (.head _))))

/-- A target right below its assignment or update is written. -/
theorem writtenAt_of_rule {reading : Reading} {scope : Scope} {number : Nat} {parent : Walk.Parent}
    (made : Made source calls code) (replaces : (scope.isAsync && !scope.inParams) = true)
    (target : written? owner = some member) (isMember : member.is .superMember = true)
    (done : (ruleEffect reading scope number owner parent).failure = none)
    (within : (ruleEffect reading scope number owner parent).edits ⊆ calls) :
    WrittenAt source calls owner member := by
  have found {field : Field} (held : owner.child? field = some member) :
      superTarget? { current := scope } owner field = some member := by
    rw [superTarget?, if_pos (by exact replaces), held]
    simp [isMember]
  unfold written? at target
  split at target
  next kind =>
    split at target
    case isFalse => simp at target
    case isTrue value =>
      obtain ⟨right, value⟩ := Option.isSome_iff_exists.mp value
      have isAssignment : owner.is .assignmentExpression = true := by simp [Node.is, kind]
      simp only [ruleEffect, kind, assignmentEffect, found target, value] at done within
      split at done
      next plain =>
        rw [if_pos plain] at within
        exact writtenAt_of_plain made isAssignment value done within
      next compound =>
        rw [if_neg compound] at within
        exact writtenAt_of_compound made isAssignment value done within
  next kind =>
    simp only [ruleEffect, kind, updateEffect, found target] at done within
    cases key : member.flags.computed with
    | true => simp [key, Effect.failing] at done
    | false =>
      simp only [key, Bool.false_eq_true, if_false] at within
      rw [Effect.edits_andThen _ rfl] at within
      exact .updated (by simp [Node.is, kind]) key (made.becomes (within (.head _)) rfl)
        (updateText_writes owner member)
  next => simp at target

end Rules

/-- The calls for a member that is read: those that replace it, and those that its place asks
for. -/
theorem edits_of_member {source : Text} {options : Options} {parsed : Parsed}
    {transformed : Transformed} {trail : Trail} {member : Node}
    (done : Transform.lower source options parsed = .ok transformed)
    (leads : Leads parsed.program trail member) (isMember : member.is .superMember = true)
    (lowered : inLoweredBody trail = true) (unwritten : isWritten trail.head? = false) :
    (readEffect member).failure = none ∧
      (finishEffect parsed.tokens member trail.head?).failure = none ∧
      (readEffect member).edits ++ (finishEffect parsed.tokens member trail.head?).edits <:+:
        Transform.calls source options parsed := by
  have kind : member.kind = .superMember := by simpa [Node.is] using isMember
  have closed : member.opensScope = false := by
    simp [Node.opensScope, Node.is, kind, Kind.ownsReceiver]
  have replaces : ((scopeAlong {} trail).isAsync && !(scopeAlong {} trail).inParams &&
      !isWritten trail.head?) = true := by
    rw [replaces_scopeAlong, lowered, unwritten]
    rfl
  obtain ⟨number, succeeds, within⟩ := Transform.ruleEffect_of_lower done leads closed
  simp only [ruleEffect, kind, superMemberEffect, replaces, if_true] at succeeds within
  obtain ⟨read, taken, finished⟩ := by simpa only [Effect.failure_andThen] using succeeds
  rw [Effect.edits_andThen _ read, Effect.edits_andThen _ taken] at within
  exact ⟨read, finished, within⟩

end Unawait.Lowering

namespace Unawait

open Lowering

/-- In a run that reads its source and succeeds, a member of `super` in a lowered body is
written through `$uperEq` if it is the target right below an assignment or an update, and
read through `$uper` if it stands anywhere else but below `delete`. So a target in parentheses
or in a pattern is read, and so is one in the head of a loop over keys, which stands right below
a statement. -/
theorem super_read_unless_direct_target (parse : Text → Options → Except Failure Parsed)
    (source : Text) (options : Options) (parsed : Parsed) (transformed : Transformed)
    (isRead : Transform.skips source options = false)
    (parses : parse source options = .ok parsed)
    (done : transformWith parse source options = .ok transformed) :
    Edit.Made source (Transform.calls source options parsed) transformed.code ∧
    (∀ trail owner member, Leads parsed.program trail owner → inLoweredBody trail = true →
      written? owner = some member → member.is .superMember = true →
      WrittenAt source (Transform.calls source options parsed) owner member) ∧
    ∀ trail member, Leads parsed.program trail member → inLoweredBody trail = true →
      member.is .superMember = true →
      isIndirectTarget trail = true ∨ isWritten trail.head? = false →
      ReadAt source (Transform.calls source options parsed) member := by
  rw [Transform.transformWith_eq_lower isRead parses] at done
  have made := Transform.made_of_lower done
  refine ⟨made, ?_, ?_⟩
  · intro trail owner member leads lowered target isMember
    have closed : owner.opensScope = false := by
      cases kind : owner.kind <;>
        simp_all [written?, Node.opensScope, Node.is, Kind.ownsReceiver]
    obtain ⟨number, succeeds, within⟩ := Transform.ruleEffect_of_lower done leads closed
    exact writtenAt_of_rule made ((replaces_scopeAlong trail).trans lowered) target isMember succeeds
      within.subset
  · intro trail member leads lowered isMember apart
    have unwritten : isWritten trail.head? = false := apart.elim isWritten_of_isIndirectTarget id
    obtain ⟨read, -, within⟩ := edits_of_member done leads isMember lowered unwritten
    exact readAt_of_readEffect made read (List.append_subset.mp within.subset).1

/-- The program of a class `A` that extends `B` and has one method, async and named `m`, with
these statements: `class A extends B{async m(){…}}`. -/
def asyncMethod (source : Text) (tokens : Array Span) (statements : List Node) : Parsed :=
  let method := .mk
    { kind := .classMethod, span := ⟨18, source.bytes - 1⟩, flags := { isAsync := true } }
    [.one .key (.key ⟨24, 25⟩ false []), .many .params [],
      .one .body (.plain .blockStatement ⟨27, source.bytes - 1⟩ [.many .children statements])]
  { program := .plain .program ⟨0, source.bytes⟩ [.many .children
      [.classDefinition ⟨0, source.bytes⟩ [] (some (.identifier ⟨16, 17⟩ ['B'])) [method]]]
    tokens := ⟨source, tokens⟩
    lines := .ofText source }

/-- The assignment in `super.x=1;(super.x)++`. -/
def directWrite : Node :=
  .assignment ⟨28, 37⟩ ['='] (.superNamed ⟨28, 35⟩ ['x']) (.expression ⟨36, 37⟩ [])

/-- The update there, whose target is in parentheses. -/
def indirectWrite : Node :=
  .update ⟨38, 49⟩ ['+', '+'] false (.parenthesized ⟨38, 47⟩ (.superNamed ⟨39, 46⟩ ['x']))

/-- A method with these two statements. -/
def writingMethod : Parsed :=
  asyncMethod "class A extends B\x7basync m()\x7bsuper.x=1;(super.x)++\x7d\x7d".toList
    #[⟨0, 5⟩, ⟨6, 7⟩, ⟨8, 15⟩, ⟨16, 17⟩, ⟨17, 18⟩, ⟨18, 23⟩, ⟨24, 25⟩, ⟨25, 26⟩, ⟨26, 27⟩, ⟨27, 28⟩,
      ⟨28, 33⟩, ⟨33, 34⟩, ⟨34, 35⟩, ⟨35, 36⟩, ⟨36, 37⟩, ⟨37, 38⟩, ⟨38, 39⟩, ⟨39, 44⟩, ⟨44, 45⟩,
      ⟨45, 46⟩, ⟨46, 47⟩, ⟨47, 49⟩, ⟨49, 50⟩, ⟨50, 51⟩]
    [.statement ⟨28, 38⟩ [directWrite], .statement ⟨38, 49⟩ [indirectWrite]]

/-- What lowering this method gives. -/
def writingMethodRun : Evaluated (transformWith (fun _ _ => .ok writingMethod)
    writingMethod.tokens.source { includeHelper := false }) Transformed.code
    ("class A extends B\x7bm()\x7breturn __async(function*($uper,$uperEq)\x7b" ++
      "$uperEq(\"x\",1);($uper(\"x\"))++\x7d(p=>super[p],(p,v)=>(super[p]=v)))\x7d\x7d").toList :=
  .ofView (by decide +kernel)

/-- The member that is assigned is written. The one in parentheses is read, and the update is
applied to the result of a call. -/
theorem super_read_unless_direct_target_parenthesized :
    let source := writingMethod.tokens.source
    let calls := Transform.calls source { includeHelper := false } writingMethod
    ∃ transformed,
      transformWith (fun _ _ => .ok writingMethod) source { includeHelper := false } =
        .ok transformed ∧
      transformed.code = ("class A extends B\x7bm()\x7breturn __async(function*($uper,$uperEq)\x7b" ++
        "$uperEq(\"x\",1);($uper(\"x\"))++\x7d(p=>super[p],(p,v)=>(super[p]=v)))\x7d\x7d").toList ∧
      WrittenAt source calls directWrite (.superNamed ⟨28, 35⟩ ['x']) ∧
      ReadAt source calls (.superNamed ⟨39, 46⟩ ['x']) := by
  intro source calls
  obtain ⟨transformed, done, code⟩ := writingMethodRun
  obtain ⟨-, direct, others⟩ := super_read_unless_direct_target _ source
    { includeHelper := false } writingMethod transformed (by decide +kernel) rfl done
  have body : Leads writingMethod.program _ _ :=
    .part (.part (.part .root (.head _)) (.tail _ (.head _))) (.tail _ (.head _))
  have first : Leads writingMethod.program _ directWrite := .part (.part body (.head _)) (.head _)
  have second : Leads writingMethod.program _ indirectWrite :=
    .part (.part body (.tail _ (.head _))) (.head _)
  have target : Leads writingMethod.program _ (.superNamed ⟨39, 46⟩ ['x']) :=
    .part (.part second (.head _)) (.head _)
  exact ⟨transformed, done, code, direct _ _ _ first rfl rfl rfl,
    others _ _ target rfl rfl (.inl rfl)⟩

end Unawait
