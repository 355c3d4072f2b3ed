import Mathlib
import Unawait.Proofs.Captures
import Unawait.Proofs.Script

/-!
# What the rules leave alone

The rules ask for no place in the result: marks come from entering a node and from
nowhere else. Lowered code calls a helper only because of a function or a loop that was
lowered, and whether a node is one of these can be read off the node and the kind of its
scope. The rule for a node outside of async code does nothing at all.
-/

namespace Unawait

/-- A node and all nodes below it, in the order in which they are entered. -/
def Node.nodes : Node → List Node := Node.fold fun node parts => node :: parts.flatMap Prod.snd

theorem Node.nodes_eq (node : Node) :
    node.nodes = node :: node.parts.flatMap fun part => part.2.nodes := by
  rw [nodes, fold_eq, List.flatMap_map]

/-- Whether a node is an async function with a body: a generator, or not. -/
def Node.isLowered (generator : Bool) (node : Node) : Bool :=
  node.kind.isFunctionLike && node.flags.isAsync && node.flags.isGenerator == generator
    && (node.child? .body).isSome

/-- A function that lowered code may call. -/
inductive Helper where
  | coroutine
  | asyncGenerator
  | asyncIterator

/-- Whether lowered code calls a function. -/
def Usage.calls (usage : Usage) : Helper → Bool
  | .coroutine => usage.asyncFunction
  | .asyncGenerator => usage.asyncGenerator
  | .asyncIterator => usage.forAwait

@[simp] theorem Usage.calls_empty (helper : Helper) : ({} : Usage).calls helper = false := by
  cases helper <;> rfl

@[simp] theorem Usage.calls_merge (first second : Usage) (helper : Helper) :
    (first.merge second).calls helper = (first.calls helper || second.calls helper) := by
  cases helper <;> rfl

theorem Usage.eq_empty {usage : Usage} (none : ∀ helper, usage.calls helper = false) :
    usage = {} := by
  obtain ⟨asyncFunction, asyncGenerator, forAwait⟩ := usage
  obtain rfl : asyncFunction = false := none .coroutine
  obtain rfl : asyncGenerator = false := none .asyncGenerator
  obtain rfl : forAwait = false := none .asyncIterator
  rfl

end Unawait

namespace Unawait.Lowering

open Edit (Operation)

theorem mem_nodes_iff_leads {root node : Node} :
    node ∈ root.nodes ↔ ∃ trail, Leads root trail node := by
  induction root using Node.parts_induction with
  | _ root ih =>
    rw [Node.nodes_eq, List.mem_cons, List.mem_flatMap]
    constructor
    · rintro (rfl | ⟨part, member, inside⟩)
      · exact ⟨[], .root⟩
      · obtain ⟨trail, leads⟩ := (ih part member).mp inside
        exact ⟨_, leads_iff.mpr (.inr ⟨part, member, trail, leads, rfl⟩)⟩
    · rintro ⟨trail, leads⟩
      obtain ⟨-, rfl⟩ | ⟨part, member, inner, below, -⟩ := leads_iff.mp leads
      · exact .inl rfl
      · exact .inr ⟨part, member, (ih part member).mpr ⟨inner, below⟩⟩

/-- What lowered code calls because of a node in a scope. -/
def nodeUsed (scope : Scope) (node : Node) : Usage :=
  { asyncFunction := node.isLowered false, asyncGenerator := node.isLowered true,
    forAwait := lowersLoop scope node }

/-! ### What an effect notes -/

/-- An effect marks no offset. If it does not fail it notes the given helpers, and where it
notes any it edits the text. -/
structure Effect.Notes (effect : Effect) (noted : Usage) : Prop where
  unmarked : ∀ edit ∈ effect.edits, edit.isMark = false
  used : effect.failure = none → effect.used = noted
  edits : effect.failure = none → noted ≠ {} → effect.edits ≠ []

namespace Effect

theorem used_andThen {first : Effect} (second : Effect) (done : first.failure = none) :
    (first.andThen second).used = first.used.merge second.used := by
  simp [andThen, done]

namespace Notes

theorem none : ({} : Effect).Notes {} := ⟨by simp, fun _ => rfl, fun _ some => absurd rfl some⟩

theorem failing (failure : Failure) {noted : Usage} : (failing failure).Notes noted :=
  ⟨by simp [Effect.failing], by simp [Effect.failing], by simp [Effect.failing]⟩

theorem taking (taken : Scope) : (taking taken).Notes {} :=
  ⟨by simp [Effect.taking], fun _ => rfl, fun _ some => absurd rfl some⟩

theorem ofEdits {edits : List Operation} (unmarked : ∀ edit ∈ edits, edit.isMark = false) :
    (ofEdits edits).Notes {} :=
  ⟨unmarked, fun _ => rfl, fun _ some => absurd rfl some⟩

theorem andThen {first second : Effect} (here : first.Notes {}) (after : second.Notes {}) :
    (first.andThen second).Notes {} := by
  refine ⟨?_, fun done => ?_, fun _ some => absurd rfl some⟩
  · intro edit member
    rcases mem_edits_andThen member with earlier | later
    · exact here.unmarked edit earlier
    · exact after.unmarked edit later
  · obtain ⟨first, second⟩ := (failure_andThen _ _).mp done
    rw [used_andThen _ first, here.used first, after.used second]
    rfl

/-- After edits a helper may be noted. -/
theorem noting {effect : Effect} (here : effect.Notes {})
    (edits : effect.failure = .none → effect.edits ≠ []) (used : Usage) (loops : Nat) :
    (effect.andThen (noting used loops)).Notes used := by
  refine ⟨?_, fun done => ?_, fun done _ => ?_⟩
  · intro edit member
    rcases mem_edits_andThen member with earlier | later
    · exact here.unmarked edit earlier
    · simp [Effect.noting] at later
  · obtain ⟨first, -⟩ := (failure_andThen _ _).mp done
    rw [used_andThen _ first, here.used first]
    simp [Usage.merge, Effect.noting]
  · obtain ⟨first, -⟩ := (failure_andThen _ _).mp done
    rw [edits_andThen _ first]
    simp [edits first]

end Notes

end Effect

section Rules

variable {reading : Reading} {scope : Scope} {node : Node} {parent : Walk.Parent}

theorem notes_awaitEffect : (awaitEffect reading scope node parent).Notes {} := by
  unfold awaitEffect
  split
  · exact .none
  · split
    · split
      · apply Effect.Notes.ofEdits
        split <;> simp [Operation.isMark]
      · exact .failing _
    · exact .none

theorem notes_bindEffect {tokens : Tokens} {callee call : Node} :
    (bindEffect tokens callee call).Notes {} := by
  unfold bindEffect
  apply Effect.Notes.andThen
  · apply Effect.Notes.ofEdits
    simp [Operation.isMark]
  · split
    · exact .failing _
    · exact .andThen (.ofEdits (by simp [Operation.isMark])) (.taking _)

theorem notes_superMemberEffect : (superMemberEffect reading scope node parent).Notes {} := by
  unfold superMemberEffect
  split
  · refine .andThen ?_ (.andThen (.taking _) ?_)
    · unfold readEffect
      split
      · split
        · exact .failing _
        · exact .ofEdits (by simp [Operation.isMark])
      · exact .ofEdits (by simp [Operation.isMark])
    · unfold finishEffect
      split
      · exact notes_bindEffect
      · split
        · exact .ofEdits (by simp [Operation.isMark])
        · exact .none
  · exact .none

theorem notes_assignmentEffect : (assignmentEffect reading scope node).Notes {} := by
  unfold assignmentEffect
  split
  · dsimp only
    split
    · refine .andThen ?_ (.andThen (.ofEdits (by simp [Operation.isMark])) (.taking _))
      split
      · split
        · exact .failing _
        · exact .ofEdits (by simp [Operation.isMark])
      · exact .ofEdits (by simp [Operation.isMark])
    · unfold compoundAssignmentEffect
      split
      · exact .failing _
      · exact .andThen (.ofEdits (by simp [Operation.isMark])) (.taking _)
  · exact .none

theorem notes_updateEffect : (updateEffect reading scope node).Notes {} := by
  unfold updateEffect
  split
  · exact .none
  · split
    · exact .failing _
    · exact .andThen (.ofEdits (by simp [Operation.isMark])) (.taking _)

theorem notes_stripFunctionEffect : (stripFunctionEffect reading node).Notes {} := by
  unfold stripFunctionEffect
  dsimp only
  split
  · exact .failing _
  · split
    · exact .failing _
    · refine .andThen (.ofEdits (by simp [Operation.isMark])) ?_
      split
      · split
        · exact .ofEdits (by simp [Operation.isMark])
        · exact .failing _
      · exact .none

theorem notes_stripMethodEffect {tokens : Tokens} : (stripMethodEffect tokens node).Notes {} := by
  unfold stripMethodEffect
  split
  · exact .failing _
  · dsimp only
    split
    · exact .failing _
    · exact .ofEdits (by simp [Operation.isMark])

theorem notes_stripArrowEffect {tokens : Tokens} : (stripArrowEffect tokens node).Notes {} := by
  unfold stripArrowEffect
  dsimp only
  split
  · exact .failing _
  · exact .ofEdits (by simp [Operation.isMark])

theorem notes_wrapArrowEffect {tokens : Tokens} {body : Node} {opening closing : Text} :
    (wrapArrowEffect tokens body opening closing).Notes {} := by
  unfold wrapArrowEffect
  split
  · exact .ofEdits (by simp [Operation.isMark])
  · split
    · exact .failing _
    · exact .ofEdits (by simp [Operation.isMark])

/-! ### Functions and loops -/

theorem edits_wrapArrowEffect {tokens : Tokens} {body : Node} {opening closing : Text}
    (done : (wrapArrowEffect tokens body opening closing).failure = none) :
    (wrapArrowEffect tokens body opening closing).edits ≠ [] := by
  unfold wrapArrowEffect at done ⊢
  split at done
  next block => simp [block, Effect.ofEdits]
  next value =>
    split at done
    · simp [Effect.failing] at done
    · simp [value, Effect.ofEdits]

/-- A function with a body is noted, and which helper runs it. -/
theorem notes_functionEffect {outer : Scope} :
    (functionEffect reading scope outer node).Notes
      (if (node.child? .body).isSome then
        { asyncGenerator := scope.isGenerator, asyncFunction := !scope.isGenerator }
      else {}) := by
  unfold functionEffect
  cases node.child? .body with
  | none => exact .none
  | some body =>
    apply Effect.Notes.noting
    · split
      · exact notes_stripArrowEffect.andThen notes_wrapArrowEffect
      · refine Effect.Notes.andThen ?_ (.ofEdits (by simp [Operation.isMark]))
        split
        · exact notes_stripMethodEffect
        · exact notes_stripFunctionEffect
    · intro done
      split at done
      next arrow =>
        obtain ⟨stripped, closed⟩ := (Effect.failure_andThen _ _).mp done
        rw [if_pos arrow, Effect.edits_andThen _ stripped]
        simp [edits_wrapArrowEffect closed]
      next other =>
        obtain ⟨stripped, -⟩ := (Effect.failure_andThen _ _).mp done
        rw [if_neg other, Effect.edits_andThen _ stripped]
        simp [Effect.ofEdits]

theorem notes_loopEffect {number : Nat} :
    (loopEffect reading scope number node parent).Notes
      { forAwait := scope.isAsync && (node.child? .left).isSome && (node.child? .right).isSome
          && (node.child? .body).isSome } := by
  unfold loopEffect
  cases scope.isAsync with
  | false => exact .none
  | true =>
    cases node.child? .left <;> cases node.child? .right <;> cases node.child? .body <;>
      try exact .none
    rename_i left right body
    rw [if_pos rfl]
    dsimp only
    split
    · exact .failing _
    · apply Effect.Notes.noting
      · apply Effect.Notes.ofEdits
        unfold loopEdits
        dsimp only
        split <;> split <;> simp [Operation.isMark]
      · simp [loopEdits, Effect.ofEdits]

theorem notes_ruleEffect {number : Nat} :
    (ruleEffect reading scope number node parent).Notes
      { forAwait := lowersLoop scope node } := by
  unfold ruleEffect lowersLoop Node.is
  cases node.kind
  case awaitExpression => exact notes_awaitEffect
  case superMember => exact notes_superMemberEffect
  case assignmentExpression => exact notes_assignmentEffect
  case updateExpression => exact notes_updateEffect
  case forOfStatement =>
    cases node.flags.isAwait with
    | false => exact .none
    | true => simpa using notes_loopEffect
  all_goals exact .none

/-- A rule notes what lowered code calls because of its node. -/
theorem notes_nodeEffect {place : Place} :
    (nodeEffect reading node place).Notes (nodeUsed place.scope node) := by
  unfold nodeEffect
  split
  next opens =>
    have other : lowersLoop place.scope node = false := by
      cases kind : node.kind <;>
        simp_all [lowersLoop, Node.opensScope, Node.is, Kind.ownsReceiver]
    have record : (ownRecord node place.scope).isAsync = node.flags.isAsync := rfl
    rw [dropEffect, record]
    split
    next function =>
      obtain ⟨async, like⟩ := by simpa using function
      convert notes_functionEffect using 1
      have generator : (ownRecord node place.scope).isGenerator = node.flags.isGenerator := rfl
      cases flag : node.flags.isGenerator <;> cases body : node.child? .body <;>
        simp [nodeUsed, Node.isLowered, async, like, other, generator, flag, body]
    next plain =>
      convert Effect.Notes.none using 1
      have neither (generator : Bool) : node.isLowered generator = false := by
        by_contra lowered
        simp_all [Node.isLowered]
      simp [nodeUsed, neither, other]
  next closed =>
    convert notes_ruleEffect using 1
    have neither (generator : Bool) : node.isLowered generator = false := by
      cases kind : node.kind <;>
        simp_all [Node.isLowered, Kind.isFunctionLike, Node.opensScope, Node.is, Kind.ownsReceiver]
    simp [nodeUsed, neither]

/-! ### Outside of async code -/

theorem ruleEffect_of_not_async {number : Nat} (sync : scope.isAsync = false) :
    ruleEffect reading scope number node parent = {} := by
  have noTarget (field : Field) : superTarget? { current := scope } node field = none := by
    simp [superTarget?, Scopes.replacesSuper, sync]
  unfold ruleEffect
  cases node.kind
  case awaitExpression => cases found : node.child? .argument <;> simp [awaitEffect, found, sync]
  case superMember => simp [superMemberEffect, sync]
  case assignmentExpression => simp [assignmentEffect, noTarget]
  case updateExpression => simp [updateEffect, noTarget]
  case forOfStatement => simp [loopEffect, sync]
  all_goals rfl

/-- The rule for a node outside of async code that is not async itself does nothing. -/
theorem nodeEffect_of_not_async {place : Place} (sync : place.scope.isAsync = false)
    (own : node.opensScope = true → node.flags.isAsync = false) :
    nodeEffect reading node place = {} := by
  unfold nodeEffect
  split
  next opens =>
    have record : (ownRecord node place.scope).isAsync = false := own opens
    simp [dropEffect, record]
  next => exact ruleEffect_of_not_async sync

end Rules

end Unawait.Lowering
