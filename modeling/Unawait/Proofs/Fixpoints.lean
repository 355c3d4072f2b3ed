import Mathlib
import Unawait.Proofs.FastSkip

/-!
# Texts that a transform leaves alone

A transform that reports no edit gives back its source, byte for byte. This happens in two
ways: the word `async` does not occur in the source, so that it is passed through, or it is
read into a tree in which no rule has anything to do. The rules are exact in this. A rule
that applies to a node issues an edit or fails, and a rule that does not apply does neither,
whatever tokens the source has.

So it is the reader that decides whether a result comes out of a second run as it is. The
functions that lowered code calls have the word `async` in their names. A result that
defines one of them is never passed through but read again. It stays as it is exactly if it
is read, and nothing in its tree is left to be lowered. Neither follows from the first run: a
statement or a class field that only a line break ended is continued by the text in which the
keyword in front was removed, and a name such as `yield` is no name in a generator.
-/

namespace Unawait.Lowering

open Edit (Operation)

/-! ### Rules that act -/

/-- An effect that fails or edits the text. -/
def Effect.Acts (effect : Effect) : Prop := effect.failure = none → effect.edits ≠ []

namespace Effect.Acts

theorem failing (failure : Failure) : (failing failure).Acts := by
  simp [Acts, Effect.failing]

theorem ofEdits (first : Operation) (rest : List Operation) : (ofEdits (first :: rest)).Acts := by
  simp [Acts, Effect.ofEdits]

theorem andThen {first : Effect} (here : first.Acts) (second : Effect) :
    (first.andThen second).Acts := by
  intro done
  obtain ⟨begun, -⟩ := (failure_andThen _ _).mp done
  rw [edits_andThen _ begun]
  simp [here begun]

end Effect.Acts

/-- Whether a rule applies to a node that is evaluated in a scope. -/
def applies (scope : Scope) (parent : Walk.Parent) (node : Node) : Bool :=
  match node.kind with
  | .awaitExpression => scope.isAsync && (node.child? .argument).isSome
  | .superMember => scope.isAsync && !scope.inParams && !isWritten parent
  | .assignmentExpression =>
    (superTarget? { current := scope } node .left).isSome && (node.child? .right).isSome
  | .updateExpression => (superTarget? { current := scope } node .argument).isSome
  | .forOfStatement => lowersLoop scope node
  | _ => node.isLowered node.flags.isGenerator

section Rules

variable {reading : Reading} {scope : Scope} {node : Node} {parent : Walk.Parent}

theorem awaitEffect_acts (async : scope.isAsync = true)
    (argument : (node.child? .argument).isSome = true) :
    (awaitEffect reading scope node parent).Acts := by
  obtain ⟨value, found⟩ := Option.isSome_iff_exists.mp argument
  simp only [awaitEffect, found, async, if_true]
  split
  · exact .ofEdits _ _
  · exact .failing _

theorem superMemberEffect_acts
    (handled : (scope.isAsync && !scope.inParams && !isWritten parent) = true) :
    (superMemberEffect reading scope node parent).Acts := by
  rw [superMemberEffect, if_pos handled]
  apply Effect.Acts.andThen
  unfold readEffect
  split
  · split
    · exact .failing _
    · exact .ofEdits _ _
  · exact .ofEdits _ _

theorem assignmentEffect_acts
    (target : (superTarget? { current := scope } node .left).isSome = true)
    (value : (node.child? .right).isSome = true) : (assignmentEffect reading scope node).Acts := by
  obtain ⟨left, targeted⟩ := Option.isSome_iff_exists.mp target
  obtain ⟨right, found⟩ := Option.isSome_iff_exists.mp value
  simp only [assignmentEffect, targeted, found]
  split
  · apply Effect.Acts.andThen
    split
    · split
      · exact .failing _
      · exact .ofEdits _ _
    · exact .ofEdits _ _
  · unfold compoundAssignmentEffect
    split
    · exact .failing _
    · exact Effect.Acts.andThen (.ofEdits _ _) _

theorem updateEffect_acts
    (target : (superTarget? { current := scope } node .argument).isSome = true) :
    (updateEffect reading scope node).Acts := by
  obtain ⟨argument, targeted⟩ := Option.isSome_iff_exists.mp target
  simp only [updateEffect, targeted]
  split
  · exact .failing _
  · exact Effect.Acts.andThen (.ofEdits _ _) _

theorem nodeEffect_of_kind {place : Place} {kind : Kind} (same : node.kind = kind)
    (plain : kind.ownsReceiver = false ∧ (kind == .arrowFunctionExpression) = false) :
    ∃ number, nodeEffect reading node place =
      ruleEffect reading place.scope number node place.parent := by
  have closed : node.opensScope = false := by simp [Node.opensScope, Node.is, same, plain]
  exact ⟨_, by rw [nodeEffect, closed]; rfl⟩

/-- The rule that applies to a node acts. -/
theorem nodeEffect_acts {place : Place} (rule : applies place.scope place.parent node = true) :
    (nodeEffect reading node place).Acts := by
  -- functions and loops are known to act where a helper is noted for them
  have noted (used : nodeUsed place.scope node ≠ {}) : (nodeEffect reading node place).Acts :=
    fun done => notes_nodeEffect.edits done used
  unfold applies at rule
  split at rule
  next kind =>
    obtain ⟨async, argument⟩ := Bool.and_eq_true_iff.mp rule
    obtain ⟨number, same⟩ := @nodeEffect_of_kind reading node place _ kind (by decide)
    rw [same, ruleEffect, kind]
    exact awaitEffect_acts async argument
  next kind =>
    obtain ⟨number, same⟩ := @nodeEffect_of_kind reading node place _ kind (by decide)
    rw [same, ruleEffect, kind]
    exact superMemberEffect_acts rule
  next kind =>
    obtain ⟨target, value⟩ := Bool.and_eq_true_iff.mp rule
    obtain ⟨number, same⟩ := @nodeEffect_of_kind reading node place _ kind (by decide)
    rw [same, ruleEffect, kind]
    exact assignmentEffect_acts target value
  next kind =>
    obtain ⟨number, same⟩ := @nodeEffect_of_kind reading node place _ kind (by decide)
    rw [same, ruleEffect, kind]
    exact updateEffect_acts rule
  next =>
    apply noted
    intro unused
    simpa [nodeUsed, rule] using congrArg Usage.forAwait unused
  next =>
    apply noted
    intro unused
    cases generator : node.flags.isGenerator with
    | false =>
      rw [generator] at rule
      simpa [nodeUsed, rule] using congrArg Usage.asyncFunction unused
    | true =>
      rw [generator] at rule
      simpa [nodeUsed, rule] using congrArg Usage.asyncGenerator unused

theorem loopEffect_of_not_lowered {number : Nat} (kind : node.kind = .forOfStatement)
    (awaits : node.flags.isAwait = true) (none : lowersLoop scope node = false) :
    loopEffect reading scope number node parent = {} := by
  unfold loopEffect
  split
  next async =>
    split
    next left right body =>
      simp [lowersLoop, Node.is, kind, awaits, async, left, right, body] at none
    next => rfl
  next => rfl

theorem dropEffect_of_not_lowered {outer record : Scope} (same : record.isAsync = node.flags.isAsync)
    (none : node.isLowered node.flags.isGenerator = false) :
    dropEffect reading record outer node = {} := by
  unfold dropEffect
  split
  next lowered =>
    obtain ⟨async, function⟩ := Bool.and_eq_true_iff.mp lowered
    have bodiless : node.child? .body = Option.none := by
      simpa [Node.isLowered, function, ← same, async] using none
    simp [functionEffect, bodiless]
  next => rfl

/-- Where no rule applies to a node nothing happens. -/
theorem nodeEffect_of_not_applies {place : Place}
    (none : applies place.scope place.parent node = false) :
    nodeEffect reading node place = {} := by
  unfold applies at none
  split at none
  next kind =>
    obtain ⟨number, same⟩ := @nodeEffect_of_kind reading node place _ kind (by decide)
    rw [same, ruleEffect, kind]
    cases found : node.child? .argument with
    | none => simp [awaitEffect, found]
    | some argument =>
      have sync : place.scope.isAsync = false := by simpa [found] using none
      simp [awaitEffect, found, sync]
  next kind =>
    obtain ⟨number, same⟩ := @nodeEffect_of_kind reading node place _ kind (by decide)
    rw [same, ruleEffect, kind]
    simp only [superMemberEffect, none, Bool.false_eq_true, if_false]
  next kind =>
    obtain ⟨number, same⟩ := @nodeEffect_of_kind reading node place _ kind (by decide)
    rw [same, ruleEffect, kind]
    cases target : superTarget? { current := place.scope } node .left with
    | none => simp [assignmentEffect, target]
    | some left =>
      have valueless : node.child? .right = Option.none := by simpa [target] using none
      simp [assignmentEffect, target, valueless]
  next kind =>
    obtain ⟨number, same⟩ := @nodeEffect_of_kind reading node place _ kind (by decide)
    rw [same, ruleEffect, kind]
    have untargeted : superTarget? { current := place.scope } node .argument = Option.none := by
      simpa using none
    simp [updateEffect, untargeted]
  next kind =>
    obtain ⟨number, same⟩ := @nodeEffect_of_kind reading node place _ kind (by decide)
    rw [same, ruleEffect, kind]
    dsimp only
    split
    next awaits => exact loopEffect_of_not_lowered kind awaits none
    next => rfl
  next =>
    unfold nodeEffect
    split
    next => exact dropEffect_of_not_lowered rfl none
    next =>
      unfold ruleEffect
      split
      iterate 5 contradiction
      rfl

end Rules

/-! ### Visits -/

section Visit

variable {reading : Reading} {node : Node} {place : Place}

/-- Whether a rule applies to a node below another one in a place. -/
def appliesBelow (place : Place) (trail : Trail) (inner : Node) : Bool :=
  applies (scopeAlong place.scope trail) (trail.head?.or place.parent) inner

theorem appliesBelow_of_part {placed : (Field × Node) × Place} (member : placed ∈ places node place)
    (trail : Trail) (inner : Node) :
    appliesBelow place (trail ++ [(node, placed.1.1)]) inner = appliesBelow placed.2 trail inner := by
  obtain ⟨scope, parent⟩ := mem_placesFrom member
  simp only [appliesBelow, scopeAlong_append, scopeAlong_cons, scopeAlong_nil, List.head?_append,
    List.head?_cons, Option.or_assoc, Option.some_or, scope, parent]

/-- A subtree in which no rule applies is left alone. -/
theorem visitEffect_of_not_applies
    (none : ∀ trail inner, Leads node trail inner → appliesBelow place trail inner = false) :
    visitEffect reading false node place = {} := by
  induction node using Node.parts_induction generalizing place with
  | _ node ih =>
    have each : ∀ placed ∈ places node place,
        visitEffect reading false placed.1.2 placed.2 = .ofEdits [] := by
      intro placed member
      have part := mem_parts_of_places member
      refine ih placed.1 part fun trail inner leads => ?_
      rw [← appliesBelow_of_part member]
      exact none _ _ (leads_iff.mpr (.inr ⟨placed.1, part, trail, leads, rfl⟩))
    have parts := @partsEffect_of_marks reading false (places node place) (fun _ => []) each
    have own : nodeEffect reading node place = {} :=
      nodeEffect_of_not_applies (none [] node .root)
    rw [visitEffect_eq, parts, own, List.flatMap_eq_nil_iff.mpr fun _ _ => rfl]
    rfl

/-- A subtree in which a rule applies is edited where its visit succeeds. -/
theorem edits_of_applies {sourceMap : Bool} {trail : Trail} {inner : Node}
    (done : (visitEffect reading sourceMap node place).failure = none)
    (leads : Leads node trail inner) (rule : appliesBelow place trail inner = true) :
    (visitEffect reading sourceMap node place).edits.any (fun edit => !edit.isMark) = true := by
  induction node using Node.parts_induction generalizing place trail with
  | _ node ih =>
    rw [visitEffect_eq] at done ⊢
    obtain ⟨marked, visited, lowered⟩ := by simpa only [Effect.failure_andThen] using done
    rw [Effect.edits_andThen _ marked, Effect.edits_andThen _ visited, edits_partsEffect visited,
      List.any_append, List.any_append, List.any_flatMap, Bool.or_eq_true, Bool.or_eq_true]
    right
    obtain ⟨rfl, rfl⟩ | ⟨part, held, deeper, below, rfl⟩ := leads_iff.mp leads
    · right
      have own : (nodeEffect reading inner place).edits ≠ [] := nodeEffect_acts rule lowered
      obtain ⟨edit, made⟩ := List.exists_mem_of_ne_nil _ own
      exact List.any_eq_true.mpr ⟨edit, made, by simp [notes_nodeEffect.unmarked edit made]⟩
    · left
      rw [← placesFrom_fst node place.scope place.number node.parts] at held
      obtain ⟨placed, member, rfl⟩ := List.mem_map.mp held
      rw [appliesBelow_of_part member] at rule
      exact List.any_eq_true.mpr ⟨placed, member, ih placed.1 (mem_parts_of_places member)
        (failure_partsEffect visited placed member) below rule⟩

end Visit

/-- Nothing in a program is to be lowered. -/
def Settled (program : Node) : Prop :=
  ∀ trail node, Leads program trail node →
    applies (scopeAlong {} trail) trail.head? node = false

theorem settled_iff {program : Node} :
    Settled program ↔ ∀ trail node, Leads program trail node →
      appliesBelow {} trail node = false := by
  simp [Settled, appliesBelow]

end Unawait.Lowering

namespace Unawait

open Lowering (Settled)

namespace Transform

variable {source : Text} {options : Options} {parsed : Parsed} {transformed : Transformed}

/-- The result for a walk that has done nothing. -/
theorem finish_ofSource (plain : options.sourceMap = false) (tokens : Tokens) (lines : Lines) :
    finish source options (.ofSource source tokens lines options.sourceMap) =
      .unchanged source options := by
  have code : (Edit.Buffer.ofText source).code = source :=
    Edit.code_of_marks (Edit.Buffer.aligned_ofText source)
  have mappings : (Edit.Buffer.ofText source).mappings = [] := by
    by_cases empty : source.bytes = 0 <;> simp [Edit.Buffer.mappings, Edit.Buffer.pieces,
      Edit.Buffer.ofText, empty, Edit.Buffer.movedTo, Edit.Buffer.isMoved, Edit.Buffer.chunkPieces,
      Edit.Buffer.marked, Edit.Piece.mappings]
  have unedited : (Edit.Buffer.ofText source).edited = false := rfl
  simp [finish, Lowering.State.ofSource, Transformed.unchanged, code, mappings, unedited, plain]

theorem lower_of_settled (plain : options.sourceMap = false) (settled : Settled parsed.program) :
    lower source options parsed = .ok (.unchanged source options) := by
  have effect := @Lowering.visitEffect_of_not_applies ⟨source, parsed.tokens, parsed.lines⟩ _ {}
    (Lowering.settled_iff.mp settled)
  rw [lower_eq, plain, effect, Lowering.Effect.apply_none, Lowering.ok_bind, ← plain,
    finish_ofSource plain]

theorem settled_of_unedited (done : lower source options parsed = .ok transformed)
    (unedited : transformed.edited = false) : Settled parsed.program := by
  obtain ⟨final, applied, rfl⟩ := exists_final done
  obtain ⟨succeeded, performed, -⟩ := Lowering.Effect.apply_eq_ok applied
  rw [Lowering.settled_iff]
  intro trail node leads
  by_contra rule
  have edits := Lowering.edits_of_applies succeeded leads (by simpa using rule)
  have edited : final.buffer.edited = false := unedited
  rw [Edit.edited_perform performed, edits] at edited
  simp at edited

/-- A transform that reports no edit gives back its source. -/
theorem eq_unchanged_of_unedited {parse : Text → Options → Except Failure Parsed}
    (plain : options.sourceMap = false) (done : transformWith parse source options = .ok transformed)
    (unedited : transformed.edited = false) : transformed = .unchanged source options := by
  rcases cases_of_ok done with ⟨-, same⟩ | ⟨parsed, -, -, lowered⟩
  · exact same
  · have kept := @lower_of_settled source options parsed plain (settled_of_unedited lowered unedited)
    exact Except.ok.inj (lowered.symm.trans kept)

/-- The sources that a transform gives back. -/
theorem transformWith_eq_unchanged_iff (parse : Text → Options → Except Failure Parsed)
    (plain : options.sourceMap = false) :
    transformWith parse source options = .ok (.unchanged source options) ↔
      skips source options = true ∨
        ∃ parsed, parse source options = .ok parsed ∧ Settled parsed.program := by
  constructor
  · intro kept
    rcases cases_of_ok kept with ⟨skipped, -⟩ | ⟨parsed, -, parses, lowered⟩
    · exact .inl skipped
    · exact .inr ⟨parsed, parses, settled_of_unedited lowered rfl⟩
  · intro either
    cases skipped : skips source options with
    | true => rw [transformWith, if_pos skipped]
    | false =>
      obtain impossible | ⟨parsed, parses, settled⟩ := either
      · simp [skipped] at impossible
      · rw [transformWith_eq_lower skipped parses, lower_of_settled plain settled]

end Transform

/-! ### Results that are transformed again -/

namespace Text

variable {part text : Text}

theorem startsWith_append (starts : text.startsWith part = true) (back : Text) :
    startsWith (text ++ back) part = true := by
  fun_induction startsWith text part with
  | case1 text => simp [startsWith]
  | case2 c rest => simp at starts
  | case3 c rest d more ih =>
    simp only [Bool.and_eq_true] at starts
    simp [startsWith, starts.1, ih starts.2]

theorem occursIn_append_right (front : Text) (occurs : part.occursIn text = true) :
    part.occursIn (front ++ text) = true := by
  induction front with
  | nil => exact occurs
  | cons c rest ih => simp [occursIn, ih]

theorem occursIn_append_left (occurs : part.occursIn text = true) (back : Text) :
    part.occursIn (text ++ back) = true := by
  induction text with
  | nil =>
    obtain rfl : part = [] := by simpa [occursIn] using occurs
    cases back <;> simp [occursIn, startsWith]
  | cons c rest ih =>
    simp only [occursIn, Bool.or_eq_true, List.cons_append] at occurs ⊢
    rcases occurs with here | later
    · exact .inl (startsWith_append here back)
    · exact .inr (ih later)

theorem occursIn_toList {front : String} (occurs : part.occursIn front.toList = true)
    (back : String) : part.occursIn (front ++ back).toList = true := by
  rw [String.toList_append]
  exact occursIn_append_left occurs _

end Text

/-- The functions that lowered code calls are named after the keyword. -/
theorem Prelude.occursIn_render {usage : Usage} (used : usage.any = true) :
    Text.occursIn "async".toList (render usage) = true := by
  -- the name is in the first of the texts that a definition is made of
  have runner : Text.occursIn "async".toList coroutine.toList = true := by
    unfold coroutine
    exact Text.occursIn_toList (Text.occursIn_toList (Text.occursIn_toList (by decide) _) _) _
  have iterator : Text.occursIn "async".toList asyncIterator.toList = true := by
    unfold asyncIterator
    exact Text.occursIn_toList (Text.occursIn_toList (by decide) _) _
  unfold render
  cases functions : usage.asyncFunction || usage.asyncGenerator with
  | true =>
    rw [List.append_assoc]
    exact Text.occursIn_append_left (Text.occursIn_append_right ['\n'] runner) _
  | false =>
    have loops : usage.forAwait = true := by simpa [Usage.any, functions] using used
    rw [loops]
    exact Text.occursIn_append_right _ (Text.occursIn_append_right ['\n'] iterator)

/-- A result that defines a function is not passed through. -/
theorem Transform.skips_of_usage {parse : Text → Options → Except Failure Parsed} {source : Text}
    {transformed : Transformed} (done : transformWith parse source {} = .ok transformed)
    (used : transformed.usage.any = true) : skips transformed.code {} = false := by
  rcases cases_of_ok done with ⟨-, rfl⟩ | ⟨parsed, -, -, lowered⟩
  · exact absurd used Bool.false_ne_true
  · obtain ⟨final, applied, rfl⟩ := exists_final lowered
    have code : (finish source {} final).code =
        (finish source { includeHelper := false } final).code ++ Prelude.render final.usage :=
      congrArg Transformed.code (finish_includeHelper source {} final (usage_of_unedited applied))
    have occurs : Text.occursIn "async".toList (Prelude.render final.usage) = true :=
      Prelude.occursIn_render used
    rw [skips, code, Text.occursIn_append_right _ occurs]
    rfl

/-- Where a transform succeeds, it reports no edit exactly if its source has no word `async` or is
read into a tree in which nothing is to be lowered, and then it is its own second run. A result
that defines a function is always read by a second run. The second run gives it back, and reports
no edit, exactly if it is read into a tree in which nothing is to be lowered. -/
theorem second_run_unedited_iff (parse : Text → Options → Except Failure Parsed) (source : Text)
    (first : Transformed) (done : transformWith parse source {} = .ok first) :
    (first.edited = false ↔ Transform.skips source {} = true ∨
        ∃ parsed, parse source {} = .ok parsed ∧ Settled parsed.program) ∧
    (first.edited = false → first.code = source ∧ transformWith parse first.code {} = .ok first) ∧
    (first.usage.any = true → Transform.skips first.code {} = false) ∧
    ((∃ second, transformWith parse first.code {} = .ok second ∧ second.code = first.code ∧
        second.edited = false) ↔
      Transform.skips first.code {} = true ∨
        ∃ parsed, parse first.code {} = .ok parsed ∧ Settled parsed.program) := by
  have kept (unedited : first.edited = false) : first = .unchanged source {} :=
    Transform.eq_unchanged_of_unedited rfl done unedited
  refine ⟨?_, fun unedited => ?_, Transform.skips_of_usage done, ?_⟩
  · rw [← Transform.transformWith_eq_unchanged_iff parse rfl]
    constructor
    · intro unedited
      rw [done, kept unedited]
    · intro same
      obtain rfl := Except.ok.inj (done.symm.trans same)
      rfl
  · have code : first.code = source := by rw [kept unedited]; rfl
    exact ⟨code, code ▸ done⟩
  · rw [← Transform.transformWith_eq_unchanged_iff parse rfl]
    constructor
    · rintro ⟨second, again, -, unedited⟩
      rw [again, Transform.eq_unchanged_of_unedited rfl again unedited]
    · intro same
      exact ⟨_, same, rfl, rfl⟩

/-- The program `a`, and on the next line `async(x)=>x`. -/
def arrowBelow : Parsed :=
  let source := "a\nasync(x)=>x".toList
  let arrow := .mk { kind := .arrowFunctionExpression, span := ⟨2, 13⟩, flags := { isAsync := true } }
    [.many .params [], .one .body (.plain .identifier ⟨12, 13⟩ [])]
  { program := .plain .program ⟨0, 13⟩ [.many .children
      [.plain .statement ⟨0, 1⟩ [.many .children [.plain .identifier ⟨0, 1⟩ []]],
        .plain .statement ⟨2, 13⟩ [.many .children [arrow]]]]
    tokens := ⟨source, #[⟨0, 1⟩, ⟨2, 7⟩, ⟨7, 8⟩, ⟨8, 9⟩, ⟨9, 10⟩, ⟨10, 12⟩, ⟨12, 13⟩]⟩
    lines := .ofText source }

/-- How the program and its lowered form are read: where the keyword was removed the first
statement goes on, and the arrow behind its arguments is wrong. -/
def readArrowBelow (text : Text) (_ : Options) : Except Failure Parsed :=
  if text = arrowBelow.tokens.source then .ok arrowBelow else .error (.invalidSource 2 4)

/-- What lowering the program gives. -/
def arrowBelowRun : Evaluated (transformWith readArrowBelow arrowBelow.tokens.source {})
    (fun first => (first.code.take 39, first.usage))
    ("a\n(x)=>__async(function*()\x7breturn x\x7d())".toList, { asyncFunction := true }) :=
  .ofView (by decide +kernel)

/-- The lowered form of an arrow below a statement without a semicolon is not read, so a second run
does not give it back. -/
theorem second_run_unedited_iff_call :
    ∃ first, transformWith readArrowBelow arrowBelow.tokens.source {} = .ok first ∧
      first.code.take 39 = "a\n(x)=>__async(function*()\x7breturn x\x7d())".toList ∧
      transformWith readArrowBelow first.code {} = .error (.invalidSource 2 4) ∧
      ¬ ∃ second, transformWith readArrowBelow first.code {} = .ok second ∧
        second.code = first.code ∧ second.edited = false := by
  obtain ⟨first, done, evaluated⟩ := arrowBelowRun
  obtain ⟨code, usage⟩ := Prod.mk.inj evaluated
  obtain ⟨-, -, isRead, again⟩ := second_run_unedited_iff readArrowBelow _ first done
  have skipped : Transform.skips first.code {} = false := isRead (by rw [usage]; rfl)
  have differs : first.code ≠ arrowBelow.tokens.source := by
    intro same
    rw [same] at code
    exact absurd code (by decide)
  have rejected : readArrowBelow first.code {} = .error (.invalidSource 2 4) := if_neg differs
  refine ⟨first, done, code, ?_, ?_⟩
  · rw [transformWith, if_neg (by simp [skipped]), rejected]
    rfl
  · rw [again, skipped, rejected]
    simp

end Unawait
