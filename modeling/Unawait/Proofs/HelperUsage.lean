import Mathlib
import Unawait.Transform
import Unawait.Proofs.MarkPlacement
import Unawait.Proofs.RuleLimits

/-!
# Which helpers a transform puts behind its code

The flags of a result say what was lowered, and the tree says what has to be. A helper
is noted deep inside a rule and only after the rule has found all its particles, but a
walk that succeeds has found them all. So each flag is set exactly if the tree has a node
that calls for it: an async function with a body, or a loop over an async iterable that
is evaluated in async code.

The definitions of the helpers come after everything else. They are no more than a text
behind the code, whatever was inserted or moved to the end of the source, and where
nothing was edited there is nothing to define.
-/

namespace Unawait.Edit

/-! ### Text behind everything else -/

theorem Buffer.pieces_append (buffer : Buffer) (text : Text) :
    ∃ front, buffer.pieces = front ++ [.text buffer.outro] ∧
      (buffer.append text).pieces = front ++ [.text (buffer.outro ++ text)] :=
  ⟨_, rfl, rfl⟩

theorem Buffer.code_append (buffer : Buffer) (text : Text) :
    (buffer.append text).code = buffer.code ++ text := by
  obtain ⟨front, same, appended⟩ := buffer.pieces_append text
  simp [Buffer.code, same, appended, Piece.code]

theorem Buffer.mappings_append (buffer : Buffer) (text : Text) :
    (buffer.append text).mappings = buffer.mappings := by
  obtain ⟨front, same, appended⟩ := buffer.pieces_append text
  simp [Buffer.mappings, same, appended, Piece.mappings]

end Unawait.Edit

namespace Unawait.Lowering

/-! ### What a visit notes -/

section Visit

variable {reading : Reading} {sourceMap : Bool}

theorem failure_partsEffect {parts : List ((Field × Node) × Place)}
    (done : (partsEffect reading sourceMap parts).failure = none) :
    ∀ placed ∈ parts, (visitEffect reading sourceMap placed.1.2 placed.2).failure = none := by
  induction parts with
  | nil => simp
  | cons placed rest ih =>
    obtain ⟨first, later⟩ := (Effect.failure_andThen _ _).mp done
    intro other member
    rcases List.mem_cons.mp member with rfl | inRest
    · exact first
    · exact ih later other inRest

theorem edits_partsEffect {parts : List ((Field × Node) × Place)}
    (done : (partsEffect reading sourceMap parts).failure = none) :
    (partsEffect reading sourceMap parts).edits =
      parts.flatMap fun placed => (visitEffect reading sourceMap placed.1.2 placed.2).edits := by
  induction parts with
  | nil => rfl
  | cons placed rest ih =>
    rw [partsEffect_cons] at done ⊢
    obtain ⟨first, later⟩ := (Effect.failure_andThen _ _).mp done
    rw [Effect.edits_andThen _ first, ih later, List.flatMap_cons]

theorem calls_partsEffect {helper : Helper} {parts : List ((Field × Node) × Place)}
    (done : (partsEffect reading sourceMap parts).failure = none) :
    (partsEffect reading sourceMap parts).used.calls helper = true ↔
      ∃ placed ∈ parts,
        (visitEffect reading sourceMap placed.1.2 placed.2).used.calls helper = true := by
  induction parts with
  | nil => simp
  | cons placed rest ih =>
    rw [partsEffect_cons] at done ⊢
    obtain ⟨first, later⟩ := (Effect.failure_andThen _ _).mp done
    rw [Effect.used_andThen _ first, Usage.calls_merge, Bool.or_eq_true, ih later]
    simp

/-- A visit notes a helper if a node in the subtree calls for it. -/
theorem calls_visitEffect {helper : Helper} {node : Node} {place : Place}
    (done : (visitEffect reading sourceMap node place).failure = none) :
    (visitEffect reading sourceMap node place).used.calls helper = true ↔
      ∃ trail inner, Leads node trail inner ∧
        (nodeUsed (scopeAlong place.scope trail) inner).calls helper = true := by
  induction node using Node.parts_induction generalizing place with
  | _ node ih =>
    rw [visitEffect_eq] at done ⊢
    obtain ⟨marked, visited, lowered⟩ := by simpa only [Effect.failure_andThen] using done
    have own : (nodeEffect reading node place).scopeless.used = nodeUsed place.scope node :=
      notes_nodeEffect.used lowered
    rw [Effect.used_andThen _ marked, Effect.used_andThen _ visited, Usage.calls_merge,
      Usage.calls_merge, own, Bool.or_eq_true, Bool.or_eq_true, calls_partsEffect visited]
    have each := failure_partsEffect visited
    constructor
    · rintro (impossible | ⟨placed, member, noted⟩ | here)
      · simp [Effect.ofEdits] at impossible
      · have part := mem_parts_of_places member
        obtain ⟨trail, inner, leads, noted⟩ := (ih placed.1 part (each placed member)).mp noted
        refine ⟨trail ++ [(node, placed.1.1)], inner,
          leads_iff.mpr (.inr ⟨placed.1, part, trail, leads, rfl⟩), ?_⟩
        rwa [scopeAlong_append, scopeAlong_cons, scopeAlong_nil, ← (mem_placesFrom member).1]
      · exact ⟨[], node, .root, here⟩
    · rintro ⟨trail, inner, leads, noted⟩
      obtain ⟨rfl, rfl⟩ | ⟨part, held, trail, deeper, rfl⟩ := leads_iff.mp leads
      · exact .inr (.inr noted)
      · rw [← placesFrom_fst node place.scope place.number node.parts] at held
        obtain ⟨placed, member, rfl⟩ := List.mem_map.mp held
        refine .inr (.inl ⟨placed, member, ?_⟩)
        rw [ih placed.1 (mem_parts_of_places member) (each placed member)]
        rw [scopeAlong_append, scopeAlong_cons, scopeAlong_nil, ← (mem_placesFrom member).1] at noted
        exact ⟨trail, inner, deeper, noted⟩

/-- A visit that notes a helper edits the text. -/
theorem edits_of_calls {helper : Helper} {node : Node} {place : Place}
    (done : (visitEffect reading sourceMap node place).failure = none)
    (noted : (visitEffect reading sourceMap node place).used.calls helper = true) :
    (visitEffect reading sourceMap node place).edits.any (fun edit => !edit.isMark) = true := by
  induction node using Node.parts_induction generalizing place with
  | _ node ih =>
    rw [visitEffect_eq] at done noted ⊢
    obtain ⟨marked, visited, lowered⟩ := by simpa only [Effect.failure_andThen] using done
    rw [Effect.used_andThen _ marked, Effect.used_andThen _ visited, Usage.calls_merge,
      Usage.calls_merge, Bool.or_eq_true, Bool.or_eq_true, calls_partsEffect visited] at noted
    rw [Effect.edits_andThen _ marked, Effect.edits_andThen _ visited, edits_partsEffect visited,
      List.any_append, List.any_append, List.any_flatMap, Bool.or_eq_true, Bool.or_eq_true]
    rcases noted with impossible | ⟨placed, member, noted⟩ | here
    · simp [Effect.ofEdits] at impossible
    · exact .inr (.inl (List.any_eq_true.mpr ⟨placed, member, ih placed.1
        (mem_parts_of_places member) (failure_partsEffect visited placed member) noted⟩))
    · have notes : (nodeEffect reading node place).Notes (nodeUsed place.scope node) :=
        notes_nodeEffect
      have called : (nodeUsed place.scope node).calls helper = true := by
        rwa [← notes.used lowered]
      have some : (nodeEffect reading node place).edits ≠ [] := by
        apply notes.edits lowered
        rintro unused
        simp [unused] at called
      obtain ⟨edit, member⟩ := List.exists_mem_of_ne_nil _ some
      exact .inr (.inr (List.any_eq_true.mpr ⟨edit, member, by simp [notes.unmarked edit member]⟩))

end Visit

/-- Whether the innermost scope that slots lead into is async. -/
def inAsyncScope (trail : Trail) : Bool := (home trail).head?.any fun slot => slot.1.flags.isAsync

theorem isAsync_scopeAlong (trail : Trail) :
    (scopeAlong {} trail).isAsync = inAsyncScope trail := by
  rw [scopeAlong_eq, inAsyncScope]
  cases (home trail).head? <;> rfl

end Unawait.Lowering

namespace Unawait

open Lowering (Leads)

theorem Usage.empty_merge (usage : Usage) : ({} : Usage).merge usage = usage := by
  simp [Usage.merge]

/-! ### The result of a transform -/

namespace Transform

/-- Lowering a source lets the effect of its tree take place on a fresh state. -/
theorem lower_eq (source : Text) (options : Options) (parsed : Parsed) :
    lower source options parsed =
      (Lowering.visitEffect ⟨source, parsed.tokens, parsed.lines⟩ options.sourceMap
        parsed.program {}).apply
          (.ofSource source parsed.tokens parsed.lines options.sourceMap) >>=
        fun final => .ok (finish source options final) := by
  have walk := Lowering.result_walk parsed.program
    (.ofSource source parsed.tokens parsed.lines options.sourceMap) rfl rfl
  change _ = (Lowering.visitEffect ⟨source, parsed.tokens, parsed.lines⟩ options.sourceMap
    parsed.program {}).apply _ >>= _ at walk
  rw [lower]
  -- a finished walk and the effect end in the same state, apart from the records
  cases walked : Walk.walk Lowering.visitor parsed.program
      (.ofSource source parsed.tokens parsed.lines options.sourceMap) with
  | ok value final =>
    rw [Lowering.result_of_ok walked] at walk
    cases applied : (Lowering.visitEffect ⟨source, parsed.tokens, parsed.lines⟩
        options.sourceMap parsed.program {}).apply
          (.ofSource source parsed.tokens parsed.lines options.sourceMap) with
    | error failure => simp [applied] at walk
    | ok next =>
      rw [applied, Lowering.ok_bind] at walk
      obtain rfl := Except.ok.inj walk
      rfl
  | error failure stopped =>
    rw [Lowering.result_of_error walked] at walk
    cases applied : (Lowering.visitEffect ⟨source, parsed.tokens, parsed.lines⟩
        options.sourceMap parsed.program {}).apply
          (.ofSource source parsed.tokens parsed.lines options.sourceMap) with
    | error other =>
      rw [applied, Lowering.error_bind] at walk
      obtain rfl := Except.error.inj walk
      rfl
    | ok next => simp [applied] at walk

/-- A transform that reads its source lowers what it has read. -/
theorem transformWith_eq_lower {parse : Text → Options → Except Failure Parsed} {source : Text}
    {options : Options} {parsed : Parsed} (isRead : skips source options = false)
    (parses : parse source options = .ok parsed) :
    transformWith parse source options = lower source options parsed := by
  rw [transformWith, if_neg (by simp [isRead]), parses]
  rfl

/-- A transform that succeeds has passed its source through or lowered what it has read. -/
theorem cases_of_ok {parse : Text → Options → Except Failure Parsed} {source : Text}
    {options : Options} {transformed : Transformed}
    (done : transformWith parse source options = .ok transformed) :
    (skips source options = true ∧ transformed = .unchanged source options) ∨
      ∃ parsed, skips source options = false ∧ parse source options = .ok parsed ∧
        lower source options parsed = .ok transformed := by
  cases skipped : skips source options with
  | true =>
    rw [transformWith, if_pos skipped] at done
    exact .inl ⟨rfl, (Except.ok.inj done).symm⟩
  | false =>
    cases parses : parse source options with
    | error failure =>
      rw [transformWith, if_neg (by simp [skipped]), parses] at done
      simp at done
    | ok parsed =>
      rw [transformWith_eq_lower skipped parses] at done
      exact .inr ⟨parsed, rfl, rfl, done⟩

/-- A transform that succeeds has let the effect of the tree take place. -/
theorem exists_final {source : Text} {options : Options} {parsed : Parsed}
    {transformed : Transformed} (done : lower source options parsed = .ok transformed) :
    ∃ final : Lowering.State,
      (Lowering.visitEffect ⟨source, parsed.tokens, parsed.lines⟩ options.sourceMap
        parsed.program {}).apply
          (.ofSource source parsed.tokens parsed.lines options.sourceMap) = .ok final ∧
      transformed = finish source options final := by
  rw [lower_eq] at done
  cases applied : (Lowering.visitEffect ⟨source, parsed.tokens, parsed.lines⟩ options.sourceMap
      parsed.program {}).apply
        (.ofSource source parsed.tokens parsed.lines options.sourceMap) with
  | error failure => simp [applied] at done
  | ok final =>
    rw [applied, Lowering.ok_bind] at done
    exact ⟨final, rfl, (Except.ok.inj done).symm⟩

section Final

variable {source : Text} {options : Options} {parsed : Parsed} {final : Lowering.State}

theorem usage_of_final (applied : (Lowering.visitEffect ⟨source, parsed.tokens, parsed.lines⟩
      options.sourceMap parsed.program {}).apply
        (.ofSource source parsed.tokens parsed.lines options.sourceMap) = .ok final) :
    final.usage = (Lowering.visitEffect ⟨source, parsed.tokens, parsed.lines⟩
      options.sourceMap parsed.program {}).used := by
  obtain ⟨-, -, settled⟩ := Lowering.Effect.apply_eq_ok applied
  rw [settled]
  exact Usage.empty_merge _

/-- A walk that leaves the text alone calls for no helper. -/
theorem usage_of_unedited (applied : (Lowering.visitEffect ⟨source, parsed.tokens, parsed.lines⟩
      options.sourceMap parsed.program {}).apply
        (.ofSource source parsed.tokens parsed.lines options.sourceMap) = .ok final)
    (plain : final.buffer.edited = false) : final.usage = {} := by
  obtain ⟨succeeded, performed, -⟩ := Lowering.Effect.apply_eq_ok applied
  apply Usage.eq_empty
  intro helper
  by_contra called
  rw [usage_of_final applied, Bool.not_eq_false] at called
  rw [Edit.edited_perform performed, Lowering.edits_of_calls succeeded called] at plain
  simp at plain

end Final

/-- Putting definitions behind the code changes nothing but the code. -/
theorem finish_includeHelper (source : Text) (options : Options) (final : Lowering.State)
    (unused : final.buffer.edited = false → final.usage = {}) :
    finish source { options with includeHelper := true } final =
      { finish source { options with includeHelper := false } final with
        code := (finish source { options with includeHelper := false } final).code
          ++ Prelude.render final.usage } := by
  cases edited : final.buffer.edited with
  | true =>
    simp [finish, edited, Edit.Buffer.code_append, Edit.Buffer.mappings_append]
  | false =>
    have nothing : Prelude.render final.usage = [] := by rw [unused edited]; rfl
    simp [finish, edited, nothing]

end Transform

/-- Where a source is read and its transform succeeds, the flags of the result say which
constructs the tree holds: async functions with a body, async generators with a body, and
loops over async iterables whose scope is async. The definitions of the helpers come behind
the code, and that is all that asking for them changes. -/
theorem helpers_follow_tree (parse : Text → Options → Except Failure Parsed) (source : Text)
    (options : Options) (parsed : Parsed) (transformed : Transformed)
    (isRead : Transform.skips source options = false)
    (parses : ∀ includeHelper, parse source { options with includeHelper } = .ok parsed)
    (done : transformWith parse source options = .ok transformed) :
    (transformed.usage.asyncFunction = true ↔
        ∃ node ∈ parsed.program.nodes, node.isLowered false = true) ∧
    (transformed.usage.asyncGenerator = true ↔
        ∃ node ∈ parsed.program.nodes, node.isLowered true = true) ∧
    (transformed.usage.forAwait = true ↔
        ∃ trail node, Leads parsed.program trail node ∧ Lowering.inAsyncScope trail = true ∧
          node.is .forOfStatement = true ∧ node.flags.isAwait = true ∧
          (node.child? .left).isSome = true ∧ (node.child? .right).isSome = true ∧
          (node.child? .body).isSome = true) ∧
    ∃ bare, transformWith parse source { options with includeHelper := false } = .ok bare ∧
      transformWith parse source { options with includeHelper := true } =
        .ok { bare with code := bare.code ++ Prelude.render bare.usage } ∧
      transformed.edited = bare.edited ∧ transformed.usage = bare.usage ∧
      transformed.mappings = bare.mappings ∧
      (bare.edited = false → Prelude.render bare.usage = []) := by
  rw [Transform.transformWith_eq_lower isRead (parses options.includeHelper)] at done
  obtain ⟨final, applied, rfl⟩ := Transform.exists_final done
  have called (helper : Helper) : final.usage.calls helper = true ↔ ∃ trail node,
      Leads parsed.program trail node ∧
        (Lowering.nodeUsed (Lowering.scopeAlong {} trail) node).calls helper = true := by
    rw [Transform.usage_of_final applied]
    exact Lowering.calls_visitEffect (Lowering.Effect.apply_eq_ok applied).1
  have unused := Transform.usage_of_unedited applied
  have nodes (lowered : Node → Bool) : (∃ trail node, Leads parsed.program trail node ∧
      lowered node = true) ↔ ∃ node ∈ parsed.program.nodes, lowered node = true := by
    simp only [Lowering.mem_nodes_iff_leads]
    exact ⟨fun ⟨trail, node, leads, holds⟩ => ⟨node, ⟨trail, leads⟩, holds⟩,
      fun ⟨node, ⟨trail, leads⟩, holds⟩ => ⟨trail, node, leads, holds⟩⟩
  have finished (includeHelper : Bool) : transformWith parse source { options with includeHelper } =
      .ok (Transform.finish source { options with includeHelper } final) := by
    have alsoRead : Transform.skips source { options with includeHelper } = false := isRead
    rw [Transform.transformWith_eq_lower alsoRead (parses includeHelper), Transform.lower_eq]
    dsimp only
    rw [applied]
    rfl
  have appended := Transform.finish_includeHelper source options final unused
  refine ⟨(called .coroutine).trans (nodes _), (called .asyncGenerator).trans (nodes _), ?_,
    Transform.finish source { options with includeHelper := false } final, finished false,
    (finished true).trans (congrArg Except.ok appended), rfl, rfl, ?_, ?_⟩
  · refine (called .asyncIterator).trans ?_
    simp only [Usage.calls, Lowering.nodeUsed, Lowering.lowersLoop, Lowering.isAsync_scopeAlong,
      Bool.and_eq_true]
    constructor
    · rintro ⟨trail, node, leads, ⟨⟨⟨⟨loop, await⟩, async⟩, left⟩, right⟩, body⟩
      exact ⟨trail, node, leads, async, loop, await, left, right, body⟩
    · rintro ⟨trail, node, leads, async, loop, await, left, right, body⟩
      exact ⟨trail, node, leads, ⟨⟨⟨⟨loop, await⟩, async⟩, left⟩, right⟩, body⟩
  · cases asked : options.includeHelper with
    | false => simp [Transform.finish, asked]
    | true =>
      have kept := congrArg Transformed.mappings appended
      simpa [Transform.finish, asked] using kept
  · intro plain
    change Prelude.render final.usage = []
    rw [unused plain]
    rfl

/-- The program `async x=>await x`. -/
def awaitingArrow : Parsed :=
  let source := "async x=>await x".toList
  let body := .plain .awaitExpression ⟨9, 16⟩ [.one .argument (.plain .identifier ⟨15, 16⟩ [])]
  let arrow := .mk { kind := .arrowFunctionExpression, span := ⟨0, 16⟩, flags := { isAsync := true } }
    [.many .params [.plain .identifier ⟨6, 7⟩ []], .one .body body]
  { program := .plain .program ⟨0, 16⟩ [.many .children [arrow]]
    tokens := ⟨source, #[⟨0, 5⟩, ⟨6, 7⟩, ⟨7, 9⟩, ⟨9, 14⟩, ⟨15, 16⟩]⟩
    lines := .ofText source }

/-- What lowering this program gives. -/
def awaitingArrowRun : Evaluated (transformWith (fun _ _ => .ok awaitingArrow)
    awaitingArrow.tokens.source { includeHelper := false }) (fun bare => (bare.usage, bare.code))
    ({ asyncFunction := true }, "x=>__async(function*()\x7breturn yield x\x7d())".toList) :=
  .ofView (by decide +kernel)

/-- The arrow has a body, so its helper is defined behind the text that was inserted at the end
of the source. -/
theorem helpers_follow_tree_arrow :
    let source := awaitingArrow.tokens.source
    ∃ bare, transformWith (fun _ _ => .ok awaitingArrow) source { includeHelper := false } = .ok bare ∧
      bare.usage = { asyncFunction := true } ∧
      bare.code = "x=>__async(function*()\x7breturn yield x\x7d())".toList ∧
      (bare.usage.asyncFunction = true ↔
        ∃ node ∈ awaitingArrow.program.nodes, node.isLowered false = true) ∧
      transformWith (fun _ _ => .ok awaitingArrow) source {} =
        .ok { bare with code := bare.code ++ Prelude.render bare.usage } := by
  intro source
  obtain ⟨bare, done, evaluated⟩ := awaitingArrowRun
  obtain ⟨usage, code⟩ := Prod.mk.inj evaluated
  obtain ⟨functions, -, -, again, plain, full, -⟩ := helpers_follow_tree _ source
    { includeHelper := false } awaitingArrow bare (by decide +kernel) (fun _ => rfl) done
  obtain rfl : bare = again := Except.ok.inj (done.symm.trans plain)
  exact ⟨bare, done, usage, code, functions, full⟩

end Unawait
