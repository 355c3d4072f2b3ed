import Mathlib
import Unawait.Proofs.Captures

/-!
# Where lowered code begins with a parenthesis

A statement whose text begins with a parenthesis is read as a call of what stands before
it, unless a semicolon keeps them apart. Here is said exactly where the lowered code of a
tree has a parenthesis that was not in the source at the beginning of a replacement or of
an inserted text: at an `await` that is an operand, at a logical assignment to a member of
`super`, at a postfix update of one, at a member that `new` is applied to, and at the target
of a loop that is no declaration. The rules look at the place of a node in its parent and
not at what stands before the statement, so a statement that begins with one of these
begins with a parenthesis, whether or not a semicolon stands before it.
-/

namespace Unawait.Lowering

open Edit (Operation)

/-! ### Calls that begin with a parenthesis -/

/-- The offsets of the calls whose texts begin with a parenthesis, in order. -/
def openings (edits : List Operation) : List Nat :=
  edits.filterMap fun edit => if edit.text.head? = some '(' then edit.offsets.head? else none

@[simp] theorem openings_nil : openings [] = [] := rfl

theorem openings_append (first second : List Operation) :
    openings (first ++ second) = openings first ++ openings second := by
  simp [openings]

theorem openings_cons (edit : Operation) (rest : List Operation) :
    openings (edit :: rest) =
      (if edit.text.head? = some '(' then edit.offsets.head?.toList else []) ++ openings rest := by
  rw [← List.singleton_append, openings_append]
  congr 1
  rw [openings, List.filterMap_cons]
  split <;> split <;> simp_all

theorem openings_andThen {first second : Effect} (done : first.failure = none) :
    openings (first.andThen second).edits = openings first.edits ++ openings second.edits := by
  rw [Effect.edits_andThen _ done, openings_append]

/-- Whether an assignment operator assigns only if it has to. -/
def isLogical (operator : Text) : Bool :=
  ["||=", "&&=", "??="].any fun each => each.toList == operator

/-- Whether the rule for a node, in a scope and a place, puts a parenthesis first. -/
def parenthesizes (scope : Scope) (node : Node) (parent : Walk.Parent) : Bool :=
  match node.kind with
  | .awaitExpression => scope.isAsync && (node.child? .argument).isSome && needsParentheses parent
  | .superMember => scope.isAsync && !scope.inParams && isConstructed parent
  | .assignmentExpression =>
    (superTarget? { current := scope } node .left).isSome && (node.child? .right).isSome
      && isLogical (node.head.operator.getD ['='])
  | .updateExpression =>
    (superTarget? { current := scope } node .argument).isSome && !node.flags.prefixed
  | .forOfStatement =>
    lowersLoop scope node && (node.child? .left).any fun left => !left.is .variableDeclaration
  | _ => false

/-- Where that parenthesis stands. -/
def parenthesisOffset (node : Node) : Nat :=
  match node.kind with
  | .assignmentExpression | .forOfStatement => ((node.child? .left).map Node.start).getD node.start
  | _ => node.start

/-! ### The rules -/

section Rules

variable {reading : Reading} {scope : Scope} {number : Nat} {node : Node} {parent : Walk.Parent}

theorem head_awaitTexts (marker parentheses newline : Bool) :
    (awaitTexts marker parentheses newline).1.head? = some (if parentheses then '(' else 'y') ∧
      (awaitTexts marker parentheses newline).2.head? ≠ some '(' := by
  cases marker <;> cases parentheses <;> cases newline <;> decide

theorem openings_awaitEffect (done : (awaitEffect reading scope node parent).failure = none) :
    openings (awaitEffect reading scope node parent).edits =
      if scope.isAsync && (node.child? .argument).isSome && needsParentheses parent then
        [node.start] else [] := by
  unfold awaitEffect at done ⊢
  cases found : node.child? .argument with
  | none => simp
  | some argument =>
    by_cases async : scope.isAsync
    case neg => simp [async]
    simp only [found, async, if_true] at done ⊢
    split
    case isFalse other =>
      rw [if_neg other] at done
      simp [Effect.failing] at done
    obtain ⟨first, last⟩ := head_awaitTexts scope.isAsyncGenerator (needsParentheses parent)
      (reading.lines.crosses node.start argument.start)
    have closed (edits : List Operation) (rest : edits = if (awaitTexts scope.isAsyncGenerator
        (needsParentheses parent) (reading.lines.crosses node.start argument.start)).2 = [] then []
        else [.insertBefore node.stop (awaitTexts scope.isAsyncGenerator (needsParentheses parent)
          (reading.lines.crosses node.start argument.start)).2]) : openings edits = [] := by
      rw [rest]
      split
      · rfl
      · simp [openings_cons, Operation.text, last]
    rw [Effect.ofEdits, openings_cons, closed _ rfl]
    cases needed : needsParentheses parent <;> simp [needed, Operation.text, Operation.offsets] at first ⊢ <;>
      simp [first]

theorem openings_readEffect : openings (readEffect node).edits = [] := by
  unfold readEffect
  split
  · split <;>
      simp [openings_cons, Effect.ofEdits, Effect.failing, Operation.text]
  · simp [openings_cons, Effect.ofEdits, Operation.text]

theorem openings_bindEffect {tokens : Tokens} {callee call : Node} :
    openings (bindEffect tokens callee call).edits = [] := by
  unfold bindEffect
  dsimp only
  rw [openings_andThen rfl]
  have dropped : openings (Effect.ofEdits ((call.child? .typeArguments).toList.map
      fun node => Operation.remove node.start node.stop)).edits = [] := by
    cases call.child? .typeArguments <;> simp [openings_cons, Effect.ofEdits, Operation.text]
  rw [dropped]
  split
  · rfl
  · rw [openings_andThen rfl]
    cases call.flags.optional <;> cases (call.children .arguments).isEmpty <;>
      simp [openings_cons, Effect.ofEdits, Effect.taking, Operation.text]

theorem isWritten_of_constructed (constructed : isConstructed parent = true) :
    isWritten parent = false := by
  unfold isConstructed at constructed
  split at constructed
  · rfl
  · simp at constructed

theorem calledBy_of_constructed (constructed : isConstructed parent = true) :
    calledBy? parent = none := by
  unfold isConstructed at constructed
  split at constructed
  next owner =>
    have other : owner.is .callExpression = false := by
      simp only [Node.is, beq_iff_eq] at constructed
      simp [Node.is, constructed]
    simp [calledBy?, other]
  next => simp at constructed

theorem openings_superMemberEffect
    (done : (superMemberEffect reading scope node parent).failure = none) :
    openings (superMemberEffect reading scope node parent).edits =
      if scope.isAsync && !scope.inParams && isConstructed parent then [node.start] else [] := by
  unfold superMemberEffect at done ⊢
  split
  case isFalse other =>
    have outside : (scope.isAsync && !scope.inParams && isConstructed parent) = false := by
      cases constructed : isConstructed parent with
      | false => simp
      | true => simpa [isWritten_of_constructed constructed] using other
    simp [outside]
  case isTrue applies =>
    rw [if_pos applies] at done
    obtain ⟨read, -, -⟩ := by simpa only [Effect.failure_andThen] using done
    rw [openings_andThen read, openings_readEffect, openings_andThen rfl]
    obtain ⟨replaces, -⟩ := Bool.and_eq_true _ _ ▸ applies
    rw [replaces, Bool.true_and, finishEffect]
    cases constructed : isConstructed parent with
    | true =>
      simp [calledBy_of_constructed constructed, openings_cons, Effect.ofEdits, Effect.taking,
        Operation.text, Operation.offsets]
    | false =>
      cases calledBy? parent with
      | none => simp [Effect.taking]
      | some call => simp [Effect.taking, openings_bindEffect]

theorem openings_assignmentEffect (done : (assignmentEffect reading scope node).failure = none) :
    openings (assignmentEffect reading scope node).edits =
      if (superTarget? { current := scope } node .left).isSome && (node.child? .right).isSome
        && isLogical (node.head.operator.getD ['=']) then
        [((node.child? .left).map Node.start).getD node.start] else [] := by
  unfold assignmentEffect at done ⊢
  cases target : superTarget? { current := scope } node .left with
  | none => simp
  | some left =>
    cases value : node.child? .right with
    | none => simp
    | some right =>
      have same : node.child? .left = some left := by
        unfold superTarget? at target
        split at target
        · exact (Option.filter_eq_some_iff.mp target).1
        · simp at target
      simp only [target, value, same, Option.isSome_some, Bool.true_and, Option.map_some,
        Option.getD_some] at done ⊢
      by_cases plain : node.head.operator.getD ['='] = ['=']
      · rw [if_pos plain] at done ⊢
        have logical : isLogical ['='] = false := by decide
        rw [plain, logical]
        unfold plainAssignmentEffect at done ⊢
        obtain ⟨opened, -⟩ := by simpa only [Effect.failure_andThen] using done
        rw [openings_andThen opened, openings_andThen rfl]
        cases left.flags.computed <;> cases left.child? .property <;>
          simp [openings_cons, Effect.ofEdits, Effect.failing, Effect.taking, Operation.text]
      · rw [if_neg plain] at done ⊢
        unfold compoundAssignmentEffect at done ⊢
        split
        case isTrue computed => simp [computed, Effect.failing] at done
        rw [openings_andThen rfl]
        cases logical : isLogical (node.head.operator.getD ['=']) <;>
          simp [isLogical] at logical <;>
          simp [openings_cons, compoundHead, logical, Effect.ofEdits, Effect.taking, Operation.text,
            Operation.offsets]

theorem openings_updateEffect (done : (updateEffect reading scope node).failure = none) :
    openings (updateEffect reading scope node).edits =
      if (superTarget? { current := scope } node .argument).isSome && !node.flags.prefixed then
        [node.start] else [] := by
  unfold updateEffect at done ⊢
  revert done
  cases superTarget? { current := scope } node .argument with
  | none => simp
  | some target =>
    dsimp only
    split
    case isTrue => simp [Effect.failing]
    intro _
    rw [openings_andThen rfl]
    cases before : node.flags.prefixed <;>
      simp [openings_cons, updateText, before, Effect.ofEdits, Effect.taking, Operation.text,
        Operation.offsets]

theorem head_numbered (number : Nat) (template : String) {first : Char} {rest : Text}
    (written : template.toList = first :: rest) (plain : first ≠ '#') :
    (numbered number template).head? = some first := by
  simp [numbered, written, plain]

theorem head_loopHead (number : Nat) : (loopHead number).head? = some 'v' :=
  head_numbered number _ rfl (by decide)

theorem head_loopTest (number : Nat) (marker : Bool) :
    (loopTest number marker).head? = some ')' := by
  have first : (numbered number ");$d#=1,!($s#=").head? = some ')' :=
    head_numbered number _ rfl (by decide)
  simp [loopTest, List.head?_append, first]

theorem head_loopCleanup (number : Nat) (marker : Bool) :
    (loopCleanup number marker).head? = some '\x7d' := by
  have first : (numbered number
      "\x7dcatch($x#)\x7b$e#=\x7be:$x#\x7d\x7dfinally\x7btry\x7b$d#||!$i#.return||(").head? =
      some '\x7d' := head_numbered number _ rfl (by decide)
  simp [loopCleanup, List.head?_append, first]

theorem openings_loopEffect (done : (loopEffect reading scope number node parent).failure = none) :
    openings (loopEffect reading scope number node parent).edits =
      if scope.isAsync && (node.child? .left).isSome && (node.child? .right).isSome
        && (node.child? .body).isSome
        && (node.child? .left).any fun left => !left.is .variableDeclaration then
        [((node.child? .left).map Node.start).getD node.start] else [] := by
  unfold loopEffect at done ⊢
  revert done
  cases scope.isAsync with
  | false => simp
  | true =>
    cases node.child? .left <;> cases node.child? .right <;> cases node.child? .body <;> try simp
    rename_i left right body
    cases found : findParticles reading.tokens node body with
    | error failure => simp [Effect.failing]
    | ok particles =>
      intro _
      simp only
      rw [openings_andThen rfl]
      have target : (numbered number "=$s#.value;").head? = some '=' :=
        head_numbered number _ rfl (by decide)
      have closed : (numbered number "=$s#.value);").head? = some '=' :=
        head_numbered number _ rfl (by decide)
      cases block : body.is .blockStatement <;> cases declared : left.is .variableDeclaration <;>
        simp [loopEdits, block, declared, openings_cons, Effect.ofEdits, Effect.noting,
          Operation.text, Operation.offsets, target, closed, head_loopHead, head_loopTest,
          head_loopCleanup]

/-- A rule that does not fail puts a parenthesis first exactly where it is said to. -/
theorem openings_ruleEffect
    (done : (ruleEffect reading scope number node parent).failure = none) :
    openings (ruleEffect reading scope number node parent).edits =
      if parenthesizes scope node parent then [parenthesisOffset node] else [] := by
  unfold ruleEffect at done ⊢
  unfold parenthesizes parenthesisOffset lowersLoop Node.is
  cases kind : node.kind <;> simp only [kind] at done ⊢
  case awaitExpression => exact openings_awaitEffect done
  case superMember => exact openings_superMemberEffect done
  case assignmentExpression => exact openings_assignmentEffect done
  case updateExpression => exact openings_updateEffect done
  case forOfStatement =>
    cases awaits : node.flags.isAwait with
    | false => simp
    | true =>
      rw [awaits, if_pos rfl] at done
      simpa [Node.is] using openings_loopEffect done
  all_goals rfl

end Rules

/-! ### Functions -/

theorem openings_eq_nil {edits : List Operation}
    (plain : ∀ edit ∈ edits, edit.text.head? ≠ some '(') : openings edits = [] := by
  rw [openings, List.filterMap_eq_nil_iff]
  intro edit member
  rw [if_neg (plain edit member)]

theorem text_stripFunctionEffect {reading : Reading} {node : Node} {edit : Operation}
    (member : edit ∈ (stripFunctionEffect reading node).edits) :
    edit.text = [] ∨ edit.text = [' '] := by
  unfold stripFunctionEffect at member
  dsimp only at member
  split at member
  · simp [Effect.failing] at member
  · split at member
    · simp [Effect.failing] at member
    · rcases Effect.mem_edits_andThen member with removed | starred
      · obtain rfl := by simpa [Effect.ofEdits] using removed
        exact .inl rfl
      · split at starred
        · split at starred
          · rw [Effect.ofEdits, List.mem_singleton] at starred
            rw [starred, Operation.text]
            split <;> simp
          · simp [Effect.failing] at starred
        · simp at starred

theorem text_stripMethodEffect {tokens : Tokens} {node : Node} {edit : Operation}
    (member : edit ∈ (stripMethodEffect tokens node).edits) : edit.text = [] := by
  unfold stripMethodEffect at member
  split at member
  · simp [Effect.failing] at member
  · dsimp only at member
    split at member
    · simp [Effect.failing] at member
    · obtain rfl := by simpa [Effect.ofEdits] using member
      rfl

theorem text_stripArrowEffect {tokens : Tokens} {node : Node} {edit : Operation}
    (member : edit ∈ (stripArrowEffect tokens node).edits) : edit.text = [] := by
  unfold stripArrowEffect at member
  dsimp only at member
  split at member
  · simp [Effect.failing] at member
  · obtain rfl := by simpa [Effect.ofEdits] using member
    rfl

theorem head_generatorOpening (scope : Scope) (params : Text) :
    (generatorOpening scope params).head? = some '_' := by
  unfold generatorOpening
  cases scope.isGenerator <;> simp

theorem head_generatorClosing (scope : Scope) (arguments : Text) :
    (generatorClosing scope arguments).head? = some '\x7d' := by
  unfold generatorClosing
  split
  · split <;> simp
  · simp

/-- What a text begins with that is brought by wrapping a function. -/
theorem head_dropEffect {reading : Reading} {scope outer : Scope} {node : Node} {edit : Operation}
    (member : edit ∈ (dropEffect reading scope outer node).edits) :
    ∀ first ∈ edit.text.head?, first ∈ [' ', 'r', '_', '\x7d'] := by
  unfold dropEffect functionEffect at member
  split at member
  case isFalse => simp at member
  split at member
  · simp at member
  · rcases Effect.mem_edits_andThen member with wrapped | noted
    case inr => simp [Effect.noting] at noted
    split at wrapped
    · rcases Effect.mem_edits_andThen wrapped with stripped | closed
      · simp [text_stripArrowEffect stripped]
      · unfold wrapArrowEffect at closed
        split at closed
        · rcases by simpa [Effect.ofEdits] using closed with rfl | rfl <;>
            simp [Operation.text, head_generatorOpening, head_generatorClosing]
        · split at closed
          · simp [Effect.failing] at closed
          · rcases by simpa [Effect.ofEdits] using closed with rfl | rfl | rfl <;>
              simp [Operation.text, head_generatorOpening, head_generatorClosing]
    · rcases Effect.mem_edits_andThen wrapped with stripped | closed
      · split at stripped
        · simp [text_stripMethodEffect stripped]
        · rcases text_stripFunctionEffect stripped with text | text <;> simp [text]
      · rcases by simpa [Effect.ofEdits] using closed with rfl | rfl <;>
          simp [Operation.text, head_generatorClosing]

/-- Wrapping a function puts no parenthesis first. -/
theorem openings_dropEffect (reading : Reading) (scope outer : Scope) (node : Node) :
    openings (dropEffect reading scope outer node).edits = [] := by
  apply openings_eq_nil
  intro edit member first
  have listed := head_dropEffect member '(' (by simp [first])
  simp at listed

theorem openings_nodeEffect {reading : Reading} {node : Node} {place : Place}
    (done : (nodeEffect reading node place).failure = none) :
    openings (nodeEffect reading node place).edits =
      if parenthesizes place.scope node place.parent then [parenthesisOffset node] else [] := by
  unfold nodeEffect at done ⊢
  split
  case isTrue opens =>
    have none : parenthesizes place.scope node place.parent = false := by
      cases kind : node.kind <;>
        simp_all [parenthesizes, Node.opensScope, Node.is, Kind.ownsReceiver]
    simp [openings_dropEffect, none]
  case isFalse plain =>
    rw [if_neg plain] at done
    exact openings_ruleEffect done

/-! ### The walk -/

/-- Effects that succeed one after another succeed each. -/
theorem Effect.failure_of_sequence {effects : List Effect}
    (done : (Effect.sequence effects).failure = none) :
    ∀ effect ∈ effects, effect.failure = none := by
  induction effects with
  | nil => simp
  | cons effect rest ih =>
    obtain ⟨first, later⟩ : effect.failure = none ∧ (Effect.sequence rest).failure = none := by
      simpa [Effect.sequence] using done
    simpa [first] using ih later

theorem mem_openings_sequence {effects : List Effect} {offset : Nat}
    (done : (Effect.sequence effects).failure = none) :
    offset ∈ openings (Effect.sequence effects).edits ↔
      ∃ effect ∈ effects, offset ∈ openings effect.edits := by
  induction effects with
  | nil => simp [Effect.sequence]
  | cons effect rest ih =>
    obtain ⟨first, later⟩ : effect.failure = none ∧ (Effect.sequence rest).failure = none := by
      simpa [Effect.sequence] using done
    have split : openings (Effect.sequence (effect :: rest)).edits =
        openings effect.edits ++ openings (Effect.sequence rest).edits := openings_andThen first
    rw [split, List.mem_append, ih later]
    simp

/-- The parentheses that a visit puts first are those of the rules for the nodes below. -/
theorem mem_openings_visitEffect {reading : Reading} {sourceMap : Bool} {node : Node}
    {place : Place} {offset : Nat}
    (done : (visitEffect reading sourceMap node place).failure = none) :
    offset ∈ openings (visitEffect reading sourceMap node place).edits ↔
      ∃ trail inner, Leads node trail inner ∧
        parenthesizes (scopeAlong place.scope trail) inner (trail.head?.or place.parent) = true ∧
        offset = parenthesisOffset inner := by
  induction node using Node.parts_induction generalizing place with
  | _ node ih =>
    rw [visitEffect_eq] at done ⊢
    obtain ⟨marked, visited, lowered⟩ := by simpa only [Effect.failure_andThen] using done
    have marks : openings (Effect.ofEdits (markEdits sourceMap node)).edits = [] := by
      unfold markEdits
      split <;> simp [openings_cons, Effect.ofEdits, Operation.text]
    have own : openings (nodeEffect reading node place).scopeless.edits =
        if parenthesizes place.scope node place.parent then [parenthesisOffset node] else [] :=
      openings_nodeEffect lowered
    have member (placed) (inside : placed ∈ places node place) : placed.1 ∈ node.parts := by
      rw [← placesFrom_fst node place.scope place.number node.parts]
      exact List.mem_map_of_mem inside
    have below : offset ∈ openings (partsEffect reading sourceMap (places node place)).edits ↔
        ∃ part ∈ node.parts, ∃ trail inner, Leads part.2 trail inner ∧
          parenthesizes (scopeAlong place.scope (trail ++ [(node, part.1)])) inner
            ((trail ++ [(node, part.1)]).head?.or place.parent) = true ∧
          offset = parenthesisOffset inner := by
      have succeeds (placed) (inside : placed ∈ places node place) :
          (visitEffect reading sourceMap placed.1.2 placed.2).failure = none :=
        Effect.failure_of_sequence visited _ (List.mem_map_of_mem inside)
      rw [partsEffect, mem_openings_sequence visited]
      constructor
      · rintro ⟨effect, listed, opened⟩
        obtain ⟨placed, inside, rfl⟩ := List.mem_map.mp listed
        obtain ⟨scope, parent⟩ := mem_placesFrom inside
        obtain ⟨trail, inner, leads, first, same⟩ :=
          (ih placed.1 (member placed inside) (succeeds placed inside)).mp opened
        refine ⟨placed.1, member placed inside, trail, inner, leads, ?_, same⟩
        rw [scope, parent] at first
        simpa [List.head?_append] using first
      · rintro ⟨part, held, trail, inner, leads, first, same⟩
        have mapped : part ∈ (places node place).map Prod.fst := by
          rw [places, placesFrom_fst]
          exact held
        obtain ⟨placed, inside, rfl⟩ := List.mem_map.mp mapped
        obtain ⟨scope, parent⟩ := mem_placesFrom inside
        refine ⟨_, List.mem_map_of_mem inside,
          (ih placed.1 held (succeeds placed inside)).mpr ⟨trail, inner, leads, ?_, same⟩⟩
        rw [scope, parent]
        simpa [List.head?_append] using first
    rw [openings_andThen marked, openings_andThen visited, marks, own, List.nil_append,
      List.mem_append, below]
    constructor
    · rintro (⟨part, held, trail, inner, leads, first, same⟩ | here)
      · exact ⟨_, inner, leads_iff.mpr (.inr ⟨part, held, trail, leads, rfl⟩), first, same⟩
      · split at here
        case isTrue first => exact ⟨[], node, .root, first, by simpa using here⟩
        case isFalse => simp at here
    · rintro ⟨trail, inner, leads, first, same⟩
      obtain ⟨rfl, rfl⟩ | ⟨part, held, trail, deeper, rfl⟩ := leads_iff.mp leads
      · right
        have first : parenthesizes place.scope inner place.parent = true := first
        simp [first, same]
      · exact .inl ⟨part, held, trail, inner, deeper, first, same⟩

/-- A walk that succeeds makes the calls of its effect, and a parenthesis is put first at an
offset exactly if there is a node of one of five forms whose lowered code starts there: an
`await` that is an operand, a logical assignment to a member of `super`, a postfix update of
one, a member that `new` is applied to, or a loop whose target is no declaration. What stands
before the statement in which the node is found plays no part. -/
theorem parenthesis_first_iff (root : Node) (start final : State) (fresh : start.scopes = {})
    (none : start.loops = 0) (walked : Walk.walk visitor root start = .ok () final) :
    start.buffer.perform (visitEffect start.reading start.sourceMap root {}).edits =
        .ok final.buffer ∧
    ∀ offset, offset ∈ openings (visitEffect start.reading start.sourceMap root {}).edits ↔
      ∃ trail node, Leads root trail node ∧
        parenthesizes (scopeAlong {} trail) node trail.head? = true ∧
        offset = parenthesisOffset node := by
  have done := result_of_ok walked
  rw [result_walk root start fresh none] at done
  cases applied : (visitEffect start.reading start.sourceMap root {}).apply start with
  | error failure => simp [applied] at done
  | ok next =>
    obtain ⟨succeeds, performed, -⟩ := Effect.apply_eq_ok applied
    rw [applied, ok_bind] at done
    rw [← Except.ok.inj done]
    refine ⟨performed, fun offset => ?_⟩
    simpa using mem_openings_visitEffect succeeds

/-- The `await` in `async function f(){a↵await b||c}`, where `↵` is a line break. -/
def operandAwait : Node :=
  .plain .awaitExpression ⟨21, 28⟩
    [.one .argument (.mk { kind := .identifier, span := ⟨27, 28⟩, name := some ['b'] } [])]

/-- The second statement there, an operation with the `await` as its first operand. -/
def operandStatement : Node :=
  .plain .statement ⟨21, 31⟩ [.many .children
    [.mk { kind := .logicalExpression, span := ⟨21, 31⟩, operator := some ['|', '|'] }
      [.one .left operandAwait,
        .one .right (.mk { kind := .identifier, span := ⟨30, 31⟩, name := some ['c'] } [])]]]

/-- The first statement there, which ends with the line. -/
def lineStatement : Node :=
  .plain .statement ⟨19, 20⟩
    [.many .children [.mk { kind := .identifier, span := ⟨19, 20⟩, name := some ['a'] } []]]

/-- The program `async function f(){a↵await b||c}`. -/
def twoLines : Node :=
  .plain .program ⟨0, 32⟩ [.many .children
    [.mk { kind := .functionDeclaration, span := ⟨0, 32⟩, flags := { isAsync := true } }
      [.many .decorators [], .many .params [],
        .one .body (.plain .blockStatement ⟨18, 32⟩
          [.many .children [lineStatement, operandStatement]])]]]

/-- The state before its walk. -/
def twoLinesStart : State :=
  let source := "async function f()\x7ba\nawait b||c\x7d".toList
  .ofSource source ⟨source, #[⟨0, 5⟩, ⟨6, 14⟩, ⟨15, 16⟩, ⟨16, 17⟩, ⟨17, 18⟩, ⟨18, 19⟩, ⟨19, 20⟩,
    ⟨21, 26⟩, ⟨27, 28⟩, ⟨28, 30⟩, ⟨30, 31⟩, ⟨31, 32⟩]⟩ (.ofText source) false

/-- The walk of this program ends. -/
def twoLinesWalk : Evaluated (result (Walk.walk visitor twoLines) twoLinesStart)
    (fun final => final.buffer.code)
    "function f()\x7breturn __async(function*()\x7ba\n(yield b)||c\x7d())\x7d".toList :=
  .ofView (by decide +kernel)

/-- The second of two statements that only a line break keeps apart begins with a parenthesis
once it is lowered, so it is read as a call of the first one. -/
theorem parenthesis_first_after_line :
    ∃ final, Walk.walk visitor twoLines twoLinesStart = .ok () final ∧
      final.buffer.code =
        "function f()\x7breturn __async(function*()\x7ba\n(yield b)||c\x7d())\x7d".toList ∧
      operandStatement.start ∈ openings
        (visitEffect twoLinesStart.reading twoLinesStart.sourceMap twoLines {}).edits := by
  obtain ⟨final, done, code⟩ := twoLinesWalk
  have walked := of_result_eq_ok done
  obtain ⟨-, first⟩ := parenthesis_first_iff twoLines twoLinesStart final rfl rfl walked
  have below : Leads twoLines _ operandAwait :=
    .part (.part (.part (.part (.part .root (.head _)) (.head _)) (.tail _ (.head _))) (.head _))
      (.head _)
  exact ⟨final, walked, code, (first _).mpr ⟨_, operandAwait, below, rfl, rfl⟩⟩

end Unawait.Lowering
