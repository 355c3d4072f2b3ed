import Mathlib
import Unawait.Proofs.ConflictFreedom
import Unawait.Proofs.SourceTranslation
import Unawait.Proofs.RunCalls
import Unawait.Proofs.VisitOrder

/-!
# Moved targets

The rule for a loop over an async iterable moves the target of the loop to the beginning of the
body, and nothing else in a program is moved. The target is not empty, and the body is behind it,
so a move is never refused for its own sake.

Of two lowered loops one may stand in the other. In the body or in the iterable of the outer loop
it is beside the target of that loop, and the two targets have no byte in common. But a target can
hold a loop, for example in a function that is a default of a pattern. Then the inner target is
moved first, the outer target would move bytes that went elsewhere, and the buffer refuses. This
is the only reason for which an edit is refused in a tree that fits its text, and a run on a tree
with such a loop never succeeds.
-/

namespace Unawait.Edit

/-- Calls without conflicts, whose moves go forward from ranges that are not empty, are refused
only because an earlier call has moved a byte of a range to be moved. -/
theorem Buffer.Reflects.overlapping_of_refused {source : Text} {history : History} {buffer : Buffer}
    {operations : List Operation} {refusal : Refusal} (reflects : buffer.Reflects source history)
    (free : ConflictFree source.bytes operations)
    (spared : ∀ operation ∈ operations, ∀ replacement ∈ history.replacements,
      operation.Spares replacement.1)
    (forward : ∀ move ∈ History.moves operations,
      move.start < move.stop ∧ move.stop ≤ move.destination)
    (refused : buffer.perform operations = .error refusal) :
    ∃ (front : List Operation) (move : Move) (back : List Operation),
      operations = front ++ .moveRange move.start move.stop move.destination :: back ∧
      refusal = .overlappingMove move.start move.stop ∧
      ∃ earlier ∈ History.moves (history ++ front),
        move.start < earlier.stop ∧ earlier.start < move.stop := by
  induction operations generalizing history buffer with
  | nil => simp [Buffer.perform] at refused
  | cons operation rest ih =>
    obtain ⟨bounds, pairs⟩ := free
    obtain ⟨here, later⟩ := List.pairwise_cons.mp pairs
    have moves : History.moves (operation :: rest) = operation.moved?.toList ++ History.moves rest := by
      rw [← History.moves_singleton, ← History.moves_append, List.singleton_append]
    rw [moves] at forward
    cases applied : operation.apply buffer with
    | ok next =>
      have extended : ∀ other ∈ rest, ∀ replacement ∈ History.replacements (history ++ [operation]),
          other.Spares replacement.1 := by
        intro other member replacement made
        simp only [History.replacements_append, History.replacements_singleton, List.mem_append,
          Option.mem_toList] at made
        rcases made with earlier | own
        · exact spared other (by simp [member]) replacement earlier
        · exact here other member replacement own
      rw [Buffer.perform, applied] at refused
      obtain ⟨front, move, back, rfl, same, overlaps⟩ :=
        ih (reflects.apply operation applied) ⟨fun other member => bounds other (by simp [member]), later⟩
          extended (fun move member => forward move (by simp [member])) refused
      exact ⟨operation :: front, move, back, rfl, same, by simpa using overlaps⟩
    | error reason =>
      rw [Buffer.perform, applied] at refused
      obtain rfl : reason = refusal := Except.error.inj refused
      cases moved : operation.moved? with
      | none =>
        obtain ⟨next, done⟩ :=
          reflects.apply_ok_of_still (bounds operation (by simp)) (spared operation (by simp)) moved
        simp [done] at applied
      | some move =>
        obtain ⟨nonempty, behind⟩ := forward move (by simp [moved])
        cases operation with
        | moveRange start stop destination =>
          obtain rfl : (⟨start, stop, destination⟩ : Move) = move := Option.some.inj moved
          obtain ⟨next, made⟩ :=
            reflects.moveRange_eq (bounds _ List.mem_cons_self) (spared _ List.mem_cons_self)
          dsimp only at nonempty behind
          rw [Operation.apply, made, if_neg (by omega), if_neg (by omega)] at applied
          split at applied
          next overlaps =>
            rw [reflects.moves_eq, List.any_eq_true] at overlaps
            obtain ⟨earlier, member, common⟩ := overlaps
            exact ⟨[], ⟨start, stop, destination⟩, rest, rfl, (Except.error.inj applied).symm, earlier,
              by simpa using member, by simpa using common⟩
          next => simp at applied
        | _ => simp [Operation.moved?] at moved

end Unawait.Edit

namespace Unawait.Lowering

open Edit (Operation History Move)

/-! ### The moves of a tree -/

/-- The move of the target of a loop to the beginning of its body. -/
def targetMove? (node : Node) : Option Move :=
  match node.child? .left, node.child? .body with
  | some left, some body =>
    some ⟨left.start, left.stop, if body.is .blockStatement then body.start + 1 else body.start⟩
  | _, _ => none

/-- The move that the rule for a node makes. -/
def moveFor? (visited : Trail × Node) : Option Move :=
  if isLoweredLoop visited then targetMove? visited.2 else none

/-- A call that moves nothing. -/
theorem moves_of_still {edits : List Operation} (still : ∀ edit ∈ edits, edit.moved? = none) :
    History.moves edits = [] :=
  List.filterMap_eq_nil_iff.mpr still

/-- No rule but that for a loop moves anything. -/
theorem Rewrite.moves_edits {node : Node} {rule : Rewrite}
    (other : ∀ number marker labelled particles left right body,
      rule ≠ .loop number marker labelled particles left right body) :
    History.moves (rule.edits node) = [] := by
  have used (use : Use) : ∀ edit ∈ use.edits node, edit.moved? = none := by
    intro edit made
    cases use with
    | value => simp [Use.edits] at made
    | constructed =>
      simp only [Use.edits, List.mem_cons, List.not_mem_nil, or_false] at made
      rcases made with rfl | rfl <;> rfl
    | called binding => exact @Rewrite.moved_of_guests (.name [] (.called binding)) edit made
  apply moves_of_still
  cases rule with
  | loop number marker labelled particles left right body => exact (other _ _ _ _ _ _ _ rfl).elim
  | await opening closing =>
    simp only [Rewrite.edits]
    split <;> simp [Operation.moved?]
  | name text use => simpa [Rewrite.edits, Operation.moved?] using used use
  | key property use => simpa [Rewrite.edits, Operation.moved?] using used use
  | function removed star body opening closing =>
    cases star <;> simp [Rewrite.edits, Operation.moved?]
  | _ => simp [Rewrite.edits, Operation.moved?]

/-- Only loops that are lowered are rewritten as loops. -/
theorem lowersLoop_of_rewrite {reading : Reading} {node : Node} {place : Place} {number : Nat}
    {marker : Bool} {labelled : Option Nat} {particles : LoopParticles} {left right body : Node}
    (form : rewrite reading node place = .loop number marker labelled particles left right body) :
    lowersLoop place.scope node = true := by
  unfold rewrite at form
  split at form
  · split at form
    · unfold functionRewrite at form
      repeat' split at form
      all_goals simp at form
    · simp at form
  · split at form
    next =>
      unfold awaitRewrite at form
      repeat' split at form
      all_goals simp at form
    next =>
      unfold memberRewrite at form
      dsimp only at form
      repeat' split at form
      all_goals simp at form
    next =>
      unfold assignmentRewrite at form
      dsimp only at form
      repeat' split at form
      all_goals simp at form
    next =>
      unfold updateRewrite at form
      repeat' split at form
      all_goals simp at form
    next =>
      unfold callRewrite at form
      repeat' split at form
      all_goals simp at form
    next =>
      unfold labelRewrite at form
      split at form <;> simp at form
    next kind =>
      unfold loopRewrite at form
      split at form <;> [skip; simp at form]
      next awaits =>
        split at form <;> [skip; simp at form]
        next async =>
          split at form <;> [skip; simp at form]
          next target iterable inner =>
            simp [lowersLoop, Node.is, kind, awaits, async, target, iterable, inner]
    next => simp at form

theorem moves_loopEdits (number : Nat) (marker : Bool) (wrapped : Nat) (particles : LoopParticles)
    (node left right body : Node) :
    History.moves (loopEdits number marker wrapped particles node left right body) =
      [⟨left.start, left.stop, if body.is .blockStatement then body.start + 1 else body.start⟩] := by
  by_cases block : body.is .blockStatement <;> by_cases declared : left.is .variableDeclaration <;>
    simp [loopEdits, block, declared, History.moves, List.filterMap_cons, Operation.moved?]

section Tree

variable {reading : Reading} {root : Node}

/-- The rule for a node that is no lowered loop does not number it. -/
theorem leavingEffect_of_not_loop {visited : Trail × Node} (other : isLoweredLoop visited = false)
    (number : Nat) : leavingEffect reading visited number = leavingEffect reading visited 0 := by
  unfold leavingEffect ruleEffect
  dsimp only
  split
  · rfl
  · split <;> try rfl
    next kind =>
      split
      next awaits =>
        rw [loopEffect_of_not_lowered kind awaits other, loopEffect_of_not_lowered kind awaits other]
      next => rfl

/-- The rule for a node moves the target of the node if it is a lowered loop, and nothing else. -/
theorem moves_leavingEffect (ordered : reading.tokens.Ordered) (fit : Fit reading root {})
    {visited : Trail × Node} (leads : Leads root visited.1 visited.2) (number : Nat) :
    History.moves (leavingEffect reading visited number).edits = (moveFor? visited).toList := by
  by_cases lowered : isLoweredLoop visited = true
  · obtain ⟨particles, left, right, body, target, -, inner, -, edits⟩ :=
      edits_of_isLoweredLoop ordered fit leads lowered
    rw [show (leavingEffect reading visited number).edits = _ from edits number, moves_loopEdits,
      moveFor?, if_pos lowered]
    simp [targetMove?, target, inner]
  · have carries := (fit.along leads 0).carries ordered
    have still := @Rewrite.moves_edits visited.2 (rewrite reading visited.2 (.along visited.1 0))
      fun number marker labelled particles left right body form =>
        lowered (lowersLoop_of_rewrite form)
    rw [← carries.edits, nodeEffect_along, leavingEffect_of_not_loop (by simpa using lowered)] at still
    rw [leavingEffect_of_not_loop (by simpa using lowered), moveFor?, if_neg lowered]
    exact still

/-- The moves of a tree are those of the targets of its lowered loops, in order. -/
theorem moves_calls (ordered : reading.tokens.Ordered) (fit : Fit reading root {}) :
    History.moves (calls reading (root, {})) = (postorder root []).filterMap moveFor? := by
  have order := calls_eq_postorder reading root [] 0
  have each : ∀ visit ∈ numberedFrom 0 (postorder root []),
      History.moves (leavingEffect reading visit.1 visit.2).edits = (moveFor? visit.1).toList := by
    intro visit member
    have visited : visit.1 ∈ postorder root [] := by
      rw [← numberedFrom_fst 0 (postorder root [])]
      exact List.mem_map_of_mem member
    exact moves_leavingEffect ordered fit (mem_postorder_iff_leads.mp visited) visit.2
  calc History.moves (calls reading (root, {}))
      = (numberedFrom 0 (postorder root [])).flatMap fun visit =>
          History.moves (leavingEffect reading visit.1 visit.2).edits := by
        rw [show calls reading (root, {}) = _ from order, History.moves, List.filterMap_flatMap]
        rfl
    _ = (numberedFrom 0 (postorder root [])).flatMap fun visit => (moveFor? visit.1).toList :=
        List.flatMap_congr each
    _ = ((numberedFrom 0 (postorder root [])).map Prod.fst).flatMap fun visited =>
          (moveFor? visited).toList := by rw [List.flatMap_map]
    _ = (postorder root []).filterMap moveFor? := by
        rw [numberedFrom_fst, List.filterMap_eq_flatMap_toList]

end Tree

/-! ### Loops in targets -/

/-- A node that is left before another one stands below a part of it, or beside it. -/
def LeftBefore (first second : Trail × Node) : Prop :=
  (∃ part ∈ second.2.parts, ∃ inner, Leads part.2 inner first.2 ∧
      first.1 = inner ++ (second.2, part.1) :: second.1) ∨
    first.2.span.Disjoint second.2.span

theorem postorder_pairwise {tokens : Tokens} {node : Node}
    (wellFormed : node.wellFormed tokens = true) (trail : Trail) :
    (postorder node trail).Pairwise LeftBefore := by
  induction node using Node.parts_induction generalizing trail with
  | _ node ih =>
    obtain ⟨nested, -, parts⟩ := (Node.wellFormed_iff _ _).mp wellFormed
    rw [postorder_eq]
    refine List.pairwise_append.mpr ⟨List.pairwise_flatMap.mpr ⟨?_, ?_⟩, List.pairwise_singleton _ _, ?_⟩
    · intro part held
      exact ih part held (parts part held) _
    · refine nested.2.2.imp_of_mem ?_
      intro part other held second disjoint first here later there
      obtain ⟨inner, leads, -⟩ := mem_postorder.mp here
      obtain ⟨deeper, below, -⟩ := mem_postorder.mp there
      obtain ⟨-, low, high⟩ := inside_of_leads (parts part held) leads
      obtain ⟨-, start, stop⟩ := inside_of_leads (parts other second) below
      have apart : min part.2.stop other.2.stop ≤ max part.2.start other.2.start := disjoint
      right
      change min first.2.stop later.2.stop ≤ max first.2.start later.2.start
      omega
    · intro first here later there
      obtain rfl := List.mem_singleton.mp there
      obtain ⟨part, held, inside⟩ := List.mem_flatMap.mp here
      obtain ⟨inner, leads, same⟩ := mem_postorder.mp inside
      exact .inl ⟨part, held, inner, leads, same⟩

/-- The target of a lowered loop holds another lowered loop. -/
def TargetHoldsLoop (root : Node) (outer : Trail × Node) (left : Node) : Prop :=
  Leads root outer.1 outer.2 ∧ isLoweredLoop outer = true ∧ outer.2.child? .left = some left ∧
    ∃ inner loop, Leads left inner loop ∧
      isLoweredLoop (inner ++ (outer.2, .left) :: outer.1, loop) = true

section Targets

variable {reading : Reading} {root : Node} (ordered : reading.tokens.Ordered)
  (fit : Fit reading root {})

include ordered fit

/-- What is moved for a loop is its target, which is not empty, to a place behind it. -/
theorem target_of_moveFor {visited : Trail × Node} {move : Move}
    (leads : Leads root visited.1 visited.2) (moved : moveFor? visited = some move) :
    isLoweredLoop visited = true ∧ ∃ left, visited.2.child? .left = some left ∧
      move.start = left.start ∧ move.stop = left.stop ∧ left.start < left.stop ∧
      left.stop ≤ move.destination := by
  by_cases lowered : isLoweredLoop visited = true
  case neg => simp [moveFor?, lowered] at moved
  obtain ⟨particles, left, right, body, target, -, inner, fits, -⟩ :=
    edits_of_isLoweredLoop ordered fit leads lowered
  simp only [moveFor?, lowered, if_true, targetMove?, target, inner, Option.some.injEq] at moved
  subst moved
  refine ⟨lowered, left, target, rfl, rfl, fits.leftNonempty, ?_⟩
  obtain ⟨-, between, -⟩ := fits.between
  obtain ⟨-, closing, -⟩ := fits.closing
  have right := fits.rightNonempty
  have body := fits.beforeBody
  dsimp only at between closing ⊢
  split <;> omega

theorem moveFor_of_loop {visited : Trail × Node} (leads : Leads root visited.1 visited.2)
    (lowered : isLoweredLoop visited = true) : ∃ move, moveFor? visited = some move := by
  obtain ⟨particles, left, right, body, target, -, inner, -⟩ :=
    edits_of_isLoweredLoop ordered fit leads lowered
  simp [moveFor?, lowered, targetMove?, target, inner]

/-- Of two targets that have a byte in common the second one holds the first loop. -/
theorem targetHoldsLoop_of_overlap {first second : Trail × Node} {move other : Move}
    (before : LeftBefore first second) (firstLeads : Leads root first.1 first.2)
    (secondLeads : Leads root second.1 second.2) (firstMoved : moveFor? first = some other)
    (secondMoved : moveFor? second = some move)
    (overlaps : move.start < other.stop ∧ other.start < move.stop) :
    ∃ left, TargetHoldsLoop root second left ∧ move.start = left.start ∧ move.stop = left.stop := by
  obtain ⟨firstLowered, target, firstChild, start, stop, filled, -⟩ :=
    target_of_moveFor ordered fit firstLeads firstMoved
  obtain ⟨secondLowered, left, secondChild, low, high, nonempty, -⟩ :=
    target_of_moveFor ordered fit secondLeads secondMoved
  have firstFit := fit.along firstLeads 0
  have secondFit := fit.along secondLeads 0
  obtain ⟨above, below⟩ := firstFit.nested.2.1 _ (Node.mem_parts_of_child firstChild)
  have held := Node.mem_parts_of_child secondChild
  obtain ⟨from', to'⟩ := secondFit.nested.2.1 _ held
  dsimp only at above below from' to'
  rcases before with ⟨part, member, inner, leads, same⟩ | disjoint
  · by_cases inTarget : part = (.left, left)
    · subst inTarget
      refine ⟨left, ⟨secondLeads, secondLowered, secondChild, inner, first.2, leads, ?_⟩, low, high⟩
      rw [← same]
      exact firstLowered
    · -- any other part of the outer loop is beside its target
      have fits := ((Node.wellFormed_iff _ _).mp secondFit.wellFormed).2.2 part member
      obtain ⟨-, first', last'⟩ := inside_of_leads fits leads
      have apart := secondFit.nested.disjoint member held inTarget
      dsimp only at apart
      omega
  · have apart : min first.2.stop second.2.stop ≤ max first.2.start second.2.start := disjoint
    omega

/-- A move that overlaps an earlier one is that of a target which holds a lowered loop. -/
theorem targetHoldsLoop_of_moves {front back : List Move} {move earlier : Move}
    (parted : History.moves (calls reading (root, {})) = front ++ move :: back)
    (member : earlier ∈ front) (overlaps : move.start < earlier.stop ∧ earlier.start < move.stop) :
    ∃ outer left, TargetHoldsLoop root outer left ∧
      move.start = left.start ∧ move.stop = left.stop := by
  -- the moves up to the later one come from the loops up to its loop
  rw [moves_calls ordered fit] at parted
  obtain ⟨before, after, parts, first, second⟩ := List.filterMap_eq_append_iff.mp parted
  obtain ⟨skipped, outer, later, cut, -, moved, -⟩ := List.filterMap_eq_cons_iff.mp second
  rw [← first] at member
  obtain ⟨inner, inside, innerMoved⟩ := List.mem_filterMap.mp member
  have pairs := postorder_pairwise fit.wellFormed []
  rw [parts, cut] at pairs
  have leads : Leads root outer.1 outer.2 := mem_postorder_iff_leads.mp (by simp [parts, cut])
  have innerLeads : Leads root inner.1 inner.2 := mem_postorder_iff_leads.mp (by simp [parts, inside])
  exact ⟨outer, targetHoldsLoop_of_overlap ordered fit
    ((List.pairwise_append.mp pairs).2.2 inner inside outer (by simp)) innerLeads leads innerMoved
    moved overlaps⟩

/-- The targets of a tree are moved apart exactly if none of them holds a lowered loop. -/
theorem moves_disjoint_iff :
    (History.moves (calls reading (root, {}))).Pairwise
        (fun first second => first.stop ≤ second.start ∨ second.stop ≤ first.start) ↔
      ¬ ∃ outer left, TargetHoldsLoop root outer left := by
  rw [moves_calls ordered fit, List.pairwise_filterMap]
  constructor
  · rintro apart ⟨outer, left, leads, lowered, child, inner, loop, below, inside⟩
    have held : Leads root ((outer.2, .left) :: outer.1) left :=
      .part leads (Node.mem_parts_of_child child)
    have deeper := held.append below
    obtain ⟨move, moved⟩ := moveFor_of_loop ordered fit leads lowered
    obtain ⟨other, also⟩ := moveFor_of_loop ordered fit deeper inside
    have symmetric : Std.Symm fun first second : Trail × Node =>
        ∀ move, moveFor? first = some move → ∀ other, moveFor? second = some other →
          move.stop ≤ other.start ∨ other.stop ≤ move.start := by
      constructor
      intro first second pair move here other there
      exact (pair other there move here).symm
    have differs : outer ≠ (inner ++ (outer.2, .left) :: outer.1, loop) := by
      intro same
      have lengths := congrArg (fun visited => visited.1.length) same
      simp only [List.length_append, List.length_cons] at lengths
      omega
    have disjoint := apart.forall (mem_postorder_iff_leads.mpr leads)
      (mem_postorder_iff_leads.mpr deeper) differs move moved other also
    -- yet the inner target lies in the outer one
    obtain ⟨-, left', child', low, high, -, -⟩ := target_of_moveFor ordered fit leads moved
    obtain rfl : left' = left := Option.some.inj (child'.symm.trans child)
    obtain ⟨-, target, targetChild, start, stop, filled, -⟩ := target_of_moveFor ordered fit deeper also
    obtain ⟨fits, first, last⟩ := inside_of_leads (fit.along held 0).wellFormed below
    have within := ((Node.wellFormed_iff _ _).mp fits).1.2.1 _ (Node.mem_parts_of_child targetChild)
    dsimp only at within
    omega
  · intro none
    refine (postorder_pairwise fit.wellFormed []).imp_of_mem ?_
    intro first second here there before other firstMoved move secondMoved
    by_contra overlaps
    obtain ⟨left, holds, -⟩ := targetHoldsLoop_of_overlap ordered fit before
      (mem_postorder_iff_leads.mp here) (mem_postorder_iff_leads.mp there) firstMoved secondMoved
      (by omega)
    exact none ⟨second, left, holds⟩

end Targets

end Unawait.Lowering

namespace Unawait

open Lowering

namespace Transform

variable {source : Text} {options : Options} {parsed : Parsed}

/-- Marks move nothing, so they make no difference to the moves of a run. -/
theorem moves_calls_eq :
    Edit.History.moves (calls source options parsed) =
      Edit.History.moves
        (Lowering.calls ⟨source, parsed.tokens, parsed.lines⟩ (parsed.program, {})) := by
  have unmarked (edits : List Edit.Operation) :
      Edit.History.moves edits = Edit.History.moves (edits.filter fun edit => !edit.isMark) := by
    rw [Edit.History.moves, Edit.History.moves, List.filterMap_filter]
    congr 1
    funext edit
    cases edit <;> rfl
  rw [unmarked, calls, filter_script, ← unmarked]

/-- A run of which an edit is refused has played its script up to that edit. -/
theorem perform_of_refused {refusal : Edit.Refusal} (ordered : parsed.tokens.Ordered)
    (wellFormed : parsed.program.wellFormed parsed.tokens = true)
    (refused : lower source options parsed = .error (.refused refusal)) :
    ∃ edits, edits <+: calls source options parsed ∧
      (Edit.Buffer.ofText source).perform edits = .error refusal := by
  have fit : Fit ⟨source, parsed.tokens, parsed.lines⟩ parsed.program {} :=
    ⟨wellFormed, by simp [Seated]⟩
  refine ⟨_, (plays parsed.program {}).begins, ?_⟩
  obtain ⟨reason, performed, same⟩ | ⟨failure, failed, same⟩ | ⟨-, transformed, done⟩ :=
    lower_cases source options parsed
  · rw [performed]
    simpa [same] using refused
  · obtain ⟨construct, line, column, rfl⟩ := unsupported_of_failure ordered fit failed
    simp [same] at refused
  · simp [done] at refused

end Transform

/-- In a run on a tree that fits its text, what is moved is not empty and moved to a place behind
it, and the moved ranges are disjoint exactly if no target of a lowered loop holds another lowered
loop. An edit is refused only because it would move such a target, and where there is one the run
does not succeed. -/
theorem refused_only_for_loop_in_target (parse : Text → Options → Except Failure Parsed)
    (source : Text) (options : Options) (parsed : Parsed)
    (isRead : Transform.skips source options = false)
    (parses : parse source options = .ok parsed) (ordered : parsed.tokens.Ordered)
    (wellFormed : parsed.program.wellFormed parsed.tokens = true)
    (disposable : parsed.program.disposable = true)
    (inSource : parsed.program.stop ≤ source.bytes) :
    let moves := Edit.History.moves (Transform.calls source options parsed)
    (∀ move ∈ moves, move.start < move.stop ∧ move.stop ≤ move.destination) ∧
    (moves.Pairwise (fun first second => first.stop ≤ second.start ∨ second.stop ≤ first.start) ↔
      ¬ ∃ outer left, TargetHoldsLoop parsed.program outer left) ∧
    (∀ refusal, transformWith parse source options = .error (.refused refusal) →
      ∃ outer left, TargetHoldsLoop parsed.program outer left ∧
        refusal = .overlappingMove left.start left.stop) ∧
    ((∃ outer left, TargetHoldsLoop parsed.program outer left) →
      ∀ transformed, transformWith parse source options ≠ .ok transformed) := by
  intro moves
  have fit : Fit ⟨source, parsed.tokens, parsed.lines⟩ parsed.program {} :=
    ⟨wellFormed, by simp [Seated]⟩
  have visible : Visible ⟨source, parsed.tokens, parsed.lines⟩ parsed.program {} :=
    visible_of_disposable ordered fit disposable
  have order : moves = (postorder parsed.program []).filterMap moveFor? :=
    Transform.moves_calls_eq.trans (moves_calls ordered fit)
  have forward : ∀ move ∈ moves, move.start < move.stop ∧ move.stop ≤ move.destination := by
    intro move member
    rw [order] at member
    obtain ⟨visited, inside, moved⟩ := List.mem_filterMap.mp member
    obtain ⟨-, left, -, low, high, nonempty, behind⟩ :=
      target_of_moveFor ordered fit (mem_postorder_iff_leads.mp inside) moved
    omega
  have disjoint := moves_disjoint_iff ordered fit
  rw [← @Transform.moves_calls_eq source options parsed] at disjoint
  rw [Transform.transformWith_eq_lower isRead parses]
  refine ⟨forward, disjoint, fun refusal refused => ?_, fun holds transformed done => ?_⟩
  · obtain ⟨edits, ⟨rest, whole⟩, performed⟩ :=
      Transform.perform_of_refused ordered wellFormed refused
    have free := (script_conflictFree ordered fit visible inSource options.sourceMap).of_isPrefix
      ⟨rest, whole⟩
    have split : moves = Edit.History.moves edits ++ Edit.History.moves rest := by
      rw [← Edit.History.moves_append, whole]
    obtain ⟨front, move, back, rfl, same, earlier, member, overlaps⟩ :=
      (Edit.Buffer.reflects_ofText source).overlapping_of_refused free
        (by simp [Edit.History.replacements]) (fun move member => forward move (by simp [split, member]))
        performed
    have parted : Edit.History.moves (calls ⟨source, parsed.tokens, parsed.lines⟩
        (parsed.program, {})) =
        Edit.History.moves front ++ move :: (Edit.History.moves back ++ Edit.History.moves rest) := by
      rw [← @Transform.moves_calls_eq source options parsed, show Edit.History.moves _ = _ from split]
      simp [Edit.History.moves, Edit.Operation.moved?]
    obtain ⟨outer, left, holds, low, high⟩ :=
      targetHoldsLoop_of_moves ordered fit parted (by simpa using member) overlaps
    exact ⟨outer, left, holds, by rw [same, low, high]⟩
  · obtain ⟨buffer, -, performed, -⟩ := Transform.made_of_lower done
    have apart := (Edit.Buffer.reflects_ofText source).moves_pairwise performed
      (by simp [Edit.History.moves])
    exact disjoint.mp (by simpa using apart) holds

/-- The program `async function f(){for await(const {a=async()=>{for await(const x of y);}} of z);}`,
with a loop in the target of another one. -/
def loopInDefault : Parsed :=
  let source := ("async function f()\x7bfor await(const \x7ba=async()=>\x7b"
    ++ "for await(const x of y);\x7d\x7d of z);\x7d").toList
  let inner := .mk { kind := .forOfStatement, span := ⟨48, 72⟩, flags := { isAwait := true } }
    [.one .left (.plain .variableDeclaration ⟨58, 65⟩ []), .one .right (.plain .identifier ⟨69, 70⟩ []),
      .one .body (.plain .statement ⟨71, 72⟩ [])]
  let arrow := .mk
    { kind := .arrowFunctionExpression, span := ⟨38, 73⟩, flags := { isAsync := true } }
    [.many .params [], .one .body (.plain .blockStatement ⟨47, 73⟩ [.many .children [inner]])]
  let outer := .mk { kind := .forOfStatement, span := ⟨19, 81⟩, flags := { isAwait := true } }
    [.one .left (.plain .variableDeclaration ⟨29, 74⟩ [.many .children [arrow]]),
      .one .right (.plain .identifier ⟨78, 79⟩ []), .one .body (.plain .statement ⟨80, 81⟩ [])]
  let function := .mk
    { kind := .functionDeclaration, span := ⟨0, 82⟩, flags := { isAsync := true } }
    [.many .params [], .one .body (.plain .blockStatement ⟨18, 82⟩ [.many .children [outer]])]
  { program := .plain .program ⟨0, 82⟩ [.many .children [function]]
    tokens := ⟨source, #[⟨0, 5⟩, ⟨6, 14⟩, ⟨15, 16⟩, ⟨16, 17⟩, ⟨17, 18⟩, ⟨18, 19⟩, ⟨19, 22⟩, ⟨23, 28⟩,
      ⟨28, 29⟩, ⟨29, 34⟩, ⟨35, 36⟩, ⟨36, 37⟩, ⟨37, 38⟩, ⟨38, 43⟩, ⟨43, 44⟩, ⟨44, 45⟩, ⟨45, 47⟩,
      ⟨47, 48⟩, ⟨48, 51⟩, ⟨52, 57⟩, ⟨57, 58⟩, ⟨58, 63⟩, ⟨64, 65⟩, ⟨66, 68⟩, ⟨69, 70⟩, ⟨70, 71⟩,
      ⟨71, 72⟩, ⟨72, 73⟩, ⟨73, 74⟩, ⟨75, 77⟩, ⟨78, 79⟩, ⟨79, 80⟩, ⟨80, 81⟩, ⟨81, 82⟩]⟩
    lines := .ofText source }

/-- A valid program whose run is refused: the target of the outer loop would move with the inner
target in it, which has gone into the inner body. -/
theorem refused_only_for_loop_in_target_default :
    let source := loopInDefault.tokens.source
    transformWith (fun _ _ => .ok loopInDefault) source {} =
        .error (.refused (.overlappingMove 29 74)) ∧
      ∃ outer left, TargetHoldsLoop loopInDefault.program outer left ∧
        Edit.Refusal.overlappingMove 29 74 = .overlappingMove left.start left.stop := by
  intro source
  have ends : transformWith (fun _ _ => .ok loopInDefault) source {} =
      .error (.refused (.overlappingMove 29 74)) := Transform.eq_error (by decide +kernel)
  obtain ⟨-, -, refused, -⟩ := refused_only_for_loop_in_target (fun _ _ => .ok loopInDefault) source {}
    loopInDefault (by decide +kernel) rfl (by decide +kernel) (by decide +kernel) (by decide +kernel)
    (by decide +kernel)
  exact ⟨ends, refused _ ends⟩

end Unawait
