import Mathlib
import Unawait.Proofs.EditRendering
import Unawait.Proofs.Frontier

/-!
# Edits at the boundaries of characters

If the nodes of a tree and the tokens begin and end between characters of the source, so
do all ranges that the rules edit: they are made of ends of nodes and of tokens. Where a
rule counts bytes, past `await` or past a brace, it counts those of a token.
-/

namespace Unawait

/-- All nodes of a tree begin and end between characters. -/
def Node.aligned (source : Text) : Node → Bool :=
  Node.fold fun node parts =>
    decide (source.IsBoundary node.start ∧ source.IsBoundary node.stop) && parts.all Prod.snd

theorem Node.aligned_iff (source : Text) (node : Node) :
    node.aligned source = true ↔
      (source.IsBoundary node.start ∧ source.IsBoundary node.stop) ∧
        ∀ part ∈ node.parts, part.2.aligned source = true := by
  rw [Node.aligned, Node.fold_eq]
  simp

/-- All tokens begin and end between characters. -/
def Tokens.Aligned (source : Text) (tokens : Tokens) : Prop :=
  ∀ span ∈ tokens.spans.toList, source.IsBoundary span.start ∧ source.IsBoundary span.stop

instance (source : Text) (tokens : Tokens) : Decidable (tokens.Aligned source) :=
  inferInstanceAs (Decidable (∀ span ∈ _, _))

theorem Tokens.Aligned.get {source : Text} {tokens : Tokens} (aligned : tokens.Aligned source)
    {index : Nat} {span : Span} (found : tokens.get? index = some span) :
    source.IsBoundary span.start ∧ source.IsBoundary span.stop := by
  rw [Tokens.get_eq] at found
  exact aligned span (List.mem_of_getElem? found)

theorem Tokens.Aligned.tokenStart {source : Text} {tokens : Tokens} (aligned : tokens.Aligned source)
    {index default : Nat} (otherwise : source.IsBoundary default) :
    source.IsBoundary (Lowering.tokenStart tokens index default) := by
  unfold Lowering.tokenStart
  cases found : tokens.get? index with
  | none => exact otherwise
  | some span => exact (aligned.get found).1

namespace Lowering

open Edit (Operation)

section Aligned

variable {source : Text} {reading : Reading} {node : Node}

/-- The offsets of a call are between characters. -/
def IsAligned (source : Text) (edit : Operation) : Prop :=
  ∀ offset ∈ edit.offsets, source.IsBoundary offset

theorem isAligned_of_pair {edit : Operation} {start stop : Nat} (named : edit.offsets = [start, stop])
    (first : source.IsBoundary start) (last : source.IsBoundary stop) : IsAligned source edit := by
  simp [IsAligned, named, first, last]

theorem isAligned_of_single {edit : Operation} {offset : Nat} (named : edit.offsets = [offset])
    (boundary : source.IsBoundary offset) : IsAligned source edit := by
  simp [IsAligned, named, boundary]

theorem keep_aligned : ∀ edit ∈ Rewrite.keep.edits node, IsAligned source edit := by
  simp [Rewrite.edits]

theorem aligned_child {child : Node} {field : Field} (whole : node.aligned source = true)
    (found : node.child? field = some child) : child.aligned source = true :=
  ((Node.aligned_iff _ _).mp whole).2 _ (Node.mem_parts_of_child found)

theorem aligned_start (whole : node.aligned source = true) : source.IsBoundary node.start :=
  ((Node.aligned_iff _ _).mp whole).1.1

theorem aligned_stop (whole : node.aligned source = true) : source.IsBoundary node.stop :=
  ((Node.aligned_iff _ _).mp whole).1.2

theorem awaitRewrite_aligned (tokens : reading.tokens.Aligned source)
    (whole : node.aligned source = true) (shape : Shape.Await reading.tokens node) (scope : Scope)
    (parent : Walk.Parent) :
    ∀ edit ∈ (awaitRewrite reading scope node parent).edits node, IsAligned source edit := by
  have keyword := tokens _ shape.1.1
  have last := aligned_stop whole
  unfold awaitRewrite
  split
  · simp [Rewrite.edits]
  · split
    · dsimp only [Rewrite.edits]
      split <;> simp_all [IsAligned, Operation.offsets]
    · simp [Rewrite.edits]

/-- The parenthesis of a call is found, and the parts of the call are aligned. -/
theorem bindingOf_aligned (ordered : reading.tokens.Ordered) (tokens : reading.tokens.Aligned source)
    {call callee : Node} (whole : call.aligned source = true)
    (shaped : call.shaped reading.tokens = true) (kind : call.is .callExpression = true)
    (part : (Field.callee, callee) ∈ call.parts) (member : callee.is .superMember = true) :
    ∀ edit ∈ (bindingOf reading.tokens callee call).edits, IsAligned source edit := by
  have shape : Shape.Call reading.tokens call := by
    simpa [Node.shaped, show call.kind = .callExpression by simpa [Node.is] using kind] using shaped
  obtain ⟨-, -, parenthesis, token, first, -⟩ := shape _ part rfl member
  obtain ⟨index, forward, found, -⟩ := first.findForward_eq ordered
  have bound : (bindingOf reading.tokens callee call).parenthesis = parenthesis := by
    simp only [bindingOf, forward, Option.bind_some, found, Option.getD_some]
  have ends := tokens _ token
  intro edit made
  simp only [Binding.edits, List.mem_append, List.mem_map, Option.mem_toList,
    List.mem_singleton, bound] at made
  rcases made with ⟨span, given, rfl⟩ | rfl
  · obtain ⟨arguments, child, rfl⟩ := Option.map_eq_some_iff.mp given
    have inside := aligned_child whole child
    exact isAligned_of_pair rfl (aligned_start inside) (aligned_stop inside)
  · exact isAligned_of_pair rfl ends.1 ends.2

theorem memberRewrite_aligned (ordered : reading.tokens.Ordered)
    (tokens : reading.tokens.Aligned source) (whole : node.aligned source = true)
    (kind : node.is .superMember = true) (scope : Scope) {parent : Walk.Parent}
    (seated : Seated reading.tokens node parent)
    (around : ∀ slot ∈ parent, slot.1.aligned source = true) :
    ∀ edit ∈ (memberRewrite reading scope node parent).edits node, IsAligned source edit := by
  have first := aligned_start whole
  have last := aligned_stop whole
  have use : ∀ edit ∈ (useOf reading.tokens node parent).edits node, IsAligned source edit := by
    unfold useOf
    cases called : calledBy? parent with
    | none =>
      dsimp only
      split <;> simp_all [Use.edits, IsAligned, Operation.offsets]
    | some call =>
      obtain ⟨slot, kindCall⟩ := parent_of_calledBy called
      obtain ⟨part, -, shaped⟩ := seated _ slot
      exact bindingOf_aligned ordered tokens (around _ slot) shaped kindCall part kind
  unfold memberRewrite
  split
  · dsimp only
    split
    · split
      · simp [Rewrite.edits]
      next property child =>
        have inside := aligned_child whole child
        have above := aligned_start inside
        have under := aligned_stop inside
        intro edit made
        simp only [Rewrite.edits, List.mem_cons] at made
        rcases made with rfl | rfl | later
        · exact isAligned_of_pair rfl first above
        · exact isAligned_of_pair rfl under last
        · exact use edit later
    · intro edit made
      simp only [Rewrite.edits, List.mem_cons] at made
      rcases made with rfl | later
      · exact isAligned_of_pair rfl first last
      · exact use edit later
  · simp [Rewrite.edits]

theorem assignmentRewrite_aligned (whole : node.aligned source = true) (scope : Scope) :
    ∀ edit ∈ (assignmentRewrite scope node).edits node, IsAligned source edit := by
  have last := aligned_stop whole
  unfold assignmentRewrite
  split
  next left right target value =>
    have leftWhole := aligned_child whole (superTarget_eq_some target).1
    have leftStart := aligned_start leftWhole
    have rightStart := aligned_start (aligned_child whole value)
    dsimp only
    split
    · split
      · simp [Rewrite.edits]
      next property child =>
        have inside := aligned_child leftWhole child
        have above := aligned_start inside
        have under := aligned_stop inside
        split <;> simp_all [Rewrite.edits, IsAligned, Operation.offsets]
    · split <;> simp_all [Rewrite.edits, IsAligned, Operation.offsets]
  · simp [Rewrite.edits]

theorem updateRewrite_aligned (whole : node.aligned source = true) (scope : Scope) :
    ∀ edit ∈ (updateRewrite scope node).edits node, IsAligned source edit := by
  have first := aligned_start whole
  have last := aligned_stop whole
  unfold updateRewrite
  split
  · simp [Rewrite.edits]
  · split <;> simp_all [Rewrite.edits, Use.edits, IsAligned, Operation.offsets]

/-- The particles of a loop are tokens. -/
theorem findParticles_aligned (tokens : reading.tokens.Aligned source) {body : Node}
    {particles : LoopParticles} (found : findParticles reading.tokens node body = .ok particles) :
    source.IsBoundary particles.keyword.start ∧ source.IsBoundary particles.opening.start ∧
      source.IsBoundary particles.closing.stop := by
  unfold findParticles at found
  split at found
  · simp at found
  · split at found
    · split at found
      · simp at found
      · split at found
        next keyword opening closing first second third =>
          obtain rfl := Except.ok.inj found
          exact ⟨(tokens.get first).1, (tokens.get second).1, (tokens.get third).2⟩
        next => simp at found
    · simp at found

theorem braced_aligned {tokens : Tokens} (aligned : tokens.Aligned source) {body : Node}
    (braced : Shape.Braced tokens body) :
    source.IsBoundary (body.start + 1) ∧ source.IsBoundary (body.stop - 1) :=
  ⟨(aligned _ braced.2.2.1.1.1).2, (aligned _ braced.2.2.2.1.1).1⟩

theorem loopRewrite_aligned (tokens : reading.tokens.Aligned source)
    (whole : node.aligned source = true) (shape : Shape.Loop reading.tokens node) (scope : Scope)
    (number : Nat) {parent : Walk.Parent} (around : ∀ slot ∈ parent, slot.1.aligned source = true) :
    ∀ edit ∈ (loopRewrite reading scope number node parent).edits node, IsAligned source edit := by
  have last := aligned_stop whole
  have wrap : source.IsBoundary ((labelledAt? parent).getD node.start) := by
    unfold labelledAt?
    split
    next owner =>
      split
      · exact aligned_start (around _ rfl)
      · exact aligned_start whole
    next => exact aligned_start whole
  unfold loopRewrite
  split
  · split
    next left right body target iterable inner =>
      cases found : findParticles reading.tokens node body with
      | error failure => simp [Rewrite.edits]
      | ok particles =>
        obtain ⟨keyword, opening, closing⟩ := findParticles_aligned tokens found
        have leftWhole := aligned_child whole target
        have rightWhole := aligned_child whole iterable
        have bodyWhole := aligned_child whole inner
        have leftStart := aligned_start leftWhole
        have leftStop := aligned_stop leftWhole
        have rightStart := aligned_start rightWhole
        have rightStop := aligned_stop rightWhole
        have bodyStart := aligned_start bodyWhole
        have bodyStop := aligned_stop bodyWhole
        have destination : source.IsBoundary
            (if body.is .blockStatement then body.start + 1 else body.start) := by
          split
          next block =>
            exact (braced_aligned tokens
              ((shape left target right iterable body inner).1.2.2.2.2 block)).1
          next => exact bodyStart
        dsimp only [Rewrite.edits, loopEdits]
        intro edit made
        simp only [List.mem_append, List.mem_cons, List.not_mem_nil, or_false] at made
        rcases made with ((rfl | rfl | block) | target') | rfl | rfl | rfl | rfl
        · exact isAligned_of_single rfl wrap
        · exact isAligned_of_pair rfl keyword opening
        · split at block
          · simp at block
          · simp only [List.mem_cons, List.not_mem_nil, or_false] at block
            rcases block with rfl | rfl <;> simpa [IsAligned, Operation.offsets]
        · split at target'
          · obtain rfl := List.mem_singleton.mp target'
            simpa [IsAligned, Operation.offsets]
          · simp only [List.mem_cons, List.not_mem_nil, or_false] at target'
            rcases target' with rfl | rfl <;> simpa [IsAligned, Operation.offsets]
        · intro offset named
          simp only [Operation.offsets, List.mem_cons, List.not_mem_nil, or_false] at named
          rcases named with rfl | rfl | rfl <;> assumption
        · exact isAligned_of_pair rfl leftStop rightStart
        · exact isAligned_of_pair rfl rightStop closing
        · exact isAligned_of_single rfl last
    next => simp [Rewrite.edits]
  · simp [Rewrite.edits]

/-- A function or method whose particles are tokens and whose body is between braces. -/
theorem function_aligned {removed : Span} {star : Option (Span × Text)} {body : Node}
    (first : source.IsBoundary removed.start) (last : source.IsBoundary removed.stop)
    (starred : ∀ replaced ∈ star,
      source.IsBoundary replaced.1.start ∧ source.IsBoundary replaced.1.stop)
    (braces : source.IsBoundary (body.start + 1) ∧ source.IsBoundary (body.stop - 1))
    (opening closing : Text) :
    ∀ edit ∈ (Rewrite.function removed star body opening closing).edits node,
      IsAligned source edit := by
  intro edit made
  simp only [Rewrite.edits, List.mem_append, List.mem_cons, List.not_mem_nil, or_false,
    List.mem_map, Option.mem_toList] at made
  rcases made with (rfl | ⟨replaced, given, rfl⟩) | rfl | rfl
  · exact isAligned_of_pair rfl first last
  · exact isAligned_of_pair rfl (starred replaced given).1 (starred replaced given).2
  · exact isAligned_of_single rfl braces.1
  · exact isAligned_of_single rfl braces.2

theorem functionRewrite_aligned (tokens : reading.tokens.Aligned source)
    (whole : node.aligned source = true) (shaped : node.shaped reading.tokens = true)
    (async : node.flags.isAsync = true) (kind : node.kind.isFunctionLike = true)
    (record outer : Scope) :
    ∀ edit ∈ (functionRewrite reading record outer node).edits node, IsAligned source edit := by
  have first := aligned_start whole
  have last := aligned_stop whole
  unfold functionRewrite
  cases inner : node.child? .body with
  | none => simp [Rewrite.edits]
  | some body =>
    have bodyWhole := aligned_child whole inner
    have bodyStart := aligned_start bodyWhole
    have bodyStop := aligned_stop bodyWhole
    dsimp only
    rw [Node.shaped] at shaped
    cases named : node.kind <;> rw [named] at kind shaped <;> try contradiction
    case arrowFunctionExpression =>
      have shape : Shape.Arrow reading.tokens node := by simpa [async] using shaped
      have removed : source.IsBoundary (arrowParticles reading.tokens node).stop :=
        tokens.tokenStart last
      rw [if_pos (by simp [Node.is, named])]
      by_cases block : body.is .blockStatement = true
      · rw [if_pos block]
        obtain ⟨-, next, -, -, -, -, form⟩ := shape body inner
        rw [if_pos block] at form
        have braces := braced_aligned tokens form
        intro edit made
        simp only [Rewrite.edits, List.mem_cons, List.not_mem_nil, or_false] at made
        rcases made with rfl | rfl | rfl
        · exact isAligned_of_pair rfl first removed
        · exact isAligned_of_pair rfl bodyStart braces.1
        · exact isAligned_of_pair rfl braces.2 bodyStop
      · rw [if_neg block]
        have arrow : source.IsBoundary ((((reading.tokens.findBackward body.start "=>".toList).bind
            reading.tokens.get?).map Span.stop).getD body.start) := by
          cases found : (reading.tokens.findBackward body.start "=>".toList).bind
              reading.tokens.get? with
          | none => exact bodyStart
          | some span =>
            obtain ⟨index, -, token⟩ := Option.bind_eq_some_iff.mp found
            exact (tokens.get token).2
        intro edit made
        simp only [Rewrite.edits, List.mem_cons, List.not_mem_nil, or_false] at made
        rcases made with rfl | rfl | rfl | rfl
        · exact isAligned_of_pair rfl first removed
        · exact isAligned_of_single rfl arrow
        · exact isAligned_of_single rfl bodyStart
        · exact isAligned_of_single rfl bodyStop
    case functionDeclaration | functionExpression =>
      have shape : Shape.Function reading.tokens node := by simpa [async] using shaped
      have braces := braced_aligned tokens (shape body inner).1
      simp only [Node.is, named, Kind.isMethod, Bool.false_eq_true, if_false, reduceCtorEq, beq_iff_eq]
      have begun : source.IsBoundary (functionParticles reading node).1.start := first
      have ended : source.IsBoundary (functionParticles reading node).1.stop :=
        tokens.tokenStart first
      refine function_aligned begun ended ?_ braces _ _
      intro replaced given
      unfold functionParticles at given
      dsimp only at given
      split at given
      · obtain rfl := Option.some.inj given
        dsimp only
        cases found : reading.tokens.get?
            ((reading.tokens.findForward node.start "function".toList).getD 0 + 1) with
        | none => exact ⟨first, first⟩
        | some span => exact tokens.get found
      · simp at given
    case objectMethod | classMethod =>
      have shape : Shape.Method reading.tokens node := by simpa [async] using shaped
      have braces := braced_aligned tokens (shape body inner).1
      obtain ⟨-, key, child, -⟩ := shape body inner
      have keyStart := aligned_start (aligned_child whole child)
      simp only [Node.is, named, Kind.isMethod, if_true, if_false, reduceCtorEq, beq_iff_eq,
        show node.child? .key = some key from child]
      have begun : source.IsBoundary (methodParticles reading.tokens node key).start :=
        tokens.tokenStart keyStart
      exact function_aligned begun keyStart (by simp) braces _ _

/-- The rule for a node edits at boundaries of characters. -/
theorem rewrite_aligned {place : Place} (ordered : reading.tokens.Ordered)
    (tokens : reading.tokens.Aligned source) (whole : node.aligned source = true)
    (around : ∀ slot ∈ place.parent, slot.1.aligned source = true) (fit : Fit reading node place) :
    ∀ edit ∈ (rewrite reading node place).edits node, IsAligned source edit := by
  obtain ⟨-, shaped, -⟩ := (Node.wellFormed_iff _ _).mp fit.wellFormed
  unfold rewrite
  cases opens : node.opensScope with
  | true =>
    simp only [if_true]
    by_cases lowered : (node.flags.isAsync && node.kind.isFunctionLike) = true
    · rw [if_pos lowered]
      rw [Bool.and_eq_true] at lowered
      exact functionRewrite_aligned tokens whole shaped lowered.1 lowered.2 _ _
    · rw [if_neg lowered]
      simp [Rewrite.edits]
  | false =>
    simp only [Bool.false_eq_true, if_false]
    have shape := shaped
    rw [Node.shaped] at shape
    cases named : node.kind <;> rw [named] at shape <;> dsimp only at shape ⊢ <;>
      try exact keep_aligned
    case awaitExpression =>
      exact awaitRewrite_aligned tokens whole (of_decide_eq_true shape) _ _
    case superMember =>
      exact memberRewrite_aligned ordered tokens whole (by simp [Node.is, named]) _ fit.seated around
    case assignmentExpression => exact assignmentRewrite_aligned whole _
    case updateExpression => exact updateRewrite_aligned whole _
    case callExpression =>
      unfold callRewrite
      split
      · simp [Rewrite.edits]
      · split <;> simp [Rewrite.edits]
    case labeledStatement =>
      unfold labelRewrite
      split <;> simp [Rewrite.edits]
    case forOfStatement =>
      cases loop : node.flags.isAwait with
      | false => simp [Rewrite.edits]
      | true =>
        have shape : Shape.Loop reading.tokens node := by simpa [loop] using shape
        exact loopRewrite_aligned tokens whole shape _ _ around

/-- All calls of a walk are made at boundaries of characters. -/
theorem script_aligned {place : Place} (ordered : reading.tokens.Ordered)
    (tokens : reading.tokens.Aligned source) (whole : node.aligned source = true)
    (around : ∀ slot ∈ place.parent, slot.1.aligned source = true) (fit : Fit reading node place)
    (sourceMap : Bool) : ∀ edit ∈ script reading sourceMap node place, IsAligned source edit := by
  induction node using Node.parts_induction generalizing place with
  | _ node ih =>
    rw [script_eq, (fit.carries ordered).edits]
    intro edit made
    rcases List.mem_append.mp made with mark | made
    · have first := aligned_start whole
      have last := aligned_stop whole
      cases sourceMap with
      | false => simp [markEdits] at mark
      | true =>
        simp only [markEdits, if_true, List.mem_cons, List.not_mem_nil, or_false] at mark
        rcases mark with rfl | rfl <;> simpa [IsAligned, Operation.offsets]
    · rcases List.mem_append.mp made with inside | own
      · obtain ⟨placed, part, here⟩ := List.mem_flatMap.mp inside
        refine ih placed.1 (mem_parts_of_places part)
          (((Node.aligned_iff _ _).mp whole).2 _ (mem_parts_of_places part)) ?_ (fit.part part)
          edit here
        -- the parent of a part is the node itself
        intro slot found
        rw [(mem_placesFrom part).2] at found
        obtain rfl := Option.some.inj found
        exact whole
      · exact rewrite_aligned ordered tokens whole around fit edit own

end Aligned

end Lowering

end Unawait
