import Mathlib
import Unawait.Proofs.Frontier

/-!
# What a rule touches

Two calls are compatible if what one replaces, the other one neither cuts nor replaces.
The calls of one rule are compatible with each other. They stay within the node, apart
from those made for the parent, and they spare the rewritten nodes below: bytes that a
rule replaces, and offsets where it inserts or moves, are the node's own, or they are
inside a part that is kept, which is a block or a member that is replaced with its
parent.
-/

namespace Unawait.Edit

namespace Operation

/-- What one of two calls replaces, the other one neither cuts nor replaces. -/
def Compatible (first second : Operation) : Prop :=
  (∀ replacement ∈ first.replaced?, second.Spares replacement.1) ∧
    ∀ replacement ∈ second.replaced?, first.Spares replacement.1

theorem Compatible.symm {first second : Operation} (compatible : first.Compatible second) :
    second.Compatible first :=
  ⟨compatible.2, compatible.1⟩

section Within

variable {operation other : Operation} {low high : Nat} {range : Span}

theorem Within.cuts (within : operation.Within low high) :
    ∀ offset ∈ operation.cuts, low ≤ offset ∧ offset ≤ high := by
  cases operation <;> simp only [Within, Operation.cuts] at * <;> simp <;> omega

theorem Within.replaced (within : operation.Within low high) :
    ∀ own ∈ operation.replaced?, low ≤ own.1.start ∧ own.1.start < own.1.stop ∧ own.1.stop ≤ high := by
  cases operation <;> simp only [Within, replaced?] at * <;> simp <;> omega

/-- A call within a range spares a range beside it. -/
theorem Within.spares (within : operation.Within low high)
    (beside : high ≤ range.start ∨ range.stop ≤ low) : operation.Spares range := by
  refine ⟨fun offset cut => ?_, fun own replaced => ?_⟩
  · have := within.cuts offset cut
    omega
  · have := within.replaced own replaced
    omega

/-- A call that spares a range is compatible with the calls within the range. -/
theorem Spares.compatible (spares : operation.Spares range)
    (within : other.Within range.start range.stop) : operation.Compatible other := by
  refine ⟨fun own replaced => ?_, fun replacement replaced => ?_⟩
  · exact within.spares (spares.2 own replaced).symm
  · have inside := within.replaced replacement replaced
    refine ⟨fun offset cut => ?_, fun own mine => ?_⟩
    · have := spares.1 offset cut
      omega
    · have := spares.2 own mine
      omega

end Within

/-- Calls that replace a range are compared with each other, the others only with the ranges. -/
theorem pairwise_of_spares {operations : List Operation}
    (replacing : (operations.filter fun operation => operation.replaced?.isSome).Pairwise Compatible)
    (keeping : ∀ operation ∈ operations, operation.replaced? = none →
      ∀ other ∈ operations, ∀ replacement ∈ other.replaced?, operation.Spares replacement.1) :
    operations.Pairwise Compatible := by
  refine (List.pairwise_filter.mp replacing).imp_of_mem ?_
  intro first second firstMember secondMember both
  cases here : first.replaced? with
  | none =>
    refine ⟨by simp [here], fun replacement replaced => ?_⟩
    exact keeping first firstMember here second secondMember replacement replaced
  | some own =>
    cases there : second.replaced? with
    | none =>
      refine ⟨fun replacement replaced => ?_, by simp [there]⟩
      exact keeping second secondMember there first firstMember replacement replaced
    | some other => exact both (by simp [here]) (by simp [there])

end Operation

end Unawait.Edit

namespace Unawait.Lowering

open Edit (Operation)

/-! ### Ranges below a node -/

/-- A range does not reach into another one, or across it if that one is empty. -/
def Clear (span : Span) (low high : Nat) : Prop := span.stop ≤ low ∨ high ≤ span.start

/-- A range that is not empty lies inside a part of a node. Where the rule for the node reaches into
the part, which then is a block or a member that is replaced with the node, the range lies inside a
part of that part. -/
structure Sheltered (node : Node) (span : Span) : Prop where
  nonempty : span.start < span.stop
  held : ∃ part ∈ node.parts, part.2.start ≤ span.start ∧ span.stop ≤ part.2.stop ∧
    (part.2.is .blockStatement = true ∨
        part.2.is .superMember = true ∧ isWritten (some (node, part.1)) = true →
      ∃ inner ∈ part.2.parts, inner.2.start ≤ span.start ∧ span.stop ≤ inner.2.stop)

section Clear

variable {span : Span} {low middle high : Nat} {text : Text}

theorem Clear.mono {first last : Nat} (clear : Clear span low high) (above : low ≤ first)
    (under : last ≤ high) : Clear span first last := by
  simp only [Clear] at *
  omega

theorem Clear.overwrite (clear : Clear span low high) (nonempty : low < high) :
    (Operation.overwrite low high text).Spares span := by
  simp only [Clear] at clear
  simp only [Operation.Spares, Operation.cuts, Operation.replaced?]
  simp
  omega

theorem Clear.remove (clear : Clear span low high) (nonempty : low < high) :
    (Operation.remove low high).Spares span := by
  simp only [Clear] at clear
  simp only [Operation.Spares, Operation.cuts, Operation.replaced?]
  simp
  omega

theorem Clear.insertBefore (clear : Clear span low low) :
    (Operation.insertBefore low text).Spares span := by
  simpa [Operation.Spares, Operation.cuts, Operation.replaced?] using clear.symm

theorem Clear.insertAfter (clear : Clear span low low) :
    (Operation.insertAfter low text).Spares span := by
  simpa [Operation.Spares, Operation.cuts, Operation.replaced?] using clear.symm

theorem Clear.moveRange (first : Clear span low low) (last : Clear span middle middle)
    (target : Clear span high high) : (Operation.moveRange low middle high).Spares span := by
  simpa [Operation.Spares, Operation.cuts, Operation.replaced?] using
    ⟨first.symm, last.symm, target.symm⟩

end Clear

namespace Sheltered

variable {node : Node} {span : Span} {low high : Nat} (sheltered : Sheltered node span)

include sheltered

/-- A range below reaches into another one only if a part does. -/
theorem clear_of_parts
    (apart : ∀ part ∈ node.parts, part.2.start < part.2.stop →
      part.2.stop ≤ low ∨ high ≤ part.2.start) : Clear span low high := by
  obtain ⟨nonempty, part, held, first, last, -⟩ := sheltered
  have beside := apart part held (by omega)
  simp only [Clear]
  omega

theorem clear_of_owns (owns : node.Owns ⟨low, high⟩) : Clear span low high := by
  obtain ⟨-, nonempty, -, apart⟩ := owns
  refine sheltered.clear_of_parts fun part member full => ?_
  have disjoint : min part.2.stop high ≤ max part.2.start low := apart part member
  dsimp only at nonempty
  omega

theorem clear_of_cut (cut : node.IsCut low) : Clear span low low :=
  sheltered.clear_of_parts fun part member _ => (cut part member).symm

variable (nested : node.Nested)

include nested

/-- The ends of a part that is not empty. -/
theorem clear_of_ends {part : Field × Node} (member : part ∈ node.parts)
    (nonempty : part.2.start < part.2.stop) :
    Clear span part.2.start part.2.start ∧ Clear span part.2.stop part.2.stop := by
  obtain ⟨first, last⟩ := nested.isCut_part member nonempty
  exact ⟨sheltered.clear_of_cut first, sheltered.clear_of_cut last⟩

theorem clear_of_span (beside : high ≤ node.start ∨ node.stop ≤ low) : Clear span low high := by
  refine sheltered.clear_of_parts fun part member _ => ?_
  have := nested.2.1 part member
  omega

/-- In a part that the rule for the node reaches into, only the parts of this part matter. -/
theorem clear_of_reached {part : Field × Node} (member : part ∈ node.parts)
    (reached : part.2.is .blockStatement = true ∨
      part.2.is .superMember = true ∧ isWritten (some (node, part.1)) = true)
    (full : part.2.start < part.2.stop) (above : part.2.start ≤ low) (under : high ≤ part.2.stop)
    (deeper : ∀ inner ∈ part.2.parts, inner.2.start < inner.2.stop →
      inner.2.stop ≤ low ∨ high ≤ inner.2.start) : Clear span low high := by
  obtain ⟨nonempty, other, held, first, last, inside⟩ := sheltered
  simp only [Clear]
  by_cases same : part = other
  · subst same
    obtain ⟨inner, below, start, stop⟩ := inside reached
    have beside := deeper inner below (by omega)
    omega
  · have disjoint := nested.disjoint member held same
    omega

/-- The braces of a body. -/
theorem clear_of_block {body : Node} (child : node.child? .body = some body)
    (block : BlockFits body) :
    Clear span body.start (body.start + 1) ∧ Clear span (body.stop - 1) body.stop := by
  have member := Node.mem_parts_of_child child
  have wide := block.wide
  have own {first last : Nat} (owns : body.Owns ⟨first, last⟩) : ∀ inner ∈ body.parts,
      inner.2.start < inner.2.stop → inner.2.stop ≤ first ∨ last ≤ inner.2.start := by
    intro inner below full
    obtain ⟨-, nonempty, -, apart⟩ := owns
    have disjoint : min inner.2.stop last ≤ max inner.2.start first := apart inner below
    dsimp only at nonempty
    omega
  constructor
  · exact sheltered.clear_of_reached nested member (.inl block.block) (by dsimp only; omega) le_rfl
      (by dsimp only; omega) (own block.opening)
  · exact sheltered.clear_of_reached nested member (.inl block.block) (by dsimp only; omega)
      (by dsimp only; omega) le_rfl (own block.closing)

/-- The ends of the key of a member that is replaced with its parent. -/
theorem clear_of_key {field : Field} {member property : Node} (part : (field, member) ∈ node.parts)
    (super : member.is .superMember = true) (written : isWritten (some (node, field)) = true)
    (memberNested : member.Nested) (keyed : (Field.property, property) ∈ member.parts)
    (nonempty : property.start < property.stop) :
    Clear span property.start property.start ∧ Clear span property.stop property.stop := by
  obtain ⟨above, under⟩ := memberNested.2.1 _ keyed
  obtain ⟨first, last⟩ := memberNested.isCut_part keyed nonempty
  dsimp only at above under first last
  constructor
  · exact sheltered.clear_of_reached nested part (.inr ⟨super, written⟩) (by dsimp only; omega) above
      (by dsimp only; omega) fun inner below _ => (first inner below).symm
  · exact sheltered.clear_of_reached nested part (.inr ⟨super, written⟩) (by dsimp only; omega)
      (by dsimp only; omega) under fun inner below _ => (last inner below).symm

end Sheltered

/-! ### Bytes without rewritten nodes -/

/-- No rewritten node below a node reaches into a range, or across it if it is empty. -/
def Outside (reading : Reading) (node : Node) (place : Place) (low high : Nat) : Prop :=
  ∀ inner ∈ below reading node place, inner.1.stop ≤ low ∨ high ≤ inner.1.start

/-- A call spares all rewritten nodes below a node. -/
def Clears (reading : Reading) (node : Node) (place : Place) (operation : Operation) : Prop :=
  ∀ inner ∈ below reading node place, operation.Spares inner.1.span

theorem kept_of_block {reading : Reading} {node : Node} {place : Place}
    (block : node.is .blockStatement = true) : (rewrite reading node place).isKeep = true := by
  have named : node.kind = .blockStatement := by simpa [Node.is] using block
  simp [rewrite, Node.opensScope, Node.is, named, Kind.ownsReceiver, Rewrite.isKeep]

theorem kept_of_written {reading : Reading} {node : Node} {place : Place}
    (member : node.is .superMember = true) (written : isWritten place.parent = true) :
    (rewrite reading node place).isKeep = true := by
  have named : node.kind = .superMember := by simpa [Node.is] using member
  simp [rewrite, Node.opensScope, Node.is, named, Kind.ownsReceiver, Rewrite.isKeep, memberRewrite,
    written]

theorem exists_place {node : Node} {place : Place} {part : Field × Node} (member : part ∈ node.parts) :
    ∃ placed ∈ places node place, placed.1 = part := by
  rw [← placesFrom_fst node place.scope place.number node.parts] at member
  exact List.mem_map.mp member

section Outside

variable {reading : Reading} {node : Node} {place : Place} {low middle high : Nat}

theorem Outside.mono {first last : Nat} (outside : Outside reading node place low high)
    (above : low ≤ first) (under : last ≤ high) : Outside reading node place first last :=
  fun inner member => Clear.mono (outside inner member) above under

theorem outside_of_parts_nil (none : node.parts = []) : Outside reading node place low high := by
  intro inner member
  obtain ⟨placed, part, -⟩ := mem_below.mp member
  simpa [none] using mem_parts_of_places part

variable (ordered : reading.tokens.Ordered) (fit : Fit reading node place)

include ordered fit

/-- Parts that a rule reaches into are kept, so a rewritten node below is not such a part. -/
theorem sheltered_of_below {inner : Node × Place} (member : inner ∈ below reading node place) :
    Sheltered node inner.1.span := by
  obtain ⟨placed, part, here, found⟩ := inner_of_below ordered fit member
  refine ⟨found.nonempty, placed.1, mem_parts_of_places part, found.first, found.last,
    fun reached => ?_⟩
  have kept : (rewrite reading placed.1.2 placed.2).isKeep = true := by
    rcases reached with block | ⟨super, written⟩
    · exact kept_of_block block
    · exact kept_of_written super (by rw [(mem_placesFrom part).2]; exact written)
  rw [frontier_of_keep kept] at here
  obtain ⟨deeper, inside, -, within⟩ := inner_of_below ordered (fit.part part) here
  exact ⟨deeper.1, mem_parts_of_places inside, within.first, within.last⟩

/-- A rewritten node reaches into a range only if a part does. -/
theorem outside_of_parts
    (apart : ∀ part ∈ node.parts, part.2.start < part.2.stop →
      part.2.stop ≤ low ∨ high ≤ part.2.start) : Outside reading node place low high :=
  fun _ member => (sheltered_of_below ordered fit member).clear_of_parts apart

theorem outside_of_owns (owns : node.Owns ⟨low, high⟩) : Outside reading node place low high :=
  fun _ member => (sheltered_of_below ordered fit member).clear_of_owns owns

/-- The ends of a part that is not empty. -/
theorem outside_of_ends {part : Field × Node} (member : part ∈ node.parts)
    (nonempty : part.2.start < part.2.stop) :
    Outside reading node place part.2.start part.2.start ∧
      Outside reading node place part.2.stop part.2.stop :=
  forall₂_and.mp fun _ inside =>
    (sheltered_of_below ordered fit inside).clear_of_ends fit.nested member nonempty

theorem outside_of_span (beside : high ≤ node.start ∨ node.stop ≤ low) :
    Outside reading node place low high :=
  fun _ member => (sheltered_of_below ordered fit member).clear_of_span fit.nested beside

theorem Outside.join (first : Outside reading node place low middle)
    (second : Outside reading node place middle high) : Outside reading node place low high := by
  intro inner member
  obtain ⟨-, -, -, -, -, nonempty, -⟩ := inner_of_below ordered fit member
  have left := first inner member
  have right := second inner member
  omega

/-- In a part that is kept, only the nodes below it matter. -/
theorem outside_of_kept {placed : (Field × Node) × Place} (part : placed ∈ places node place)
    (nonempty : placed.1.2.start < placed.1.2.stop) (above : placed.1.2.start ≤ low)
    (under : high ≤ placed.1.2.stop)
    (deeper : ∀ inner ∈ frontier reading placed.1.2 placed.2,
      inner.1.stop ≤ low ∨ high ≤ inner.1.start) : Outside reading node place low high := by
  intro inner member
  obtain ⟨other, otherPart, here, -, first, full, last⟩ := inner_of_below ordered fit member
  by_cases same : placed = other
  · exact deeper inner (same ▸ here)
  have disjoint : min placed.1.2.stop other.1.2.stop ≤ max placed.1.2.start other.1.2.start :=
    Span.disjoint_of_pairwise (@places_pairwise node place _ fit.nested.2.2) part otherPart same
  omega

end Outside

/-! ### The calls of a loop -/

section Loop

variable (number : Nat) (marker : Bool) (wrapped : Nat) (particles : LoopParticles)
variable (node left right body : Node)

/-- The calls of a loop, one by one. -/
inductive LoopCall : Operation → Prop
  | wrap : LoopCall (.insertAfter wrapped "try\x7b".toList)
  | strip : LoopCall (.remove particles.keyword.start particles.opening.start)
  | openBody : LoopCall (.insertBefore body.start "\x7b".toList)
  | closeBody : LoopCall (.insertBefore body.stop "\x7d".toList)
  | openTarget : LoopCall (.insertAfter left.start "(".toList)
  | assign (text : Text) : LoopCall (.insertBefore left.stop text)
  | move : LoopCall (.moveRange left.start left.stop
      (if body.is .blockStatement then body.start + 1 else body.start))
  | head : LoopCall (.overwrite left.stop right.start (loopHead number))
  | test : LoopCall (.overwrite right.stop particles.closing.stop (loopTest number marker))
  | cleanup : LoopCall (.insertBefore node.stop (loopCleanup number marker))

variable {number marker wrapped particles node left right body}

theorem loopCall_of_mem {edit : Operation}
    (made : edit ∈ loopEdits number marker wrapped particles node left right body) :
    LoopCall number marker wrapped particles node left right body edit := by
  simp only [loopEdits, List.cons_append, List.mem_cons, List.mem_append, List.not_mem_nil,
    or_false] at made
  rcases made with rfl | rfl | (made | made) | rfl | rfl | rfl | rfl
  · exact .wrap
  · exact .strip
  · split at made
    · simp at made
    · simp only [List.mem_cons, List.not_mem_nil, or_false] at made
      rcases made with rfl | rfl
      · exact .openBody
      · exact .closeBody
  · split at made
    · rw [List.mem_singleton.mp made]
      exact .assign _
    · simp only [List.mem_cons, List.not_mem_nil, or_false] at made
      rcases made with rfl | rfl
      · exact .openTarget
      · exact .assign _
  · exact .move
  · exact .head
  · exact .test
  · exact .cleanup

/-- The `try` of a loop goes to its start, or further up. -/
theorem LoopFits.wrapped_le {labelled : Option Nat}
    (fits : LoopFits node labelled particles left right body) :
    labelled.getD node.start ≤ node.start := by
  cases labelled with
  | none => exact le_rfl
  | some offset => exact (fits.outside offset rfl).le

end Loop

/-! ### The rules spare what is below -/

/-- Whether a rewrite replaces parts of its node, or bytes of them, along with its own. -/
def Rewrite.replacesParts : Rewrite → Bool
  | .name _ _ | .key _ _ | .assignName _ _ _ _ | .assignKey _ _ _ | .call _ => true
  | _ => false

section Rules

variable {reading : Reading} {node : Node} {place : Place} {span : Span} {edit : Operation}

theorem spares_use {use : Use} (sheltered : Sheltered node span) (nested : node.Nested)
    (beside : ∀ binding, use = .called binding → binding.Beside node)
    (made : edit ∈ use.edits node) : edit.Spares span := by
  cases use with
  | value => simp [Use.edits] at made
  | constructed =>
    simp only [Use.edits, List.mem_cons, List.not_mem_nil, or_false] at made
    rcases made with rfl | rfl
    · exact (sheltered.clear_of_span nested (.inl le_rfl)).insertAfter
    · exact (sheltered.clear_of_span nested (.inr le_rfl)).insertBefore
  | called binding =>
    obtain ⟨nonempty, apart, dropped⟩ := beside binding rfl
    simp only [Use.edits, Binding.edits, List.mem_append, List.mem_map, Option.mem_toList,
      List.mem_singleton] at made
    rcases made with ⟨types, given, rfl⟩ | rfl
    · obtain ⟨full, -, separate⟩ := dropped types given
      exact (sheltered.clear_of_span nested separate).remove full
    · exact (sheltered.clear_of_span nested apart).overwrite nonempty

theorem loopEdits_spare {number : Nat} {marker : Bool} {labelled : Option Nat}
    {particles : LoopParticles} {left right body : Node} (sheltered : Sheltered node span)
    (nested : node.Nested) (fits : LoopFits node labelled particles left right body)
    (made : edit ∈ loopEdits number marker (labelled.getD node.start) particles node left right body) :
    edit.Spares span := by
  obtain ⟨leftStart, leftStop⟩ := sheltered.clear_of_ends nested fits.leftPart fits.leftNonempty
  obtain ⟨bodyStart, bodyStop⟩ :=
    sheltered.clear_of_ends nested (Node.mem_parts_of_child fits.bodyPart) fits.bodyNonempty
  have destination : Clear span
      (if body.is .blockStatement then body.start + 1 else body.start)
      (if body.is .blockStatement then body.start + 1 else body.start) := by
    split
    next block =>
      exact (sheltered.clear_of_block nested fits.bodyPart (fits.block block)).1.mono (by omega) le_rfl
    next => exact bodyStart
  have head := sheltered.clear_of_owns (fits.keyword.mono le_rfl fits.opened fits.opening)
  cases loopCall_of_mem made with
  | wrap => exact (sheltered.clear_of_span nested (.inl fits.wrapped_le)).insertAfter
  | strip => exact head.remove fits.opened
  | openBody => exact bodyStart.insertBefore
  | closeBody => exact bodyStop.insertBefore
  | openTarget => exact leftStart.insertAfter
  | assign text => exact leftStop.insertBefore
  | move => exact leftStart.moveRange leftStop destination
  | head => exact (sheltered.clear_of_owns fits.between).overwrite fits.between.2.1
  | test => exact (sheltered.clear_of_owns fits.closing).overwrite fits.closing.2.1
  | cleanup => exact (sheltered.clear_of_span nested (.inr le_rfl)).insertBefore

variable (ordered : reading.tokens.Ordered) (fit : Fit reading node place)

include ordered fit

/-- The calls of the rule for a node spare a range below that is not replaced as a whole. -/
theorem edits_spare (sheltered : Sheltered node span)
    (kept : (rewrite reading node place).replacesParts = true →
      ∀ own ∈ edit.replaced?, ¬ (own.1.start ≤ span.start ∧ span.stop ≤ own.1.stop))
    (made : edit ∈ (rewrite reading node place).edits node) : edit.Spares span := by
  have nested := fit.nested
  have fits := (fit.carries ordered).fits
  have form := rewrite_of reading node place
  have seen {range : Span} {text : Text}
      (parts : (rewrite reading node place).replacesParts = true)
      (replaced : edit.replaced? = some (range, text)) (first : Clear span range.start range.start)
      (last : Clear span range.stop range.stop) : Clear span range.start range.stop := by
    have whole := kept parts _ replaced
    simp only [Clear] at *
    omega
  have atStart : Clear span node.start node.start := sheltered.clear_of_span nested (.inl le_rfl)
  have atStop : Clear span node.stop node.stop := sheltered.clear_of_span nested (.inr le_rfl)
  generalize rewrite reading node place = rule at made fits form seen
  cases rule with
  | keep => simp [Rewrite.edits] at made
  | await opening closing =>
    simp only [Rewrite.edits, List.mem_cons] at made
    rcases made with rfl | made
    · exact (sheltered.clear_of_owns fits).overwrite (by omega)
    · split at made
      · simp at made
      · rw [List.mem_singleton.mp made]
        exact atStop.insertBefore
  | name text use =>
    -- here, and in the next three forms, parts are replaced too, so offsets tell only of the ends
    rcases List.mem_cons.mp made with rfl | made
    · exact Clear.overwrite (seen rfl rfl atStart atStop) fits.1
    · exact spares_use sheltered nested fits.2 made
  | key property use =>
    obtain ⟨part, above, nonempty, under, beside⟩ := fits
    obtain ⟨first, last⟩ := sheltered.clear_of_ends nested part nonempty
    simp only [Rewrite.edits, List.mem_cons] at made
    rcases made with rfl | rfl | made
    · exact Clear.overwrite (seen rfl rfl atStart first) above
    · exact Clear.overwrite (seen rfl rfl last atStop) under
    · exact spares_use sheltered nested beside made
  | assignName left right head tail =>
    obtain ⟨leftPart, rightPart, nonempty, owns, rightNonempty⟩ := fits
    have wide := owns.2.1
    simp only [Rewrite.edits, List.mem_cons, List.not_mem_nil, or_false] at made
    rcases made with rfl | rfl
    · refine Clear.overwrite (seen rfl rfl (sheltered.clear_of_ends nested leftPart nonempty).1
        (sheltered.clear_of_ends nested rightPart rightNonempty).1) ?_
      dsimp only at wide
      omega
    · exact atStop.insertBefore
  | assignKey left property right =>
    obtain ⟨child, -, rightPart, part, above, nonempty, under, owns, rightNonempty⟩ := fits
    obtain ⟨assigns, -, member, -⟩ := form
    have leftPart := Node.mem_parts_of_child child
    have written : isWritten (some (node, .left)) = true := by simp [isWritten, assigns]
    have leftNested : left.Nested := ((Node.wellFormed_iff _ _).mp
      (((Node.wellFormed_iff _ _).mp fit.wellFormed).2.2 _ leftPart)).1
    obtain ⟨first, last⟩ :=
      sheltered.clear_of_key nested leftPart member written leftNested part nonempty
    have wide := owns.2.1
    simp only [Rewrite.edits, List.mem_cons, List.not_mem_nil, or_false] at made
    rcases made with rfl | rfl | rfl
    · exact Clear.overwrite
        (seen rfl rfl (sheltered.clear_of_ends nested leftPart (by dsimp only; omega)).1 first) above
    · refine Clear.overwrite
        (seen rfl rfl last (sheltered.clear_of_ends nested rightPart rightNonempty).1) ?_
      dsimp only at wide
      omega
    · exact atStop.insertBefore
  | call binding => simp [Rewrite.edits] at made
  | label => simp [Rewrite.edits] at made
  | loop number marker labelled particles left right body =>
    exact loopEdits_spare sheltered nested fits made
  | function removed star body opening closing =>
    have wide := fits.block.wide
    obtain ⟨first, last⟩ := sheltered.clear_of_block nested fits.bodyPart fits.block
    simp only [Rewrite.edits, List.cons_append, List.mem_cons, List.mem_append, List.mem_map,
      Option.mem_toList, List.not_mem_nil, or_false] at made
    rcases made with rfl | ⟨replaced, given, rfl⟩ | rfl | rfl
    · exact (sheltered.clear_of_owns fits.owns).remove fits.owns.2.1
    · obtain ⟨-, owns, -⟩ := fits.star replaced given
      exact (sheltered.clear_of_owns owns).overwrite owns.2.1
    · exact (first.mono (by omega) le_rfl).insertBefore
    · exact (last.mono le_rfl (by omega)).insertBefore
  | arrowBlock removed body opening closing =>
    obtain ⟨fits, block⟩ := fits
    have wide := block.wide
    obtain ⟨first, last⟩ := sheltered.clear_of_block nested fits.bodyPart block
    simp only [Rewrite.edits, List.mem_cons, List.not_mem_nil, or_false] at made
    rcases made with rfl | rfl | rfl
    · exact (sheltered.clear_of_owns fits.owns).remove fits.owns.2.1
    · exact first.overwrite (by omega)
    · exact last.overwrite (by omega)
  | arrowValue removed arrowStop body opening closing =>
    obtain ⟨fits, nonempty, -, -, cut⟩ := fits
    obtain ⟨first, last⟩ :=
      sheltered.clear_of_ends nested (Node.mem_parts_of_child fits.bodyPart) nonempty
    simp only [Rewrite.edits, List.mem_cons, List.not_mem_nil, or_false] at made
    rcases made with rfl | rfl | rfl | rfl
    · exact (sheltered.clear_of_owns fits.owns).remove fits.owns.2.1
    · exact (sheltered.clear_of_cut cut).insertBefore
    · exact first.insertAfter
    · exact last.insertBefore

/-- The calls made for a node by the rule for a part spare a range below that is not replaced as a
whole. -/
theorem hosted_spare (sheltered : Sheltered node span)
    (kept : ∀ own ∈ edit.replaced?, ¬ (own.1.start ≤ span.start ∧ span.stop ≤ own.1.stop))
    (made : edit ∈ (rewrite reading node place).hosted node) : edit.Spares span := by
  have fits := (fit.carries ordered).fits
  generalize rewrite reading node place = rule at made fits
  cases rule with
  | call binding =>
    obtain ⟨owns, dropped⟩ := fits
    simp only [Rewrite.hosted, Binding.edits, List.mem_append, List.mem_map, Option.mem_toList,
      List.mem_singleton] at made
    rcases made with ⟨types, given, rfl⟩ | rfl
    · obtain ⟨full, -, part, member, rfl⟩ := dropped types given
      have ends := sheltered.clear_of_ends fit.nested member full
      have whole : ¬ (part.2.start ≤ span.start ∧ span.stop ≤ part.2.stop) := kept _ rfl
      have clear : Clear span part.2.start part.2.stop := by
        simp only [Clear] at *
        omega
      exact clear.remove full
    · exact (sheltered.clear_of_owns owns).overwrite owns.2.1
  | label =>
    rw [List.mem_singleton.mp made]
    exact (sheltered.clear_of_span fit.nested (.inl le_rfl)).insertAfter
  | _ => simp [Rewrite.hosted] at made

theorem clears_use {use : Use} (beside : ∀ binding, use = .called binding → binding.Beside node)
    (made : edit ∈ use.edits node) : Clears reading node place edit :=
  fun _ member => spares_use (sheltered_of_below ordered fit member) fit.nested beside made

/-- The calls of the rule for a node spare the rewritten nodes below. -/
theorem edits_clear
    (visible : (rewrite reading node place).replacesParts = true → Visible reading node place)
    (made : edit ∈ (rewrite reading node place).edits node) : Clears reading node place edit := by
  intro inner member
  refine edits_spare ordered fit (sheltered_of_below ordered fit member) (fun parts => ?_) made
  exact ((visible_iff _ _ _).mp (visible parts)).1 inner member edit (List.mem_append_left _ made)

/-- The calls made for a node by the rule for a part spare the rewritten nodes below. -/
theorem hosted_clear (visible : Visible reading node place)
    (made : edit ∈ (rewrite reading node place).hosted node) : Clears reading node place edit := by
  intro inner member
  refine hosted_spare ordered fit (sheltered_of_below ordered fit member) ?_ made
  exact ((visible_iff _ _ _).mp visible).1 inner member edit (List.mem_append_right _ made)

/-! ### The calls of one rule -/

omit ordered fit in
theorem use_within {use : Use} (nonempty : node.start < node.stop) {edit : Operation}
    (made : edit ∈ use.edits node) :
    edit.Within node.start node.stop ∨ edit ∈ use.guests := by
  cases use with
  | value => simp [Use.edits] at made
  | constructed =>
    simp only [Use.edits, List.mem_cons, List.not_mem_nil, or_false] at made
    rcases made with rfl | rfl
    · exact .inl ⟨le_rfl, nonempty⟩
    · exact .inl ⟨nonempty, le_rfl⟩
  | called binding => exact .inr made

omit ordered fit in
/-- The calls of a loop stay within it, apart from the `try` that goes in front of a label. -/
theorem loopEdits_within {number : Nat} {marker : Bool} {labelled : Option Nat}
    {particles : LoopParticles} {left right body : Node}
    (fits : LoopFits node labelled particles left right body) (nested : node.Nested)
    (full : node.start < node.stop)
    (made : edit ∈ loopEdits number marker (labelled.getD node.start) particles node left right body) :
    edit.Within node.start node.stop ∨
      edit ∈ (Rewrite.loop number marker labelled particles left right body).guests := by
  obtain ⟨-, inside, -⟩ := nested
  have leftInside := inside _ fits.leftPart
  have rightInside := inside _ fits.rightPart
  have bodyInside := inside _ (Node.mem_parts_of_child fits.bodyPart)
  have wide := fun isBlock => (fits.block isBlock).wide
  obtain ⟨-, -, -, -, begun, opened, -, opening, beforeLeft, leftNonempty, ⟨-, between, -, -⟩,
    rightNonempty, ⟨-, closing, -, -⟩, beforeBody, bodyNonempty, -⟩ := fits
  dsimp only at *
  cases loopCall_of_mem made with
  | wrap =>
    cases labelled with
    | none => exact .inl ⟨le_rfl, full⟩
    | some offset => exact .inr (by simp [Rewrite.guests])
  | strip => exact .inl ⟨by omega, opened, by omega⟩
  | openBody => exact .inl ⟨by omega, by omega⟩
  | closeBody => exact .inl ⟨by omega, by omega⟩
  | openTarget => exact .inl ⟨by omega, by omega⟩
  | assign text => exact .inl ⟨by omega, by omega⟩
  | move =>
    left
    simp only [Operation.Within]
    split
    next isBlock =>
      have := wide isBlock
      omega
    next => omega
  | head => exact .inl ⟨by omega, between, by omega⟩
  | test => exact .inl ⟨by omega, closing, by omega⟩
  | cleanup => exact .inl ⟨full, le_rfl⟩

omit ordered fit in
/-- The calls of a rule stay within the node, apart from those made for the parent. -/
theorem Rewrite.edits_within {rule : Rewrite} (fits : rule.Fits node) (nested : node.Nested)
    (full : rule.isKeep = false → node.start < node.stop) {edit : Operation}
    (made : edit ∈ rule.edits node) : edit.Within node.start node.stop ∨ edit ∈ rule.guests := by
  have inside := nested.2.1
  cases rule with
  | keep => simp [Rewrite.edits] at made
  | await opening closing =>
    obtain ⟨-, -, last, -⟩ := fits
    have nonempty := full rfl
    left
    simp only [Rewrite.edits, List.mem_cons] at made
    rcases made with rfl | made
    · exact ⟨le_rfl, by omega, last⟩
    · split at made
      · simp at made
      · rw [List.mem_singleton.mp made]
        exact ⟨nonempty, le_rfl⟩
  | name text use =>
    rcases List.mem_cons.mp made with rfl | made
    · exact .inl ⟨le_rfl, fits.1, le_rfl⟩
    · exact use_within fits.1 made
  | key property use =>
    obtain ⟨part, above, nonempty, under, -⟩ := fits
    simp only [Rewrite.edits, List.mem_cons] at made
    rcases made with rfl | rfl | made
    · exact .inl ⟨le_rfl, above, by omega⟩
    · exact .inl ⟨by omega, under, le_rfl⟩
    · exact use_within (full rfl) made
  | assignName left right head tail =>
    obtain ⟨leftPart, rightPart, nonempty, ⟨-, wide, -, -⟩, rightNonempty⟩ := fits
    have leftInside := inside _ leftPart
    have rightInside := inside _ rightPart
    left
    simp only [Rewrite.edits, List.mem_cons, List.not_mem_nil, or_false] at made
    rcases made with rfl | rfl <;> simp only [Operation.Within] <;> dsimp only at * <;> omega
  | assignKey left property right =>
    obtain ⟨child, -, rightPart, -, above, nonempty, under, ⟨-, wide, -, -⟩, rightNonempty⟩ := fits
    have leftInside := inside _ (Node.mem_parts_of_child child)
    have rightInside := inside _ rightPart
    left
    simp only [Rewrite.edits, List.mem_cons, List.not_mem_nil, or_false] at made
    rcases made with rfl | rfl | rfl <;> simp only [Operation.Within] <;> dsimp only at * <;> omega
  | call binding => simp [Rewrite.edits] at made
  | label => simp [Rewrite.edits] at made
  | loop number marker labelled particles left right body =>
    exact loopEdits_within fits nested (full rfl) made
  | function removed star body opening closing =>
    have bodyInside := inside _ (Node.mem_parts_of_child fits.bodyPart)
    have wide := fits.block.wide
    obtain ⟨first, nonempty, last, -⟩ := fits.owns
    left
    simp only [Rewrite.edits, List.cons_append, List.mem_cons, List.mem_append, List.mem_map,
      Option.mem_toList, List.not_mem_nil, or_false] at made
    rcases made with rfl | ⟨replaced, given, rfl⟩ | rfl | rfl
    · exact ⟨first, nonempty, last⟩
    · obtain ⟨-, ⟨starFirst, starNonempty, starLast, -⟩, -⟩ := fits.star replaced given
      exact ⟨starFirst, starNonempty, starLast⟩
    · simp only [Operation.Within]
      dsimp only at *
      omega
    · simp only [Operation.Within]
      dsimp only at *
      omega
  | arrowBlock removed body opening closing =>
    obtain ⟨fits, block⟩ := fits
    have bodyInside := inside _ (Node.mem_parts_of_child fits.bodyPart)
    have wide := block.wide
    obtain ⟨first, nonempty, last, -⟩ := fits.owns
    left
    simp only [Rewrite.edits, List.mem_cons, List.not_mem_nil, or_false] at made
    rcases made with rfl | rfl | rfl <;> simp only [Operation.Within] <;> dsimp only at * <;> omega
  | arrowValue removed arrowStop body opening closing =>
    obtain ⟨fits, bodyNonempty, behind, beforeBody, -⟩ := fits
    have bodyInside := inside _ (Node.mem_parts_of_child fits.bodyPart)
    obtain ⟨first, nonempty, last, -⟩ := fits.owns
    left
    simp only [Rewrite.edits, List.mem_cons, List.not_mem_nil, or_false] at made
    rcases made with rfl | rfl | rfl | rfl <;> simp only [Operation.Within] <;> dsimp only at * <;> omega

theorem edits_within {edit : Operation} (made : edit ∈ (rewrite reading node place).edits node) :
    edit.Within node.start node.stop ∨ edit ∈ (rewrite reading node place).guests :=
  Rewrite.edits_within (fit.carries ordered).fits fit.nested (fit.nonempty ordered) made

/-- The calls made for a node by the rule for a part stay within the node. -/
theorem hosted_within {edit : Operation} (made : edit ∈ (rewrite reading node place).hosted node) :
    edit.Within node.start node.stop := by
  have fits := (fit.carries ordered).fits
  obtain ⟨-, inside, -⟩ := fit.nested
  generalize rewrite reading node place = rule at made fits
  cases rule with
  | call binding =>
    obtain ⟨⟨first, nonempty, last, -⟩, dropped⟩ := fits
    simp only [Rewrite.hosted, Binding.edits, List.mem_append, List.mem_map, Option.mem_toList,
      List.mem_singleton] at made
    rcases made with ⟨span, given, rfl⟩ | rfl
    · obtain ⟨full, -, part, member, rfl⟩ := dropped span given
      obtain ⟨low, high⟩ := inside part member
      exact ⟨low, full, high⟩
    · exact ⟨first, nonempty, last⟩
  | label =>
    obtain ⟨-, -, last, -⟩ := fits
    rw [List.mem_singleton.mp made]
    dsimp only at last
    exact ⟨le_rfl, by omega⟩
  | _ => simp [Rewrite.hosted] at made

omit ordered fit in
theorem binding_pairwise {binding : Binding}
    (dropped : ∀ span ∈ binding.dropped, span.start < span.stop ∧
      span.stop ≤ binding.parenthesis.start)
    (nonempty : binding.parenthesis.start < binding.parenthesis.stop) :
    binding.edits.Pairwise Operation.Compatible := by
  cases given : binding.dropped with
  | none => simp [Binding.edits, given]
  | some span =>
    obtain ⟨full, before⟩ := dropped span given
    simp [Binding.edits, given, Operation.Compatible, Operation.Spares, Operation.cuts,
      Operation.replaced?]
    omega

omit ordered fit in
/-- The calls that finish a member spare the member. -/
theorem use_pairwise {use : Use}
    (beside : ∀ binding, use = .called binding → binding.Beside node) :
    (use.edits node).Pairwise Operation.Compatible ∧
      ∀ edit ∈ use.edits node, edit.Spares node.span := by
  cases use with
  | value => simp [Use.edits]
  | constructed =>
    have first : node.start = node.span.start := rfl
    have last : node.stop = node.span.stop := rfl
    simp [Use.edits, Operation.Compatible, Operation.Spares, Operation.cuts, Operation.replaced?,
      first, last]
  | called binding =>
    obtain ⟨nonempty, apart, dropped⟩ := beside binding rfl
    refine ⟨binding_pairwise (fun span given => ?_) nonempty, fun edit made => ?_⟩
    · obtain ⟨full, before, -⟩ := dropped span given
      exact ⟨full, before⟩
    · simp only [Use.edits, Binding.edits, List.mem_append, List.mem_map, Option.mem_toList,
        List.mem_singleton] at made
      rcases made with ⟨span, given, rfl⟩ | rfl
      · obtain ⟨full, -, separate⟩ := dropped span given
        have within : (Operation.remove span.start span.stop).Within span.start span.stop :=
          ⟨le_rfl, full, le_rfl⟩
        exact within.spares separate
      · have within : (Operation.overwrite binding.parenthesis.start binding.parenthesis.stop
            binding.text).Within binding.parenthesis.start binding.parenthesis.stop :=
          ⟨le_rfl, nonempty, le_rfl⟩
        exact within.spares apart

omit ordered fit in
/-- The ranges that a loop replaces. -/
theorem replaced_of_loopEdits {number wrapped : Nat} {marker : Bool} {particles : LoopParticles}
    {left right body : Node} :
    (loopEdits number marker wrapped particles node left right body).filter
        (fun edit => edit.replaced?.isSome) =
      [.remove particles.keyword.start particles.opening.start,
        .overwrite left.stop right.start (loopHead number),
        .overwrite right.stop particles.closing.stop (loopTest number marker)] := by
  cases isBlock : body.is .blockStatement <;> cases declares : left.is .variableDeclaration <;>
    simp [loopEdits, isBlock, declares, Operation.replaced?]

omit ordered fit in
theorem loopEdits_pairwise {number : Nat} {marker : Bool} {labelled : Option Nat}
    {particles : LoopParticles} {left right body : Node}
    (fits : LoopFits node labelled particles left right body) (last : body.stop ≤ node.stop) :
    (loopEdits number marker (labelled.getD node.start) particles node left right body).Pairwise
      Operation.Compatible := by
  have before := fits.wrapped_le
  obtain ⟨-, -, -, -, begun, opened, -, opening, beforeLeft, leftNonempty, ⟨-, between, -, -⟩,
    rightNonempty, ⟨-, closing, -, -⟩, beforeBody, bodyNonempty, -⟩ := fits
  generalize labelled.getD node.start = wrapped at before
  dsimp only at between closing
  apply Operation.pairwise_of_spares
  · rw [replaced_of_loopEdits]
    simp only [List.pairwise_cons, List.mem_cons, List.not_mem_nil, or_false, forall_eq_or_imp,
      forall_eq, Operation.Compatible, Operation.Spares, Operation.cuts, Operation.replaced?,
      Option.mem_def, Option.some.injEq, forall_eq']
    and_intros <;> first | omega | simp
  · intro edit made keeps other another replacement replaced
    have chosen : other ∈ (loopEdits number marker wrapped particles node left right body).filter
        (fun edit => edit.replaced?.isSome) :=
      List.mem_filter.mpr ⟨another, by rw [replaced]; rfl⟩
    have range : replacement.1 = ⟨particles.keyword.start, particles.opening.start⟩ ∨
        replacement.1 = ⟨left.stop, right.start⟩ ∨
        replacement.1 = ⟨right.stop, particles.closing.stop⟩ := by
      rw [replaced_of_loopEdits] at chosen
      simp only [List.mem_cons, List.not_mem_nil, or_false] at chosen
      rcases chosen with rfl | rfl | rfl <;> simp only [Operation.replaced?, Option.mem_def,
        Option.some.injEq] at replaced <;> simp [← replaced]
    have cut (offset : Nat) (between : offset ≤ particles.keyword.start ∨ offset = left.start ∨
        offset = left.stop ∨ particles.closing.stop ≤ offset) :
        offset ≤ replacement.1.start ∨ replacement.1.stop ≤ offset := by
      rcases range with range | range | range <;> rw [range] <;> dsimp only <;> omega
    refine ⟨fun offset cuts => cut offset ?_, by simp [keeps]⟩
    cases loopCall_of_mem made with
    | strip | head | test => simp [Operation.replaced?] at keeps
    | move =>
      simp only [Operation.cuts, List.mem_cons, List.not_mem_nil, or_false] at cuts
      split at cuts <;> omega
    | _ =>
      simp only [Operation.cuts, List.mem_singleton] at cuts
      omega

/-- The calls of one rule are compatible. -/
theorem edits_pairwise :
    ((rewrite reading node place).edits node).Pairwise Operation.Compatible := by
  have fits := (fit.carries ordered).fits
  obtain ⟨-, inside, -⟩ := fit.nested
  have full : (rewrite reading node place).isKeep = false → node.start < node.stop :=
    fit.nonempty ordered
  generalize rewrite reading node place = rule at fits full
  cases rule with
  | keep => simp [Rewrite.edits]
  | await opening closing =>
    obtain ⟨-, -, last, -⟩ := fits
    dsimp only at last
    rw [Rewrite.edits]
    split <;> simp [Operation.Compatible, Operation.Spares, Operation.cuts, Operation.replaced?]
    omega
  | name text use =>
    obtain ⟨nonempty, beside⟩ := fits
    obtain ⟨pairs, spare⟩ := use_pairwise beside
    refine List.pairwise_cons.mpr ⟨fun edit made => ?_, pairs⟩
    refine Operation.Compatible.symm ((spare edit made).compatible ?_)
    exact ⟨le_rfl, nonempty, le_rfl⟩
  | key property use =>
    obtain ⟨part, above, nonempty, under, beside⟩ := fits
    obtain ⟨pairs, spare⟩ := use_pairwise beside
    refine List.pairwise_cons.mpr ⟨?_, List.pairwise_cons.mpr ⟨?_, pairs⟩⟩
    · intro edit made
      rcases List.mem_cons.mp made with rfl | made
      · simp [Operation.Compatible, Operation.Spares, Operation.cuts, Operation.replaced?]
        omega
      · refine Operation.Compatible.symm ((spare edit made).compatible ?_)
        exact ⟨le_rfl, above, by change property.start ≤ node.stop; omega⟩
    · intro edit made
      refine Operation.Compatible.symm ((spare edit made).compatible ?_)
      exact ⟨by change node.start ≤ property.stop; omega, under, le_rfl⟩
  | assignName left right head tail =>
    obtain ⟨leftPart, rightPart, nonempty, ⟨-, wide, -, -⟩, rightNonempty⟩ := fits
    have rightInside := inside _ rightPart
    dsimp only at *
    simp [Rewrite.edits, Operation.Compatible, Operation.Spares, Operation.cuts, Operation.replaced?]
    omega
  | assignKey left property right =>
    obtain ⟨child, -, rightPart, -, above, nonempty, under, ⟨-, wide, -, -⟩, rightNonempty⟩ := fits
    have rightInside := inside _ rightPart
    dsimp only at *
    simp [Rewrite.edits, Operation.Compatible, Operation.Spares, Operation.cuts, Operation.replaced?]
    omega
  | call binding => simp [Rewrite.edits]
  | label => simp [Rewrite.edits]
  | loop number marker labelled particles left right body =>
    exact loopEdits_pairwise fits (inside _ (Node.mem_parts_of_child fits.bodyPart)).2
  | function removed star body opening closing =>
    have bodyInside := inside _ (Node.mem_parts_of_child fits.bodyPart)
    have wide := fits.block.wide
    obtain ⟨first, nonempty, last, -⟩ := fits.owns
    have beforeBody := fits.beforeBody
    cases given : star with
    | none =>
      simp [Rewrite.edits, Operation.Compatible, Operation.Spares, Operation.cuts, Operation.replaced?]
      omega
    | some replaced =>
      obtain ⟨behind, ⟨-, starNonempty, -, -⟩, before⟩ := fits.star replaced given
      simp [Rewrite.edits, Operation.Compatible, Operation.Spares, Operation.cuts, Operation.replaced?]
      omega
  | arrowBlock removed body opening closing =>
    obtain ⟨⟨child, ⟨-, nonempty, -, -⟩, beforeBody⟩, block⟩ := fits
    have wide := block.wide
    simp [Rewrite.edits, Operation.Compatible, Operation.Spares, Operation.cuts, Operation.replaced?]
    omega
  | arrowValue removed arrowStop body opening closing =>
    obtain ⟨⟨child, ⟨-, nonempty, -, -⟩, beforeBody⟩, bodyNonempty, behind, arrow, -⟩ := fits
    simp [Rewrite.edits, Operation.Compatible, Operation.Spares, Operation.cuts, Operation.replaced?]
    omega

omit ordered fit in
/-- Calls are made in a node by its own rule or by the rule for a part, not by both. -/
theorem hosted_or_edits (rule : Rewrite) (node : Node) :
    rule.hosted node = [] ∨ rule.edits node = [] := by
  cases rule <;> simp [Rewrite.hosted, Rewrite.edits]

end Rules

/-! ### The calls in a subtree -/

/-- The calls made in the rewritten nodes below a node stay within the node if they stay within
theirs. -/
theorem below_within {reading : Reading} {node : Node} {place : Place}
    (ordered : reading.tokens.Ordered) (fit : Fit reading node place)
    (inside : ∀ inner ∈ below reading node place, ∀ edit ∈ calls reading inner,
      edit.Within inner.1.start inner.1.stop ∨ edit ∈ (rewrite reading inner.1 inner.2).guests) :
    ∀ edit ∈ (below reading node place).flatMap (calls reading),
      edit.Within node.start node.stop := by
  intro edit made
  obtain ⟨inner, member, here⟩ := List.mem_flatMap.mp made
  obtain ⟨placed, part, -, fits, first, -, last⟩ := inner_of_below ordered fit member
  rcases inside inner member edit here with within | guest
  · obtain ⟨low, high⟩ := fit.nested.2.1 _ (mem_parts_of_places part)
    exact within.mono (low.trans first) (last.trans high)
  · rw [guests_eq_hosted fit member (List.ne_nil_of_mem guest)] at guest
    exact hosted_within ordered fit guest

/-- The calls made in a subtree stay within it, apart from those made for the parent. -/
theorem calls_within {reading : Reading} {node : Node} {place : Place}
    (ordered : reading.tokens.Ordered) (fit : Fit reading node place) :
    ∀ edit ∈ calls reading (node, place),
      edit.Within node.start node.stop ∨ edit ∈ (rewrite reading node place).guests := by
  revert fit
  refine @below_induction reading (fun node place => Fit reading node place →
    ∀ edit ∈ calls reading (node, place),
      edit.Within node.start node.stop ∨ edit ∈ (rewrite reading node place).guests) ?_ node place
  intro node place ih fit edit made
  rw [calls_eq ordered fit] at made
  rcases List.mem_append.mp made with deeper | own
  · refine .inl (below_within ordered fit (fun inner member => ?_) edit deeper)
    obtain ⟨-, -, -, fits, -, -, -⟩ := inner_of_below ordered fit member
    exact ih inner member fits
  · exact edits_within ordered fit own

end Unawait.Lowering
